import Chopstx.Library.Memory

/-!
# The control pipe of the USB drivers

The records of `usb_lld.h` and the functions of the control pipe that the drivers have in
common.  The three drivers differ in how they hand a packet to endpoint 0 and in how they
make it ready for the status packet: this is a `Port`, and a function of the control
pipe is the same function of the port in each of them.

`IN` transactions complete one after another.  `InDone` is one of them, from the token of
the host to the end of the interrupt handler, and `Sends` is a whole data stage.

* `UsbDev`, `CtrlData`, `DeviceReq`, `UsbEvent` - the records.
* `Port`, `ctrlSend`, `handleDatastageIn`, `handleIn0` - the functions over a port.
* `Sends.unique` - there is one way only to go on with a data stage.
* `Port.Related` - two ports that do the same, and with them the functions over a port.
* `LawfulPort` - a port on which a packet that is handed over is queued, and nothing else is.
-/

namespace Chopstx.Usb

/-! ## Memory -/

/-- A byte (`uint8_t`). -/
abbrev Byte := BitVec 8

/-- What a pointer of a driver points to: nothing, the copy of the SETUP packet
(`usb_setup`), the record `dev->dev_req`, or the memory of the application. -/
inductive Region where
  | null
  | usbSetup
  | devReq
  | app
  deriving DecidableEq, Repr

abbrev Mem := Memory Region Byte

/-- `NULL`. -/
def Region.ptr (r : Region) : Ptr Region := ⟨r, 0⟩

/-! ## The records of `usb_lld.h` -/

/-- `USB_MAX_PACKET_SIZE`. -/
def maxPacketSize : Nat := 64

/-- The states of a control pipe (`enum CONTROL_STATE`). -/
inductive ControlState where
  | waitSetup
  | inData
  | outData
  | lastInData
  | waitStatusIn
  | waitStatusOut
  | stalled
  deriving DecidableEq, Repr

/-- A device request (`struct device_req`). -/
structure DeviceReq where
  type : Byte
  request : Byte
  value : BitVec 16
  index : BitVec 16
  len : BitVec 16
  deriving DecidableEq, Repr

/-- The data of a control transfer that is still to be moved (`struct ctrl_data`). -/
structure CtrlData where
  addr : Ptr Region
  len : BitVec 16
  requireZlp : Bool
  deriving DecidableEq, Repr

/-- The first `n` bytes have been moved. -/
def CtrlData.advance (c : CtrlData) (n : Nat) : CtrlData :=
  { c with addr := c.addr.add n, len := c.len - BitVec.ofNat 16 n }

/-- The number of bytes of the next packet, when `len` bytes are left. -/
def packetLen (len : BitVec 16) : Nat :=
  if len.toNat > maxPacketSize then maxPacketSize else len.toNat

/-- The part of `struct usb_dev` that belongs to the control pipe. -/
structure UsbDev where
  state : ControlState
  devReq : DeviceReq
  ctrlData : CtrlData
  deriving DecidableEq, Repr

/-- The events of `usb_lld.h` that the control pipe reports. -/
inductive UsbEvent where
  | ok
  | ctrlRequest
  | ctrlWriteFinish
  | deviceAddressed
  deriving DecidableEq, Repr

/-- `REQUEST_TYPE`. -/
def requestType : Byte := 0x60

/-- `RECIPIENT`. -/
def recipient : Byte := 0x1F

/-- `SET_ADDRESS`. -/
def setAddress : Byte := 5

/-- The request is a standard request `SET_ADDRESS` for the device
(`STANDARD_REQUEST | DEVICE_RECIPIENT` is 0). -/
def DeviceReq.isSetAddress (r : DeviceReq) : Bool :=
  r.request = setAddress ∧ r.type &&& (requestType ||| recipient) = 0

/-- The start of `handle_setup0`: the request is taken and `ctrl_data` is reset. -/
def UsbDev.beginSetup (d : UsbDev) (req : DeviceReq) : UsbDev :=
  { d with devReq := req, ctrlData := ⟨Region.null.ptr, 0, false⟩ }

/-! ## The control pipe over a port -/

/-- How a driver moves the packets of endpoint 0. -/
structure Port (ε : Type) where
  /-- `usb_lld_ctrl_send` hands the first packet over. -/
  sendFirst : Mem → Ptr Region → Nat → ε → ε
  /-- `handle_datastage_in` hands a packet over. -/
  sendNext : Mem → Ptr Region → Nat → ε → ε
  /-- `handle_datastage_in` hands an empty packet over. -/
  sendZlp : ε → ε
  /-- `handle_datastage_in` gets ready to receive the status packet. -/
  recvStatus : ε → ε
  /-- `handle_in0` has seen the status packet of a control write transfer. -/
  statusInDone : UsbDev → ε → ε
  /-- `handle_in0` stalls the endpoint. -/
  stall : ε → ε
  /-- The packet of endpoint 0 that the host gets with its next IN token. -/
  queued : Mem → ControlState → ε → Option (List Byte)
  /-- The host has taken the packet, and the interrupt handler has begun. -/
  inAcked : ε → ε
  /-- The status packet of a control read transfer can be received. -/
  statusReady : ControlState → ε → Bool

section

variable {ε : Type} (P : Port ε) (M : Mem)

/-- `usb_lld_ctrl_send`. -/
def ctrlSend (d : UsbDev) (e : ε) (buf : Ptr Region) (buflen : Nat) : UsbDev × ε :=
  let lenAsked := d.devReq.len
  -- the assignment to `data_p->len` cuts `buflen` to 16 bits
  let len := BitVec.ofNat 16 buflen
  let data : CtrlData :=
    if len ≥ lenAsked then { d.ctrlData with addr := buf, len := lenAsked }
    else if len ≠ 0 ∧ len.toNat % maxPacketSize = 0 then ⟨buf, len, true⟩
    else { d.ctrlData with addr := buf, len := len }
  let n := if data.len.toNat < maxPacketSize then data.len.toNat else maxPacketSize
  let state := if data.len.toNat < maxPacketSize then ControlState.lastInData else .inData
  ({ d with state, ctrlData := data.advance n }, P.sendFirst M data.addr n e)

/-- `handle_datastage_in`. -/
def handleDatastageIn (d : UsbDev) (e : ε) : UsbDev × ε :=
  if d.ctrlData.len = 0 ∧ d.state = .lastInData then
    if d.ctrlData.requireZlp then
      ({ d with ctrlData := { d.ctrlData with requireZlp := false } }, P.sendZlp e)
    else ({ d with state := .waitStatusOut }, P.recvStatus e)
  else
    let state :=
      if d.ctrlData.len.toNat ≤ maxPacketSize then ControlState.lastInData else .inData
    let n := packetLen d.ctrlData.len
    ({ d with state, ctrlData := d.ctrlData.advance n }, P.sendNext M d.ctrlData.addr n e)

/-- `handle_in0`. -/
def handleIn0 (d : UsbDev) (e : ε) : (UsbDev × ε) × UsbEvent :=
  if d.state = .inData ∨ d.state = .lastInData then (handleDatastageIn P M d e, .ok)
  else if d.state = .waitStatusIn then
    (({ d with state := .waitSetup }, P.statusInDone d e),
      if d.devReq.isSetAddress then .deviceAddressed else .ctrlWriteFinish)
  else (({ d with state := .stalled }, P.stall e), .ok)

/-! ## Completions -/

/-- An IN transaction: the host takes the packet `p`, and the interrupt handler runs. -/
inductive InDone : UsbDev × ε → List Byte → UsbDev × ε → Prop
  | mk {d : UsbDev} {e : ε} {p : List Byte} (h : P.queued M d.state e = some p) :
      InDone (d, e) p (handleIn0 P M d (P.inAcked e)).1

/-- The packets of the IN transactions one after another, up to a state in which no packet
is queued. -/
inductive Sends : UsbDev × ε → List (List Byte) → UsbDev × ε → Prop
  | done {x : UsbDev × ε} (h : P.queued M x.1.state x.2 = none) : Sends x [] x
  | step {x y z : UsbDev × ε} {p : List Byte} {ps : List (List Byte)} (h : InDone P M x p y)
      (hs : Sends y ps z) : Sends x (p :: ps) z

variable {P M}

/-- There is one way only to go on. -/
theorem Sends.unique {x y z : UsbDev × ε} {ps qs : List (List Byte)} (h : Sends P M x ps y)
    (h' : Sends P M x qs z) : ps = qs ∧ y = z := by
  induction h generalizing qs z with
  | done hq =>
      cases h' with
      | done _ => exact ⟨rfl, rfl⟩
      | step hp _ =>
          cases hp with
          | mk hp => cases hp.symm.trans hq
  | step hp _ ih =>
      cases h' with
      | done hq =>
          cases hp with
          | mk hp => cases hp.symm.trans hq
      | step hp' hs' =>
          cases hp with
          | mk hp =>
              cases hp' with
              | mk hp' =>
                  cases hp.symm.trans hp'
                  obtain ⟨rfl, rfl⟩ := ih hs'
                  exact ⟨rfl, rfl⟩

end

/-! ## Two ports -/

/-- What the driver does with one port and with another keeps a relation between the endpoints. -/
structure Port.Related {ε ε' : Type} (P : Port ε) (Q : Port ε') (R : ε → ε' → Prop) : Prop where
  sendFirst : ∀ {M p n e e'}, R e e' → R (P.sendFirst M p n e) (Q.sendFirst M p n e')
  sendNext : ∀ {M p n e e'}, R e e' → R (P.sendNext M p n e) (Q.sendNext M p n e')
  sendZlp : ∀ {e e'}, R e e' → R (P.sendZlp e) (Q.sendZlp e')
  recvStatus : ∀ {e e'}, R e e' → R (P.recvStatus e) (Q.recvStatus e')
  statusInDone : ∀ {d e e'}, R e e' → R (P.statusInDone d e) (Q.statusInDone d e')
  stall : ∀ {e e'}, R e e' → R (P.stall e) (Q.stall e')

namespace Port.Related

variable {ε ε' : Type} {P : Port ε} {Q : Port ε'} {R : ε → ε' → Prop} {e : ε} {e' : ε'}

/-- `usb_lld_ctrl_send` -/
theorem ctrlSend (h : Related P Q R) (hR : R e e') (M : Mem) (d : UsbDev) (buf : Ptr Region)
    (buflen : Nat) :
    (Usb.ctrlSend P M d e buf buflen).1 = (Usb.ctrlSend Q M d e' buf buflen).1 ∧
      R (Usb.ctrlSend P M d e buf buflen).2 (Usb.ctrlSend Q M d e' buf buflen).2 :=
  ⟨rfl, h.sendFirst hR⟩

/-- `handle_datastage_in` -/
theorem datastageIn (h : Related P Q R) (hR : R e e') (M : Mem) (d : UsbDev) :
    (Usb.handleDatastageIn P M d e).1 = (Usb.handleDatastageIn Q M d e').1 ∧
      R (Usb.handleDatastageIn P M d e).2 (Usb.handleDatastageIn Q M d e').2 := by
  rw [Usb.handleDatastageIn, Usb.handleDatastageIn]
  split
  · split
    · exact ⟨rfl, h.sendZlp hR⟩
    · exact ⟨rfl, h.recvStatus hR⟩
  · exact ⟨rfl, h.sendNext hR⟩

/-- `handle_in0` -/
theorem in0 (h : Related P Q R) (hR : R e e') (M : Mem) (d : UsbDev) :
    (Usb.handleIn0 P M d e).1.1 = (Usb.handleIn0 Q M d e').1.1 ∧
      R (Usb.handleIn0 P M d e).1.2 (Usb.handleIn0 Q M d e').1.2 := by
  rw [Usb.handleIn0, Usb.handleIn0]
  split
  · exact h.datastageIn hR M d
  · split
    · exact ⟨rfl, h.statusInDone hR⟩
    · exact ⟨rfl, h.stall hR⟩

end Port.Related

/-! ## What a port has to do -/

/-- A port on which a packet that is handed over is queued, and nothing else is. -/
structure LawfulPort (ε : Type) extends Port ε where
  queued_sendFirst : ∀ {M p n st e}, n ≤ maxPacketSize → st = .inData ∨ st = .lastInData →
    queued M st (sendFirst M p n e) = some (M.read p n)
  queued_sendNext : ∀ {M p n st e}, n ≤ maxPacketSize → st = .inData ∨ st = .lastInData →
    queued M st (sendNext M p n e) = some (M.read p n)
  queued_sendZlp : ∀ {M e}, queued M .lastInData (sendZlp e) = some []
  queued_recvStatus : ∀ {M e}, queued M .waitStatusOut (recvStatus (inAcked e)) = none
  statusReady_recvStatus : ∀ {e}, statusReady .waitStatusOut (recvStatus (inAcked e)) = true

end Chopstx.Usb
