import Chopstx.Usb.Mkl27zEndp

/-!
# The control pipe of the MKL27Z between the bus and the application

The controller moves a packet of endpoint 0 where the next descriptor of a direction belongs to
it, writes the control word back, and puts the transaction into the FIFO behind the register
`STAT`.  `usb_lld_event_handler` handles what has been completed, and the application answers
the requests that it reports, as on the STM32F103.

A packet that is longer than its buffer is cut.  The controller is taken to use the descriptor
that the driver has as the next one.

* `armWord`, `doneWord`, `ctrlPort` - the control words, and the control pipe over the table.
* `Pipe` - the driver with the endpoints, the memory, and what has been completed.
* `Pipe.handleSetup0`, `Pipe.handleIn0`, `Pipe.handleOut0`, `Pipe.usbLldEventHandler` - the
  handlers.
* `Happening`, `Pipe.step`, `Pipe.start` - the machine of host, controller, driver and application.
-/

namespace Chopstx.Usb.Mkl27z

/-! ## Control words -/

/-- The byte count: `(ctrl >> 16) & 0x3ff` -/
def BdEntry.bc (b : BdEntry) : Nat := ((b.ctrl >>> 16) &&& 0x3ff).toNat

/-- `TOK_PID (ctrl)` -/
def BdEntry.tokPid (b : BdEntry) : BitVec 32 := (b.ctrl >>> 2) &&& 0x0f

/-- `USB_TOKEN_SETUP`, `USB_TOKEN_IN`, and the token of a packet from the host -/
def usbTokenSetup : BitVec 32 := 0x0d
def usbTokenIn : BitVec 32 := 0x09
def usbTokenOut : BitVec 32 := 0x01

/-- `(len << 16) | 0x0088 | (data01 << 6)`, where `len` is a `uint8_t` -/
def armWord (len : Nat) (data01 : Bool) : BitVec 32 :=
  (BitVec.ofNat 32 (len % 256) <<< 16) ||| 0x0088 ||| (if data01 then bdData01 else 0)

/-- What the controller writes back: the token, the byte count, and the same `DATA01`. -/
def doneWord (ctrl token : BitVec 32) (count : Nat) : BitVec 32 :=
  (BitVec.ofNat 32 count <<< 16) ||| (token <<< 2) ||| (ctrl &&& bdData01)

/-! ## Endpoint 0 -/

namespace Endps

variable (e : Endps)

/-- The next descriptor of a direction of endpoint 0 -/
def nextBd (d : Dir) : BdEntry := e.bd 0 d (e.odd 0 d)

/-- `kl27z_usb_init`: the descriptors, the registers and the bits of the driver are cleared. -/
def kl27zUsbInit : Endps where
  ep _ := 0
  bd _ _ _ := ⟨0, Region.null.ptr⟩
  odd _ _ := false

/-- `kl27z_prepare_ep0_setup` -/
def kl27zPrepareEp0Setup : Endps :=
  (e.setBd 0 .rx (e.odd 0 .rx) ⟨0x00080088, Region.devReq.ptr⟩).setBd 0 .rx (!e.odd 0 .rx)
    ⟨0x0000, Region.null.ptr⟩

/-- `kl27z_prepare_ep0_in` and `kl27z_prepare_ep0_out` -/
def prepareEp0 (d : Dir) (buf : Ptr Region) (len : Nat) (data01 : Bool) : Endps :=
  e.setBd 0 d (e.odd 0 d) ⟨armWord len data01, buf⟩

/-- `kl27z_prepare_ep0_in` -/
def kl27zPrepareEp0In (buf : Ptr Region) (len : Nat) (data01 : Bool) : Endps :=
  e.prepareEp0 .tx buf len data01

/-- `kl27z_prepare_ep0_out` -/
def kl27zPrepareEp0Out (buf : Ptr Region) (len : Nat) (data01 : Bool) : Endps :=
  e.prepareEp0 .rx buf len data01

/-- The controller has moved a packet of endpoint 0. -/
def complete (d : Dir) (token : BitVec 32) (count : Nat) : Endps :=
  e.setCtrl 0 d (e.odd 0 d) (doneWord (e.nextBd d).ctrl token count)

/-- The endpoints of `e'`, but endpoint 0 of `e` -/
def withEp0 (e e' : Endps) : Endps where
  ep n := if n = 0 then e.ep 0 else e'.ep n
  bd n := if n = 0 then e.bd 0 else e'.bd n
  odd n := if n = 0 then e.odd 0 else e'.odd n

end Endps

/-- `DATA1` -/
def ep0Data1 : Bool := true

/-- The control pipe over the table of descriptors, where `odd` is the bit of `STAT` in the
handler of an IN transaction. -/
def ctrlPort (odd : Bool) : Port Endps where
  sendFirst _ p n e := e.kl27zPrepareEp0In p n ep0Data1
  sendNext _ p n e := e.kl27zPrepareEp0In p n (!(e.bd 0 .tx odd).data01)
  sendZlp e := e.kl27zPrepareEp0In Region.devReq.ptr 0 (!(e.bd 0 .tx odd).data01)
  recvStatus e := e.kl27zPrepareEp0Out Region.devReq.ptr 0 ep0Data1
  statusInDone d e :=
    let e := if d.devReq.isSetAddress then
        { e with odd := Function.update e.odd 0 (Function.update (e.odd 0) .rx false) }
      else e
    e.kl27zPrepareEp0Setup
  stall e := e.kl27zEpStall 0
  queued M _ e :=
    if (e.nextBd .tx).own then some (M.read (e.nextBd .tx).buf (e.nextBd .tx).bc) else none
  inAcked e := (e.complete .tx usbTokenIn (e.nextBd .tx).bc).handleTransaction 0 .tx
  statusReady _ e := (e.nextBd .rx).own && (e.nextBd .rx).data01

/-! ## The machine -/

/-- What the application still has to do: nothing, to answer a request, or to follow a reset
of the bus. -/
inductive Pending where
  | nothing
  | answer
  | reset
  deriving DecidableEq, Repr

/-- The control pipe: the records of the driver with the endpoints, the device address, the
memory, the FIFO of `STAT` for endpoint 0, the suspension after a SETUP packet
(`TXSUSPENDTOKENBUSY`), the other bits of `ISTAT`, and what the application has to do. -/
structure Pipe where
  dev : UsbDev
  std : StdDev Endps
  daddr : Byte
  mem : Mem
  stat : List (Dir × Bool)
  suspended : Bool
  isUsbrst : Bool
  isError : Bool
  isStall : Bool
  pending : Pending

namespace Pipe

variable (s : Pipe)

def eps : Endps := s.std.eps

def setEps (e : Endps) : Pipe := { s with std := { s.std with eps := e } }

/-! ### The calls of the application -/

/-- `usb_lld_ctrl_send` -/
def usbLldCtrlSend (buf : Ptr Region) (buflen : Nat) : Pipe :=
  let r := ctrlSend (ctrlPort false) s.mem s.dev s.eps buf buflen
  { s.setEps r.2 with dev := r.1 }

/-- `usb_lld_ctrl_recv` -/
def usbLldCtrlRecv (p : Ptr Region) (len : Nat) : Pipe :=
  let n := if len > maxPacketSize then maxPacketSize else len
  { s.setEps (s.eps.kl27zPrepareEp0Out p n ep0Data1) with
    dev := { s.dev with
      ctrlData := { s.dev.ctrlData with addr := p, len := BitVec.ofNat 16 len }
      state := .outData } }

/-- `usb_lld_ctrl_ack` -/
def usbLldCtrlAck : Pipe :=
  { s.setEps (s.eps.kl27zPrepareEp0In Region.devReq.ptr 0 ep0Data1) with
    dev := { s.dev with state := .waitStatusIn } }

/-- `usb_lld_ctrl_error` -/
def usbLldCtrlError : Pipe :=
  { s.setEps (s.eps.kl27zEpStall 0) with dev := { s.dev with state := .stalled } }

/-! ### The handlers -/

/-- `handle_datastage_out` -/
def handleDatastageOut (odd : Bool) : Pipe :=
  let b := s.eps.bd 0 .rx odd
  let c := s.dev.ctrlData.advance b.bc
  if c.len = 0 then
    { s.setEps (s.eps.kl27zPrepareEp0In Region.devReq.ptr 0 ep0Data1) with
      dev := { s.dev with ctrlData := c, state := .waitStatusIn } }
  else
    { s.setEps (s.eps.kl27zPrepareEp0Out c.addr (packetLen c.len) (!b.data01)) with
      dev := { s.dev with ctrlData := c, state := .outData } }

/-- `handle_out0` -/
def handleOut0 (odd : Bool) : Pipe :=
  if s.dev.state = .outData then s.handleDatastageOut odd
  else if s.dev.state = .waitStatusOut then
    { s.setEps s.eps.kl27zPrepareEp0Setup with dev := { s.dev with state := .waitSetup } }
  else s.usbLldCtrlError

/-- `handle_in0` -/
def handleIn0 (odd : Bool) : Pipe :=
  let r := (Usb.handleIn0 (ctrlPort odd) s.mem s.dev s.eps).1
  { s.setEps r.2 with
    dev := r.1
    daddr :=
      if s.dev.state = .waitStatusIn ∧ s.dev.devReq.isSetAddress then s.dev.devReq.value.setWidth 8
      else s.daddr }

/-- `handle_setup0`.  What a standard request sends are variables of the driver, which stand in
a region of their own. -/
def handleSetup0 : Pipe :=
  let r := setupRequest stdPort s.std s.dev.devReq
  let s : Pipe := { s with dev := s.dev.beginSetup s.dev.devReq, std := r.2 }
  match r.1 with
  | .fail => s.usbLldCtrlError
  | .send data =>
      { s with mem := s.mem.write Region.usbSetup.ptr data }.usbLldCtrlSend Region.usbSetup.ptr
        data.length
  | .ack => s.usbLldCtrlAck
  | .report _ => { s with pending := .answer }

/-- `handle_transaction` for endpoint 0; the write to `CTL` after a SETUP packet lets the
controller go on. -/
def handleTransaction (d : Dir) (odd : Bool) : Pipe :=
  let s := s.setEps (s.eps.handleTransaction 0 d)
  match d with
  | .rx =>
      if (s.eps.bd 0 .rx odd).tokPid = usbTokenSetup then
        { s.handleSetup0 with suspended := false }
      else s.handleOut0 odd
  | .tx => s.handleIn0 odd

/-- `usb_lld_event_handler`, as far as endpoint 0 is concerned -/
def usbLldEventHandler : Pipe :=
  if s.isUsbrst then { s with isUsbrst := false, pending := .reset }
  else
    match s.stat with
    | (d, odd) :: rest => { s with stat := rest }.handleTransaction d odd
    | [] =>
        if s.isError then { s with isError := false }
        else if s.isStall then
          let s :=
            if s.eps.kl27zEpIsStall 0 then
              { s.setEps (s.eps.kl27zEpClearStall 0).kl27zPrepareEp0Setup with
                dev := { s.dev with state := .waitSetup } }
            else s
          { s with isStall := false }
        else s

/-- What the application does after a reset: `usb_lld_reset`, which clears what has been
completed, and `usb_lld_setup_endp` for endpoint 0 -/
def followReset (feature : Byte) : Pipe where
  dev := { s.dev with state := .waitSetup }
  std := { s.std with
    configuration := 0
    feature := feature
    eps := (Endps.kl27zUsbInit.setEp 0 0x0d).kl27zPrepareEp0Setup }
  daddr := 0
  mem := s.mem
  stat := []
  suspended := false
  isUsbrst := false
  isError := false
  isStall := false
  pending := .nothing

/-! ### The controller -/

/-- The controller answers a token for endpoint 0, other than SETUP, with data and not with
STALL. -/
def moves (d : Dir) : Bool :=
  !s.suspended && (s.eps.nextBd d).own && !s.eps.kl27zEpIsStall 0

/-- The transaction is completed. -/
def complete (d : Dir) (token : BitVec 32) (count : Nat) : Pipe :=
  { s.setEps (s.eps.complete d token count) with stat := s.stat ++ [(d, s.eps.odd 0 d)] }

/-- The bytes of a packet from the host, as far as the buffer has room -/
def cut (bs : List Byte) : List Byte := bs.take (s.eps.nextBd .rx).bc

/-- They are written into the buffer. -/
def store (bs : List Byte) : Mem := s.mem.write (s.eps.nextBd .rx).buf (s.cut bs)

end Pipe

/-- A request as the bytes of its packet -/
def DeviceReq.bytes (r : DeviceReq) : List Byte :=
  [r.type, r.request, r.value.setWidth 8, (r.value >>> 8).setWidth 8, r.index.setWidth 8,
    (r.index >>> 8).setWidth 8, r.len.setWidth 8, (r.len >>> 8).setWidth 8]

/-- The answer to a request: `usb_lld_ctrl_send`, `usb_lld_ctrl_recv`, `usb_lld_ctrl_ack` or
`usb_lld_ctrl_error`. -/
inductive Answer where
  | send (buf : Ptr Region) (buflen : Nat)
  | recv (p : Ptr Region) (len : Nat)
  | ack
  | error
  deriving DecidableEq, Repr

/-- What can happen. -/
inductive Happening where
  /-- The host sends a SETUP packet. -/
  | setup (req : DeviceReq)
  /-- The host takes a packet. -/
  | inDone
  /-- The host sends a data packet. -/
  | outDone (bs : List Byte)
  /-- A token is answered with STALL. -/
  | stallSent
  /-- An error on the bus -/
  | busError
  /-- A reset of the bus -/
  | busReset
  /-- The thread of the application calls `usb_lld_event_handler`. -/
  | handle
  /-- It answers a request. -/
  | answer (r : Answer)
  /-- It follows a reset. -/
  | followReset
  /-- The data endpoints, or the rest of the record of the device, change. -/
  | other (std : StdDev Endps)

/-- One step of the control pipe.  The buffer of the descriptor that is made for a SETUP packet is
`dev->dev_req`. -/
def Pipe.step (feature : Byte) (s : Pipe) : Happening → Except Unit Pipe
  | .setup req =>
      if !s.suspended && (s.eps.nextBd .rx).own then
        let b := s.eps.nextBd .rx
        let devReq := if b.buf = Region.devReq.ptr ∧ 8 ≤ b.bc then req else s.dev.devReq
        .ok { s.complete .rx usbTokenSetup (s.cut (DeviceReq.bytes req)).length with
          dev := { s.dev with devReq }
          mem := s.store (DeviceReq.bytes req)
          suspended := true }
      else .error ()
  | .inDone =>
      if s.moves .tx then .ok (s.complete .tx usbTokenIn (s.eps.nextBd .tx).bc) else .error ()
  | .outDone bs =>
      if s.moves .rx then
        .ok { s.complete .rx usbTokenOut (s.cut bs).length with mem := s.store bs }
      else .error ()
  | .stallSent => .ok { s with isStall := true }
  | .busError => .ok { s with isError := true }
  | .busReset => .ok { s with isUsbrst := true }
  | .handle => if s.pending = .nothing then .ok s.usbLldEventHandler else .error ()
  | .answer r =>
      if s.pending = .answer then
        let s : Pipe := { s with pending := .nothing }
        .ok <| match r with
          | .send buf buflen => s.usbLldCtrlSend buf buflen
          | .recv p len => s.usbLldCtrlRecv p len
          | .ack => s.usbLldCtrlAck
          | .error => s.usbLldCtrlError
      else .error ()
  | .followReset => if s.pending = .reset then .ok (s.followReset feature) else .error ()
  | .other std => .ok { s with std := { std with eps := s.eps.withEp0 std.eps } }

/-- `usb_lld_init`, and the reset of the bus that follows when the host finds the device -/
def Pipe.start (feature : Byte) (mem : Mem) : Pipe :=
  Pipe.followReset
    { dev := ⟨.waitSetup, ⟨0, 0, 0, 0, 0⟩, ⟨Region.null.ptr, 0, false⟩⟩
      std := ⟨0, feature, 0, Endps.kl27zUsbInit⟩
      daddr := 0
      mem := mem
      stat := []
      suspended := false
      isUsbrst := false
      isError := false
      isStall := false
      pending := .nothing } feature

end Chopstx.Usb.Mkl27z
