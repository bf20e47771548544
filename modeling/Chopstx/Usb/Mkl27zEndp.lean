import Chopstx.Usb.StdReq
import Chopstx.Library.Transition

/-!
# The data endpoints of the MKL27Z

Each direction of an endpoint has two buffer descriptors, which the controller uses in turn.
The driver keeps in `rx_odd` and `tx_odd` which one is next, and derives the data toggle of
the next packet from the descriptor that was used before.  A byte for each endpoint says
which directions are enabled and whether the endpoint is stalled.

* `BdEntry`, `Endps` - the table of descriptors, the registers, and the bits of the driver.
* `kl27zEpStall`, `kl27zEpClearStall`, `kl27zEpClearDtog` - the stall bit and the data toggle.
* `usbLldSetupEndp`, `enableBuf`, `handleTransaction` - an endpoint is set up, gets a buffer, and
  has had its transaction.
* `stdPort` - the endpoints for the standard requests.
* `Bus`, `Bus.step` - the endpoints between the controller and the driver, with a log of the data
  toggles of the packets and of the requests that clear them.
-/

namespace Chopstx.Usb.Mkl27z

/-- A direction of an endpoint. -/
inductive Dir where
  | rx
  | tx
  deriving DecidableEq, Repr

/-- An entry of the table of buffer descriptors (`struct BD`). -/
structure BdEntry where
  ctrl : BitVec 32
  buf : Ptr Region
  deriving DecidableEq, Repr

/-- The bits `OWN` and `DATA01` of a control word. -/
def bdOwn : BitVec 32 := 0x80
def bdData01 : BitVec 32 := 0x40

/-- The entry belongs to the controller. -/
def BdEntry.own (b : BdEntry) : Bool := b.ctrl &&& bdOwn ≠ 0

/-- `(ctrl >> 6) & 1` -/
def BdEntry.data01 (b : BdEntry) : Bool := b.ctrl &&& bdData01 ≠ 0

/-- The endpoints: the registers `USB_ENDPT[n].EP`, the descriptors, where
`bd n d odd` is `BD_table[4*n + odd]` or `BD_table[4*n + 2 + odd]`, and `rx_odd` or `tx_odd`. -/
structure Endps where
  ep : Nat → Byte
  bd : Nat → Dir → Bool → BdEntry
  odd : Nat → Dir → Bool

namespace Endps

variable (e : Endps) (n : Nat) (d : Dir)

/-- A write to the descriptor. -/
def setBd (odd : Bool) (b : BdEntry) : Endps :=
  { e with bd := Function.update e.bd n (Function.update (e.bd n) d
      (Function.update (e.bd n d) odd b)) }

/-- A write to the control word of the descriptor. -/
def setCtrl (odd : Bool) (ctrl : BitVec 32) : Endps :=
  e.setBd n d odd { e.bd n d odd with ctrl }

/-- A write to the register of the endpoint. -/
def setEp (v : Byte) : Endps := { e with ep := Function.update e.ep n v }

/-- `kl27z_ep_is_disabled` -/
def kl27zEpIsDisabled : Bool := e.ep n = 0

/-- `kl27z_ep_is_stall` -/
def kl27zEpIsStall : Bool := e.ep n &&& 0x02 ≠ 0

/-- `kl27z_ep_stall` -/
def kl27zEpStall : Endps := e.setEp n (e.ep n ||| 0x02)

/-- `kl27z_ep_clear_stall` -/
def kl27zEpClearStall : Endps := e.setEp n (e.ep n &&& ~~~0x02)

/-- One direction in `kl27z_ep_clear_dtog`: the bit `DATA01` is cleared in the descriptor that
is not next, and in the next one where that belongs to the controller. -/
def clearData01 : Endps :=
  let odd := e.odd n d
  let config := (e.bd n d odd).ctrl
  let e := e.setCtrl n d (!odd) ((e.bd n d !odd).ctrl &&& ~~~bdData01)
  if config &&& bdOwn ≠ 0 then (e.setCtrl n d odd 0).setCtrl n d odd (config &&& ~~~bdData01)
  else e

/-- `kl27z_ep_clear_dtog` -/
def kl27zEpClearDtog : Endps :=
  let e := if e.kl27zEpIsStall n then e else e.kl27zEpStall n
  (e.clearData01 n d).kl27zEpClearStall n

/-- `usb_lld_stall` -/
def usbLldStall : Endps := e.kl27zEpStall n

/-- One direction in `usb_lld_setup_endp` -/
def startData0 : Endps :=
  (e.setBd n d (e.odd n d) ⟨0x0000, Region.null.ptr⟩).setBd n d (!e.odd n d)
    ⟨0x0040, Region.null.ptr⟩

/-- `usb_lld_setup_endp` for a data endpoint -/
def usbLldSetupEndp (rxEn txEn : Bool) : Endps :=
  ((e.setEp n ((if rxEn then 0x08 else 0) ||| (if txEn then 0x04 else 0) ||| 0x11)).startData0 n
    .rx).startData0 n .tx

/-- `usb_lld_rx_enable_buf` and `usb_lld_tx_enable_buf` -/
def enableBuf (buf : Ptr Region) (len : Nat) : Endps :=
  let data01 := !(e.bd n d !e.odd n d).data01
  e.setBd n d (e.odd n d)
    ⟨(BitVec.ofNat 32 len <<< 16) ||| 0x0088 ||| (if data01 then bdData01 else 0), buf⟩

/-- `usb_lld_rx_enable_buf` -/
def usbLldRxEnableBuf (buf : Ptr Region) (len : Nat) : Endps := e.enableBuf n .rx buf len

/-- `usb_lld_tx_enable_buf` -/
def usbLldTxEnableBuf (buf : Ptr Region) (len : Nat) : Endps := e.enableBuf n .tx buf len

/-- What `handle_transaction` does for a data endpoint -/
def handleTransaction : Endps :=
  { e with odd := Function.update e.odd n (Function.update (e.odd n) d (!e.odd n d)) }

end Endps

/-- The endpoint that a request addresses, as `(arg->index & 0x80)` says it. -/
def Dir.ofIn (isIn : Bool) : Dir := if isIn then .tx else .rx

/-- The endpoints for the standard requests; `status_info` is a static variable that the
request for an endpoint assigns. -/
def stdPort : StdPort Endps where
  status₀ s := s
  disabled _ n e := e.kl27zEpIsDisabled n
  halted _ n e := e.kl27zEpIsStall n
  epStatus halted _ := if halted then 1 else 0
  clearHalt isIn n e := e.kl27zEpClearDtog n (.ofIn isIn)
  setHalt _ n e := e.kl27zEpStall n

/-- `std_get_status` -/
def stdGetStatus (d : StdDev Endps) (arg : DeviceReq) : Outcome × StdDev Endps :=
  Usb.stdGetStatus stdPort d arg

/-- `std_clear_feature` -/
def stdClearFeature (d : StdDev Endps) (arg : DeviceReq) : Outcome × StdDev Endps :=
  Usb.stdClearFeature stdPort d arg

/-- `std_set_feature` -/
def stdSetFeature (d : StdDev Endps) (arg : DeviceReq) : Outcome × StdDev Endps :=
  Usb.stdSetFeature stdPort d arg

/-! ## The endpoints between the controller and the driver -/

/-- What the log of a run keeps: the data toggle of a packet of an endpoint and a direction,
and the `CLEAR_FEATURE (ENDPOINT_HALT)` requests for it that were accepted. -/
inductive Toggled where
  | packet (n : Nat) (d : Dir) (data1 : Bool)
  | cleared (n : Nat) (d : Dir)
  deriving DecidableEq, Repr

/-- The device with its endpoints, the descriptors that the controller uses next, the
completed transactions that are not handled, and the log. -/
structure Bus where
  std : StdDev Endps
  next : Nat → Dir → Bool
  unhandled : Nat → Dir → Bool
  log : List Toggled

/-- What can happen. -/
inductive BusEvent where
  /-- The application gives a buffer to the endpoint. -/
  | arm (n : Nat) (d : Dir) (buf : Ptr Region) (len : Nat)
  /-- The controller has moved a packet, and writes the control word back. -/
  | complete (n : Nat) (d : Dir) (ctrl : BitVec 32)
  /-- `handle_transaction` for it -/
  | handle (n : Nat) (d : Dir)
  /-- A standard request, which `handle_setup0` handles -/
  | request (arg : DeviceReq)
  deriving DecidableEq, Repr

/-- The request is accepted as a `CLEAR_FEATURE (ENDPOINT_HALT)`. -/
def clears (d : StdDev Endps) (arg : DeviceReq) : Bool :=
  (setupRequest stdPort d arg).1 = .report .clearFeatureEndpoint

/-- One step.  A buffer is given where none is; the controller clears `OWN`, keeps `DATA01` and
goes on to the other descriptor; as it reports the transactions in order and moves nothing
while a SETUP packet is not handled, a request finds those of its endpoint handled. -/
def Bus.step (s : Bus) : BusEvent → Except Unit Bus
  | .arm n d buf len =>
      if (s.std.eps.bd n d (s.std.eps.odd n d)).own = false ∧ s.unhandled n d = false then
        .ok { s with std := { s.std with eps := s.std.eps.enableBuf n d buf len } }
      else .error ()
  | .complete n d ctrl =>
      let b := s.std.eps.bd n d (s.next n d)
      if b.own ∧ ctrl &&& bdOwn = 0 ∧ ctrl &&& bdData01 = b.ctrl &&& bdData01 then
        .ok { s with
          std := { s.std with eps := s.std.eps.setCtrl n d (s.next n d) ctrl }
          next := Function.update s.next n (Function.update (s.next n) d (!s.next n d))
          unhandled := Function.update s.unhandled n (Function.update (s.unhandled n) d true)
          log := s.log ++ [.packet n d b.data01] }
      else .error ()
  | .handle n d =>
      if s.unhandled n d then
        .ok { s with
          std := { s.std with eps := s.std.eps.handleTransaction n d }
          unhandled := Function.update s.unhandled n (Function.update (s.unhandled n) d false) }
      else .error ()
  | .request arg =>
      if s.unhandled arg.endpoint (.ofIn arg.isIn) then .error ()
      else
        .ok { s with
          std := (setupRequest stdPort s.std arg).2
          log := s.log ++
            if clears s.std arg then [.cleared arg.endpoint (.ofIn arg.isIn)] else [] }

/-- The endpoint `n` has just been set up; the driver and the controller agree on the
descriptors that are next, and nothing is unhandled. -/
def Bus.start (std : StdDev Endps) (n : Nat) (rxEn txEn : Bool) : Bus where
  std := { std with eps := std.eps.usbLldSetupEndp n rxEn txEn }
  next := std.eps.odd
  unhandled := fun _ _ => false
  log := []

end Chopstx.Usb.Mkl27z
