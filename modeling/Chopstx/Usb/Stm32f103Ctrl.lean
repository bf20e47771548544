import Chopstx.Usb.EpReg
import Chopstx.Usb.StdReq

/-!
# The control pipe of the STM32F103 between the bus and the application

The bus moves the packets of endpoint 0 where the register allows it, `usb_lld_event_handler`
handles what has been completed, and the application answers the requests that it reports.
One thread of the application calls the handler and answers, so that it handles nothing
between a request and its answer; the bus does not wait for either.

* `Board`, `Pipe` - the registers of the endpoints with the packet memory, and the driver with what
  the application has to do.
* `Pipe.usbLldCtrlSend`, `Pipe.usbLldCtrlRecv`, `Pipe.usbLldCtrlAck`, `Pipe.usbLldCtrlError` - the
  calls of the application.
* `Pipe.handleSetup0`, `Pipe.handleIn0`, `Pipe.handleOut0`, `Pipe.usbHandleTransfer`,
  `Pipe.usbLldEventHandler` - the handlers.
* `setupTransaction`, `outTransaction`, `resetRegister` - what the bus does to a register.
* `Happening`, `Pipe.step`, `Pipe.start` - the machine.
-/

namespace Chopstx.Usb.Stm32f103

/-! ## The endpoints as the standard requests see them -/

/-- The registers of the data endpoints for the standard requests; `status_info` is a local
variable. -/
def stdPort : StdPort (Nat → BitVec 16) where
  status₀ _ := 0
  disabled isIn n r :=
    if isIn then st103EpGetTxStatus (r n) = 0 else st103EpGetRxStatus (r n) = 0
  halted isIn n r :=
    if isIn then st103EpGetTxStatus (r n) = epTxStall else st103EpGetRxStatus (r n) = epRxStall
  epStatus halted s := if halted then s ||| 1 else s
  clearHalt isIn n r :=
    Function.update r n ((EpOp.clearDtog (if isIn then .tx else .rx)).apply (r n))
  setHalt isIn n r :=
    Function.update r n
      (if isIn then st103EpSetTxStatus (r n) epTxStall else st103EpSetRxStatus (r n) epRxStall)

/-- `std_get_status` -/
def stdGetStatus (d : StdDev (Nat → BitVec 16)) (arg : DeviceReq) :
    Outcome × StdDev (Nat → BitVec 16) :=
  Usb.stdGetStatus stdPort d arg

/-- `std_clear_feature` -/
def stdClearFeature (d : StdDev (Nat → BitVec 16)) (arg : DeviceReq) :
    Outcome × StdDev (Nat → BitVec 16) :=
  Usb.stdClearFeature stdPort d arg

/-- `std_set_feature` -/
def stdSetFeature (d : StdDev (Nat → BitVec 16)) (arg : DeviceReq) :
    Outcome × StdDev (Nat → BitVec 16) :=
  Usb.stdSetFeature stdPort d arg

/-! ## The packet memory, read -/

/-- The loop of `usb_lld_from_pmabuf` over whole words, and the byte that may be left. -/
def fromPmaWords (pma : Pma) : Nat → Nat → List Byte
  | n + 2, w => (pma w).setWidth 8 :: (pma w >>> 8).setWidth 8 :: fromPmaWords pma n (w + 1)
  | 1, w => [(pma w).setWidth 8]
  | 0, _ => []

/-- `usb_lld_from_pmabuf` -/
def usbLldFromPmabuf (pma : Pma) (addr n : Nat) : List Byte :=
  if n = 0 then []
  else if addr % 2 = 1 then
    (pma (addr / 2) >>> 8).setWidth 8 :: fromPmaWords pma (n - 1) (addr / 2 + 1)
  else fromPmaWords pma n (addr / 2)

/-- The request in the receive buffer, as `handle_setup0` reads it word by word. -/
def readSetup (pma : Pma) (addr : Nat) : DeviceReq where
  type := (pma (addr / 2)).setWidth 8
  request := (pma (addr / 2) >>> 8).setWidth 8
  value := pma (addr / 2 + 1)
  index := pma (addr / 2 + 2)
  len := pma (addr / 2 + 3)

/-! ## What the hardware does with the register of endpoint 0 -/

/-- A SETUP packet has been received: both directions answer with NAK. -/
def setupTransaction (r : BitVec 16) : BitVec 16 :=
  (r &&& ~~~(eprxStat ||| eptxStat)) ||| epRxNak ||| epTxNak ||| epCtrRx ||| epSetup

/-- A data packet has been received.  `EP_SETUP` is cleared, or is frozen as `CTR_RX` was set. -/
def outTransaction (frozen : Bool) (r : BitVec 16) : BitVec 16 :=
  (((r &&& ~~~(eprxStat ||| epSetup)) ||| epRxNak ||| epCtrRx) ^^^ Dir.rx.dtog) |||
    (if frozen then r &&& epSetup else 0)

/-- A reset of the bus keeps `CTR_RX` and `CTR_TX` only. -/
def resetRegister (r : BitVec 16) : BitVec 16 := r &&& (epCtrRx ||| epCtrTx)

/-- What `usb_lld_setup_endpoint` writes to the register that it has read as `r`. -/
def setupEndpointValue (epNum : Nat) (epType epKind : BitVec 16) (epRxAddr epTxAddr : Nat)
    (r : BitVec 16) : BitVec 16 :=
  let status := (if epRxAddr ≠ 0 then epRxNak else 0) ||| (if epTxAddr ≠ 0 then epTxNak else 0)
  ((r &&& (eprxStat ||| epSetup ||| eptxStat ||| Dir.rx.dtog ||| Dir.tx.dtog)) ||| epType ||| epKind
    ||| BitVec.ofNat 16 epNum) ^^^ (eprxStat &&& status) ^^^ (eptxStat &&& status)

/-! ## The machine -/

/-- What the application gives at a reset of the bus: its features and the addresses of the
buffers of endpoint 0. -/
structure Board where
  feature : Byte
  rxAddr : Nat
  txAddr : Nat
  rx_ne : rxAddr ≠ 0
  tx_ne : txAddr ≠ 0

/-- What the application still has to do: nothing, to answer a request, or to follow a reset
of the bus. -/
inductive Pending where
  | nothing
  | answer
  | reset
  deriving DecidableEq, Repr

/-- The control pipe: the records of the driver, endpoint 0 with its receive buffer, the
memory, the bit `ISTR_RESET`, and what the application has to do. -/
structure Pipe where
  dev : UsbDev
  std : StdDev (Nat → BitVec 16)
  ep0 : Endp0
  rxAddr : Nat
  rxCount : Nat
  mem : Mem
  istrReset : Bool
  pending : Pending

namespace Pipe

variable (s : Pipe)

/-- The register of endpoint 0. -/
def reg : BitVec 16 := s.ep0.epreg

def setReg (r : BitVec 16) : Pipe := { s with ep0 := { s.ep0 with epreg := r } }

def setState (st : ControlState) : Pipe := { s with dev := { s.dev with state := st } }

/-! ### The calls of the application -/

/-- `usb_lld_ctrl_send` of what stands in the memory `M` -/
def usbLldCtrlSend (M : Mem) (buf : Ptr Region) (buflen : Nat) : Pipe :=
  let r := Stm32f103.usbLldCtrlSend M s.dev s.ep0 buf buflen
  { s with dev := r.1, ep0 := r.2 }

/-- `usb_lld_ctrl_recv` -/
def usbLldCtrlRecv (p : Ptr Region) (len : Nat) : Pipe :=
  { s with
    dev := { s.dev with
      ctrlData := { s.dev.ctrlData with addr := p, len := BitVec.ofNat 16 len }
      state := .outData }
    ep0 := s.ep0.setRxStatus epRxValid }

/-- `usb_lld_ctrl_ack` -/
def usbLldCtrlAck : Pipe :=
  { s with
    dev := { s.dev with state := .waitStatusIn }
    ep0 := { s.ep0 with txCount := 0 }.setRxtxStatus epRxNak epTxValid }

/-- `usb_lld_ctrl_error` -/
def usbLldCtrlError : Pipe :=
  { s with
    dev := { s.dev with state := .stalled }
    ep0 := s.ep0.setRxtxStatus epRxStall epTxStall }

/-! ### The handlers -/

/-- The first half of `handle_datastage_out`: what has been received is copied, as far as there
is room. -/
def takePacket : Pipe :=
  let c := s.dev.ctrlData
  let n := if s.rxCount > c.len.toNat then c.len.toNat else s.rxCount
  if c.addr ≠ Region.null.ptr ∧ c.len ≠ 0 then
    { s with
      mem := s.mem.write c.addr (usbLldFromPmabuf s.ep0.pma s.rxAddr n)
      dev := { s.dev with ctrlData := c.advance n } }
  else s

/-- `handle_datastage_out` -/
def handleDatastageOut : Pipe :=
  let s := s.takePacket
  if s.dev.ctrlData.len = 0 then
    { s with
      dev := { s.dev with state := .waitStatusIn }
      ep0 := { s.ep0 with txCount := 0 }.setTxStatus epTxValid }
  else
    { s with
      dev := { s.dev with state := .outData }
      ep0 := s.ep0.setRxStatus epRxValid }

/-- `handle_in0` -/
def handleIn0 : Pipe :=
  let r := (Stm32f103.handleIn0 s.mem s.dev s.ep0).1
  { s with dev := r.1, ep0 := r.2 }

/-- `handle_out0` -/
def handleOut0 : Pipe :=
  if s.dev.state = .outData then s.handleDatastageOut
  else if s.dev.state = .waitStatusOut then s.setState .waitSetup
  else
    { s with
      dev := { s.dev with state := .stalled }
      ep0 := s.ep0.setRxtxStatus epRxStall epTxStall }

/-- A memory in which the bytes that a standard request sends stand at the start of each
region. -/
def replyMem (data : List Byte) : Mem := fun _ i => data.getD i 0

/-- `handle_setup0` -/
def handleSetup0 : Pipe :=
  let arg := readSetup s.ep0.pma s.rxAddr
  let r := setupRequest stdPort s.std arg
  let s : Pipe := { s with dev := s.dev.beginSetup arg, std := r.2 }
  match r.1 with
  | .fail => s.usbLldCtrlError
  | .send data => s.usbLldCtrlSend (replyMem data) Region.app.ptr data.length
  | .ack => s.usbLldCtrlAck
  | .report _ => { s with pending := .answer }

/-- `usb_handle_transfer` for endpoint 0 -/
def usbHandleTransfer : Pipe :=
  let epValue := s.reg
  if hasCtr .tx epValue then
    (s.setReg (st103SetEpreg s.reg (clearCtrValue .tx s.reg))).handleIn0
  else if hasCtr .rx epValue then
    let s' := s.setReg (st103SetEpreg s.reg (clearCtrValue .rx s.reg))
    if epValue &&& epSetup ≠ 0 then s'.handleSetup0 else s'.handleOut0
  else s

/-- `usb_lld_event_handler`, for a reset of the bus and for endpoint 0 -/
def usbLldEventHandler : Pipe :=
  if s.istrReset then { s with istrReset := false, pending := .reset } else s.usbHandleTransfer

/-- What the application does after a reset: `usb_lld_reset`, and `usb_lld_setup_endpoint` for
endpoint 0 -/
def followReset (B : Board) : Pipe :=
  { s with
    std := { s.std with configuration := 0, feature := B.feature }
    ep0 := { s.ep0 with
      daddr := 0
      epreg := st103SetEpreg s.reg (setupEndpointValue 0 0x0200 0 B.rxAddr B.txAddr s.reg)
      txAddr := B.txAddr }
    rxAddr := B.rxAddr
    pending := .nothing }

end Pipe

/-- The answer to a request: `usb_lld_ctrl_send`, `usb_lld_ctrl_recv`, `usb_lld_ctrl_ack` or
`usb_lld_ctrl_error`. -/
inductive Answer where
  | send (buf : Ptr Region) (buflen : Nat)
  | recv (p : Ptr Region) (len : Nat)
  | ack
  | error
  deriving DecidableEq, Repr

/-- What can happen. -/
inductive Happening where
  /-- The bus: a SETUP packet, which changes the packet memory -/
  | setup (pma : Pma)
  /-- The packet in the transmit buffer has been taken. -/
  | inDone
  /-- A packet of `count` bytes has been received. -/
  | outDone (pma : Pma) (count : Nat) (frozen : Bool)
  /-- A reset of the bus -/
  | busReset
  /-- The thread of the application calls `usb_lld_event_handler`. -/
  | handle
  /-- It answers a request. -/
  | answer (r : Answer)
  /-- It follows a reset. -/
  | followReset
  /-- It changes its memory, or the rest of the record of the device changes. -/
  | other (mem : Mem) (std : StdDev (Nat → BitVec 16))

/-- One step of the control pipe.  A packet is moved only where the register says VALID. -/
def Pipe.step (B : Board) (s : Pipe) : Happening → Except Unit Pipe
  | .setup pma => .ok { s with ep0 := { s.ep0 with epreg := setupTransaction s.reg, pma } }
  | .inDone =>
      if st103EpGetTxStatus s.reg = epTxValid then .ok (s.setReg (inTransaction s.reg))
      else .error ()
  | .outDone pma count frozen =>
      if st103EpGetRxStatus s.reg = epRxValid then
        .ok { s with
          ep0 := { s.ep0 with epreg := outTransaction frozen s.reg, pma }
          rxCount := count }
      else .error ()
  | .busReset => .ok { s.setReg (resetRegister s.reg) with istrReset := true }
  | .handle => if s.pending = .nothing then .ok s.usbLldEventHandler else .error ()
  | .answer r =>
      if s.pending = .answer then
        let s : Pipe := { s with pending := .nothing }
        .ok <| match r with
          | .send buf buflen => s.usbLldCtrlSend s.mem buf buflen
          | .recv p len => s.usbLldCtrlRecv p len
          | .ack => s.usbLldCtrlAck
          | .error => s.usbLldCtrlError
      else .error ()
  | .followReset => if s.pending = .reset then .ok (s.followReset B) else .error ()
  | .other mem std => .ok { s with mem, std }

/-- `usb_lld_init`, with the register of endpoint 0 as a reset leaves it -/
def Pipe.start (B : Board) (pma : Pma) (mem : Mem) (eps : Nat → BitVec 16) : Pipe where
  dev := ⟨.waitSetup, ⟨0, 0, 0, 0, 0⟩, ⟨Region.null.ptr, 0, false⟩⟩
  std := ⟨0, B.feature, 0, eps⟩
  ep0 := ⟨0, pma, 0, 0, 0⟩
  rxAddr := 0
  rxCount := 0
  mem := mem
  istrReset := false
  pending := .nothing

end Chopstx.Usb.Stm32f103
