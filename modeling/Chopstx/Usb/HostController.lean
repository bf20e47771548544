import Chopstx.Library.Transition
import Chopstx.Usb.Usbip

/-!
# A control transfer of the USBIP emulation

Two threads take part in it.  The thread of the USBIP server plays the host controller
and executes `hc_handle_control_urb`; the thread of the device waits for the signal, and
handles the event.  They share the record `usbc_ep0`, whose eventfd tells the host
controller that the device is ready, and the record `usbc`, in which the host controller
leaves an event for the device.

A step of the host controller is a `read` of the eventfd, which waits until its counter is
not 0, or one transaction, with the mutex of `usbc_ep0` held.  A step of the device takes
the event out of `usbc`, handles it, or is the answer of the application to a request.

* `Sys`, `HostPt`, `DevPt` - the two threads and the records.
* `readEventfd`, `transaction`, `hcHandleControlUrb` - the steps of the host controller, with the
  functions of the transactions.
* `App`, `handleEvent`, `device` - the steps of the device, and how the application answers.
* `Party`, `step`, `start` - the machine, in any order of the steps of the two.
-/

namespace Chopstx.Usb.Usbip

/-! ## URBs -/

/-- The direction of a transfer (`USBIP_DIR_OUT`, `USBIP_DIR_IN`). -/
inductive Dir where
  | dirOut
  | dirIn
  deriving DecidableEq, Repr

/-- `REQUEST_DIR`. -/
def requestDir : Byte := 0x80

/-- A control URB (`struct urb`). -/
structure CtrlUrb where
  dir : Dir
  len : Nat
  setup : List Byte
  deriving DecidableEq, Repr

/-- A control URB whose direction and length are those of its SETUP packet. -/
structure Urb extends CtrlUrb where
  setup_length : setup.length = 8
  dir_setup : dir = .dirIn ↔ setup.getD 0 0 &&& requestDir ≠ 0
  len_setup : len = (deviceReq setup).len.toNat

/-! ## States -/

/-- Where `hc_handle_control_urb` is: before a `read` of the eventfd, or before the
transaction that follows it. -/
inductive HostPt where
  | setup
  | outRead (count : Nat)
  | outData (count : Nat)
  | outStatusRead
  | outStatus
  | inRead (count : Nat)
  | inData (count : Nat)
  | inStatusRead
  | inStatus
  /-- Before the wait until the device is ready for a SETUP token. -/
  | readyRead (r : Int)
  | done (r : Int)
  deriving DecidableEq, Repr

/-- An event for the device (`usbc.intr` and `usbc.dir`). -/
inductive Intr where
  | setup
  | dataTransfer (dir : Dir)
  deriving DecidableEq, Repr

/-- Where the thread of the device is. -/
inductive DevPt where
  /-- It waits for the signal. -/
  | wait
  /-- In `usb_lld_event_handler`, with the event taken. -/
  | took (i : Intr)
  /-- A request has been reported to the application. -/
  | request
  deriving DecidableEq, Repr

/-- The state of the two threads during a transfer. -/
structure Sys where
  urb : CtrlUrb
  host : HostPt
  /-- The local variable `remain`. -/
  remain : Nat
  /-- `urb->len`, `urb->data_p` and the data of the URB. -/
  len : Nat
  dataP : Nat
  data : Memory Unit Byte
  ep0 : UsbControl
  /-- `usbc.intr`. -/
  intr : Option Intr
  dev : UsbDev
  devPt : DevPt
  mem : Mem

/-- Why a thread does not go on: it waits, or has ended. -/
inductive Blocked where
  | blocked
  deriving DecidableEq, Repr

/-! ## The host controller -/

/-- `-EAGAIN` and `-EPIPE`. -/
def eagain : Int := -11
def epipe : Int := -32

namespace Sys

variable (s : Sys)

/-- `read (usbc_ep0.eventfd, &l, sizeof (l))`. -/
def readEventfd (pt : HostPt) : Except Blocked Sys :=
  if s.ep0.eventfd = 0 then .error .blocked
  else .ok { s with ep0 := { s.ep0 with eventfd := 0 }, host := pt }

/-- `notify_device`, which waits while the last event has not been taken. -/
def notifyDevice (i : Intr) : Except Blocked Sys :=
  if s.intr = none then .ok { s with intr := some i } else .error .blocked

/-- The end of `hc_handle_control_urb`. -/
def finish (r : Int) : Sys :=
  match s.urb.dir with
  | .dirIn => { s with len := if 0 ≤ r then s.len - r.toNat else 0, host := .done 0 }
  | .dirOut => { s with len := 0, host := .done r }

/-- The recovery after an error. -/
def error (r : Int) : Sys := { s with ep0 := { s.ep0 with state := .ready } }.finish r

/-- A transaction on `usbc_ep0`: `go` if the endpoint is ready, an error else. -/
def transaction (go : Except Blocked Sys) : Except Blocked Sys :=
  match s.ep0.state with
  | .ready => go
  | .nak => .ok (s.error eagain)
  | _ => .ok (s.error epipe)

def setEp0State (st : EpState) : Sys := { s with ep0 := { s.ep0 with state := st } }

/-- The number of bytes of the next transaction. -/
def count (remain : Nat) : Nat := if remain > 64 then 64 else remain

/-- `control_setup_transaction`. -/
def controlSetupTransaction : Except Blocked Sys :=
  s.transaction <|
    let noData := s.urb.dir = .dirOut ∧ s.urb.setup.getD 6 0 = 0 ∧ s.urb.setup.getD 7 0 = 0
    let host :=
      match s.urb.dir with
      | .dirOut => if noData then HostPt.outStatusRead else .outRead (count s.remain)
      | .dirIn => .inRead (count s.remain)
    { s.setEp0State .nak with mem := s.mem.write usbSetup s.urb.setup, host }.notifyDevice .setup

/-- `control_write_data_transaction`, and what the loop makes of it. -/
def controlWriteDataTransaction (c : Nat) : Except Blocked Sys :=
  s.transaction <|
    if s.ep0.len < c then .ok ((s.setEp0State .stall).error epipe)
    else
      { s with
        ep0 := { s.ep0 with state := .nak, len := c }
        mem := s.mem.write s.ep0.buf (s.data.read ⟨(), s.dataP⟩ c)
        dataP := s.dataP + c
        remain := s.remain - c
        host := if c < 64 then .outStatusRead else .outRead (count (s.remain - c)) }.notifyDevice
          (.dataTransfer .dirOut)

/-- `control_write_status_transaction`. -/
def controlWriteStatusTransaction : Except Blocked Sys :=
  s.transaction <|
    { s.setEp0State .nak with host := .readyRead 0 }.notifyDevice (.dataTransfer .dirIn)

/-- `control_read_data_transaction`, and what the loop makes of it. -/
def controlReadDataTransaction (c : Nat) : Except Blocked Sys :=
  s.transaction <|
    let r := if s.ep0.len > c then c else s.ep0.len
    { s.setEp0State .nak with
      data := s.data.write ⟨(), s.dataP⟩ (s.mem.read s.ep0.buf r)
      dataP := s.dataP + r
      remain := s.remain - r
      host := if r < 64 then .inStatusRead else .inRead (count (s.remain - r)) }.notifyDevice
        (.dataTransfer .dirIn)

/-- `control_read_status_transaction`. -/
def controlReadStatusTransaction : Except Blocked Sys :=
  s.transaction <|
    { s with
      ep0 := { s.ep0 with state := .nak, len := 0 }
      host := .readyRead s.remain }.notifyDevice (.dataTransfer .dirOut)

/-- A step of `hc_handle_control_urb`. -/
def hcHandleControlUrb : Except Blocked Sys :=
  match s.host with
  | .setup => s.controlSetupTransaction
  | .outRead c => s.readEventfd (.outData c)
  | .outData c => s.controlWriteDataTransaction c
  | .outStatusRead => s.readEventfd .outStatus
  | .outStatus => s.controlWriteStatusTransaction
  | .inRead c => s.readEventfd (.inData c)
  | .inData c => s.controlReadDataTransaction c
  | .inStatusRead => s.readEventfd .inStatus
  | .inStatus => s.controlReadStatusTransaction
  | .readyRead r => do
      let s ← s.readEventfd (.readyRead r)
      return s.finish r
  | .done _ => .error .blocked

/-! ## The device -/

/-- What a device does with the request in `dev->dev_req`. -/
abbrev Answer := Mem → UsbDev → UsbControl → UsbDev × UsbControl

/-- How the application answers requests: with `usb_lld_ctrl_send (dev, buf, m)`, with
`usb_lld_ctrl_recv (dev, p, n)` where the host sends `n` bytes, and with
`usb_lld_ctrl_ack (dev)` where it sends none. -/
structure App where
  buf : Nat
  m : Nat
  p : Nat

/-- The answer to the request in `dev->dev_req`. -/
def App.answer (A : App) : Answer := fun M d e =>
  if d.devReq.type &&& requestDir ≠ 0 then usbLldCtrlSend M d e ⟨.app, A.buf⟩ A.m
  else if d.devReq.len = 0 then usbLldCtrlAck d e
  else usbLldCtrlRecv d e ⟨.app, A.p⟩ d.devReq.len.toNat

/-- `usb_lld_event_handler` with the event taken, up to the report of a request. -/
def handleEvent : Intr → Sys
  | .setup =>
      { s with dev := s.dev.beginSetup (deviceReq (s.mem.read usbSetup 8)), devPt := .request }
  | .dataTransfer .dirIn =>
      let r := (handleIn0 s.mem s.dev s.ep0).1
      { s with dev := r.1, ep0 := r.2, devPt := .wait }
  | .dataTransfer .dirOut =>
      let r := handleOut0 s.dev s.ep0
      { s with dev := r.1, ep0 := r.2, devPt := .wait }

/-- The thread of the device takes an event or handles it. -/
def handle : Except Blocked Sys :=
  match s.devPt with
  | .wait =>
      match s.intr with
      | none => .error .blocked
      | some i => .ok { s with intr := none, devPt := .took i }
  | .took i => .ok (s.handleEvent i)
  | .request => .error .blocked

/-- It answers a request. -/
def respond (answer : Answer) : Sys :=
  let r := answer s.mem s.dev s.ep0
  { s with dev := r.1, ep0 := r.2, devPt := .wait }

/-- A step of the thread of the device. -/
def device (answer : Answer) : Except Blocked Sys :=
  if s.devPt = .request then .ok (s.respond answer) else s.handle

end Sys

/-! ## The system -/

/-- The two threads. -/
inductive Party where
  | host
  | device
  deriving DecidableEq, Repr

/-- A step of one of the two threads. -/
def step (A : Sys.App) (s : Sys) : Party → Except Blocked Sys
  | .host => s.hcHandleControlUrb
  | .device => s.device A.answer

/-- The state in which `hc_handle_control_urb` is called: the device waits for a request. -/
def start (u : CtrlUrb) (data : Memory Unit Byte) (M : Mem) (buf : Ptr Region) (len : Nat)
    (req : DeviceReq) (c : CtrlData) : Sys :=
  { urb := u
    host := .setup
    remain := u.len
    len := u.len
    dataP := 0
    data := data
    ep0 := ⟨0, .ready, buf, len⟩
    intr := none
    dev := ⟨.waitSetup, req, c⟩
    devPt := .wait
    mem := M }

end Chopstx.Usb.Usbip
