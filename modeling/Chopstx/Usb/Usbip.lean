import Chopstx.Usb.Lld

/-!
# Endpoint 0 of the USBIP emulation, device side

The record `usbc_ep0` is shared with the thread that plays the host controller.  The
device puts a buffer into it, makes it ready, and notifies the host controller by adding
1 to the counter of an eventfd.

* `UsbControl`, `EpState` - the record; `putReady` and `putStall` are what the driver does to it.
* `port`, `lawfulPort` - the endpoint as a port that keeps the laws.
* `usbLldCtrlSend`, `usbLldCtrlRecv`, `usbLldCtrlAck`, `usbLldCtrlError` - the calls of the
  application.
* `handleDatastageIn`, `handleDatastageOut`, `handleIn0`, `handleOut0` - the handlers.
* `deviceReq` - the request in the bytes of a SETUP packet.

The side of the host controller is in `Chopstx.Usb.HostController`.
-/

namespace Chopstx.Usb.Usbip

/-- The states of an endpoint (`USB_STATE_…`). -/
inductive EpState where
  | disabled
  | stall
  | nak
  | ready
  deriving DecidableEq, Repr

/-- The record of endpoint 0 (`struct usb_control`), with the counter of its eventfd. -/
structure UsbControl where
  eventfd : Nat
  state : EpState
  buf : Ptr Region
  len : Nat
  deriving DecidableEq, Repr

namespace UsbControl

variable (e : UsbControl)

/-- `notify_hostcontroller`. -/
def notifyHostcontroller : UsbControl := { e with eventfd := e.eventfd + 1 }

/-- The endpoint is given the buffer and made ready, and the host controller is notified. -/
def putReady (buf : Ptr Region) (len : Nat) : UsbControl :=
  { e with buf := buf, len := len, state := .ready }.notifyHostcontroller

/-- The endpoint is stalled, and the host controller is notified. -/
def putStall : UsbControl := { e with state := .stall }.notifyHostcontroller

end UsbControl

/-- `usb_setup`. -/
def usbSetup : Ptr Region := Region.usbSetup.ptr

/-- How the driver of the USBIP emulation moves the packets of endpoint 0. -/
def port : Port UsbControl where
  sendFirst _ p n e := e.putReady p n
  sendNext _ p n e := e.putReady p n
  sendZlp e := e.putReady usbSetup 0
  recvStatus e := e.putReady usbSetup 0
  statusInDone _ e := e.putReady usbSetup 8
  stall e := e.putStall
  -- both directions share the record: what is ready in a state of the data stage is a packet
  queued M st e :=
    if (st = .inData ∨ st = .lastInData) ∧ e.state = .ready then some (M.read e.buf e.len) else none
  inAcked e := { e with state := .nak, eventfd := 0 }
  statusReady st e := st = .waitStatusOut ∧ e.state = .ready

/-! ## The functions of the driver -/

/-- `usb_lld_ctrl_send`. -/
def usbLldCtrlSend (M : Mem) (d : UsbDev) (e : UsbControl) (buf : Ptr Region) (buflen : Nat) :
    UsbDev × UsbControl :=
  ctrlSend port M d e buf buflen

/-- `handle_datastage_in`. -/
def handleDatastageIn (M : Mem) (d : UsbDev) (e : UsbControl) : UsbDev × UsbControl :=
  Usb.handleDatastageIn port M d e

/-- `handle_in0`. -/
def handleIn0 (M : Mem) (d : UsbDev) (e : UsbControl) : (UsbDev × UsbControl) × UsbEvent :=
  Usb.handleIn0 port M d e

/-- `usb_lld_ctrl_ack`. -/
def usbLldCtrlAck (d : UsbDev) (e : UsbControl) : UsbDev × UsbControl :=
  ({ d with state := .waitStatusIn }, e.putReady usbSetup 0)

/-- `usb_lld_ctrl_recv`. -/
def usbLldCtrlRecv (d : UsbDev) (e : UsbControl) (p : Ptr Region) (len : Nat) :
    UsbDev × UsbControl :=
  let n := if len > maxPacketSize then maxPacketSize else len
  ({ d with state := .outData, ctrlData := { d.ctrlData with addr := p, len := .ofNat 16 len } },
    e.putReady p n)

/-- `usb_lld_ctrl_error`. -/
def usbLldCtrlError (d : UsbDev) (e : UsbControl) : UsbDev × UsbControl :=
  ({ d with state := .stalled }, e.putStall)

/-- `handle_datastage_out`. -/
def handleDatastageOut (d : UsbDev) (e : UsbControl) : UsbDev × UsbControl :=
  let data := d.ctrlData.advance e.len
  if data.len = 0 then
    ({ d with state := .waitStatusIn, ctrlData := data }, e.putReady usbSetup 0)
  else
    ({ d with state := .outData, ctrlData := data }, e.putReady data.addr (packetLen data.len))

/-- `handle_out0`. -/
def handleOut0 (d : UsbDev) (e : UsbControl) : UsbDev × UsbControl :=
  if d.state = .outData then handleDatastageOut d e
  else if d.state = .waitStatusOut then
    ({ d with state := .waitSetup }, e.putReady usbSetup 8)
  else ({ d with state := .stalled }, e.putStall)

/-- The request in the eight bytes of a SETUP packet, as `handle_setup0` reads it. -/
def deviceReq (setup : List Byte) : DeviceReq :=
  let b (i : Nat) : Byte := setup.getD i 0
  ⟨b 0, b 1, b 3 ++ b 2, b 5 ++ b 4, b 7 ++ b 6⟩

/-! ## The laws of the port -/

section

variable {M : Mem} {p : Ptr Region} {n : Nat} {st : ControlState} {e : UsbControl}

theorem queued_putReady (h : st = .inData ∨ st = .lastInData) :
    port.queued M st (e.putReady p n) = some (M.read p n) :=
  if_pos ⟨h, rfl⟩

end

/-- The port of the USBIP emulation keeps the laws. -/
def lawfulPort : LawfulPort UsbControl where
  toPort := port
  queued_sendFirst _ h := queued_putReady h
  queued_sendNext _ h := queued_putReady h
  queued_sendZlp := queued_putReady (.inr rfl)
  queued_recvStatus := rfl
  statusReady_recvStatus := rfl

end Chopstx.Usb.Usbip
