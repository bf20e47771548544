import Chopstx.Library.Transition
import Chopstx.Usb.HostController

/-!
# The event for the device in the USBIP emulation

The thread of the USBIP server leaves an event for the device in the record `usbc`
(`notify_device`), and the thread of the device takes it out (`usb_lld_event_handler`).  Both
use the record with its mutex held only; where there is an event already, the thread of the
server waits for the condition.  `pthread_cond_wait` may return without a signal.

* `UsbController`, `Notice` - the record, and the event in it.
* `NotifyPt`, `HandlePt` - where the two threads are.
* `notifyDevice`, `usbLldEventHandler` - their steps; `store` are the assignments of the former.
* `Mailbox.step` - a step of one of them, or a return of `pthread_cond_wait` without a signal.
-/

namespace Chopstx.Usb.Usbip

/-- `USBIP_DIR_IN` -/
def usbipDirIn : BitVec 8 := 1

/-- The values of `usbc.intr` but `USB_INTR_NONE` -/
inductive UsbIntr where
  | setup
  | dataTransfer
  | reset
  | suspend
  | shutdown
  deriving DecidableEq, Repr

/-- What is in `usbc.intr`, `usbc.dir` and `usbc.ep_num` -/
structure Notice where
  intr : UsbIntr
  dir : Bool
  epNum : BitVec 8
  deriving DecidableEq, Repr

/-- The record `usbc`; `intr` is `none` for `USB_INTR_NONE`. -/
structure UsbController where
  mutex : Option Party
  intr : Option UsbIntr
  dir : Bool
  epNum : BitVec 8
  deriving DecidableEq, Repr

/-- Where the thread of the server is; it has been called to leave this event. -/
inductive NotifyPt where
  | idle
  /-- Before `pthread_mutex_lock`. -/
  | lock (x : Notice)
  /-- Before `if (usbc.intr)`, with the mutex. -/
  | test (x : Notice)
  /-- In `pthread_cond_wait`. -/
  | wait (x : Notice)
  /-- In `pthread_cond_wait`, about to get the mutex back. -/
  | woken (x : Notice)
  /-- Before `pthread_mutex_unlock`. -/
  | unlock
  deriving DecidableEq, Repr

/-- Where the thread of the device is. -/
inductive HandlePt where
  | idle
  /-- Before `pthread_mutex_lock`. -/
  | lock
  /-- Before the event is taken, with the mutex. -/
  | take
  /-- Before `pthread_mutex_unlock`. -/
  | unlock
  deriving DecidableEq, Repr

/-- The two threads and the record. -/
structure Mailbox where
  usbc : UsbController
  server : NotifyPt
  device : HandlePt
  deriving DecidableEq, Repr

namespace Mailbox

variable (s : Mailbox)

/-- The event that has not been taken -/
def notice : Option Notice := s.usbc.intr.map fun i => ⟨i, s.usbc.dir, s.usbc.epNum⟩

/-- `pthread_mutex_lock`, and on to `next` -/
def lock (who : Party) (next : Mailbox) : Except Blocked Mailbox :=
  if s.usbc.mutex = none then
    .ok { next with usbc := { next.usbc with mutex := some who } }
  else .error .blocked

/-- The assignments of `notify_device` -/
def store (x : Notice) : Mailbox :=
  { s with
    usbc := { s.usbc with intr := some x.intr, dir := x.dir, epNum := x.epNum }
    server := .unlock }

/-- A step of `notify_device` -/
def notifyDevice : Except Blocked Mailbox :=
  match s.server with
  | .lock x => s.lock .host { s with server := .test x }
  | .test x =>
      if s.usbc.intr ≠ none then
        .ok { s with usbc := { s.usbc with mutex := none }, server := .wait x }
      else .ok (s.store x)
  | .woken x => s.lock .host (s.store x)
  | .unlock => .ok { s with usbc := { s.usbc with mutex := none }, server := .idle }
  | .idle | .wait _ => .error .blocked

/-- A step of `usb_lld_event_handler`, up to where it has given the mutex back -/
def usbLldEventHandler : Except Blocked Mailbox :=
  match s.device with
  | .idle => .ok { s with device := .lock }
  | .lock => s.lock .device { s with device := .take }
  | .take =>
      -- `pthread_cond_signal`
      let server := match s.server with
        | .wait x => NotifyPt.woken x
        | pt => pt
      .ok { s with usbc := { s.usbc with intr := none }, server, device := .unlock }
  | .unlock => .ok { s with usbc := { s.usbc with mutex := none }, device := .idle }

end Mailbox

/-- What can happen: the thread of the server calls `notify_device`, or goes on in it, or
`pthread_cond_wait` returns without a signal; and the thread of the device calls
`usb_lld_event_handler`, or goes on in it. -/
inductive MailEvent where
  | call (intr : UsbIntr) (epNum dir : BitVec 8)
  | server
  | spurious
  | device
  deriving DecidableEq, Repr

/-- One step. -/
def Mailbox.step (s : Mailbox) : MailEvent → Except Blocked Mailbox
  | .call intr epNum dir =>
      if s.server = .idle then .ok { s with server := .lock ⟨intr, dir = usbipDirIn, epNum⟩ }
      else .error .blocked
  | .server => s.notifyDevice
  | .spurious =>
      match s.server with
      | .wait x => .ok { s with server := .woken x }
      | _ => .error .blocked
  | .device => s.usbLldEventHandler

/-- No event, and neither thread is in one of the functions. -/
def Mailbox.start : Mailbox where
  usbc := ⟨none, none, false, 0⟩
  server := .idle
  device := .idle

end Chopstx.Usb.Usbip
