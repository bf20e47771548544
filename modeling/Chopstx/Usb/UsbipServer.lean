import Chopstx.Library.Circle
import Chopstx.Library.Transition
import Chopstx.Usb.Usbip

/-!
# The URBs of the USBIP server

The thread of the server takes the commands of the client from the socket and polls the
eventfds of the data endpoints.  The URBs of all endpoints are in one circular list, whose
first element `urb_list` is the last one submitted; each endpoint has a pointer to the URB
that its next packet is for.  An URB is known by the number of its submission.

The thread of the device changes the endpoints in between, with their mutexes held.

* `Urb`, `Endp`, `State` - the records; the links of the list are those of
  `Chopstx.Library.Circle`.
* `usbipHandleUrb`, `usbipUnlinkUrb` - the two commands, with `MsgCmd` and `Submit` what is
  received.
* `hcHandleDataUrb`, `writeDataTransaction`, `readDataTransaction` - a packet is moved.
* `usbipEpReady`, `nextUrb` - an endpoint is ready, and the next URB for it is looked for.
* `usbipFinishUrb`, `Reply` - the answers to the client.
* `Event`, `step` - the machine, with what the device does to the records as an event.
-/

namespace Chopstx.Usb.Usbip.Server

/-! ## The records -/

/-- `USBIP_DIR_OUT`; to choose an endpoint and to move data, any other direction is taken for
IN. -/
def dirOut : BitVec 32 := 0

/-- `USBIP_DIR_IN`; data are sent to the client for this direction only. -/
def dirIn : BitVec 32 := 1

/-- `URB_DATA_SIZE` -/
def urbDataSize : Nat := 65535

/-- `-EPIPE`, `-EINVAL` and `-ECONNRESET` -/
def epipe : Int := -32
def einval : Int := -22
def econnreset : Int := -104

/-- An URB (`struct urb`) without its links; `data_p` is `data` with an offset. -/
structure Urb where
  remain : BitVec 16
  dataP : Nat
  seq : BitVec 32
  devid : BitVec 32
  dir : BitVec 32
  ep : BitVec 32
  len : BitVec 32
  setup : List Byte
  data : Memory Unit Byte

/-- Where the record of the endpoint of an URB is: in `usbc_ep_in` or not, and its index. -/
def Urb.endp (u : Urb) : Bool × Nat := (u.dir ≠ dirOut, u.ep.toNat)

/-- The record of an endpoint (`struct usb_control`), with the URB of the host side. -/
structure Endp extends UsbControl where
  urb : Option Nat

/-- A reply to the client: to `CMD_URB_SUBMIT` when the URB is finished, or when the command
fails, and to `CMD_URB_UNLINK`. -/
inductive Reply where
  | finish (urb : Nat) (seq : BitVec 32) (status : Int) (len : BitVec 32) (data : List Byte)
  | fail (urb : Nat) (seq : BitVec 32) (status : Int)
  | unlink (seq : BitVec 32) (status : Int)
  deriving DecidableEq, Repr

/-- The server, with what it shares with the device.  `notified` are the data transfers that
the device has been told of, each by the number and the direction of its endpoint. -/
structure State where
  urb : Nat → Urb
  links : Links Nat
  /-- The number of URBs submitted. -/
  nurb : Nat
  urbList : Option Nat
  epIn : Nat → Endp
  epOut : Nat → Endp
  mem : Mem
  notified : List (Nat × Bool)
  sent : List Reply

/-- Why the server does not go on: it waits for an eventfd, it uses a null pointer or an index
that is out of range, or a loop over the list does not end. -/
inductive Fault where
  | blocked
  | null
  | index
  | loop
  deriving DecidableEq, Repr

/-- The header of a command (`struct usbip_msg_cmd`). -/
structure MsgCmd where
  devid : BitVec 32
  dir : BitVec 32
  ep : BitVec 32
  flags : BitVec 32
  len : BitVec 32
  deriving DecidableEq, Repr

/-- What is received after the head of a `CMD_URB_SUBMIT`: the header, the SETUP packet and the
data; nothing where the connection ends. -/
structure Submit where
  seq : BitVec 32
  cmd : Option MsgCmd
  setup : Option (List Byte)
  data : Option (List Byte)
  deriving DecidableEq, Repr

/-- What `hc_handle_control_urb` makes of an URB for endpoint 0: its result, `urb->len` and the
data. -/
structure Answer where
  r : Int
  len : BitVec 32
  data : Memory Unit Byte

namespace State

variable (s : State)

/-- The record of an endpoint. -/
def endp (e : Bool × Nat) : Endp := if e.1 then s.epIn e.2 else s.epOut e.2

/-- The record of an endpoint is written. -/
def setEndp (e : Bool × Nat) (c : Endp) : State :=
  if e.1 then { s with epIn := Function.update s.epIn e.2 c }
  else { s with epOut := Function.update s.epOut e.2 c }

/-- The record of an URB is written. -/
def setUrb (n : Nat) (u : Urb) : State := { s with urb := Function.update s.urb n u }

/-- The URBs in the list, the last one submitted first. -/
def urbs : List Nat :=
  match s.urbList with
  | none => []
  | some a => s.links.nodes a s.nurb a

section

variable {s} {e e' : Bool × Nat} {c : Endp} {n : Nat} {u : Urb}

theorem endp_setEndp : (s.setEndp e c).endp e' = if e' = e then c else s.endp e' := by
  obtain ⟨i, k⟩ := e
  obtain ⟨i', k'⟩ := e'
  cases i <;> cases i' <;> simp [setEndp, endp, Function.update_apply]

@[simp] theorem setEndp_endp_self : (s.setEndp e c).endp e = c := by
  rw [endp_setEndp, if_pos rfl]

@[simp] theorem setEndp_urb : (s.setEndp e c).urb = s.urb := by
  rw [setEndp]
  split <;> rfl

@[simp] theorem setEndp_links : (s.setEndp e c).links = s.links := by
  rw [setEndp]
  split <;> rfl

@[simp] theorem setEndp_nurb : (s.setEndp e c).nurb = s.nurb := by
  rw [setEndp]
  split <;> rfl

@[simp] theorem setEndp_urbList : (s.setEndp e c).urbList = s.urbList := by
  rw [setEndp]
  split <;> rfl

@[simp] theorem setEndp_mem : (s.setEndp e c).mem = s.mem := by
  rw [setEndp]
  split <;> rfl

@[simp] theorem setEndp_notified : (s.setEndp e c).notified = s.notified := by
  rw [setEndp]
  split <;> rfl

@[simp] theorem setEndp_sent : (s.setEndp e c).sent = s.sent := by
  rw [setEndp]
  split <;> rfl

end

/-! ## The list -/

/-- A new URB is put in front of the list. -/
def linkUrb : State :=
  match s.urbList with
  | none =>
      { s with
        links := ⟨Function.update s.links.next s.nurb s.nurb,
          Function.update s.links.prev s.nurb s.nurb⟩
        urbList := some s.nurb
        nurb := s.nurb + 1 }
  | some a => { s with
      links := s.links.insert s.nurb a
      urbList := some s.nurb
      nurb := s.nurb + 1 }

/-- `unlink_urb` -/
def unlinkUrb (n : Nat) : State :=
  { s with
    urbList :=
      if s.urbList = some n then
        if s.links.next n = n then none else some (s.links.next n)
      else s.urbList
    links := s.links.remove n }

/-- `unlink_urb_ep` -/
def unlinkUrbEp (n : Nat) : Except Fault State :=
  let e := (s.urb n).endp
  if 8 ≤ e.2 then .error .index
  else if (s.endp e).urb = some n then .ok (s.setEndp e { s.endp e with urb := none })
  else .ok s

/-- `usbip_finish_urb` -/
def usbipFinishUrb (n : Nat) (r : Int) : State :=
  let u := s.urb n
  let data := if u.dir = dirIn ∧ u.len ≠ 0 then u.data.read ⟨(), 0⟩ u.len.toNat else []
  let reply := Reply.finish n u.seq (if r < 0 then r else 0) u.len data
  { s with sent := s.sent ++ [reply] }.unlinkUrb n

/-- The end of `usbip_handle_urb` for a command that fails. -/
def leave (n : Nat) (r : Int) : State :=
  { s with sent := s.sent ++ [Reply.fail n (s.urb n).seq r] }.unlinkUrb n

section

variable {s} {n : Nat}

@[simp] theorem linkUrb_urb : s.linkUrb.urb = s.urb := by
  rw [linkUrb]
  split <;> rfl

@[simp] theorem linkUrb_endp : s.linkUrb.endp = s.endp := by
  rw [linkUrb]
  split <;> rfl

@[simp] theorem linkUrb_nurb : s.linkUrb.nurb = s.nurb + 1 := by
  rw [linkUrb]
  split <;> rfl

@[simp] theorem linkUrb_urbList : s.linkUrb.urbList = some s.nurb := by
  rw [linkUrb]
  split <;> rfl

@[simp] theorem linkUrb_sent : s.linkUrb.sent = s.sent := by
  rw [linkUrb]
  split <;> rfl

@[simp] theorem unlinkUrb_urb : (s.unlinkUrb n).urb = s.urb := rfl

@[simp] theorem unlinkUrb_endp : (s.unlinkUrb n).endp = s.endp := rfl

@[simp] theorem unlinkUrb_nurb : (s.unlinkUrb n).nurb = s.nurb := rfl

@[simp] theorem unlinkUrb_sent : (s.unlinkUrb n).sent = s.sent := rfl

end

/-! ## Transactions with a data endpoint -/

/-- `write_data_transaction` for the URB `u` -/
def writeDataTransaction (e : Bool × Nat) (u : Urb) (count : Nat) : Int × State :=
  let c := s.endp e
  if c.len < count then (epipe, s.setEndp e { c with state := .stall })
  else
    (count, { s.setEndp e { c with state := .nak, len := count } with
      mem := s.mem.write c.buf (u.data.read ⟨(), u.dataP⟩ count)
      notified := s.notified ++ [(u.ep.toNat, false)] })

/-- `read_data_transaction` for the URB `n`, with the bytes that are copied -/
def readDataTransaction (e : Bool × Nat) (n : Nat) (count : Nat) : Int × State :=
  let c := s.endp e
  let u := s.urb n
  let count := if c.len > count then count else c.len
  (count, { (s.setEndp e { c with state := .nak }).setUrb n
      { u with data := u.data.write ⟨(), u.dataP⟩ (s.mem.read c.buf count) } with
    notified := s.notified ++ [(u.ep.toNat, true)] })

/-- `hc_handle_data_urb` for the URB `n` of the endpoint `e` -/
def hcHandleDataUrb (e : Bool × Nat) (n : Nat) : Int × State :=
  let u := s.urb n
  let count := if u.remain.toNat > 64 then 64 else u.remain.toNat
  if u.dir = dirOut then
    let (r, s) := s.writeDataTransaction e u count
    if r < 0 then (r, s)
    else
      let u := { u with dataP := u.dataP + count, remain := u.remain - BitVec.ofNat 16 count }
      (if u.remain = 0 ∨ count < 64 then 0 else 1, s.setUrb n u)
  else
    let (r, s) := s.readDataTransaction e n count
    if r < 0 then (r, s)
    else
      let u := s.urb n
      let u := { u with
        remain := u.remain - BitVec.ofInt 16 r
        dataP := u.dataP + r.toNat }
      if u.remain = 0 ∨ r < 64 then
        (0, s.setUrb n { u with len := u.len - u.remain.setWidth 32 })
      else (1, s.setUrb n u)

/-! ## The commands -/

/-- `usbip_handle_data_urb` -/
def usbipHandleDataUrb (n : Nat) : Except Fault (Int × State) :=
  let e := (s.urb n).endp
  if 8 ≤ e.2 then .error .index
  else
    match (s.endp e).state with
    | .disabled | .stall => .ok (epipe, s)
    | .nak | .ready =>
        .ok (0, if (s.endp e).urb = none then s.setEndp e { s.endp e with urb := some n } else s)

/-- `usbip_handle_control_urb`, where `a` is what `hc_handle_control_urb` comes to -/
def usbipHandleControlUrb (n : Nat) (a : Answer) : State :=
  (s.setUrb n { s.urb n with len := a.len, data := a.data }).usbipFinishUrb n a.r

/-- The record of a new URB. -/
def newUrb (seq : BitVec 32) (cmd : MsgCmd) (setup data : Option (List Byte)) : Urb where
  remain := cmd.len.setWidth 16
  dataP := 0
  seq := seq
  devid := cmd.devid
  dir := cmd.dir
  ep := cmd.ep
  len := cmd.len
  setup := setup.getD []
  data := fun _ i => (data.getD []).getD i 0

/-- `usbip_handle_urb` -/
def usbipHandleUrb (x : Submit) (a : Answer) : Except Fault State :=
  match x.cmd with
  | none => .error .null
  | some cmd =>
      if cmd.len.toNat > urbDataSize then .error .null
      else
        let n := s.nurb
        let s := s.linkUrb.setUrb n (newUrb x.seq cmd x.setup x.data)
        if x.setup = none then .ok (s.leave n einval)
        else if cmd.dir = dirOut ∧ cmd.len ≠ 0 ∧ x.data = none then .ok (s.leave n einval)
        else if cmd.ep = 0 then .ok (s.usbipHandleControlUrb n a)
        else
          (s.usbipHandleDataUrb n).map fun x => if x.1 = 0 then x.2 else x.2.leave n x.1

/-- The part of `usbip_process_cmd` for `CMD_URB_UNLINK`, for the URB with the number `flags` -/
def usbipUnlinkUrb (seq flags : BitVec 32) : Except Fault State :=
  match s.urbList with
  | none => .ok { s with sent := s.sent ++ [.unlink seq 0] }
  | some a =>
      match s.links.findNext a (fun n => (s.urb n).seq = flags) s.nurb a with
      | none => .error .loop
      | some none => .ok { s with sent := s.sent ++ [.unlink seq 0] }
      | some (some n) =>
          ((s.unlinkUrb n).unlinkUrbEp n).map fun s =>
            { s with sent := s.sent ++ [.unlink seq econnreset] }

/-! ## A packet -/

/-- The loop of `usbip_ep_ready`, which looks for the next URB for the endpoint of the URB
`n`. -/
def nextUrb (n : Nat) : Option (Option Nat) :=
  (s.links.findPrev s.urbList
    (fun m => (s.urb m).ep = (s.urb n).ep ∧ (s.urb m).dir = (s.urb n).dir) s.nurb
    (s.links.prev n)).map fun found => found.filter (· ≠ n)

/-- `usbip_ep_ready` -/
def usbipEpReady (e : Bool × Nat) : Except Fault State :=
  match (s.endp e).urb with
  | none => .ok s
  | some n =>
      if (s.endp e).eventfd = 0 then .error .blocked
      else
        let s := s.setEndp e { s.endp e with eventfd := 0 }
        let (r, s) := s.hcHandleDataUrb e n
        if r ≤ 0 then
          match s.nextUrb n with
          | none => .error .loop
          | some next =>
              let s := s.usbipFinishUrb n r
              .ok (s.setEndp e { s.endp e with urb := next })
        else .ok s

/-! ## The steps of the server -/

/-- The server before the first URB. -/
def init : State where
  urb := fun _ => newUrb 0 ⟨0, 0, 0, 0, 0⟩ none none
  links := ⟨id, id⟩
  nurb := 0
  urbList := none
  epIn := fun _ => ⟨⟨0, .disabled, Region.null.ptr, 0⟩, none⟩
  epOut := fun _ => ⟨⟨0, .disabled, Region.null.ptr, 0⟩, none⟩
  mem := fun _ _ => 0
  notified := []
  sent := []

end State

/-- A command of the client, an endpoint that is ready, or what the device does to the record
of an endpoint and to the memory. -/
inductive Event where
  | submit (x : Submit) (a : Answer)
  | unlink (seq flags : BitVec 32)
  | ready (e : Bool × Nat)
  | device (e : Bool × Nat) (c : UsbControl) (M : Mem)

/-- One step. -/
def step (s : State) : Event → Except Fault State
  | .submit x a => s.usbipHandleUrb x a
  | .unlink seq flags => s.usbipUnlinkUrb seq flags
  | .ready e => s.usbipEpReady e
  | .device e c M => .ok { s.setEndp e { s.endp e with toUsbControl := c } with mem := M }

end Chopstx.Usb.Usbip.Server
