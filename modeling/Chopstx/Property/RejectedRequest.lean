import Chopstx.Property.ControlTransfer

/-!
# A control request that the device rejects

The device rejects a request when it stalls endpoint 0, and notifies the host controller as it
does for a packet.  Whatever the application answers, and for any URBs one after another, there
is one token: the host controller has it, it is an event for the device, or it is the counter
of the eventfd.  So the host controller finds the stall at the next transaction, if there is
one; but it keeps the error of an URB of direction IN for itself, and it makes no transaction
after the wait for the next SETUP token.

* `Action`, `CtrlEvent` - what the application answers, and the events of a session of URBs.
* `putStall_told`, `answer_told`, `transaction` - what the functions of the device and of the host
  controller do, in the terms of `Acts` and `Waits`.
* `Token`, `TokenInv` - where the token is, and `TokenInv.step` that there is one after every step.
* `request_run` - the run up to the answer.
* `error_right_iff`, `not_right_of_stall` - what the reply says of a stall.
* `RejectRight`, `reject_right_iff` - what is promised, and when it is kept.
* `reject_right_write`, `reject_not_right` - a request that is reported, and two that are not.
-/

namespace Chopstx.Usb.Usbip

open Transition

/-! ## The server -/

/-- The single action with which a request is answered. -/
inductive Action where
  | send (buf : Ptr Region) (buflen : Nat)
  | recv (p : Ptr Region) (len : Nat)
  | ack
  | error
  deriving DecidableEq, Repr

/-- The function of the driver for the action. -/
def Action.answer : Action → Sys.Answer
  | .send buf buflen => fun M d e => usbLldCtrlSend M d e buf buflen
  | .recv p len => fun _ d e => usbLldCtrlRecv d e p len
  | .ack => fun _ d e => usbLldCtrlAck d e
  | .error => fun _ d e => usbLldCtrlError d e

/-- A control URB with its data comes from the client, the host controller or the device goes on,
or a request is answered. -/
inductive CtrlEvent where
  | submit (u : CtrlUrb) (data : Memory Unit Byte)
  | host
  | device
  | answer (a : Action)

/-- The event is a step of the device. -/
def CtrlEvent.OfDevice : CtrlEvent → Prop
  | .submit _ _ | .host => False
  | .device | .answer _ => True

/-- The call of `hc_handle_control_urb`. -/
def Sys.submit (s : Sys) (u : CtrlUrb) (data : Memory Unit Byte) : Sys :=
  { s with urb := u, host := .setup, remain := u.len, len := u.len, dataP := 0, data := data }

/-- One step of the server and the device. -/
def serve (s : Sys) : CtrlEvent → Except Blocked Sys
  | .submit u data =>
      match s.host with
      | .done _ => .ok (s.submit u data)
      | _ => .error .blocked
  | .host => s.hcHandleControlUrb
  | .device => s.handle
  | .answer a => if s.devPt = .request then .ok (s.respond a.answer) else .error .blocked

/-- The server has no URB, and the device waits for the first request. -/
def attached (d : UsbDev) (M : Mem) (buf : Ptr Region) (len : Nat) : Sys where
  urb := ⟨.dirIn, 0, []⟩
  host := .done 0
  remain := 0
  len := 0
  dataP := 0
  data := fun _ _ => 0
  ep0 := ⟨0, .ready, buf, len⟩
  intr := none
  dev := d
  devPt := .wait
  mem := M

variable {s s' s₁ s₂ t : Sys} {host pt : HostPt} {r : Int} {a : Action} {ev : CtrlEvent}
  {go : Except Blocked Sys} {c : Nat} {M : Mem} {d : UsbDev} {e : UsbControl} {u : CtrlUrb}
  {D : Memory Unit Byte}

/-! ## The token -/

/-- What the device leaves in endpoint 0. -/
def UsbControl.Told (e : UsbControl) : Prop := e.state = .ready ∨ e.state = .stall

/-- The points before a transaction of the data or the status stage. -/
inductive HostPt.Moves : HostPt → Prop
  | outData (c : Nat) : Moves (.outData c)
  | outStatus : Moves .outStatus
  | inData (c : Nat) : Moves (.inData c)
  | inStatus : Moves .inStatus

/-- The host controller has the token. -/
structure Acts (s : Sys) : Prop where
  host : ¬ s.host.Reads
  eventfd : s.ep0.eventfd = 0
  told : s.ep0.Told
  intr : s.intr = none
  devPt : s.devPt = .wait

/-- The device has it, or it is an event for the device. -/
structure Waits (s : Sys) : Prop where
  host : s.host.Reads
  eventfd : s.ep0.eventfd = 0
  nak : s.ep0.state = .nak
  event : s.devPt ≠ .wait → s.intr = none

/-- It is in the eventfd. -/
structure Answered (s : Sys) : Prop where
  host : s.host.Reads
  eventfd : s.ep0.eventfd ≠ 0
  told : s.ep0.Told
  intr : s.intr = none
  devPt : s.devPt = .wait

/-- One of the three has the token. -/
inductive Token (s : Sys) : Prop
  | acts (h : Acts s)
  | waits (h : Waits s)
  | answered (h : Answered s)

/-- The point is one of the direction of the URB, and the result is no error where there has been
none. -/
def HostPt.Fits : HostPt → Dir → Prop
  | .outRead _, d | .outData _, d | .outStatusRead, d | .outStatus, d => d = .dirOut
  | .inRead _, d | .inData _, d | .inStatusRead, d | .inStatus, d => d = .dirIn
  | .readyRead r, _ => 0 ≤ r
  | .setup, _ | .done _, _ => True

/-! ## The device -/

theorem putReady_told {buf : Ptr Region} {n : Nat} : (e.putReady buf n).Told := .inl rfl

theorem putStall_told : e.putStall.Told := .inr rfl

theorem handleIn0_told : (handleIn0 M d e).1.2.Told := by
  rw [handleIn0, Usb.handleIn0]
  split
  · rw [Usb.handleDatastageIn]
    repeat' split
    all_goals exact putReady_told
  · split
    · exact putReady_told
    · exact putStall_told

theorem handleOut0_told : (handleOut0 d e).2.Told := by
  rw [handleOut0]
  repeat' split
  · rw [handleDatastageOut]
    split <;> exact putReady_told
  · exact putReady_told
  · exact putStall_told

theorem answer_told : (a.answer M d e).2.Told ∧ (a.answer M d e).2.eventfd = e.eventfd + 1 := by
  cases a with
  | send | recv | ack => exact ⟨putReady_told, rfl⟩
  | error => exact ⟨putStall_told, rfl⟩

/-- The device takes an event or handles it. -/
theorem Waits.handle (h : Waits s) (hs : s.handle = .ok s') :
    s'.host = s.host ∧ s'.urb = s.urb ∧ (Waits s' ∨ Answered s') := by
  rw [Sys.handle] at hs
  split at hs
  · split at hs
    · cases hs
    · cases hs
      exact ⟨rfl, rfl, .inl ⟨h.host, h.eventfd, h.nak, fun _ => rfl⟩⟩
  · rename_i i hi
    cases hs
    have hintr := h.event (by rw [hi]; simp)
    cases i with
    | setup => exact ⟨rfl, rfl, .inl ⟨h.host, h.eventfd, h.nak, fun _ => hintr⟩⟩
    | dataTransfer dir =>
        cases dir with
        | dirIn =>
            have hfd : (handleIn0 s.mem s.dev s.ep0).1.2.eventfd ≠ 0 := by
              rw [handleIn0_eventfd]
              exact Nat.succ_ne_zero _
            exact ⟨rfl, rfl, .inr ⟨h.host, hfd, handleIn0_told, hintr, rfl⟩⟩
        | dirOut =>
            have hfd : (handleOut0 s.dev s.ep0).2.eventfd ≠ 0 := by
              rw [handleOut0_eventfd]
              exact Nat.succ_ne_zero _
            exact ⟨rfl, rfl, .inr ⟨h.host, hfd, handleOut0_told, hintr, rfl⟩⟩
  · cases hs

/-- The device answers a request. -/
theorem Waits.respond (h : Waits s) (hd : s.devPt = .request) : Answered (s.respond a.answer) := by
  obtain ⟨htold, hfd⟩ := answer_told (a := a) (M := s.mem) (d := s.dev) (e := s.ep0)
  refine ⟨h.host, ?_, htold, h.event (by rw [hd]; simp), rfl⟩
  rw [Sys.respond]
  dsimp only
  rw [hfd]
  exact Nat.succ_ne_zero _

/-- The device has nothing to do while the host controller has the token, or is to take it. -/
theorem handle_blocked (hi : s.intr = none) (hd : s.devPt = .wait) :
    s.handle = .error .blocked := by
  rw [Sys.handle, hd]
  simp only [hi]

/-! ## The host controller -/

theorem finish_host : ∃ r', (s.finish r).host = .done r' := by
  rw [Sys.finish]
  split
  · exact ⟨0, rfl⟩
  · exact ⟨r, rfl⟩

@[simp] theorem finish_ep0 : (s.finish r).ep0 = s.ep0 := by
  rw [Sys.finish]
  split <;> rfl

@[simp] theorem finish_intr : (s.finish r).intr = s.intr := by
  rw [Sys.finish]
  split <;> rfl

@[simp] theorem finish_devPt : (s.finish r).devPt = s.devPt := by
  rw [Sys.finish]
  split <;> rfl

@[simp] theorem finish_urb : (s.finish r).urb = s.urb := by
  rw [Sys.finish]
  split <;> rfl

/-- What a step of the host controller comes to. -/
structure Passed (s s' : Sys) : Prop where
  token : Token s'
  urb : s'.urb = s.urb
  fits : s'.host.Fits s.urb.dir

theorem finish_acts (he : s.ep0.eventfd = 0) (ht : s.ep0.Told) (hi : s.intr = none)
    (hd : s.devPt = .wait) : Acts (s.finish r) := by
  obtain ⟨r', hr'⟩ := finish_host (s := s) (r := r)
  refine ⟨?_, ?_, ?_, ?_, ?_⟩
  · rw [hr']
    rintro ⟨⟩
  · rwa [finish_ep0]
  · rwa [finish_ep0]
  · rwa [finish_intr]
  · rwa [finish_devPt]

theorem Acts.finish (hu : s₁.urb = s.urb) (he : s₁.ep0.eventfd = 0) (ht : s₁.ep0.Told)
    (hi : s₁.intr = none) (hd : s₁.devPt = .wait) : Passed s (s₁.finish r) := by
  obtain ⟨r', hr'⟩ := finish_host (s := s₁) (r := r)
  refine ⟨.acts (finish_acts he ht hi hd), finish_urb.trans hu, ?_⟩
  rw [hr']
  trivial

/-- A transaction: the host controller finds the stall, or the transaction is made. -/
theorem Acts.transaction (h : Acts s) (hs : s.transaction go = .ok s')
    (hgo : go = .ok s' → Passed s s') : Passed s s' := by
  rw [Sys.transaction] at hs
  split at hs
  · exact hgo hs
  · rename_i hst
    rcases h.told with htold | htold <;> rw [hst] at htold <;> cases htold
  · cases hs
    exact Acts.finish rfl h.eventfd (.inl rfl) h.intr h.devPt

/-- The device is told of what the host controller has done. -/
theorem Waits.notify {i : Intr} (hs : s₁.notifyDevice i = .ok s') (hh : s₁.host.Reads)
    (he : s₁.ep0.eventfd = 0) (hst : s₁.ep0.state = .nak) (hd : s₁.devPt = .wait)
    (hu : s₁.urb = s.urb) (hf : s₁.host.Fits s.urb.dir) : Passed s s' := by
  rw [Sys.notifyDevice] at hs
  split at hs
  · cases hs
    exact ⟨.waits ⟨hh, he, hst, fun h => absurd hd h⟩, hu, hf⟩
  · cases hs

/-- The host controller has the token. -/
theorem Acts.step (h : Acts s) (hf : s.host.Fits s.urb.dir)
    (hs : s.hcHandleControlUrb = .ok s') : Passed s s' := by
  rw [Sys.hcHandleControlUrb] at hs
  have hreads := h.host
  cases hh : s.host with
  | outRead | outStatusRead | inRead | inStatusRead | readyRead =>
      rw [hh] at hreads
      exact absurd (by constructor) hreads
  | done =>
      rw [hh] at hs
      cases hs
  | setup =>
      rw [hh] at hs
      refine h.transaction hs fun hgo => Waits.notify hgo ?_ h.eventfd rfl h.devPt rfl ?_
      · dsimp only
        repeat' split
        · exact .outStatusRead
        · exact .outRead _
        · exact .inRead _
      · dsimp only
        split
        · rename_i hdir
          split <;> exact hdir
        · rename_i hdir
          exact hdir
  | outData c =>
      rw [hh] at hs hf
      refine h.transaction hs fun hgo => ?_
      split at hgo
      · cases hgo
        exact Acts.finish rfl h.eventfd (.inl rfl) h.intr h.devPt
      · refine Waits.notify hgo ?_ h.eventfd rfl h.devPt rfl ?_
        · dsimp only
          split
          · exact .outStatusRead
          · exact .outRead _
        · dsimp only
          split <;> exact hf
  | outStatus =>
      rw [hh] at hs
      exact h.transaction hs fun hgo =>
        Waits.notify hgo (.readyRead 0) h.eventfd rfl h.devPt rfl le_rfl
  | inData c =>
      rw [hh] at hs hf
      refine h.transaction hs fun hgo => Waits.notify hgo ?_ h.eventfd rfl h.devPt rfl ?_
      · dsimp only
        generalize (if s.ep0.len > c then c else s.ep0.len) = r
        split
        · exact .inStatusRead
        · exact .inRead _
      · dsimp only
        generalize (if s.ep0.len > c then c else s.ep0.len) = r
        split <;> exact hf
  | inStatus =>
      rw [hh] at hs
      exact h.transaction hs fun hgo =>
        Waits.notify hgo (.readyRead _) h.eventfd rfl h.devPt rfl (Int.natCast_nonneg _)

/-- The point after a `read` of the eventfd. -/
def HostPt.next : HostPt → HostPt
  | .outRead c => .outData c
  | .outStatusRead => .outStatus
  | .inRead c => .inData c
  | .inStatusRead => .inStatus
  | pt => pt

/-- The token is taken out of the eventfd. -/
def Sys.cleared (s : Sys) : Sys := { s with ep0 := { s.ep0 with eventfd := 0 } }

/-- The state after the `read`. -/
def Sys.afterRead (s : Sys) : Sys :=
  match s.host with
  | .readyRead r => s.cleared.finish r
  | pt => { s.cleared with host := pt.next }

theorem Answered.read (h : Answered s) : s.hcHandleControlUrb = .ok s.afterRead := by
  have hread : ∀ pt, s.readEventfd pt = .ok { s.cleared with host := pt } :=
    fun pt => if_neg h.eventfd
  rw [Sys.hcHandleControlUrb, Sys.afterRead]
  cases hh : s.host with
  | outRead | outStatusRead | inRead | inStatusRead => exact hread _
  | readyRead r =>
      simp only [hread]
      rfl
  | _ => exact absurd (hh ▸ h.host) (by rintro ⟨⟩)

/-- The host controller takes the token. -/
theorem Answered.step (h : Answered s) (hf : s.host.Fits s.urb.dir) : Passed s s.afterRead := by
  rw [Sys.afterRead]
  cases hh : s.host with
  | outRead | outStatusRead | inRead | inStatusRead =>
      rw [hh] at hf
      exact ⟨.acts ⟨by rintro ⟨⟩, rfl, h.told, h.intr, h.devPt⟩, rfl, hf⟩
  | readyRead r => exact Acts.finish rfl rfl h.told h.intr h.devPt
  | _ => exact absurd (hh ▸ h.host) (by rintro ⟨⟩)

/-! ## All runs -/

/-- The invariant. -/
structure TokenInv (s : Sys) : Prop where
  token : Token s
  fits : s.host.Fits s.urb.dir

/-- **Step lemma.** -/
theorem TokenInv.step (h : TokenInv s) (hs : serve s ev = .ok s') : TokenInv s' := by
  cases ev with
  | submit u D =>
      rw [serve] at hs
      split at hs
      · rename_i r hh
        cases hs
        cases h.token with
        | acts h => exact ⟨.acts ⟨by rintro ⟨⟩, h.eventfd, h.told, h.intr, h.devPt⟩, trivial⟩
        | waits h | answered h => exact absurd (hh ▸ h.host) (by rintro ⟨⟩)
      · cases hs
  | host =>
      have hpass : Passed s s' := by
        cases h.token with
        | acts ha => exact ha.step h.fits hs
        | waits hw =>
            rw [serve, host_blocked hw.host hw.eventfd] at hs
            cases hs
        | answered ha =>
            cases hs.symm.trans ha.read
            exact ha.step h.fits
      exact ⟨hpass.token, hpass.urb ▸ hpass.fits⟩
  | device =>
      cases h.token with
      | waits hw =>
          obtain ⟨hh, hu, htoken⟩ := hw.handle hs
          refine ⟨htoken.elim .waits .answered, ?_⟩
          rw [hh, hu]
          exact h.fits
      | acts ha | answered ha =>
          rw [serve, handle_blocked ha.intr ha.devPt] at hs
          cases hs
  | answer a =>
      rw [serve] at hs
      split at hs
      · rename_i hd
        cases hs
        cases h.token with
        | waits hw => exact ⟨.answered (hw.respond hd), h.fits⟩
        | acts ha | answered ha =>
            rw [ha.devPt] at hd
            cases hd
      · cases hs

theorem tokenInv_of_reach {buf : Ptr Region} {n : Nat}
    (h : Reach serve anyEvent (attached d M buf n) s) : TokenInv s := by
  have hinit : TokenInv (attached d M buf n) :=
    ⟨.acts ⟨by rintro ⟨⟩, rfl, .inl rfl, rfl, rfl⟩, trivial⟩
  exact h.invariant hinit fun s ev s' hinv _ hs => hinv.step hs

/-! ## What a stall comes to -/

/-- The server has a control URB. -/
def Active (s : Sys) : Prop := ∀ r, s.host ≠ .done r

/-- The same state, where the device and the buffer of endpoint 0 are others. -/
def Sys.renewed (s : Sys) (d : UsbDev) (buf : Ptr Region) (len : Nat) : Sys :=
  { s with dev := d, ep0 := { s.ep0 with buf := buf, len := len } }

/-- The next URB is processed as if the device had not rejected a request: whatever its record
and the buffer of endpoint 0 are, it comes to the same answer of the application. -/
def NextAlike (s : Sys) : Prop :=
  ∀ (u : CtrlUrb) (D : Memory Unit Byte) (d : UsbDev) (buf : Ptr Region) (len : Nat),
    ∃ x y, ForcedRun serve Active (s.submit u D) x ∧
      ForcedRun serve Active ((s.renewed d buf len).submit u D) y ∧ x.devPt = .request ∧
      ∀ a : Action, a ≠ .error → serve x (.answer a) = serve y (.answer a)

/-- **What a rejected request promises** for the state in which `hc_handle_control_urb` returns:
the status of the reply is negative, endpoint 0 is ready for a SETUP token, and no token is
left. -/
structure RejectRight (s : Sys) : Prop where
  status : ∃ r < 0, s.host = .done r
  ready : s.ep0.state = .ready
  eventfd : s.ep0.eventfd = 0
  next : NextAlike s

theorem forced_of_host (hd : s.intr = none) (hp : s.devPt = .wait) (ha : Active s)
    (hs : s.hcHandleControlUrb = .ok s') : Forced serve s s' := by
  refine ⟨.host, hs, fun ev s₂ hs₂ => ?_⟩
  cases ev with
  | host => rfl
  | submit u D =>
      rw [serve] at hs₂
      split at hs₂
      · rename_i r hh
        exact absurd hh (ha r)
      · cases hs₂
  | device =>
      rw [serve, handle_blocked hd hp] at hs₂
      cases hs₂
  | answer a =>
      rw [serve, hp] at hs₂
      cases hs₂

theorem forced_of_handle (hb : s.hcHandleControlUrb = .error .blocked) (ha : Active s)
    (hp : s.devPt ≠ .request) (hs : s.handle = .ok s') : Forced serve s s' := by
  refine ⟨.device, hs, fun ev s₂ hs₂ => ?_⟩
  cases ev with
  | device => rfl
  | host =>
      rw [serve, hb] at hs₂
      cases hs₂
  | submit u D =>
      rw [serve] at hs₂
      split at hs₂
      · rename_i r hh
        exact absurd hh (ha r)
      · cases hs₂
  | answer a =>
      rw [serve, if_neg hp] at hs₂
      cases hs₂

theorem HostPt.Reads.active (h : s.host.Reads) : Active s := by
  intro r hr
  rw [hr] at h
  cases h

/-- The host controller finds the stall. -/
theorem error_of_stall (h : s.host.Moves) (hst : s.ep0.state = .stall) :
    s.hcHandleControlUrb = .ok (s.error epipe) := by
  have htrans : ∀ go, s.transaction go = .ok (s.error epipe) := by
    intro go
    simp only [Sys.transaction, hst]
  rw [Sys.hcHandleControlUrb]
  cases hh : s.host with
  | outData | outStatus | inData | inStatus => exact htrans _
  | _ => exact absurd (hh ▸ h) (by rintro ⟨⟩)

/-- The host controller takes the token, and finds the stall or ends the transfer. -/
theorem Answered.end_of_stall (h : Answered s) (hst : s.ep0.state = .stall) :
    (∃ r, s.host = .readyRead r ∧ ForcedRun serve Active s (s.cleared.finish r)) ∨
      (∀ r, s.host ≠ .readyRead r) ∧
        ∃ pt, ForcedRun serve Active s (Sys.error { s.cleared with host := pt } epipe) := by
  have hread : Forced serve s s.afterRead := forced_of_host h.intr h.devPt h.host.active h.read
  have hfind : ∀ pt : HostPt, pt.Moves → s.afterRead = { s.cleared with host := pt } →
      ForcedRun serve Active s (Sys.error { s.cleared with host := pt } epipe) := by
    intro pt hpt hafter
    rw [hafter] at hread
    have hactive : Active { s.cleared with host := pt } := by
      rintro r rfl
      cases hpt
    exact .head h.host.active hread
      (.head hactive (forced_of_host h.intr h.devPt hactive (error_of_stall hpt hst)) (.refl _))
  rw [Sys.afterRead] at hread hfind
  cases hh : s.host with
  | readyRead r =>
      rw [hh] at hread
      exact .inl ⟨r, rfl, .head h.host.active hread (.refl _)⟩
  | outRead c => exact .inr ⟨(by simp), _, hfind _ (.outData c) (by rw [hh]; rfl)⟩
  | outStatusRead => exact .inr ⟨(by simp), _, hfind _ .outStatus (by rw [hh]; rfl)⟩
  | inRead c => exact .inr ⟨(by simp), _, hfind _ (.inData c) (by rw [hh]; rfl)⟩
  | inStatusRead => exact .inr ⟨(by simp), _, hfind _ .inStatus (by rw [hh]; rfl)⟩
  | _ => exact absurd (hh ▸ h.host) (by rintro ⟨⟩)

/-- The answers of the application do not depend on what the device has kept. -/
theorem answer_congr {d' : UsbDev} {buf : Ptr Region} {n : Nat} (h : a ≠ .error)
    (hreq : d.devReq = d'.devReq) (hdata : d.ctrlData = d'.ctrlData) :
    a.answer M d e = a.answer M d' { e with buf := buf, len := n } := by
  obtain ⟨st, req, data⟩ := d
  obtain ⟨st', req', data'⟩ := d'
  cases hreq
  cases hdata
  cases a with
  | send | recv | ack => rfl
  | error => exact absurd rfl h

/-- Where the host controller goes after the SETUP token. -/
def CtrlUrb.first (u : CtrlUrb) : HostPt :=
  match u.dir with
  | .dirOut =>
      if u.dir = .dirOut ∧ u.setup.getD 6 0 = 0 ∧ u.setup.getD 7 0 = 0 then .outStatusRead
      else .outRead (Sys.count u.len)
  | .dirIn => .inRead (Sys.count u.len)

theorem CtrlUrb.first_reads : u.first.Reads := by
  rw [first]
  repeat' split
  · exact .outStatusRead
  · exact .outRead _
  · exact .inRead _

/-- The state in which the device has got the request. -/
def Sys.requested (s : Sys) (u : CtrlUrb) (D : Memory Unit Byte) : Sys :=
  let M := s.mem.write usbSetup u.setup
  { s.submit u D with
    host := u.first
    ep0 := { s.ep0 with state := .nak }
    mem := M
    dev := s.dev.beginSetup (deviceReq (M.read usbSetup 8))
    devPt := .request }

/-- The next URB, up to the request. -/
theorem request_run (h : Acts s) (hst : s.ep0.state = .ready) :
    ForcedRun serve Active (s.submit u D) (s.requested u D) := by
  have hsetup : (s.submit u D).hcHandleControlUrb = .ok { s.requested u D with
      dev := s.dev, devPt := .wait, intr := some .setup } := by
    simp only [Sys.hcHandleControlUrb, Sys.submit, Sys.controlSetupTransaction, Sys.transaction,
      hst, Sys.notifyDevice, Sys.setEp0State, h.intr, h.devPt, if_true]
    rfl
  have hactive : ∀ pt, Active { s.requested u D with dev := s.dev, devPt := pt } :=
    fun _ => CtrlUrb.first_reads.active (s := s.requested u D)
  have hblocked : ∀ s₁ : Sys, s₁.host = u.first → s₁.ep0.eventfd = 0 →
      s₁.hcHandleControlUrb = .error .blocked :=
    fun s₁ hh he => host_blocked (hh ▸ CtrlUrb.first_reads) he
  have htake : Forced serve
      { s.requested u D with dev := s.dev, devPt := .wait, intr := some .setup }
      { s.requested u D with dev := s.dev, devPt := .took .setup, intr := none } :=
    forced_of_handle (hblocked _ rfl h.eventfd) (hactive .wait) (by simp) rfl
  have hhandle : Forced serve
      { s.requested u D with dev := s.dev, devPt := .took .setup, intr := none }
      (s.requested u D) := by
    refine forced_of_handle (hblocked _ rfl h.eventfd) (hactive .wait) (by simp) ?_
    rw [Sys.requested, ← h.intr]
    rfl
  have hstart : Active (s.submit u D) := fun r => by rintro ⟨⟩
  exact .head hstart (forced_of_host h.intr h.devPt hstart hsetup)
    (.head (hactive .wait) htake (.head (hactive .wait) hhandle (.refl _)))

/-- The device has kept nothing that the next URB depends on. -/
theorem nextAlike (h : Acts s) (hst : s.ep0.state = .ready) : NextAlike s := by
  intro u D d buf n
  have hrenewed : Acts (s.renewed d buf n) := ⟨h.host, h.eventfd, h.told, h.intr, h.devPt⟩
  refine ⟨_, _, request_run h hst, request_run hrenewed hst, rfl, fun a ha => ?_⟩
  let M := s.mem.write usbSetup u.setup
  have hanswer : a.answer M (s.dev.beginSetup (deviceReq (M.read usbSetup 8)))
      { s.ep0 with state := .nak } = a.answer M (d.beginSetup (deviceReq (M.read usbSetup 8)))
        { { s.ep0 with state := .nak } with buf := buf, len := n } :=
    answer_congr ha rfl rfl
  exact congrArg (fun r : UsbDev × UsbControl =>
    Except.ok { s.requested u D with dev := r.1, ep0 := r.2, devPt := .wait }) hanswer

/-! ## When the promise is kept -/

/-- The device stalls endpoint 0 when it has the token. -/
theorem TokenInv.answered_of_stall (h : TokenInv s) (hev : ev.OfDevice) (hs : serve s ev = .ok s')
    (hst : s'.ep0.state = .stall) : Answered s' ∧ s'.host = s.host ∧ s'.urb = s.urb := by
  have hwaits : Waits s := by
    cases h.token with
    | waits hw => exact hw
    | acts ha | answered ha =>
        cases ev with
        | submit | host => exact hev.elim
        | device =>
            rw [serve, handle_blocked ha.intr ha.devPt] at hs
            cases hs
        | answer =>
            rw [serve, ha.devPt] at hs
            cases hs
  cases ev with
  | submit | host => exact hev.elim
  | device =>
      obtain ⟨hh, hu, hw | ha⟩ := hwaits.handle hs
      · rw [hw.nak] at hst
        cases hst
      · exact ⟨ha, hh, hu⟩
  | answer a =>
      rw [serve] at hs
      split at hs
      · rename_i hd
        cases hs
        exact ⟨hwaits.respond hd, rfl, rfl⟩
      · cases hs

/-- An error is reported for direction OUT only. -/
theorem error_right_iff (he : s.ep0.eventfd = 0) (hi : s.intr = none) (hd : s.devPt = .wait)
    (hr : r < 0) : RejectRight (s.error r) ↔ s.urb.dir = .dirOut := by
  have hacts : Acts (s.error r) := finish_acts he (.inl rfl) hi hd
  have hready : (s.error r).ep0.state = .ready := by rw [Sys.error, finish_ep0]
  constructor
  · rintro ⟨⟨r', hr', hh⟩, -⟩
    rw [Sys.error, Sys.finish] at hh
    split at hh
    · cases hh
      exact absurd hr' (lt_irrefl 0)
    · rename_i hdir
      exact hdir
  · intro hdir
    refine ⟨⟨r, hr, ?_⟩, hready, hacts.eventfd, nextAlike hacts hready⟩
    simp only [Sys.error, Sys.finish, hdir]

/-- The wait for the next SETUP token leaves the stall where it is. -/
theorem not_right_of_stall (hst : s.ep0.state = .stall) : ¬ RejectRight (s.finish r) := by
  intro h
  have hready := h.ready
  rw [finish_ep0, hst] at hready
  cases hready

theorem not_active_finish : ¬ Active (s.finish r) := by
  obtain ⟨r', hr'⟩ := finish_host (s := s) (r := r)
  exact fun h => h r' hr'

/-- What a stall by the device comes to. -/
theorem TokenInv.reject_right (h : TokenInv s) (hev : ev.OfDevice) (hs : serve s ev = .ok s')
    (hst : s'.ep0.state = .stall) : (∃ t, ForcedRun serve Active s' t ∧ RejectRight t) ↔
      s.urb.dir = .dirOut ∧ ∀ r, s.host ≠ .readyRead r := by
  obtain ⟨ha, hh, hu⟩ := h.answered_of_stall hev hs hst
  rw [← hh, ← hu]
  -- all runs from here come to the same end of the transfer
  have hend : ∀ t t', ForcedRun serve Active s' t → ¬ Active t → ForcedRun serve Active s' t' →
      RejectRight t' → RejectRight t := by
    intro t t' hrun hdone hrun' hright
    obtain ⟨r, -, hr⟩ := hright.status
    rwa [hrun.unique hrun' hdone fun h => h r hr]
  rcases ha.end_of_stall hst with ⟨r, hr, hrun⟩ | ⟨hne, pt, hrun⟩
  · refine iff_of_false ?_ fun hc => hc.2 r hr
    rintro ⟨t, hrun', hright⟩
    exact not_right_of_stall (s := s'.cleared) hst (hend _ _ hrun not_active_finish hrun' hright)
  · have hiff := error_right_iff (s := { s'.cleared with host := pt }) rfl ha.intr ha.devPt
      (show epipe < 0 by decide)
    constructor
    · rintro ⟨t, hrun', hright⟩
      exact ⟨hiff.mp (hend _ _ hrun not_active_finish hrun' hright), hne⟩
    · rintro ⟨hdir, -⟩
      exact ⟨_, hrun, hiff.mpr hdir⟩

/-- **A rejected request is reported as failed if and only if the URB is of direction OUT and the
host controller has not come to the end of the transfer**, whatever URBs there have been, in
whatever way their requests have been answered. -/
theorem reject_right_iff (d : UsbDev) (M : Mem) (buf : Ptr Region) (n : Nat) (s s' : Sys)
    (ev : CtrlEvent) (h : Reach serve anyEvent (attached d M buf n) s) (hev : ev.OfDevice)
    (hs : serve s ev = .ok s') (hst : s'.ep0.state = .stall) :
    (∃ t, ForcedRun serve Active s' t ∧ RejectRight t) ↔
      s.urb.dir = .dirOut ∧ ∀ r, s.host ≠ .readyRead r :=
  (tokenInv_of_reach h).reject_right hev hs hst

/-- The server at the start, with memory that is all 0. -/
def attached0 : Sys :=
  attached ⟨.waitSetup, ⟨0, 0, 0, 0, 0⟩, ⟨Region.null.ptr, 0, false⟩⟩ (fun _ _ => 0) usbSetup 8

/-- The client submits a request of a vendor that sends 8 bytes, and the device gets it. -/
def write8 : List CtrlEvent :=
  [.submit ⟨.dirOut, 8, [0x40, 0, 0, 0, 0, 0, 8, 0]⟩ fun _ _ => 0, .host, .device, .device]

/-- The request is rejected when the device gets it. -/
theorem reject_right_write : ∃ s s' : Sys, serve s (.answer .error) = .ok s' ∧
    ∃ t, ForcedRun serve Active s' t ∧ RejectRight t := by
  have hrun : runTest serve (fun _ _ => true)
      (fun s => decide (s.urb.dir = .dirOut ∧ s.host = .outRead 8 ∧ s.devPt = .request)) attached0
      write8 = true := by
    decide +kernel
  obtain ⟨s, hs, hp⟩ := reach_any_of_runTest hrun
  obtain ⟨hdir, hh, hd⟩ := of_decide_eq_true hp
  have hanswer : serve s (.answer .error) = .ok (s.respond Action.error.answer) := if_pos hd
  have hev : (CtrlEvent.answer .error).OfDevice := trivial
  refine ⟨s, _, hanswer, (reject_right_iff _ _ _ _ s _ _ hs hev hanswer rfl).mpr ⟨hdir, ?_⟩⟩
  rw [hh]
  simp

/-- **Requests that are rejected and reported as carried out**: the device answers
`GET_DESCRIPTOR` with an error, and when it wants 16 bytes and the host sends 8 of them, it
stalls endpoint 0 at the status packet.  The status of both replies is 0; and after the second
one endpoint 0 is stalled. -/
theorem reject_not_right :
    (∃ s s' t : Sys, Reach serve anyEvent attached0 s ∧ serve s (.answer .error) = .ok s' ∧
      ForcedRun serve Active s' t ∧ t.host = .done 0 ∧
      ¬ ∃ t, ForcedRun serve Active s' t ∧ RejectRight t) ∧
    ∃ s s' t : Sys, Reach serve anyEvent attached0 s ∧ s.urb.dir = .dirOut ∧
      serve s .device = .ok s' ∧ s'.ep0.state = .stall ∧
      ForcedRun serve Active s' t ∧ t.host = .done 0 ∧ t.ep0.state = .stall ∧
      ¬ ∃ t, ForcedRun serve Active s' t ∧ RejectRight t := by
  have hread : runTest serve (fun _ _ => true)
      (fun s => decide (s.urb.dir = .dirIn ∧ s.host = .inRead 64 ∧ s.devPt = .request)) attached0
      [.submit ⟨.dirIn, 64, [0x80, 6, 0, 1, 0, 0, 64, 0]⟩ fun _ _ => 0, .host, .device,
        .device] = true := by
    decide +kernel
  have hwrite : runTest serve (fun _ _ => true)
      (fun s => decide (s.urb.dir = .dirOut ∧ s.host = .readyRead 0 ∧
        s.devPt = .took (.dataTransfer .dirIn) ∧
        (handleIn0 s.mem s.dev s.ep0).1.2.state = .stall)) attached0
      (write8 ++ [.answer (.recv Region.app.ptr 16), .host, .host, .device, .device, .host, .host,
        .device]) = true := by
    decide +kernel
  refine ⟨?_, ?_⟩
  · obtain ⟨s, hs, hp⟩ := reach_any_of_runTest hread
    obtain ⟨hdir, hh, hd⟩ := of_decide_eq_true hp
    have hanswer : serve s (.answer .error) = .ok (s.respond Action.error.answer) := if_pos hd
    have hev : (CtrlEvent.answer .error).OfDevice := trivial
    have hinv := tokenInv_of_reach hs
    have hiff := hinv.reject_right hev hanswer rfl
    rcases (hinv.answered_of_stall hev hanswer rfl).1.end_of_stall rfl with
      ⟨r, hr, -⟩ | ⟨-, pt, hrun⟩
    · cases hr.symm.trans hh
    · refine ⟨s, _, _, hs, hanswer, hrun, ?_, fun h => ?_⟩
      · have hdir' : (s.respond Action.error.answer).urb.dir = .dirIn := hdir
        simp only [Sys.error, Sys.finish, Sys.cleared, hdir']
      · cases (hiff.mp h).1.symm.trans hdir
  · obtain ⟨s, hs, hp⟩ := reach_any_of_runTest hwrite
    obtain ⟨hdir, hh, hd, hst⟩ := of_decide_eq_true hp
    have hhandle : serve s .device = .ok (s.handleEvent (.dataTransfer .dirIn)) := by
      rw [serve, Sys.handle, hd]
    have hst' : (s.handleEvent (.dataTransfer .dirIn)).ep0.state = .stall := hst
    have hev : CtrlEvent.device.OfDevice := trivial
    have hinv := tokenInv_of_reach hs
    have hiff := hinv.reject_right hev hhandle hst'
    rcases (hinv.answered_of_stall hev hhandle hst').1.end_of_stall hst' with
      ⟨r, hr, hrun⟩ | ⟨hne, -⟩
    · cases hr.symm.trans hh
      refine ⟨s, _, _, hs, hdir, hhandle, hst', hrun, ?_, ?_, fun h => (hiff.mp h).2 0 hh⟩
      · have hdir' : (s.handleEvent (.dataTransfer .dirIn)).urb.dir = .dirOut := hdir
        simp only [Sys.finish, Sys.cleared, hdir']
      · rw [finish_ep0]
        exact hst'
    · exact absurd hh (hne 0)

end Chopstx.Usb.Usbip
