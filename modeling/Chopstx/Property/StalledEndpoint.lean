import Chopstx.Property.UrbReply

/-!
# A data endpoint is stalled under an URB

The device tells the server of a stall by the same eventfd by which it tells that a buffer is
enabled, and `usbip_ep_ready` does not look at the state of the endpoint.  So it makes a
transaction with the buffer that the endpoint had before; only one for which this buffer is too
small comes to `-EPIPE`.

* `usbLldStallTx`, `usbLldStallRx` - stalling an endpoint, with the event of it.
* `TooSmall`, `ready_tooSmall` - the next packet does not fit into the buffer, and what
  `usbip_ep_ready` does then; `hcHandleDataUrb_moves` is what it does else.
* `Apart`, `step_apart` - the steps for other endpoints.
* `Phase`, `Stalled` - what has become of the URB since the stall.
* `step`, `steps` - the step lemma and the run lemma.
* `StallRight`, `stall_right_iff` - what is promised, and when it is kept.
* `stall_right_out`, `stall_not_right` - an endpoint OUT, and one IN.
-/

namespace Chopstx.Usb.Usbip.Server

open Transition

/-! ## Stalling -/

/-- What `usb_lld_stall_tx` and `usb_lld_stall_rx` have in common. -/
def State.stallEvent (s : State) (e : Bool × Nat) : Event :=
  .device e (s.endp e).toUsbControl.putStall s.mem

/-- `usb_lld_stall_tx` -/
def usbLldStallTx (s : State) (n : Nat) : Event := s.stallEvent (true, n)

/-- `usb_lld_stall_rx` -/
def usbLldStallRx (s : State) (n : Nat) : Event := s.stallEvent (false, n)

/-- An event in which neither the device nor, through it, the host clears or changes the
endpoint. -/
def Untouched (e : Bool × Nat) (_ : State) : Event → Prop
  | .device e' _ _ => e' ≠ e
  | _ => True

/-- The status of a reply. -/
def Reply.status : Reply → Int
  | .finish _ _ status .. | .fail _ _ status | .unlink _ status => status

/-- **What stalling an endpoint promises** for the URB `n` that is pending on it, where `s₁` is the
state after the call: whatever the client, the other endpoints and the server then do, the
endpoint stays stalled; what the server does when it comes to the endpoint moves no data and
tells the device of none; and the URB, unless it is taken back, is completed with `-EPIPE`. -/
structure StallRight (s₁ : State) (e : Bool × Nat) (n : Nat) : Prop where
  stays : ∀ s₂, Steps step (Untouched e) s₁ s₂ → (s₂.endp e).state = .stall
  still : ∀ s₂ s₃, Steps step (Untouched e) s₁ s₂ → step s₂ (.ready e) = .ok s₃ →
    s₃.mem = s₂.mem ∧ s₃.notified = s₂.notified ∧ ∀ m, (s₃.urb m).data = (s₂.urb m).data
  completes : ∀ s₂, Steps step (Untouched e) s₁ s₂ → n ∈ s₂.urbs →
    ∃ s₃, step s₂ (.ready e) = .ok s₃ ∧ n ∉ s₃.urbs
  status : ∀ s₂, Steps step (Untouched e) s₁ s₂ → ∀ r ∈ s₂.replies n, r.status = epipe

/-- The number of bytes of the next transaction of an URB. -/
def Urb.count (u : Urb) : Nat := if u.remain.toNat > 64 then 64 else u.remain.toNat

/-- The buffer of an OUT endpoint is too small for the next transaction. -/
def TooSmall (s : State) (e : Bool × Nat) (n : Nat) : Prop :=
  e.1 = false ∧ (s.endp e).len < (s.urb n).count

variable {s s' s₁ s₂ : State} {l l' : List Nat} {n m : Nat} {e e' : Bool × Nat} {ev : Event}
  {x : Submit} {a : Answer}

/-! ## The server comes to the endpoint -/

theorem dir_of_endp (h : (s.urb n).endp = e) : e.1 = false ↔ (s.urb n).dir = dirOut := by
  rw [← h]
  simp [Urb.endp]

/-- The state in which `hc_handle_data_urb` begins. -/
def State.ackEventfd (s : State) (e : Bool × Nat) : State :=
  s.setEndp e { s.endp e with eventfd := 0 }

theorem ackEventfd_alike : Alike s (s.ackEventfd e) := .setEndp rfl

@[simp] theorem ackEventfd_urb : (s.ackEventfd e).urb = s.urb := State.setEndp_urb

@[simp] theorem ackEventfd_endp : (s.ackEventfd e).endp e = { s.endp e with eventfd := 0 } :=
  State.setEndp_endp_self

/-- `usbip_ep_ready` for an URB that is finished by the transaction. -/
theorem usbipEpReady_finish {r : Int} (hq : Queued s l) (hc : (s.endp e).urb = some n)
    (hf : (s.endp e).eventfd ≠ 0) (hr : (s.ackEventfd e).hcHandleDataUrb e n = (r, s₁))
    (hle : r ≤ 0) : ∃ next, s.usbipEpReady e = .ok ((s₁.usbipFinishUrb n r).setEndp e
      { s₁.endp e with urb := next }) := by
  have ha : Alike s s₁ := by
    have h := ackEventfd_alike.trans (hcHandleDataUrb_alike (s := s.ackEventfd e) (e := e) (n := n))
    rwa [hr] at h
  have hseq : ∀ m, (s₁.urb m).seq = (s.urb m).seq := by
    intro m
    have h := hcHandleDataUrb_seq (s := s.ackEventfd e) (e := e) (n := n) (m := m)
    rwa [hr, ackEventfd_urb] at h
  have ht : Turned s s₁ l (.ready e) l := .of_alike hq ha hseq
  obtain ⟨p, q, next, -, -, hnext, -⟩ := (hq.turned ht).next ((ha.current e).trans hc)
  refine ⟨next, ?_⟩
  rw [State.usbipEpReady, hc]
  dsimp only
  rw [if_neg hf]
  have hr' : (s.setEndp e { s.endp e with eventfd := 0 }).hcHandleDataUrb e n = (r, s₁) := hr
  simp only [hr', if_pos hle, hnext]
  rfl

/-- The transaction fails when the buffer is too small. -/
theorem hcHandleDataUrb_tooSmall (he : (s.urb n).endp = e) (h : TooSmall s e n) :
    (s.ackEventfd e).hcHandleDataUrb e n = (epipe, (s.ackEventfd e).setEndp e
      { (s.ackEventfd e).endp e with state := .stall }) := by
  have hdir : (s.urb n).dir = dirOut := (dir_of_endp he).mp h.1
  have hlt : ((s.ackEventfd e).endp e).len < (s.urb n).count := by
    rw [ackEventfd_endp]
    exact h.2
  rw [State.hcHandleDataUrb, ackEventfd_urb]
  dsimp only
  rw [if_pos hdir, State.writeDataTransaction]
  dsimp only
  rw [show (if (s.urb n).remain.toNat > 64 then 64 else (s.urb n).remain.toNat) = (s.urb n).count
    from rfl, if_pos hlt]
  rfl

/-- The URB of the endpoint was finished with `-EPIPE`, and nothing else was done. -/
structure Refused (s s' : State) (e : Bool × Nat) (n : Nat) : Prop where
  sent : ∃ seq len data, s'.sent = s.sent ++ [.finish n seq epipe len data]
  state : (s'.endp e).state = .stall
  eventfd : (s'.endp e).eventfd = 0
  mem : s'.mem = s.mem
  notified : s'.notified = s.notified
  urb : s'.urb = s.urb

/-- **The server comes to an endpoint whose buffer is too small.** -/
theorem ready_tooSmall (hq : Queued s l) (hc : (s.endp e).urb = some n)
    (hf : (s.endp e).eventfd ≠ 0) (h : TooSmall s e n) :
    ∃ s', s.usbipEpReady e = .ok s' ∧ Refused s s' e n := by
  have hr := hcHandleDataUrb_tooSmall (hq.current e n hc).2 h
  obtain ⟨next, hs⟩ := usbipEpReady_finish hq hc hf hr (by decide)
  have hold : ((s.ackEventfd e).setEndp e { (s.ackEventfd e).endp e with state := .stall }).sent =
      s.sent := by
    rw [State.setEndp_sent, State.ackEventfd, State.setEndp_sent]
  generalize hs₁ : (s.ackEventfd e).setEndp e { (s.ackEventfd e).endp e with state := .stall } = s₁
    at hs hold
  obtain ⟨len, data, hsent⟩ := usbipFinishUrb_sent (s := s₁) (n := n) (r := epipe)
  rw [hold] at hsent
  refine ⟨_, hs, ⟨_, len, data, State.setEndp_sent.trans hsent⟩, ?_, ?_, ?_, ?_, ?_⟩
  · simp [← hs₁]
  · simp [← hs₁]
  · simp [State.usbipFinishUrb, State.unlinkUrb, State.ackEventfd, ← hs₁]
  · simp [State.usbipFinishUrb, State.unlinkUrb, State.ackEventfd, ← hs₁]
  · simp [← hs₁]

/-- A transaction with any other buffer. -/
theorem hcHandleDataUrb_moves (he : (s.urb n).endp = e) (h : ¬ TooSmall s e n) :
    (((s.ackEventfd e).hcHandleDataUrb e n).2.endp e).state = .nak := by
  have hdir := dir_of_endp he
  rw [State.hcHandleDataUrb, ackEventfd_urb]
  dsimp only
  rw [show (if (s.urb n).remain.toNat > 64 then 64 else (s.urb n).remain.toNat) = (s.urb n).count
    from rfl]
  by_cases hout : (s.urb n).dir = dirOut
  · have hge : ¬ ((s.ackEventfd e).endp e).len < (s.urb n).count := by
      rw [ackEventfd_endp]
      exact fun hlt => h ⟨hdir.mpr hout, hlt⟩
    rw [if_pos hout, State.writeDataTransaction]
    dsimp only
    rw [if_neg hge]
    split <;> exact congrArg (fun c : Endp => c.state) State.setEndp_endp_self
  · rw [if_neg hout, State.readDataTransaction]
    dsimp only
    repeat' split
    all_goals exact congrArg (fun c : Endp => c.state) State.setEndp_endp_self

/-- An endpoint to which the server comes with any other buffer is not stalled any more. -/
theorem ready_moves (hq : Queued s l) (hc : (s.endp e).urb = some n)
    (hf : (s.endp e).eventfd ≠ 0) (h : ¬ TooSmall s e n) :
    ∃ s', s.usbipEpReady e = .ok s' ∧ (s'.endp e).state = .nak := by
  have hst := hcHandleDataUrb_moves (hq.current e n hc).2 h
  generalize hr : (s.ackEventfd e).hcHandleDataUrb e n = res at hst
  obtain ⟨r, s₁⟩ := res
  by_cases hle : r ≤ 0
  · obtain ⟨next, hs⟩ := usbipEpReady_finish hq hc hf hr hle
    refine ⟨_, hs, ?_⟩
    rw [State.setEndp_endp_self]
    exact hst
  · refine ⟨s₁, ?_, hst⟩
    have hr' : (s.setEndp e { s.endp e with eventfd := 0 }).hcHandleDataUrb e n = (r, s₁) := hr
    rw [State.usbipEpReady, hc]
    simp only [if_neg hf, hr', if_neg hle]

/-! ## The other steps -/

/-- The pointer of the endpoint stays as it is, or the URB is taken back. -/
def Pointer (s s' : State) (e : Bool × Nat) : Prop :=
  (s'.endp e).urb = (s.endp e).urb ∨
    (s'.endp e).urb = none ∧ s'.replies = s.replies ∧ ∃ m, (s.endp e).urb = some m ∧ m ∉ s'.urbs

/-- What the other steps leave as it is: the record of the endpoint but for its pointer, and the
URBs that are for it. -/
structure Apart (s s' : State) (e : Bool × Nat) : Prop where
  control : (s'.endp e).toUsbControl = (s.endp e).toUsbControl
  urb : ∀ n, n ≠ s.nurb → (s.urb n).endp = e → s'.urb n = s.urb n

theorem hcHandleDataUrb_apart (hne : e ≠ e') :
    (s.hcHandleDataUrb e' m).2.endp e = s.endp e := by
  have hset : ∀ c, (s.setEndp e' c).endp e = s.endp e := by
    intro c
    rw [State.endp_setEndp, if_neg hne]
  rw [State.hcHandleDataUrb]
  dsimp only
  rw [State.writeDataTransaction, State.readDataTransaction]
  dsimp only
  repeat' split
  all_goals exact hset _

theorem setUrb_urb_of_ne {u : Urb} (hne : n ≠ m) : (s.setUrb m u).urb n = s.urb n :=
  Function.update_of_ne hne ..

theorem hcHandleDataUrb_urb (hne : n ≠ m) : (s.hcHandleDataUrb e' m).2.urb n = s.urb n := by
  rw [State.hcHandleDataUrb]
  dsimp only
  rw [State.writeDataTransaction, State.readDataTransaction]
  dsimp only
  repeat' split
  all_goals simp [setUrb_urb_of_ne hne]

/-- What `usbip_ep_ready` can do. -/
theorem usbipEpReady_cases (hs : s.usbipEpReady e = .ok s') :
    ((s.endp e).urb = none ∧ s' = s) ∨
    ∃ m r s₁, (s.endp e).urb = some m ∧ (s.endp e).eventfd ≠ 0 ∧
      (s.ackEventfd e).hcHandleDataUrb e m = (r, s₁) ∧
      (s' = s₁ ∨ ∃ next,
        s' = (s₁.usbipFinishUrb m r).setEndp e { s₁.endp e with urb := next }) := by
  rw [State.usbipEpReady] at hs
  split at hs
  · rename_i hc
    cases hs
    exact .inl ⟨hc, rfl⟩
  · rename_i m hc
    split at hs
    · cases hs
    · rename_i hf
      obtain ⟨r, s₁, hr⟩ : ∃ r s₁, (s.ackEventfd e).hcHandleDataUrb e m = (r, s₁) := ⟨_, _, rfl⟩
      have hr' : (s.setEndp e { s.endp e with eventfd := 0 }).hcHandleDataUrb e m = (r, s₁) := hr
      refine .inr ⟨m, r, s₁, hc, hf, hr, ?_⟩
      simp only [hr'] at hs
      split at hs
      · split at hs
        · cases hs
        · rename_i next hnext
          cases hs
          exact .inr ⟨next, rfl⟩
      · cases hs
        exact .inl rfl

/-- The server comes to another endpoint. -/
theorem usbipEpReady_apart (hq : Queued s l) (hne : e ≠ e') (hs : s.usbipEpReady e' = .ok s') :
    Apart s s' e ∧ (s'.endp e).urb = (s.endp e).urb := by
  rcases usbipEpReady_cases hs with ⟨-, rfl⟩ | ⟨m, r, s₁, hc, -, hr, hs'⟩
  · exact ⟨⟨rfl, fun _ _ _ => rfl⟩, rfl⟩
  · have hset : ∀ (s₂ : State) (c : Endp), (s₂.setEndp e' c).endp e = s₂.endp e := by
      intro s₂ c
      rw [State.endp_setEndp, if_neg hne]
    have hendp : s₁.endp e = s.endp e := by
      have h := hcHandleDataUrb_apart (s := s.ackEventfd e') (m := m) hne
      rwa [hr, State.ackEventfd, hset] at h
    have hurb : ∀ n, (s.urb n).endp = e → s₁.urb n = s.urb n := by
      intro n he
      have hnm : n ≠ m := by
        rintro rfl
        exact hne (he.symm.trans (hq.current e' n hc).2)
      have h : ((s.ackEventfd e').hcHandleDataUrb e' m).2.urb n = (s.ackEventfd e').urb n :=
        hcHandleDataUrb_urb hnm
      rwa [hr, ackEventfd_urb] at h
    obtain ⟨hendp', hurb'⟩ : s'.endp e = s₁.endp e ∧ s'.urb = s₁.urb := by
      rcases hs' with rfl | ⟨next, rfl⟩
      · exact ⟨rfl, rfl⟩
      · exact ⟨hset _ _, State.setEndp_urb⟩
    rw [hendp', hendp]
    exact ⟨⟨by rw [hendp', hendp], fun n _ he => by rw [hurb', hurb n he]⟩, rfl⟩

theorem unlinkUrbEp_control (hs : s.unlinkUrbEp n = .ok s') :
    (s'.endp e).toUsbControl = (s.endp e).toUsbControl := by
  rw [State.unlinkUrbEp] at hs
  simp only at hs
  split at hs
  · cases hs
  · split at hs
    · cases hs
      rw [State.endp_setEndp]
      split
      · rename_i he
        rw [he]
      · rfl
    · cases hs
      rfl

/-- The client takes an URB back: the pointer of the endpoint stays as it is, or it was to that
URB and is to none. -/
theorem usbipUnlinkUrb_apart {seq flags : BitVec 32} (hq : Queued s l)
    (hs : s.usbipUnlinkUrb seq flags = .ok s') : Apart s s' e ∧ Pointer s s' e := by
  have hreplies : s'.replies = s.replies := by
    obtain ⟨l', ht⟩ := usbipUnlinkUrb_turned hq hs
    clear hs
    cases ht.turn with
    | stay _ hs | takeBack _ _ _ hs => exact hs
  rcases usbipUnlinkUrb_cases hq.listed hs with rfl | ⟨p, q, m, s₁, rfl, -, hs₁, rfl⟩
  · exact ⟨⟨rfl, fun _ _ _ => rfl⟩, .inl rfl⟩
  · obtain ⟨hurb, hlinks, hlist, hnurb, hsent, hcur⟩ := unlinkUrbEp_spec hs₁
    have hcontrol : (s₁.endp e).toUsbControl = (s.endp e).toUsbControl :=
      unlinkUrbEp_control (s := s.unlinkUrb m) hs₁
    have hl : Listed (s.unlinkUrb m) (p ++ q) := hq.listed.unlink
    refine ⟨⟨hcontrol, fun n _ _ => congrFun hurb n⟩, ?_⟩
    have h := hcur e
    split at h
    · rename_i hc
      refine .inr ⟨h, hreplies, m, hc.2, ?_⟩
      have hl' : Listed { s₁ with sent := s₁.sent ++ [.unlink seq econnreset] } (p ++ q) :=
        hl.congr hlinks hlist hnurb
      rw [hl'.urbs_eq]
      exact (List.nodup_cons.mp (List.nodup_middle.mp hq.listed.circle.nodup)).1
    · exact .inl h

/-- The client submits an URB while the endpoint is stalled. -/
theorem usbipHandleUrb_apart (hq : Queued s l) (hst : (s.endp e).state = .stall)
    (hs : s.usbipHandleUrb x a = .ok s') : Apart s s' e ∧ (s'.endp e).urb = (s.endp e).urb := by
  obtain ⟨cmd, hx, -⟩ := usbipHandleUrb_ok.mp ⟨s', hs⟩
  obtain ⟨hnew, hsub⟩ := usbipHandleUrb_submitted hq.listed hx hs
  have hendp : s'.endp e = s.endp e := by
    cases hsub with
    | failed _ _ _ he => rw [he]
    | finished _ _ _ _ _ he => rw [he]
    | queued hf hep hlt hsent hl he =>
        rw [he, if_neg]
        rintro ⟨rfl, -⟩
        exact hf (.inr (.inr ⟨hep, .inr hst⟩))
  exact ⟨⟨by rw [hendp], fun n hn _ => hnew.urb n hn⟩, by rw [hendp]⟩

/-- Any step but the coming of the server to the endpoint. -/
theorem step_apart (hq : Queued s l) (hst : (s.endp e).state = .stall) (hok : Untouched e s ev)
    (hev : ev ≠ .ready e) (hs : step s ev = .ok s') :
    Apart s s' e ∧ Pointer s s' e := by
  cases ev with
  | submit x a => exact (usbipHandleUrb_apart hq hst hs).imp_right .inl
  | unlink seq flags => exact usbipUnlinkUrb_apart hq hs
  | ready e' =>
      have hne : e ≠ e' := by
        rintro rfl
        exact hev rfl
      exact (usbipEpReady_apart hq hne hs).imp_right .inl
  | device e' c M =>
      cases hs
      have hendp : (s.setEndp e' { s.endp e' with toUsbControl := c }).endp e = s.endp e := by
        rw [State.endp_setEndp, if_neg (Ne.symm hok)]
      exact ⟨⟨congrArg Endp.toUsbControl hendp, fun m _ _ => congrFun State.setEndp_urb m⟩,
        .inl (congrArg Endp.urb hendp)⟩

/-! ## After the stall -/

/-- What has become of the URB: the server has not come to the endpoint yet, or the URB is
refused or taken back, and the server does not come to the endpoint. -/
inductive Phase (s : State) (l : List Nat) (e : Bool × Nat) (n : Nat) : Prop
  | pending (hc : (s.endp e).urb = some n) (hf : (s.endp e).eventfd ≠ 0) (h : TooSmall s e n)
      (hr : s.replies n = [])
  | past (hn : n ∉ l) (hr : ∀ r ∈ s.replies n, r.status = epipe)
      (hidle : (s.endp e).urb = none ∨ (s.endp e).eventfd = 0)

/-- The URBs `l` are in the list, the endpoint is stalled, and the URB has been submitted. -/
structure Stalled (s : State) (l : List Nat) (e : Bool × Nat) (n : Nat) : Prop where
  queued : Queued s l
  state : (s.endp e).state = .stall
  lt : n < s.nurb
  phase : Phase s l e n

namespace Stalled

variable {r : Reply}

/-- In the second phase, a step leaves the replies as they are. -/
theorem replies_past (h : Stalled s l e n) (hn : n ∉ l) (ht : Turned s s' l ev l') :
    s'.replies n = s.replies n :=
  ht.replies_eq h.queued.listed.circle.nodup h.lt (.inl hn)

/-- The server comes to the endpoint. -/
theorem ready (h : Stalled s l e n) (hs : s.usbipEpReady e = .ok s') :
    (Refused s s' e n ∧ s.replies n = []) ∨ (n ∉ l ∧ s' = s) := by
  cases h.phase with
  | pending hc hf hsmall hr =>
      obtain ⟨s₁, hs₁, href⟩ := ready_tooSmall h.queued hc hf hsmall
      cases hs.symm.trans hs₁
      exact .inl ⟨href, hr⟩
  | past hn hr hidle =>
      rcases usbipEpReady_cases hs with ⟨-, rfl⟩ | ⟨m, r, s₁, hc, hf, -⟩
      · exact .inr ⟨hn, rfl⟩
      · rcases hidle with hidle | hidle
        · rw [hc] at hidle
          cases hidle
        · exact absurd hidle hf

/-- The URB is refused. -/
theorem refused (h : Stalled s l e n) (href : Refused s s' e n) (hr : s.replies n = [])
    (ht : Turned s s' l ev l') : n ∉ l' ∧ ∀ r ∈ s'.replies n, r.status = epipe := by
  obtain ⟨seq, len, data, hsent⟩ := href.sent
  have hone := replies_concat (n := n) hsent
  have hans : Reply.answers true (.finish n seq epipe len data) = some n := rfl
  rw [hr, List.nil_append, if_pos hans] at hone
  refine ⟨fun hn => ?_, fun r hmem => ?_⟩
  · have hsame := ht.replies_eq h.queued.listed.circle.nodup h.lt (.inr hn)
    rw [hone, hr] at hsame
    cases hsame
  · rw [hone, List.mem_singleton] at hmem
    rw [hmem]
    rfl

/-- **Step lemma.** -/
theorem step (h : Stalled s l e n) (hok : Untouched e s ev) (hs : step s ev = .ok s') :
    ∃ l', Stalled s' l' e n := by
  obtain ⟨l', ht⟩ := step_turned h.queued hs
  have hq := h.queued.turned ht
  have hlt : n < s'.nurb := h.lt.trans_le ht.nurb_le
  refine ⟨l', ?_⟩
  by_cases hev : ev = .ready e
  · subst hev
    rcases h.ready hs with ⟨href, hr⟩ | ⟨hn, rfl⟩
    · obtain ⟨hn, hstatus⟩ := h.refused href hr ht
      exact ⟨hq, href.state, hlt, .past hn hstatus (.inr href.eventfd)⟩
    · have hl : l' = l := hq.listed.urbs_eq.symm.trans h.queued.listed.urbs_eq
      rw [hl]
      exact h
  · obtain ⟨hapart, hcur⟩ := step_apart h.queued h.state hok hev hs
    have hstate : (s'.endp e).state = .stall :=
      (congrArg UsbControl.state hapart.control).trans h.state
    have hfd : (s'.endp e).eventfd = (s.endp e).eventfd :=
      congrArg UsbControl.eventfd hapart.control
    refine ⟨hq, hstate, hlt, ?_⟩
    cases h.phase with
    | past hn hr hidle =>
        refine .past (ht.notMem h.lt hn) (by rwa [h.replies_past hn ht]) ?_
        rcases hidle with hidle | hidle
        · exact .inl (hcur.elim (·.trans hidle) (·.1))
        · exact .inr (hfd.trans hidle)
    | pending hc hf hsmall hr =>
        obtain ⟨hmem, he⟩ := h.queued.current e n hc
        have hurb := hapart.urb n h.lt.ne he
        rcases hcur with hcur | ⟨hcur, hsame, m, hm, hmem'⟩
        · have hcur' := hcur.trans hc
          have hsame := ht.replies_eq h.queued.listed.circle.nodup h.lt
            (.inr (hq.current e n hcur').1)
          have hlen : (s'.endp e).len = (s.endp e).len := congrArg UsbControl.len hapart.control
          refine .pending hcur' (by rwa [hfd]) ?_ (hsame.trans hr)
          rw [TooSmall, hlen, hurb]
          exact hsmall
        · rw [hc, Option.some.injEq] at hm
          subst hm
          rw [hq.listed.urbs_eq] at hmem'
          refine .past hmem' ?_ (.inl hcur)
          rw [hsame, hr]
          simp

/-- **Run lemma.** -/
theorem steps (h : Steps Server.step (Untouched e) s s') :
    ∀ l, Stalled s l e n → ∃ l', Stalled s' l' e n := by
  induction h with
  | refl => exact fun l hst => ⟨l, hst⟩
  | tail ev hr hok hs ih =>
      intro l hst
      obtain ⟨l₁, hst₁⟩ := ih l hst
      exact hst₁.step hok hs

/-- The promise is kept in all runs after the stall. -/
theorem right (h : Stalled s₁ l e n) : StallRight s₁ e n := by
  refine ⟨fun s₂ hr => ?_, fun s₂ s₃ hr hs => ?_, fun s₂ hr hmem => ?_, fun s₂ hr r hmem => ?_⟩
  all_goals obtain ⟨l₂, h₂⟩ := steps hr l h
  · exact h₂.state
  · rcases h₂.ready hs with ⟨href, -⟩ | ⟨-, rfl⟩
    · exact ⟨href.mem, href.notified, fun m => by rw [href.urb]⟩
    · exact ⟨rfl, rfl, fun _ => rfl⟩
  · rw [h₂.queued.listed.urbs_eq] at hmem
    cases h₂.phase with
    | past hn => exact absurd hmem hn
    | pending hc hf hsmall hrep =>
        obtain ⟨s₃, hs, href⟩ := ready_tooSmall h₂.queued hc hf hsmall
        obtain ⟨l₃, ht⟩ := usbipEpReady_turned h₂.queued hs
        refine ⟨s₃, hs, ?_⟩
        rw [ht.listed.urbs_eq]
        exact (h₂.refused href hrep ht).1
  · cases h₂.phase with
    | past _ hstatus => exact hstatus r hmem
    | pending _ _ _ hrep =>
        rw [hrep] at hmem
        cases hmem

end Stalled

/-! ## When the promise is kept -/

/-- The state after the stall. -/
def State.stalled (s : State) (e : Bool × Nat) : State :=
  s.setEndp e { s.endp e with toUsbControl := (s.endp e).toUsbControl.putStall }

theorem stallEvent_step : step s (s.stallEvent e) = .ok (s.stalled e) := by
  refine congrArg Except.ok ?_
  rw [State.stalled, State.setEndp]
  split <;> rfl

@[simp] theorem stalled_endp :
    (s.stalled e).endp e = { s.endp e with toUsbControl := (s.endp e).toUsbControl.putStall } :=
  State.setEndp_endp_self

theorem stalled_alike : Alike s (s.stalled e) := .setEndp rfl

theorem stalled_eventfd : ((s.stalled e).endp e).eventfd ≠ 0 := by
  rw [stalled_endp]
  exact Nat.succ_ne_zero _

theorem stalled_tooSmall : TooSmall (s.stalled e) e n ↔ TooSmall s e n := by
  rw [TooSmall, TooSmall, stalled_endp, State.stalled, State.setEndp_urb]
  rfl

/-- The server sends a reply for the URB that the endpoint is at, or none. -/
theorem usbipEpReady_sent (hs : s.usbipEpReady e = .ok s') : s'.sent = s.sent ∨
    ∃ m r, (s.endp e).urb = some m ∧ r.answers true = some m ∧ s'.sent = s.sent ++ [r] := by
  rcases usbipEpReady_cases hs with ⟨-, rfl⟩ | ⟨m, r, s₁, hc, -, hr, hs'⟩
  · exact .inl rfl
  · have ha : s₁.sent = s.sent := by
      have h := ackEventfd_alike.trans
        (hcHandleDataUrb_alike (s := s.ackEventfd e) (e := e) (n := m))
      rw [hr] at h
      exact h.sent
    rcases hs' with rfl | ⟨next, rfl⟩
    · exact .inl ha
    · obtain ⟨len, data, hsent⟩ := usbipFinishUrb_sent (s := s₁) (n := m) (r := r)
      rw [ha] at hsent
      exact .inr ⟨m, _, hc, rfl, State.setEndp_sent.trans hsent⟩

/-- An URB that the endpoint is not at stays in the list when the server comes to it. -/
theorem usbipEpReady_keeps (hq : Queued s l) (hc : (s.endp e).urb ≠ some n) (hn : n ∈ l)
    (hs : s.usbipEpReady e = .ok s') : n ∈ s'.urbs := by
  obtain ⟨l', ht⟩ := usbipEpReady_turned hq hs
  rw [ht.listed.urbs_eq]
  have hsent := usbipEpReady_sent hs
  clear hs
  cases ht.turn with
  | stay => exact hn
  | finish hl hn' hans hseq hs =>
      rename_i p q k r
      rw [hs] at hsent
      rcases hsent with hsame | ⟨m, r', hm, hans', hsame⟩
      · exact absurd hsame (by simp)
      · rw [List.append_cancel_left_eq, List.singleton_inj] at hsame
        subst hsame
        cases hans.symm.trans hans'
        have hne : n ≠ k := by
          rintro rfl
          exact hc hm
        subst hl
        simpa [hne] using hn

/-- **Stalling an endpoint under an URB does what it promises if and only if the endpoint is at
the URB and its buffer is too small for the next transaction.** -/
theorem stall_right_iff (s : State) (e : Bool × Nat) (n : Nat) (h : Reach step anyEvent .init s)
    (hn : n ∈ s.urbs) :
    (∃ s₁, step s (s.stallEvent e) = .ok s₁ ∧ StallRight s₁ e n) ↔
      (s.endp e).urb = some n ∧ TooSmall s e n := by
  obtain ⟨l, hq⟩ := queued_of_reach h
  have hrep := replies_waiting h n hn
  have hmem : n ∈ l := hq.listed.urbs_eq ▸ hn
  have ht : Turned s (s.stalled e) l (s.stallEvent e) l :=
    .of_alike hq stalled_alike fun m => by rw [State.stalled, State.setEndp_urb]
  have hq₁ := hq.turned ht
  have hc₁ : ((s.stalled e).endp e).urb = (s.endp e).urb := by rw [stalled_endp]
  constructor
  · rintro ⟨s₁, hs, hright⟩
    cases stallEvent_step.symm.trans hs
    -- the server comes to the endpoint next, and the URB is to be out of the list
    obtain ⟨s₃, hready, hout⟩ := hright.completes _ (.refl _) (by
      rw [hq₁.listed.urbs_eq]
      exact hmem)
    have hc : (s.endp e).urb = some n := by
      by_contra hne
      exact hout (usbipEpReady_keeps hq₁ (hc₁ ▸ hne) hmem hready)
    refine ⟨hc, ?_⟩
    by_contra hsmall
    obtain ⟨s₂, hs₂, hstate⟩ := ready_moves hq₁ (hc₁.trans hc) stalled_eventfd
      fun h => hsmall (stalled_tooSmall.mp h)
    have hstall := hright.stays s₂ (.tail (.ready e) (.refl _) trivial hs₂)
    rw [hstate] at hstall
    cases hstall
  · rintro ⟨hc, hsmall⟩
    refine ⟨_, stallEvent_step, Stalled.right (l := l) ⟨hq₁, ?_, ?_, .pending (hc₁.trans hc)
      stalled_eventfd (stalled_tooSmall.mpr hsmall) ?_⟩⟩
    · rw [stalled_endp]
      rfl
    · exact hq₁.listed.lt n hmem
    · rw [replies_congr stalled_alike.sent, hrep]

instance : DecidablePred fun s : State => TooSmall s e n :=
  fun _ => inferInstanceAs (Decidable (_ ∧ _))

/-- The device wants packets of as many bytes from endpoint 1 OUT. -/
def enableOut1 (len : Nat) : Event :=
  .device (false, 1) ⟨0, .ready, Region.app.ptr, len⟩ fun _ _ => 0

/-- The client submits an URB of 64 bytes for endpoint 1 OUT. -/
def submitOut1 (seq : BitVec 32) : Event :=
  .submit ⟨seq, some ⟨1, 0, 1, 0, 64⟩, some (List.replicate 8 0), some (List.replicate 64 5)⟩
    ⟨0, 0, fun _ _ => 0⟩

/-- The buffer of the endpoint is of 8 bytes. -/
theorem stall_right_out : ∃ s s₁ : State, step s (usbLldStallRx s 1) = .ok s₁ ∧
    StallRight s₁ (false, 1) 0 := by
  have hrun : runTest step (fun _ _ => true)
      (fun s => decide (0 ∈ s.urbs ∧ (s.endp (false, 1)).urb = some 0 ∧
        TooSmall s (false, 1) 0)) .init [enableOut1 8, submitOut1 10] = true := by
    decide +kernel
  obtain ⟨s, hs, hp⟩ := reach_any_of_runTest hrun
  obtain ⟨hmem, hright⟩ := of_decide_eq_true hp
  exact ⟨s, (stall_right_iff s (false, 1) 0 hs hmem).mpr hright⟩

/-- **A stalled endpoint that sends**: the device stalls endpoint 1 IN under an URB, and the
server takes three bytes from the last buffer, tells the device so, completes the URB with
status 0, and the endpoint is not stalled any more. -/
theorem stall_not_right : ∃ s s₁ s₂ : State, Reach step anyEvent .init s ∧ 0 ∈ s.urbs ∧
    (s.urb 0).endp = (true, 1) ∧ step s (usbLldStallTx s 1) = .ok s₁ ∧
    step s₁ (.ready (true, 1)) = .ok s₂ ∧ (s₂.endp (true, 1)).state = .nak ∧
    s₂.notified = [(1, true)] ∧
    s₂.sent = [.finish 0 10 0 3 [7, 7, 7]] ∧ ¬ StallRight s₁ (true, 1) 0 := by
  have hrun : runTest step (fun _ _ => true)
      (fun s => decide (0 ∈ s.urbs ∧ (s.urb 0).endp = (true, 1)) &&
        match (s.stalled (true, 1)).usbipEpReady (true, 1) with
        | .error _ => false
        | .ok s₂ => decide ((s₂.endp (true, 1)).state = .nak ∧ s₂.notified = [(1, true)] ∧
            s₂.sent = [.finish 0 10 0 3 [7, 7, 7]])) .init [enableIn1 0, submitIn1 10] = true := by
    decide +kernel
  obtain ⟨s, hs, hp⟩ := reach_any_of_runTest hrun
  rw [Bool.and_eq_true] at hp
  obtain ⟨hpend, hp⟩ := hp
  obtain ⟨hmem, he⟩ := of_decide_eq_true hpend
  split at hp
  · cases hp
  · rename_i s₂ hready
    obtain ⟨hstate, hnotified, hsent⟩ := of_decide_eq_true hp
    refine ⟨s, _, s₂, hs, hmem, he, stallEvent_step, hready, hstate, hnotified, hsent,
      fun hright => ?_⟩
    have hstall := hright.stays s₂ (.tail (.ready (true, 1)) (.refl _) trivial hready)
    rw [hstate] at hstall
    cases hstall

end Chopstx.Usb.Usbip.Server
