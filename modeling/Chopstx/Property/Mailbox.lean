import Chopstx.Library.OnePlace
import Chopstx.Usb.Mailbox

/-!
# No event for the device is overwritten

`usbc` is a place for one event: it alternates between being left there and being taken out.
`notify_device` waits once, without a look at the record behind the wait, so that this is so
as long as `pthread_cond_wait` does not return while there is an event still.

* `Seen`, `traffic`, `called` - what a run shows of the events that are left and taken out.
* `Delivers`, `Delivers.called_eq` - the events are delivered one after another.
* `Turn`, `step_turn` - what a step can do to the place.
* `Exclusive`, `exclusive_of_reach` - the mutex, in every run.
* `MailInv`, `MailInv.turn` - the invariant and its step lemma.
* `delivers_iff` - the result about runs, and `delivers_iff_signal` a run in which all is well.
* `mailbox_overwritten` - a run in which `pthread_cond_wait` returns for nothing.
-/

namespace Chopstx.Usb.Usbip

open Transition OnePlace

/-! ## What a run shows -/

/-- `notify_device` has been called for an event; `pthread_cond_wait` has returned, with an event
in `usbc` still or not; or an event is left in `usbc`, or taken out. -/
inductive Seen where
  | called (x : Notice)
  | returned (full : Bool)
  | moved (t : Traffic Notice)
  deriving DecidableEq, Repr

/-- What a step shows -/
def Mailbox.shows (s : Mailbox) : MailEvent → List Seen
  | .call intr epNum dir => [.called ⟨intr, dir = usbipDirIn, epNum⟩]
  | .server =>
      match s.server with
      | .test x => if s.usbc.intr = none then [.moved (.put x)] else []
      | .woken x => [.returned (s.notice ≠ none), .moved (.put x)]
      | _ => []
  | .device =>
      match s.device, s.notice with
      | .take, some x => [.moved (.take x)]
      | _, _ => []
  | .spurious => []

/-- The event that `notify_device` has been called for, and has not left in `usbc` -/
def Mailbox.pending (s : Mailbox) : Option Notice :=
  match s.server with
  | .lock x | .test x | .wait x | .woken x => some x
  | .idle | .unlock => none

/-- The events left in `usbc` and taken out, in their order -/
def traffic (l : List Seen) : List (Traffic Notice) :=
  l.filterMap fun x => match x with
    | .moved t => some t
    | _ => none

/-- The events that `notify_device` has been called for -/
def called (l : List Seen) : List Notice :=
  l.filterMap fun x => match x with
    | .called x => some x
    | _ => none

/-- The events are left in `usbc` in the order of the calls; each one was taken out once before
the next one was left there, up to the one that is there; and a thread that waits does so for
one that is there. -/
structure Delivers (l : List Seen) (s : Mailbox) : Prop where
  posted : called l = puts (traffic l) ++ s.pending.toList
  order : Alternates (traffic l) s.notice
  waits : ∀ x, s.server = .wait x → s.notice ≠ none

/-- Then the events taken out are those of the calls, in their order, up to the one that is still
there and the one that is not left there yet. -/
theorem Delivers.called_eq {l : List Seen} {s : Mailbox} (h : Delivers l s) :
    called l = takes (traffic l) ++ s.notice.toList ++ s.pending.toList := by
  rw [h.posted, h.order.puts_eq]

/-! ## One step -/

section

variable {s s' : Mailbox} {e : MailEvent} {l : List Seen}

theorem notice_none : s.notice = none ↔ s.usbc.intr = none := by
  rw [Mailbox.notice, Option.map_eq_none_iff]

/-- What a step does to the record, and what it shows -/
inductive Turn (s s' : Mailbox) : List Seen → Prop
  /-- Nothing: a thread may begin to wait for the event that is there. -/
  | quiet (h : s'.notice = s.notice) (hp : s'.pending = s.pending)
      (hw : ∀ x, s'.server = .wait x → s.server = .wait x ∨ s.notice ≠ none) : Turn s s' []
  /-- `notify_device` is called. -/
  | called (x : Notice) (h : s'.notice = s.notice) (hp : s.pending = none)
      (hp' : s'.pending = some x) (hw : ∀ y, s'.server ≠ .wait y) : Turn s s' [.called x]
  /-- An event is left in the empty record. -/
  | put (x : Notice) (h : s.notice = none) (h' : s'.notice = some x) (hp : s.pending = some x)
      (hp' : s'.pending = none) (hw : ∀ y, s'.server ≠ .wait y) : Turn s s' [.moved (.put x)]
  /-- The same, when `pthread_cond_wait` has returned -/
  | woken (x : Notice) (h' : s'.notice = some x) (hp : s.pending = some x)
      (hp' : s'.pending = none) (hw : ∀ y, s'.server ≠ .wait y) :
      Turn s s' [.returned (s.notice ≠ none), .moved (.put x)]
  /-- The event is taken out. -/
  | take (x : Notice) (h : s.notice = some x) (h' : s'.notice = none)
      (hp : s'.pending = s.pending) (hw : ∀ y, s'.server ≠ .wait y) :
      Turn s s' [.moved (.take x)]

theorem lock_eq {who : Party} {next : Mailbox} (h : s.lock who next = .ok s') :
    s' = { next with usbc := { next.usbc with mutex := some who } } := by
  rw [Mailbox.lock] at h
  split at h
  · exact (Except.ok.inj h).symm
  · cases h

theorem turn_server (h : s.notifyDevice = .ok s') : Turn s s' (s.shows .server) := by
  rw [Mailbox.notifyDevice] at h
  rw [Mailbox.shows]
  have hpend : s.pending = match s.server with
      | .lock x | .test x | .wait x | .woken x => some x
      | .idle | .unlock => none := rfl
  cases hp : s.server with
  | idle =>
      rw [hp] at h
      cases h
  | wait x =>
      rw [hp] at h
      cases h
  | lock x =>
      rw [hp] at h
      obtain rfl := lock_eq h
      rw [hp] at hpend
      exact .quiet rfl hpend.symm fun y hy => by cases hy
  | test x =>
      rw [hp] at h hpend
      simp only at h ⊢
      by_cases hi : s.usbc.intr = none
      · rw [if_neg (not_not.2 hi)] at h
        rw [if_pos hi]
        cases h
        exact .put x (notice_none.2 hi) rfl hpend rfl fun y hy => by cases hy
      · rw [if_pos hi] at h
        rw [if_neg hi]
        cases h
        exact .quiet rfl hpend.symm fun y _ => .inr fun hn => hi (notice_none.1 hn)
  | woken x =>
      rw [hp] at h hpend
      obtain rfl := lock_eq h
      exact .woken x rfl hpend rfl fun y hy => by cases hy
  | unlock =>
      rw [hp] at h hpend
      cases h
      exact .quiet rfl hpend.symm fun y hy => by cases hy

/-- Where the thread of the server is after a signal on the condition variable. -/
def NotifyPt.signaled : NotifyPt → NotifyPt
  | .wait x => .woken x
  | pt => pt

theorem signaled_ne_wait (pt : NotifyPt) (y : Notice) : pt.signaled ≠ .wait y := by
  cases pt <;> simp [NotifyPt.signaled]

theorem pending_signaled : Mailbox.pending { s with server := s.server.signaled } = s.pending := by
  rw [Mailbox.pending, Mailbox.pending]
  cases s.server <;> rfl

theorem turn_device (h : s.usbLldEventHandler = .ok s') : Turn s s' (s.shows .device) := by
  rw [Mailbox.usbLldEventHandler] at h
  rw [Mailbox.shows]
  cases hp : s.device with
  | idle =>
      rw [hp] at h
      cases h
      exact .quiet rfl rfl fun y hy => .inl hy
  | lock =>
      rw [hp] at h
      obtain rfl := lock_eq h
      exact .quiet rfl rfl fun y hy => .inl hy
  | take =>
      rw [hp] at h
      cases h
      -- the signal has woken the thread of the server
      have hw := signaled_ne_wait s.server
      have hpend := pending_signaled (s := s)
      cases hn : s.notice with
      | none => exact .quiet hn.symm hpend fun y hy => absurd hy (hw y)
      | some x => exact .take x hn rfl hpend hw
  | unlock =>
      rw [hp] at h
      cases h
      exact .quiet rfl rfl fun y hy => .inl hy

/-- **What a step can do.** -/
theorem step_turn (h : s.step e = .ok s') : Turn s s' (s.shows e) := by
  cases e with
  | call intr epNum dir =>
      rw [Mailbox.step] at h
      split at h
      · rename_i hidle
        cases h
        refine .called _ rfl ?_ rfl fun y hy => by cases hy
        rw [Mailbox.pending, hidle]
      · cases h
  | server => exact turn_server h
  | spurious =>
      rw [Mailbox.step] at h
      split at h
      · rename_i x hwait
        cases h
        refine .quiet rfl ?_ fun y hy => by cases hy
        rw [Mailbox.pending, Mailbox.pending, hwait]
      · cases h
  | device => exact turn_device h

/-! ## The mutex -/

/-- The thread is between `pthread_mutex_lock` and `pthread_mutex_unlock`, and not waiting. -/
def NotifyPt.holds : NotifyPt → Bool
  | .test _ | .unlock => true
  | _ => false

def HandlePt.holds : HandlePt → Bool
  | .take | .unlock => true
  | _ => false

/-- A thread that the signal wakes has not got the mutex. -/
theorem signaled_holds (pt : NotifyPt) : pt.signaled.holds = pt.holds := by
  cases pt <;> rfl

/-- The owner of the mutex is the thread that uses the record. -/
structure Exclusive (s : Mailbox) : Prop where
  server : s.server.holds = true ↔ s.usbc.mutex = some .host
  device : s.device.holds = true ↔ s.usbc.mutex = some .device

theorem lock_ok {who : Party} {next : Mailbox} (h : s.lock who next = .ok s') :
    s.usbc.mutex = none := by
  rw [Mailbox.lock] at h
  split at h
  · assumption
  · cases h

theorem exclusive_server (hi : Exclusive s) (h : s.notifyDevice = .ok s') : Exclusive s' := by
  obtain ⟨hs, hd⟩ := hi
  rw [Mailbox.notifyDevice] at h
  cases hp : s.server with
  | idle =>
      rw [hp] at h
      cases h
  | wait x =>
      rw [hp] at h
      cases h
  | lock x =>
      rw [hp] at h
      have hm := lock_ok h
      obtain rfl := lock_eq h
      rw [hm] at hd
      exact ⟨by simp [NotifyPt.holds], by simpa using hd⟩
  | test x =>
      rw [hp] at h hs
      have hm := hs.1 rfl
      rw [hm] at hd
      simp only at h
      split at h
      · cases h
        exact ⟨by simp [NotifyPt.holds], by simpa using hd⟩
      · cases h
        exact ⟨by simp [NotifyPt.holds, Mailbox.store, hm], by simpa [Mailbox.store, hm] using hd⟩
  | woken x =>
      rw [hp] at h
      have hm := lock_ok h
      obtain rfl := lock_eq h
      rw [hm] at hd
      exact ⟨by simp [NotifyPt.holds, Mailbox.store], by simpa [Mailbox.store] using hd⟩
  | unlock =>
      rw [hp] at h hs
      have hm := hs.1 rfl
      rw [hm] at hd
      cases h
      exact ⟨by simp [NotifyPt.holds], by simpa using hd⟩

theorem exclusive_device (hi : Exclusive s) (h : s.usbLldEventHandler = .ok s') :
    Exclusive s' := by
  obtain ⟨hs, hd⟩ := hi
  rw [Mailbox.usbLldEventHandler] at h
  cases hp : s.device with
  | idle =>
      rw [hp] at h hd
      cases h
      exact ⟨hs, hd⟩
  | lock =>
      rw [hp] at h
      have hm := lock_ok h
      obtain rfl := lock_eq h
      rw [hm] at hs
      exact ⟨by simpa using hs, by simp [HandlePt.holds]⟩
  | take =>
      rw [hp] at h hd
      have hm := hd.1 rfl
      rw [hm] at hs
      cases h
      refine ⟨?_, by simp [HandlePt.holds, hm]⟩
      have hserver := signaled_holds s.server
      rw [← hserver, ← hm] at hs
      exact hs
  | unlock =>
      rw [hp] at h hd
      have hm := hd.1 rfl
      rw [hm] at hs
      cases h
      exact ⟨by simpa using hs, by simp [HandlePt.holds]⟩

/-- The two threads do not use the record at the same time. -/
theorem exclusive_of_reach (h : Reach Mailbox.step anyEvent .start s) : Exclusive s := by
  refine h.invariant ⟨by decide, by decide⟩ ?_
  intro s e s' hi _ hs
  cases e with
  | call intr epNum dir =>
      rw [Mailbox.step] at hs
      split at hs
      · rename_i hidle
        cases hs
        refine ⟨?_, hi.device⟩
        rw [← hi.server, hidle]
        rfl
      · cases hs
  | server => exact exclusive_server hi hs
  | spurious =>
      rw [Mailbox.step] at hs
      split at hs
      · rename_i x hwait
        cases hs
        refine ⟨?_, hi.device⟩
        rw [← hi.server, hwait]
        rfl
      · cases hs
  | device => exact exclusive_device hi hs

/-! ## A run -/

theorem traffic_append (l xs : List Seen) : traffic (l ++ xs) = traffic l ++ traffic xs :=
  List.filterMap_append

theorem called_append (l xs : List Seen) : called (l ++ xs) = called l ++ called xs :=
  List.filterMap_append

theorem puts_append (l xs : List (Traffic Notice)) : puts (l ++ xs) = puts l ++ puts xs :=
  List.filterMap_append

/-- What a run has to do with its end: up to a return of `pthread_cond_wait` that finds an
event, the events are delivered, and behind one they have not been. -/
structure MailInv (l : List Seen) (s : Mailbox) : Prop where
  posted : called l = puts (traffic l) ++ s.pending.toList
  waits : ∀ x, s.server = .wait x → s.notice ≠ none
  order : .returned true ∉ l → Alternates (traffic l) s.notice
  lost : .returned true ∈ l → ∀ q, ¬ Alternates (traffic l) q

theorem posted_turn {xs : List Seen} (hi : called l = puts (traffic l) ++ s.pending.toList)
    (h : Turn s s' xs) :
    called (l ++ xs) = puts (traffic (l ++ xs)) ++ s'.pending.toList := by
  rw [called_append, traffic_append, puts_append, hi]
  cases h with
  | quiet _ hp => simp [called, traffic, puts, hp]
  | called x _ hp hp' => simp [called, traffic, puts, hp, hp']
  | put x _ _ hp hp' => simp [called, traffic, puts, hp, hp']
  | woken x _ hp hp' => simp [called, traffic, puts, hp, hp']
  | take x _ _ hp => simp [called, traffic, puts, hp]

theorem MailInv.turn {xs : List Seen} (hi : MailInv l s) (h : Turn s s' xs) :
    MailInv (l ++ xs) s' := by
  have hposted := posted_turn hi.posted h
  -- what has been lost stays lost
  have hlost : ∀ ys, Seen.returned true ∈ l → ∀ q, ¬ Alternates (traffic (l ++ ys)) q := by
    intro ys hl q hq
    rw [traffic_append] at hq
    obtain ⟨q', hq'⟩ := hq.of_append
    exact hi.lost hl q' hq'
  cases h with
  | quiet hn hp hw =>
      rw [List.append_nil] at hposted ⊢
      refine ⟨hposted, fun x hx => ?_, fun hl => hn ▸ hi.order hl, hi.lost⟩
      rw [hn]
      exact (hw x hx).elim (hi.waits x) id
  | called x hn hp hp' hw =>
      refine ⟨hposted, fun y hy => absurd hy (hw y), fun hl => ?_, fun hl => hlost _ ?_⟩
      · rw [hn, traffic_append, show traffic [.called x] = [] from rfl, List.append_nil]
        exact hi.order fun h => hl (List.mem_append_left _ h)
      · simpa using hl
  | put x hn hn' _ _ hw =>
      refine ⟨hposted, fun y hy => absurd hy (hw y), fun hl => ?_, fun hl => hlost _ ?_⟩
      · rw [hn', traffic_append]
        exact .put x (hn ▸ hi.order fun h => hl (List.mem_append_left _ h))
      · simpa using hl
  | take x hn hn' _ hw =>
      refine ⟨hposted, fun y hy => absurd hy (hw y), fun hl => ?_, fun hl => hlost _ ?_⟩
      · rw [hn', traffic_append]
        exact .take (hn ▸ hi.order fun h => hl (List.mem_append_left _ h))
      · simpa using hl
  | woken x hn' _ _ hw =>
      refine ⟨hposted, fun y hy => absurd hy (hw y), fun hl => ?_, fun hl => ?_⟩
      · have hnone : s.notice = none := by
          by_contra hne
          exact hl (by simp [hne])
        rw [hn', traffic_append]
        exact .put x (hnone ▸ hi.order fun h => hl (List.mem_append_left _ h))
      · by_cases hl' : Seen.returned true ∈ l
        · exact hlost _ hl'
        · -- the event that was there is overwritten
          have hne : s.notice ≠ none := by
            intro hnone
            simp [hnone, hl'] at hl
          intro q hq
          rw [traffic_append] at hq
          exact hne ((hi.order hl').unique hq.of_put.1)

theorem mailInv_of_logged (h : Logged Mailbox.step anyEvent Mailbox.shows .start l s) :
    MailInv l s := by
  refine h.keeps (I := fun _ => True) (P := MailInv) (fun _ _ => trivial) ?_ ?_
  · intro l s e s' _ _ hi _ hs
    exact hi.turn (step_turn hs)
  · refine ⟨rfl, ?_, fun _ => .empty, ?_⟩
    · intro x hx
      cases hx
    · intro hl
      cases hl

end

/-- **When no event is overwritten**: in a run of the two threads, the events are delivered one
after another if and only if `pthread_cond_wait` has never returned while there was an event. -/
theorem delivers_iff {l : List Seen} {s : Mailbox}
    (h : Logged Mailbox.step anyEvent Mailbox.shows .start l s) :
    Delivers l s ↔ .returned true ∉ l := by
  have hi := mailInv_of_logged h
  constructor
  · intro hd hl
    exact hi.lost hl _ hd.order
  · intro hl
    exact ⟨hi.posted, hi.order hl, hi.waits⟩

/-- What two calls and a spurious return in the second one show -/
def lostLog : List Seen :=
  [.called ⟨.dataTransfer, true, 1⟩, .moved (.put ⟨.dataTransfer, true, 1⟩),
    .called ⟨.setup, true, 0⟩, .returned true, .moved (.put ⟨.setup, true, 0⟩)]

/-- The event that the transfer of endpoint 1 is complete is overwritten by the SETUP event of a
control transfer. -/
theorem mailbox_overwritten : ∃ s,
    Logged Mailbox.step anyEvent Mailbox.shows .start lostLog s ∧ ¬ Delivers lostLog s := by
  have htest : logTest Mailbox.step (fun _ _ => true) Mailbox.shows (fun l _ => l = lostLog) []
      Mailbox.start [.call .dataTransfer 1 1, .server, .server, .server, .call .setup 0 1,
        .server, .server, .spurious, .server] = true := by
    decide
  obtain ⟨l, s, hl, hp⟩ := logged_of_logTest (.refl _) htest
  obtain rfl := of_decide_eq_true hp
  refine ⟨s, hl.mono fun _ _ _ => trivial, ?_⟩
  rintro ⟨-, horder, -⟩
  have hput : Alternates ([.put ⟨.dataTransfer, true, 1⟩] ++ [.put ⟨.setup, true, 0⟩]) s.notice :=
    horder
  have hfirst := hput.of_put.1
  exact absurd (Alternates.of_put (l := []) hfirst).2 (by simp)

/-- What two calls show, when the second one waits until the first event has been taken -/
def waitLog : List Seen :=
  [.called ⟨.dataTransfer, true, 1⟩, .moved (.put ⟨.dataTransfer, true, 1⟩),
    .called ⟨.setup, true, 0⟩, .moved (.take ⟨.dataTransfer, true, 1⟩), .returned false,
    .moved (.put ⟨.setup, true, 0⟩)]

/-- A wait that ends with a signal -/
theorem delivers_iff_signal : ∃ s,
    Logged Mailbox.step anyEvent Mailbox.shows .start waitLog s ∧ Delivers waitLog s := by
  have htest : logTest Mailbox.step (fun _ _ => true) Mailbox.shows (fun l _ => l = waitLog) []
      Mailbox.start [.call .dataTransfer 1 1, .server, .server, .server, .call .setup 0 1,
        .server, .server, .device, .device, .device, .device, .server] = true := by
    decide
  obtain ⟨l, s, hl, hp⟩ := logged_of_logTest (.refl _) htest
  obtain rfl := of_decide_eq_true hp
  have hrun : Logged Mailbox.step anyEvent Mailbox.shows .start waitLog s :=
    hl.mono fun _ _ _ => trivial
  exact ⟨s, hrun, (delivers_iff hrun).2 (by decide)⟩

end Chopstx.Usb.Usbip
