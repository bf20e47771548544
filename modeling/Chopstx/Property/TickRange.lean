import Chopstx.Section.Timers
import Chopstx.Property.Queues

/-!
# The range of ticks

The reload register has 24 bits and words have 32.  The operations on `q_timer` load sums of
the count and of stored differences, and subtract one number of ticks from another.  All
deadlines are within 16777215 ticks from now, and the difference of the last entry is never
loaded; so what is loaded fits into the register, and no sum and no subtraction wraps.

* `TickOp`, `TickOp.InRange` - an operation on ticks, and what it may not do.
* `locateTicks`, `remainTicks`, `insertTicks`, `dequeueTicks`, `expireTicks` - the operations of the
  functions of the source, in their order.
* `insertTicks_inRange`, `dequeueTicks_inRange`, `expireTicks_inRange` - they are in their range,
  from the invariant of `Chopstx.Kernel.TimerQueue`.
* `ticks_in_range` - the result about runs, and `ticks_in_range_two` a run with two sleeps.
-/

namespace Chopstx

open Kernel Transition DeltaQueue

/-! ## What the code computes -/

/-- An argument of `chx_systick_reload`, and the operands of a sum or a subtraction of
ticks. -/
inductive TickOp where
  | reload (ticks : Nat)
  | add (a b : Nat)
  | sub (a b : Nat)
  deriving DecidableEq, Repr

/-- The value fits into the register; the words do not wrap. -/
def TickOp.InRange : TickOp → Prop
  | .reload ticks => ticks ≤ 16777215
  | .add a b => a + b < 4294967296
  | .sub a b => b ≤ a

/-- The loop of `chx_timer_insert`: `ticks -= next_ticks`. -/
def locateTicks {α : Type} (v : α → Nat) : List α → Nat → Nat → List TickOp
  | [], _, _ => []
  | p :: ps, ticks, nextTicks =>
      if ticks < nextTicks then []
      else .sub ticks nextTicks :: locateTicks v ps (ticks - nextTicks) (v p)

/-- The loop of `chx_timer_dequeue`: `ticks_remained += p->v`. -/
def remainTicks {α : Type} (v : α → Nat) : List α → Nat → List TickOp
  | [], _ => []
  | p :: ps, ticksRemained =>
      .add ticksRemained (v p) :: remainTicks v ps (add32 ticksRemained (v p))

namespace Kernel

/-- The ticks of `chx_timer_insert`. -/
def insertTicks (cfg : Config) (k : Kernel) (usec : Nat) : List TickOp :=
  let ticks := usecToTicks cfg usec
  let k := k.elapse
  let r := locate k.pqV (k.queue .timer) ticks k.systick.count
  locateTicks k.pqV (k.queue .timer) ticks k.systick.count ++
    (if r.1.getLast? = none then [.reload r.2.2.1] else []) ++
    match r.2.2.2 with
    | some nextTicks => [.sub nextTicks r.2.2.1]
    | none => []

/-- The entry of the thread has one before it when it is not the first. -/
theorem takeWhile_ne_nil (p : Pq) (ps : List Pq) (tp : Pq) : p :: ps.takeWhile (· ≠ tp) ≠ [] :=
  List.cons_ne_nil _ _

/-- The ticks of `chx_timer_dequeue`. -/
def dequeueTicks (k : Kernel) (t : Tid) : List TickOp :=
  let k := k.elapse
  let ticksRemained := k.systick.count
  let tp := Pq.thread t
  match k.queue .timer with
  | [] => []
  | p :: ps =>
      if p = tp then
        if ps = [] then [.reload 0]
        else [.add ticksRemained (k.thread t).v, .reload (add32 ticksRemained (k.thread t).v)]
      else if tp ∈ ps then
        let before := p :: ps.takeWhile (· ≠ tp)
        let prev := before.getLast (takeWhile_ne_nil p ps tp)
        remainTicks k.pqV before ticksRemained ++ [.add (k.pqV prev) (k.thread t).v]
      else []

/-- The ticks of `chx_timer_expired`. -/
def expireTicks (k : Kernel) : List TickOp :=
  match k.queue .timer with
  | .thread t :: rest =>
      let r := expireLoop (k.expireOne t) (k.thread t).v (k.expirePrio t 0) rest
      if r.1.queue .timer = [] then [] else [.reload r.2.1]
  | _ => []

end Kernel

variable {cfg : Config} {k k' k₁ : Kernel} {t u : Tid} {off : Option Tid} {s : State} {e : Event}

/-! ## The loops -/

section Loop

variable {α : Type} {v : α → Nat} {l : List α} {ticks c : Nat} {o : TickOp}

theorem locateTicks_inRange (h : o ∈ locateTicks v l ticks c) : o.InRange := by
  induction l generalizing ticks c with
  | nil => cases h
  | cons p ps ih =>
      rw [locateTicks] at h
      split at h
      · cases h
      · rename_i hlt
        rcases List.mem_cons.1 h with rfl | h
        · exact not_lt.1 hlt
        · exact ih h

theorem remainTicks_inRange (hle : c + total v l < 4294967296) (h : o ∈ remainTicks v l c) :
    o.InRange := by
  induction l generalizing c with
  | nil => cases h
  | cons p ps ih =>
      rw [total_cons] at hle
      have hadd : add32 c (v p) = c + v p := add32_of_lt (by omega)
      rw [remainTicks, hadd] at h
      rcases List.mem_cons.1 h with rfl | h
      · show c + v p < 4294967296
        omega
      · exact ih (by omega) h

end Loop

/-! ## The operations -/

namespace Kernel

variable {o : TickOp} {usec : Nat}

theorem insertTicks_inRange (hle : usecToTicks cfg usec ≤ 16777215)
    (h : o ∈ k.insertTicks cfg usec) : o.InRange := by
  rw [insertTicks] at h
  rcases List.mem_append.1 h with h | h
  · rcases List.mem_append.1 h with h | h
    · exact locateTicks_inRange h
    · split at h
      · rename_i hnil
        rw [List.mem_singleton.1 h, locate_ticks_of_nil (List.getLast?_eq_none_iff.1 hnil)]
        exact hle
      · cases h
  · split at h
    · rename_i hnext
      rw [List.mem_singleton.1 h]
      exact (locate_lt hnext).le
    · cases h

theorem dequeueTicks_inRange (hT : TimerInv k) (h : o ∈ k.dequeueTicks t) : o.InRange := by
  have hb := hT.bound
  have hc : k.systick.elapse.count ≤ k.systick.count := k.systick.elapse_later.count
  simp only [dequeueTicks, elapse_queue] at h
  split at h
  · cases h
  · rename_i p ps hq
    rw [hq, total_cons] at hb
    split at h
    · rename_i hp
      subst hp
      rw [pqV_thread] at hb
      split at h
      · rw [List.mem_singleton.1 h]
        exact Nat.zero_le _
      · rename_i hne
        have hpos := hT.total_pos (hq ▸ List.suffix_cons ..) hne
        have hadd : add32 k.systick.elapse.count (k.thread t).v =
            k.systick.elapse.count + (k.thread t).v := add32_of_lt (by omega)
        simp only [elapse_systick, elapse_thread, hadd, List.mem_cons, List.not_mem_nil,
          or_false] at h
        rcases h with rfl | rfl
        · show k.systick.elapse.count + (k.thread t).v < 4294967296
          omega
        · show k.systick.elapse.count + (k.thread t).v ≤ 16777215
          omega
    · split at h
      · rename_i hmem
        obtain ⟨front, back, rfl⟩ := List.append_of_mem hmem
        have hnd := hT.nodup
        rw [hq, List.nodup_cons, List.nodup_middle, List.nodup_cons] at hnd
        have ht : .thread t ∉ front := fun h' => hnd.2.1 (List.mem_append_left _ h')
        rw [total_append, total_cons, pqV_thread] at hb
        rcases List.mem_append.1 h with h | h
        · refine remainTicks_inRange ?_ h
          rw [takeWhile_ne_append ht, total_cons, pqV_elapse, elapse_systick]
          omega
        · rw [List.mem_singleton.1 h]
          have hprev : k.pqV ((p :: front).getLast (List.cons_ne_nil _ _)) ≤
              total k.pqV (p :: front) := le_total_of_mem (List.getLast_mem _)
          rw [total_cons] at hprev
          simp only [takeWhile_ne_append ht, pqV_elapse, elapse_thread]
          show _ + _ < 4294967296
          omega
      · cases h

/-- What is loaded is when the first of the entries that remain is due. -/
theorem expireTicks_eq (hthr : k.HoldsThreads .timer) (hnd : (k.queue .timer).Nodup) :
    k.expireTicks = if k.remaining.1 = [] then [] else [.reload k.remaining.2] := by
  have hque := foldl_expired_queue_timer hthr hnd
  cases hq : k.queue .timer with
  | nil => simp [expireTicks, remaining, hq]
  | cons p rest =>
      simp only [HoldsThreads, hq] at hthr
      obtain ⟨t, rfl⟩ := hthr p (List.mem_cons_self ..)
      rw [hq, List.nodup_cons] at hnd
      obtain ⟨h₁, h₂⟩ := expireLoop_eq (k := k.expireOne t) (k.thread t).v (k.expirePrio t 0)
        (fun p hp => hthr p (List.mem_cons_of_mem _ hp)) hnd.2
      rw [popDue_expireOne hnd.1] at h₁ h₂
      have hexp : k.expired = .thread t :: (popDue k.pqV (k.thread t).v rest).1 := by
        simp [expired, hq]
      have hrem : k.remaining = (popDue k.pqV (k.thread t).v rest).2 := by
        simp [remaining, hq]
      rw [hexp, List.foldl_cons, expireEntry, ← h₁] at hque
      simp only [expireTicks, hq, hque, h₂, hrem]

theorem expireTicks_inRange (hT : TimerInv k) (s : Systick)
    (h : o ∈ (k.setSystick s).expireTicks) : o.InRange := by
  have hb := hT.bound
  have htot := remaining_total (k := k)
  have hrem : (k.setSystick s).remaining = k.remaining := by
    simp only [remaining, pqV_setSystick]
    rfl
  rw [expireTicks_eq (k := k.setSystick s) hT.threads hT.nodup, hrem] at h
  split at h
  · cases h
  · rename_i hne
    have hpos := hT.total_pos ⟨_, expired_append_remaining⟩ hne
    rw [List.mem_singleton.1 h]
    show k.remaining.2 ≤ 16777215
    omega

end Kernel

/-! ## In every run -/

/-- **Ticks stay in their range**: in `chx_systick_init`, and at every point of every section of
every run, whatever time passes in between. -/
theorem ticks_in_range (h : Reach (step cfg) anyEvent (init cfg) s)
    (hp : Path cfg (s.May cfg e) (none, s.k) (off, k)) (hs : SameTimer k k₁) :
    (∀ o ∈ (mainKernel cfg).insertTicks cfg cfg.preemptionUsec, o.InRange) ∧
    (∀ usec, usec ≤ maxUsecForTimer cfg → ∀ o ∈ k₁.insertTicks cfg usec, o.InRange) ∧
    (∀ o ∈ k₁.insertTicks cfg cfg.preemptionUsec, o.InRange) ∧
    (∀ t, ∀ o ∈ k₁.dequeueTicks t, o.InRange) ∧
    ∀ o ∈ (k₁.setSystick { k₁.systick with pending := false }).expireTicks, o.InRange := by
  have hk : KernelInv off k := (machineInv_of_reach h).kernel.path hp
  have hT : TimerInv k₁ := hk.timer.congr hs.queue hs.value (by rw [hs.systick])
    (by rw [hs.systick])
  refine ⟨fun o ho => insertTicks_inRange (slice_ticks cfg).2 ho, fun usec hle o ho => ?_,
    fun o ho => insertTicks_inRange (slice_ticks cfg).2 ho,
    fun t o ho => dequeueTicks_inRange hT ho, fun o ho => expireTicks_inRange hT _ ho⟩
  refine insertTicks_inRange ?_ ho
  rw [usecToTicks_eq hle]
  exact mul_mhz_le hle

/-- Two threads sleep 10 and 100 ticks, and the first one is taken out. -/
theorem ticks_in_range_two : TickOp.InRange (.reload 100) := by
  have htest : runTest (step { sliceConfig with mainSchedRr := false }) (fun _ _ => true)
      (fun s => decide (.reload 100 ∈ s.k.dequeueTicks 0))
      (init { sliceConfig with mainSchedRr := false })
      (.run (.call (.create 2)) [] :: runs 1 ++ .run (.call (.usecWait 100)) [] :: runs 3 ++
        .run (.call (.usecWait 10)) [] :: runs 3) = true := by decide +kernel
  obtain ⟨s, hr, hp⟩ := reach_any_of_runTest htest
  have hrange := ticks_in_range (e := .tick) hr .refl .refl
  exact hrange.2.2.2.1 0 _ (of_decide_eq_true hp)

end Chopstx
