import Chopstx.Section.Timers
import Chopstx.Property.Queues

/-!
# Deadlines of the threads that sleep

`chx_timer_expired` takes the head of `q_timer` for a thread that is due.  It is, unless
the counter was loaded anew while the exception for the old count was pending: the exception is
taken all the same, and the head is made ready before its time.

Where no time passes in a critical section and the exception is taken as soon as the count has
run out, the queue is a set of threads with the times at which they are due, and its operations are
those on this set.

* `Kernel.DueInv.insert`, `dueInv_of_reach` - the deadlines of the queue, in every run.
* `InTime` - no section loads the counter anew while the exception is pending.
* `expired_of_ready` - a thread that the timer makes ready is due.
* `timer_not_early` - the result about runs, and `timer_not_early_ten` one with a sleep of 10 ticks.
* `timer_early` - a run in which a thread is made ready 90 ticks too early.
* `Exact`, `spent_of_reach` - the runs in which the clock is exact.
* `timers_refine` - the operations on the queue are those on the set, and `timers_refine_two` a run.
-/

namespace Chopstx

open Kernel Transition DeltaQueue PrioQueue

variable {cfg : Config} {k k' : Kernel} {t u : Tid} {off off' : Option Tid} {op : Op}
  {s s' : State} {e : Event} {lags : List Nat}

/-! ## In every run -/

theorem Kernel.DueInv.insert {usec : Nat} (hi : k.DueInv) (hT : TimerInv k)
    (ht : .thread t ∉ k.queue .timer) (hle : usecToTicks cfg usec ≤ 16777215) :
    (k.chxTimerInsert cfg t usec).DueInv := by
  intro hl'
  have hclock : Clock k (k.chxTimerInsert cfg t usec) := chxTimerInsert_clock hT
  have hl := hclock.late hl'
  refine ⟨hclock.spent hl' (hi hl).1, fun u d hd => ?_⟩
  by_cases hut : u = t
  · subst hut
    exact insert_due_le hT ht hle hd
  · exact (chxTimerInsert_ages hT ht hle hut).due_le hi hl hl' hd

theorem initKernel_dueInv (cfg : Config) : (initKernel cfg).DueInv := by
  have hmain : (mainKernel cfg).DueInv := by
    intro _
    refine ⟨fun hp => ?_, fun u d hd => ?_⟩
    · cases hp
    · cases hd
  rw [initKernel_eq]
  split
  · exact hmain.insert (mainKernel_inv).timer (mainKernel_inv).notMem_of_out (slice_ticks cfg).2
  · exact hmain

theorem dueInv_of_reach {ok : State → Event → Prop} (h : Reach (step cfg) ok (init cfg) s) :
    s.k.DueInv :=
  Reach.invariant_of (P := fun s => s.k.DueInv) (fun _ => machineInv_of_reach)
    (initKernel_dueInv cfg)
    (fun _ _ _ hi _ hd _ hs => (hi.path hs).dueInv hi.kernel hd) h

/-- The steps that do not load the counter anew while its exception is pending. -/
def InTime (cfg : Config) (s : State) (e : Event) : Prop :=
  ∀ s', step cfg s e = .ok s' → s'.k.ghost.lateEdit = false

theorem initKernel_lateEdit (cfg : Config) : (initKernel cfg).ghost.lateEdit = false := by
  rw [initKernel_eq]
  split
  · rw [chxTimerInsert_eq (mainKernel_inv).timer.threads]
    rfl
  · rfl

theorem lateEdit_of_reach (h : Reach (step cfg) (InTime cfg) (init cfg) s) :
    s.k.ghost.lateEdit = false :=
  Reach.invariant (P := fun s => s.k.ghost.lateEdit = false) (initKernel_lateEdit cfg)
    (fun _ _ _ _ hok hs => hok _ hs) h

/-- A thread of `q_timer` that is ready after `chx_timer_expired` was taken out by it. -/
theorem expired_of_ready (h : KernelInv none k) (hu : .thread u ∈ k.queue .timer)
    (hready : ((k.setSystick { k.systick with pending := false }).chxTimerExpired.thread u).state =
      .ready) : .thread u ∈ k.expired := by
  by_contra hmem
  rw [(chxTimerExpired_expired h).others u hmem] at hready
  rcases h.holds_of_mem hu with hs | hs | hs <;> (rw [hready] at hs; cases hs)

/-- **No thread is made ready early by the timer**, in every run in which no section loads the
counter anew while the exception is pending. -/
theorem timer_not_early (h : Reach (step cfg) (InTime cfg) (init cfg) s)
    (hs : step cfg s (.systick lags) = .ok s') (hu : .thread u ∈ s.k.queue .timer)
    (hready : (s'.k.thread u).state = .ready) : s.k.ghost.due u ≤ s.k.systick.now := by
  have hi := machineInv_of_reach h
  cases step_stepTo hs with
  | systick hp hm =>
      have hmem := expired_of_ready (setLags_inv hi.kernel lags) hu hready
      have hdue : (s.k.setLags lags).DueInv := dueInv_of_reach h
      exact hdue.expired (lateEdit_of_reach h) hp hmem

/-- The test of `InTime`. -/
def inTimeTest (cfg : Config) (s : State) (e : Event) : Bool :=
  match step cfg s e with
  | .ok s' => !s'.k.ghost.lateEdit
  | .error _ => true

theorem inTime_of_test (h : inTimeTest cfg s e = true) : InTime cfg s e := by
  intro s' hs
  rw [inTimeTest, hs] at h
  simpa using h

/-- A thread that sleeps 10 ticks is made ready when they have passed. -/
theorem timer_not_early_ten : ∃ s s' : State,
    step { sliceConfig with mainSchedRr := false } s (.systick []) = .ok s' ∧
      (s'.k.thread 0).state = .ready ∧ s.k.ghost.due 0 ≤ s.k.systick.now := by
  have htest : runTest (step { sliceConfig with mainSchedRr := false })
      (inTimeTest { sliceConfig with mainSchedRr := false })
      (fun s => decide (.thread 0 ∈ s.k.queue .timer) &&
        stepTest (step { sliceConfig with mainSchedRr := false })
          (fun s' => decide ((s'.k.thread 0).state = .ready)) s (.systick []))
      (init { sliceConfig with mainSchedRr := false })
      (.run (.call (.usecWait 10)) [] :: runs 3 ++ List.replicate 10 .tick) = true := by
    decide +kernel
  obtain ⟨s, hr, hp⟩ := reach_of_runTest htest
  rw [Bool.and_eq_true, decide_eq_true_eq] at hp
  obtain ⟨hm, hp⟩ := hp
  obtain ⟨s', hs, hp⟩ := of_stepTest hp
  have hready := of_decide_eq_true hp
  exact ⟨s, s', hs, hready, timer_not_early (hr.mono fun _ _ => inTime_of_test) hs hm hready⟩

/-- Two threads sleep 10 and 100 ticks, and the first one is canceled in the last of its ticks:
the exception becomes pending between the two accesses to the counter. -/
def cancelLate : List Event :=
  .run (.call (.create 2)) [] :: runs 1 ++ .run (.call (.usecWait 10)) [] :: runs 3 ++
    .run (.call (.create 3)) [] :: runs 1 ++ .run (.call (.usecWait 100)) [] :: runs 3 ++
    [.run (.call (.cancel 1)) [], .run .none [9, 1]]

/-- **The second thread is made ready 90 ticks early**. -/
theorem timer_early : ∃ s s' : State, Reach (step { sliceConfig with mainSchedRr := false })
    anyEvent (init { sliceConfig with mainSchedRr := false }) s ∧
    step { sliceConfig with mainSchedRr := false } s (.systick []) = .ok s' ∧
    .thread 2 ∈ s.k.queue .timer ∧ (s'.k.thread 2).state = .ready ∧
    s.k.systick.now = 10 ∧ s.k.ghost.due 2 = 100 := by
  have htest : runTest (step { sliceConfig with mainSchedRr := false }) (fun _ _ => true)
      (fun s => decide (.thread 2 ∈ s.k.queue .timer ∧ s.k.systick.now = 10 ∧
          s.k.ghost.due 2 = 100) &&
        stepTest (step { sliceConfig with mainSchedRr := false })
          (fun s' => decide ((s'.k.thread 2).state = .ready)) s (.systick []))
      (init { sliceConfig with mainSchedRr := false }) cancelLate = true := by decide +kernel
  obtain ⟨s, hr, hp⟩ := reach_any_of_runTest htest
  rw [Bool.and_eq_true, decide_eq_true_eq] at hp
  obtain ⟨⟨hm, hnow, hdue⟩, hp⟩ := hp
  obtain ⟨s', hs, hp⟩ := of_stepTest hp
  exact ⟨s, s', hr, hs, hm, of_decide_eq_true hp, hnow, hdue⟩

/-! ## Where the clock is exact -/

/-- No time passes within a section, and the exception is taken when the count has run down. -/
def Exact (s : State) : Event → Prop
  | .tick => s.k.systick.pending = false
  | .systick lags => lags = []
  | .irq _ lags | .pendsv lags | .run _ lags => lags = [] ∧ s.k.systick.pending = false

instance : ∀ (s : State) (e : Event), Decidable (Exact s e)
  | s, .tick => inferInstanceAs (Decidable (s.k.systick.pending = false))
  | _, .systick lags => inferInstanceAs (Decidable (lags = []))
  | s, .irq _ lags | s, .pendsv lags | s, .run _ lags =>
      inferInstanceAs (Decidable (lags = [] ∧ s.k.systick.pending = false))

theorem Exact.lags_eq (he : Exact s e) : e.lags = [] := by
  cases e with
  | tick => rfl
  | systick => exact he
  | irq | pendsv | run => exact he.1

theorem Exact.handler (he : Exact s e) :
    (∀ op, s.May cfg e op ∧ op ≠ .pass → op = .expire) ∨ s.k.systick.pending = false := by
  cases e with
  | tick => exact .inr he
  | systick => exact .inl fun op hop => hop.1.resolve_left hop.2
  | irq | pendsv | run => exact .inr he.2

theorem spent_of_reach (h : Reach (step cfg) Exact (init cfg) s) : s.k.Spent := by
  refine Reach.invariant_of (P := fun s => s.k.Spent) (fun _ => machineInv_of_reach) ?_ ?_ h
  · intro hp
    have hoff : (initKernel cfg).systick.pending = false := by
      rw [initKernel_eq]
      split
      · exact (insert_sameClock (mainKernel_inv).timer rfl).2
      · rfl
    rw [show (init cfg).k = initKernel cfg from rfl, hoff] at hp
    cases hp
  · intro s e s' hi _ hspent he hs
    by_cases htick : e = .tick
    · subst htick
      cases step_stepTo hs with
      | tick => exact fun hp _ => (Systick.advance_later s.k.systick 1).spent he hp
    · have hp := hi.code hs htick
      rw [he.lags_eq] at hp
      exact (hp.atStill (fun _ hop => hop.2)
        ⟨setLags_inv hi.kernel [], rfl, hspent, he.handler⟩).spent

/-- **The operations on `q_timer` refine those on the list of deadlines**, at every point of every
section of a run in which the clock is exact. -/
theorem timers_refine (h : Reach (step cfg) Exact (init cfg) s) (he : Exact s e)
    (hp : Path cfg (fun op => s.May cfg e op ∧ op ≠ .pass) (none, s.k.setLags []) (off, k))
    (hsame : SameTimer k k') : TimersRefine cfg k' :=
  (hp.atStill (fun _ hop => hop.2) ⟨setLags_inv (machineInv_of_reach h).kernel [], rfl,
    spent_of_reach h, he.handler⟩).timersRefine hsame

/-- Two threads sleep, 10 and 100 ticks from the start. -/
theorem timers_refine_two : ∃ k : Kernel, k.timers = [(.thread 0, 10), (.thread 1, 100)] ∧
    TimersRefine { sliceConfig with mainSchedRr := false } k := by
  have htest : runTest (step { sliceConfig with mainSchedRr := false })
      (fun s e => decide (Exact s e))
      (fun s => decide ((s.k.setLags []).timers = [(.thread 0, 10), (.thread 1, 100)] ∧
        Exact s .tick))
      (init { sliceConfig with mainSchedRr := false })
      (.run (.call (.create 2)) [] :: runs 1 ++ .run (.call (.usecWait 100)) [] :: runs 3 ++
        .run (.call (.usecWait 10)) [] :: runs 3) = true := by decide +kernel
  obtain ⟨s, hr, hp⟩ := reach_of_runTest htest
  obtain ⟨htimers, he⟩ := of_decide_eq_true hp
  exact ⟨_, htimers, timers_refine (hr.mono fun _ _ => of_decide_eq_true) he .refl .refl⟩

end Chopstx
