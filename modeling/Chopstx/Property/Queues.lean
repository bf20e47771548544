import Chopstx.Run.Invariant
import Chopstx.Section.Search

/-!
# Every thread is linked where its state says

In every run the state of a thread says which queue it is linked in, if any, and its
field `parent` names that queue.  For a thread in the state of polling the code reads
`parent` to find out whether the thread is in `q_timer`.  That is right unless a
round-robin thread goes to sleep in `chopstx_poll` without a timeout: it leaves
`q_timer`, but `chx_timer_dequeue` does not clear `parent`.

* `noSlicedPoll` - the condition of the runs.
* `Kernel.Linked` - what the state of a thread says about the queues.
* `Kernel.Honest.next`, `Kernel.Honest.step`, `honest_of_reach` - the field `parent` is right, step
  by step.
* `pollStep_ends`, `frameStep_ends`, `step_ends` - a step that searches a queue finds the thread.
* `linked_of_reach` - the result about runs, and `linked_of_reach_plain` one of them.
* `sliced_poll_not_linked` - a run that breaks it.
* `sliceConfig`, `plainConfig` - configurations of the machine that runs are computed in.
-/

namespace Chopstx

open Kernel Transition

variable {cfg : Config} {s s' : State} {e : Event} {k k' : Kernel} {t u : Tid} {P : Poll}
  {pt : PollPt} {f : Frame} {rest : List Frame} {ret : Int} {ctx : Ctx} {c : Choice}

/-- No round-robin thread goes to sleep in `chopstx_poll` without a timeout. -/
def noSlicedPoll (s : State) : Event → Bool
  | .run _ _ =>
      match s.top with
      | some (t, .poll P .main) =>
          !((s.k.thread t).flagSchedRr && P.usec.isNone && s.k.counter P.call == 0)
      | _ => true
  | _ => true

/-- The state of every thread says where it is linked, and `parent` names that queue. -/
def Kernel.Linked (k : Kernel) : Prop :=
  ∀ t, (k.place t).WellFormed ∧
    ((k.thread t).state = .waitPoll →
      ((k.thread t).parent = some .timer ↔ .thread t ∈ k.queue .timer))

theorem KernelInv.linked (h : KernelInv none k) (hh : k.Honest) : k.Linked := by
  refine fun t => ⟨h.place' t, fun hs => ⟨fun hp => ?_, fun hm => ?_⟩⟩
  · exact mem_of_isIn (hh t hp (.inl hs))
  · exact (h.isIn_of_mem hm).1

/-! ## A step -/

/-- A section of a thread keeps `parent` right. -/
theorem Kernel.Honest.next (hh : k.Honest) (hsec : Section cfg k t f k')
    (hn : Next cfg k t rest ret f k' ctx)
    (hok : ∀ P, f = .poll P .main → P.usec = none → k.counter P.call = 0 →
      (k.thread t).flagSchedRr = false) : k'.Honest := by
  have hsleep : (∀ u, ¬ f.May cfg t (.pollSleep u)) ∨ (k.thread t).flagSchedRr = false ∨
      k' = k.chxCpuSchedLock.chxCpuSchedUnlock := by
    by_cases hf : ∃ P, f = .poll P .main
    · obtain ⟨P, rfl⟩ := hf
      cases hn with
      | poll hp =>
          cases hp with
          | mainReady | mainLoop => exact .inr (.inr rfl)
          | mainSleep hc hu hs => exact .inr (.inl (hok P rfl hu hc))
    · refine .inl fun u hu => hf ?_
      have hc := hu.connect (u := u) rfl
      cases f with
      | poll P pt =>
          cases pt with
          | main => exact ⟨P, rfl⟩
          | _ => cases hc
      | _ => cases hc
  rcases hsleep with hno | hrr | rfl
  · exact hh.path hsec.path hsec.kernel fun u hu => absurd hu (hno u)
  · refine hh.path hsec.path hsec.kernel fun u hu => ?_
    rw [hu.by.connects (u := u) rfl]
    exact ⟨hsec.runs.lt hsec.kernel, hrr⟩
  · exact hh

/-- **Every step keeps `parent` right.** -/
theorem Kernel.Honest.step (hh : s.k.Honest) (h : MachineInv cfg s) (hok : noSlicedPoll s e = true)
    (hs : step cfg s e = .ok s') : s'.k.Honest := by
  cases step_stepTo hs with
  | tick =>
      have hm : Move cfg .pass (none, s.k) (none, _) := tick_move
      exact hh.move hm h.kernel (by simp)
  | systick | irq | pendsv =>
      refine hh.path (h.path hs) h.kernel fun t ht => ?_
      obtain ⟨-, c, lags, he⟩ := ht.connects (u := t) rfl
      cases he
  | run hb hr hf hn hstep =>
      rename_i c lags t f rest k' ctx
      have hh₀ : (s.k.setLags lags).Honest := hh
      refine hh₀.next (h.section hb hr hf hn) hn fun P hP hu hc => ?_
      subst hP
      have hc' : s.k.counter P.call = 0 := hc
      have hrr : (s.k.thread t).flagSchedRr = false := by
        simpa [noSlicedPoll, State.top_eq hr hf, hu, hc'] using hok
      exact hrr

/-- The first state. -/
theorem initKernel_honest (cfg : Config) : (initKernel cfg).Honest := by
  have hk := initKernel_inv cfg
  intro u
  obtain ⟨v, q, hth⟩ := initKernel_thread cfg u
  by_cases hu : u = 0
  · subst hu
    rintro hpar (hs | ⟨-, hrr⟩)
    · rw [place_state, hth] at hs
      cases hs
    · have hrr' : cfg.mainSchedRr = false := by
        rw [place_schedRr, hth] at hrr
        exact hrr
      rw [place_parent, initKernel_eq, if_neg (by simp [hrr'])] at hpar
      cases hpar
  · refine .of_state ?_ ?_ <;> simp [hth, mainKernel_thread_of_ne hu]

theorem honest_of_reach (h : Reach (step cfg) (fun s e => noSlicedPoll s e = true) (init cfg) s) :
    s.k.Honest :=
  Reach.invariant_of (P := fun s => s.k.Honest) (fun _ => machineInv_of_reach)
    (initKernel_honest cfg) (fun _ _ _ hi _ hh hok hs => hh.step hi hok hs) h

/-! ## The searches of a step -/

theorem pollStep_ends (h : KernelInv none k) (hr : Runs k t) :
    SearchEnds (pollStep cfg k t P pt rest ret c) := by
  cases pt with
  | main =>
      refine .ite (fun _ => .ok _) fun _ => ?_
      split
      · exact (pollSleep_ends (lock_inv h) hr.lock).bind fun _ _ => .ok _
      · exact .ok _
  | snooze =>
      refine .ite (fun _ => .ok _) fun _ => (chxSnooze_ends (lock_inv h) hr.lock).bind fun r _ => ?_
      split <;> exact .ok _
  | _ =>
      -- no section of these frames looks into `q_timer`
      simp only [pollStep]
      repeat' split
      all_goals first | exact .ok _ | exact .disabled

theorem frameStep_ends (h : KernelInv none k) (hh : k.Honest) (hr : Runs k t) (hf : f.Fits k) :
    SearchEnds (frameStep cfg k t f rest ret c) := by
  cases f with
  | create fp => exact (chopstxCreate_ends h hr).bind fun _ _ => .ok _
  | usecSnooze usec =>
      refine (chxSnooze_ends (lock_inv h) hr.lock).bind fun r _ => ?_
      split <;> exact .ok _
  | mutexLock m b =>
      exact (chopstxMutexLock_ends h hh hr).bind fun _ _ => .ite (fun _ => .ok _) fun _ => .ok _
  | mutexUnlock m => exact (chopstxMutexUnlock_ends h hr).bind fun _ _ => .ok _
  | condWait c m => exact (chopstxCondWait_ends h hr).bind fun _ _ => .ok _
  | condSignal c => exact (chopstxCondSignal_ends h hh hr).bind fun _ _ => .ok _
  | condBroadcast c => exact (chopstxCondBroadcast_ends h hh hr).bind fun _ _ => .ok _
  | setpriority prio => exact (chopstxSetpriority_ends h hr hf).bind fun _ _ => .ok _
  | cancel tp => exact (chopstxCancel_ends h hh hr).bind fun _ _ => .ok _
  | join tp ret =>
      refine .ite (fun _ => .ok _) fun _ => (chopstxJoin_ends h hh hr).bind fun r _ => ?_
      exact .ite (fun _ => .ok _) fun _ => .ok _
  | poll P pt => exact pollStep_ends h hr
  | exitUnlock m next rv => exact exitMutexUnlock_ends.bind fun _ _ => .ok _
  | exit rv => exact (chxExit_ends h hh hr).bind fun _ _ => .ok _
  | _ =>
      simp only [frameStep]
      repeat' split
      all_goals first | exact .ok _ | exact .disabled

/-- **No step searches for ever**, if `parent` is right. -/
theorem step_ends (h : MachineInv cfg s) (hh : s.k.Honest) (e : Event) :
    SearchEnds (step cfg s e) := by
  have hlags : ∀ lags, KernelInv none (s.k.setLags lags) := setLags_inv h.kernel
  have hhlags : ∀ lags, (s.k.setLags lags).Honest := fun _ => hh
  cases e with
  | tick => exact .ok _
  | systick lags => exact .ite (fun _ => .ok _) fun _ => .disabled
  | irq n lags =>
      refine .ite (fun _ => ?_) fun _ => .disabled
      exact (chxHandleIntr_ends cfg (hlags lags) (hhlags lags)).bind fun _ _ => .ok _
  | pendsv lags =>
      refine .ite (fun _ => ?_) fun _ => .disabled
      exact (preempt_ends (hlags lags)).bind fun _ _ => .ok _
  | run c lags =>
      refine .ite (fun _ => .disabled) fun hb => ?_
      rw [threadStep]
      split
      · exact .disabled
      · rename_i t hr
        split
        · exact .disabled
        · rename_i f rest hf
          have hb' : (s.k.systick.pending = true ∨ s.k.pendsv = true) → s.k.masked = true := by
            intro hp
            by_contra hm
            exact hb ⟨hp, hm⟩
          have hruns := (h.run.runs hb' hr).1
          have htop := h.top t (hruns.lt h.kernel)
          have hshape := h.shape t
          rw [hf] at htop hshape
          exact (frameStep_ends (hlags lags) (hhlags lags) hruns
            (TopOk.fits (k := s.k) htop hshape.head)).bind fun _ _ => .ok _

/-! ## Runs -/

/-- **Every thread is linked where its state says, and every search ends**, in every run
in which no round-robin thread goes to sleep in `chopstx_poll` without a timeout. -/
theorem linked_of_reach (cfg : Config) (s : State)
    (h : Reach (step cfg) (fun s e => noSlicedPoll s e = true) (init cfg) s) :
    s.k.Linked ∧ ∀ e, SearchEnds (step cfg s e) := by
  have hi := machineInv_of_reach h
  have hh := honest_of_reach h
  exact ⟨hi.kernel.linked hh, step_ends hi hh⟩

/-- A program whose `main` is a round-robin thread that waits for an interrupt. -/
def sliceConfig : Config where
  mhz := 1
  preemptionUsec := 1000
  prioMainInit := 1
  mainSchedRr := true
  mainDetached := false
  nmutex := 1
  pd _ := .intr 0
  mhz_pos := by decide
  mhz_le := by decide
  preemptionUsec_pos := by decide
  slice_le := by decide
  prioMainInit_lt := by decide

/-- `main` is not round-robin. -/
def plainConfig : Config := { sliceConfig with mainSchedRr := false }

/-- The thread sleeps in `chopstx_intr_wait`, its `parent` names `q_timer`, but it is not
there; and when the interrupt comes, the search for it never ends. -/
theorem sliced_poll_not_linked : ∃ s, Reach (step sliceConfig) anyEvent (init sliceConfig) s ∧
    ¬ s.k.Linked ∧ ¬ SearchEnds (step sliceConfig s (.irq 0 [])) := by
  have htest : runTest (step sliceConfig) (fun _ _ => true)
      (fun s => decide ((s.k.thread 0).state = .waitPoll ∧ (s.k.thread 0).parent = some .timer ∧
        s.k.queue .timer = []) && match step sliceConfig s (.irq 0 []) with
          | .error .endlessSearch => true
          | _ => false)
      (init sliceConfig) (.run (.call (.intrWait 0)) [] :: runs 9) = true := by decide +kernel
  obtain ⟨s, hr, hp⟩ := reach_any_of_runTest htest
  rw [Bool.and_eq_true, decide_eq_true_eq] at hp
  obtain ⟨⟨hs, hpar, hq⟩, hirq⟩ := hp
  refine ⟨s, hr, fun hl => ?_, fun he => ?_⟩
  · have hm := ((hl 0).2 hs).1 hpar
    rw [hq] at hm
    cases hm
  · split at hirq
    · rename_i heq
      exact he heq
    · cases hirq

/-- A thread that is not round-robin may sleep so. -/
theorem linked_of_reach_plain : ∃ s : State, (s.k.thread 0).state = .waitPoll ∧ s.k.Linked := by
  have htest : runTest (step { sliceConfig with mainSchedRr := false }) noSlicedPoll
      (fun s => decide ((s.k.thread 0).state = .waitPoll))
      (init { sliceConfig with mainSchedRr := false })
      (.run (.call (.intrWait 0)) [] :: runs 9) = true := by decide +kernel
  obtain ⟨s, hr, hp⟩ := reach_of_runTest htest
  exact ⟨s, by simpa using hp, (linked_of_reach _ s hr).1⟩

end Chopstx
