import Chopstx.Property.Queues

/-!
# The scheduler lock

Preemption is masked if and only if the running thread has a priority that inhibits it.
`chx_cpu_sched_lock` and `chx_cpu_sched_unlock` test the priority of the running thread
separately, but in between preemption is masked in either case, whatever happens to the
priority; and a context switch looks at the priority of the next thread.

* `Kernel.MaskRight` - preemption is masked if and only if the running thread inhibits it.
* `maskRight_switch`, `Kernel.MaskRight.lock`, `maskRight_unlock` - the operations that mask it.
* `Path.masked` - a path of moves that all keep the mask.
* `Next.mask`, `Kernel.MaskRight.step` - a step of a thread, and of the machine.
* `maskRight_of_steps` - the result about runs; `maskRight_of_steps_boost` is a run with a boost.
-/

namespace Chopstx

open Kernel Transition

variable {cfg : Config} {s s' : State} {e : Event} {k k' k₁ : Kernel} {t u tp : Tid}
  {f : Frame} {rest : List Frame} {ret : Int} {ctx : Ctx} {off off' : Option Tid} {op : Op}
  {P before after : Op → Prop}

/-- Preemption is masked exactly when the running thread inhibits it. -/
def Kernel.MaskRight (k : Kernel) : Prop :=
  k.masked = true ↔ ∃ t, k.running = some t ∧ prioInhibitPreemption ≤ (k.thread t).prio

/-! ## Lock and unlock -/

theorem inhibits_iff :
    k.inhibits = true ↔ ∃ t, k.running = some t ∧ prioInhibitPreemption ≤ (k.thread t).prio := by
  rw [inhibits]
  cases k.running with
  | none => simp
  | some r => simp

/-- Within a critical section preemption is masked. -/
theorem Kernel.MaskRight.lock (h : k.MaskRight) : k.chxCpuSchedLock.masked = true := by
  rw [chxCpuSchedLock_masked]
  split
  · rename_i hi
    exact h.2 (inhibits_iff.1 hi)
  · rfl

/-- The end of a critical section looks at the priority again. -/
theorem maskRight_unlock (hm : k.masked = true) : k.chxCpuSchedUnlock.MaskRight := by
  have hi : k.chxCpuSchedUnlock.masked = true ↔ k.inhibits = true := by
    rw [chxCpuSchedUnlock_masked]
    split
    · rename_i hi
      simp [hm, hi]
    · rename_i hi
      simp [hi]
  exact hi.trans inhibits_iff

/-- A context switch looks at the priority of the next thread. -/
theorem maskRight_switch (h : KernelInv none k) (hm : k.masked = true) :
    (k.switchThread cfg).MaskRight := by
  rcases switchThread_switched cfg h with ⟨-, heq⟩ | ⟨t, hsw⟩
  · rw [heq]
    simp [MaskRight]
  · have hp : ((k.switchThread cfg).thread t).prio = (k.thread t).prio := by
      rw [hsw.self]
    rw [MaskRight, hsw.masked, hsw.running, hm]
    simp [hp]

theorem Kernel.MaskRight.congr (h : k.MaskRight) (hm : k'.masked = k.masked)
    (hr : k'.running = k.running)
    (hp : ∀ t, k.running = some t → (k'.thread t).prio = (k.thread t).prio) : k'.MaskRight := by
  rw [MaskRight, hm, hr]
  refine h.trans (exists_congr fun t => and_congr_right fun ht => ?_)
  rw [hp t ht]

/-! ## Within a section -/

/-- The moves that neither mask nor unmask. -/
def Op.KeepsMask (op : Op) : Prop := op ≠ .aux ∧ op ≠ .switch

theorem Path.masked (hp : Path cfg P (off, k) (off', k')) (h : KernelInv off k)
    (hP : ∀ op, P op → op.KeepsMask) : k'.masked = k.masked := by
  have key := hp.keeps (I := fun a => KernelInv a.1 a.2 ∧ a.2.masked = k.masked) ?_ ⟨h, rfl⟩
  · exact key.2
  · rintro op ⟨off, k₁⟩ ⟨off', k₂⟩ hop hm ⟨hk, hmask⟩
    exact ⟨hk.move hm, (hm.masked hk (hP op hop).1 (hP op hop).2).trans hmask⟩

theorem Op.Wakes.keepsMask (h : op.Wakes) : op.KeepsMask := by
  cases h <;> exact ⟨(by simp), (by simp)⟩

theorem Op.Inherits.keepsMask (h : op.Inherits) : op.KeepsMask := by
  cases h <;> exact ⟨(by simp), (by simp)⟩

theorem Op.Unlocks.keepsMask {m : Mid} (h : op.Unlocks t m) : op.KeepsMask := by
  cases h <;> exact ⟨(by simp), (by simp)⟩

theorem Op.none_keepsMask (h : Op.None op) : op.KeepsMask := h.elim

/-- `chx_sched (CHX_YIELD)`, or the end of the critical section. -/
theorem yieldOrUnlock_mask {b : Bool} (h : KernelInv none k) (hr : Runs k t)
    (hm : k.masked = true) (hy : k.yieldOrUnlock cfg t b = .ok k') : k'.MaskRight := by
  rw [yieldOrUnlock] at hy
  split at hy
  · obtain ⟨k₁, he, hk⟩ := res_bind_eq_ok.1 hy
    cases hk
    obtain ⟨hm₁, hk₁, hr₁⟩ := slice_move cfg h hr he
    have hm₂ : Move cfg (.yield t) (some t, k₁) (none, _) := .yield hr₁.2
    refine maskRight_switch (hk₁.move hm₂) ?_
    rw [hm₂.masked hk₁ (by simp) (by simp), hm₁.masked h (by simp) (by simp), hm]
  · cases hy
    exact maskRight_unlock hm

/-- A section that puts the thread to sleep. -/
theorem Sleeps.mask (hs : Sleeps cfg t before op after k k') (h : KernelInv none k)
    (hc : op.Connects t) (hm : k.masked = true) (hb : ∀ o, before o → o.KeepsMask)
    (ha : ∀ o, after o → o.KeepsMask) : k'.MaskRight := by
  obtain ⟨k₁, k₂, k₃, k₄, hp₁, hm₁, hm₂, hp₂, rfl⟩ := hs.steps
  have h₁ : KernelInv none k₁ := h.path hp₁
  have h₂ : KernelInv (some t) k₂ := h₁.move hm₁
  have h₃ : KernelInv none k₃ := h₂.move hm₂
  have hop : op.KeepsMask := by
    constructor <;> rintro rfl <;> exact hc
  refine maskRight_switch (h₃.path hp₂) ?_
  rw [hp₂.masked h₃ ha, hm₂.masked h₂ hop.1 hop.2, hm₁.masked h₁ (by simp) (by simp),
    hp₁.masked h hb, hm]

/-! ## Steps of a thread -/

section Steps

variable (h : KernelInv none k) (hr : Runs k t) (hk : k.MaskRight)

include h hr hk

theorem PollNext.mask {Q : Poll} {pt : PollPt} (hn : PollNext cfg k t Q rest ret pt k' ctx) :
    k'.MaskRight := by
  have hl := hk.lock
  have hlu : k.chxCpuSchedLock.chxCpuSchedUnlock.MaskRight := maskRight_unlock hl
  cases hn with
  | condEnqueue => exact maskRight_unlock hl
  | intrHook =>
      refine maskRight_unlock ?_
      split <;> exact hl
  | joinHook =>
      refine maskRight_unlock ?_
      split <;> exact hl
  | joinFatal | mainReady | mainLoop | snoozeReady => exact hlu
  | mainSleep hc hu hs =>
      exact (pollSleep_sleeps (lock_inv h) hr.lock hs).mask (lock_inv h) rfl hl
        (fun _ => Op.none_keepsMask) fun _ => Op.none_keepsMask
  | snoozeEnd hc hs =>
      rcases chxSnooze_cases (lock_inv h) hr.lock (.inr rfl) hs with ⟨-, rfl⟩ | ⟨usec0, ho, -⟩
      · exact hlu
      · cases ho
  | snoozeSleep hc hs =>
      rcases chxSnooze_cases (lock_inv h) hr.lock (.inr rfl) hs with ⟨ho, -⟩ | ⟨usec0, -, hs⟩
      · cases ho
      · exact hs.mask (lock_inv h) rfl hl (fun _ => Op.none_keepsMask) fun _ => Op.none_keepsMask
  | cleanup =>
      refine maskRight_unlock ?_
      split
      · exact hl
      · split <;> exact hl
  | _ => exact hk

/-- **Every section ends with the mask right**, on each of its paths. -/
theorem Next.mask (hn : Next cfg k t rest ret f k' ctx) (hf : f.Fits k) : k'.MaskRight := by
  have hl := hk.lock
  have hlu : k.chxCpuSchedLock.chxCpuSchedUnlock.MaskRight := maskRight_unlock hl
  have hunlock : ∀ {m n k₁}, k.chxCpuSchedLock.chxMutexUnlock cfg t m = .ok (k₁, n) →
      KernelInv none k₁ ∧ Runs k₁ t ∧ k₁.masked = true := by
    intro m n k₁ hu
    have hp := chxMutexUnlock_path (lock_inv h) hr.lock hu
    exact ⟨(lock_inv h).path hp, (hp.runs (fun _ => Op.Unlocks.quiet) (lock_inv h) hr.lock).1,
      (hp.masked (lock_inv h) fun _ => Op.Unlocks.keepsMask).trans hl⟩
  have hwakes : ∀ {k₁ b}, Path cfg Op.Wakes (none, k.chxCpuSchedLock) (none, k₁) →
      k₁.yieldOrUnlock cfg t b = .ok k' → k'.MaskRight := by
    intro k₁ b hp hy
    refine yieldOrUnlock_mask ((lock_inv h).path hp) ?_ ?_ hy
    · exact (hp.runs (fun _ => Op.Wakes.quiet) (lock_inv h) hr.lock).1
    · exact (hp.masked (lock_inv h) fun _ => Op.Wakes.keepsMask).trans hl
  have hrecord : ∀ {u : Tid} {g : Thread → Thread}, (g (k.thread u)).prio = (k.thread u).prio →
      (k.modThread u g).MaskRight := by
    intro u g hg
    refine hk.congr rfl rfl fun u' _ => ?_
    by_cases hu : u' = u
    · subst hu
      simpa using hg
    · simp [hu]
  cases hn with
  | create hc =>
      rename_i fp
      rw [chopstxCreate] at hc
      set k₁ : Kernel := { k with
        nthread := k.nthread + 1
        thread := Function.update k.thread k.nthread (newThread fp) } with hk₁
      have hm : Move cfg (.create k.nthread) (none, k) (none, k₁.chxReadyEnqueue k.nthread) :=
        .create fp
      have hright : k₁.MaskRight := by
        refine hk.congr rfl rfl fun u hu => ?_
        have hne : u ≠ k.nthread := Nat.ne_of_lt (h.born u hu)
        simp [hk₁, hne]
      have hm' : Move cfg .aux (none, k₁.chxReadyEnqueue k.nthread)
          (none, k₁.chxCpuSchedLock.chxReadyEnqueue k.nthread) :=
        .aux k₁.chxCpuSchedLock.masked k.counter k.ncall k.mem le_rfl fun _ _ => rfl
      exact yieldOrUnlock_mask ((h.move hm).move hm') (hm.runs trivial h hr).1 hright.lock hc
  | usecEnd hz =>
      rcases chxSnooze_cases (lock_inv h) hr.lock (.inl rfl) hz with ⟨-, rfl⟩ | ⟨usec0, ho, -⟩
      · exact hlu
      · cases ho
  | usecSleep hz =>
      rcases chxSnooze_cases (lock_inv h) hr.lock (.inl rfl) hz with ⟨ho, -⟩ | ⟨usec0, -, hs⟩
      · cases ho
      · exact hs.mask (lock_inv h) rfl hl (fun _ => Op.none_keepsMask) fun _ => Op.none_keepsMask
  | acquired hlock =>
      rcases chopstxMutexLock_locked h hr hlock with ⟨-, ho, rfl⟩ | ⟨hb, -⟩
      · exact maskRight_unlock hl
      · cases hb
  | blocked hlock =>
      rcases chopstxMutexLock_locked h hr hlock with ⟨hb, -⟩ | ⟨-, -, hs⟩
      · cases hb
      · exact hs.mask (lock_inv h) rfl hl (fun _ => Op.Inherits.keepsMask)
          fun _ => Op.none_keepsMask
  | mutexUnlock hu =>
      obtain ⟨⟨k₁, n⟩, hu₁, hy⟩ := res_bind_eq_ok.1 hu
      obtain ⟨h₁, hr₁, hm₁⟩ := hunlock hu₁
      exact yieldOrUnlock_mask h₁ hr₁ hm₁ hy
  | exitUnlock hu =>
      obtain ⟨⟨k₁, n⟩, hu₁, hk⟩ := res_bind_eq_ok.1 hu
      cases hk
      exact maskRight_unlock (hunlock hu₁).2.2
  | condWait hw =>
      rename_i c o
      obtain ⟨k₁, hu, h₁, hr₁, hs⟩ := chopstxCondWait_cases h hr hw
      refine hs.mask h₁ rfl ?_ (fun _ => Op.none_keepsMask) fun _ => Op.none_keepsMask
      cases o with
      | none =>
          cases hu
          exact hl
      | some m =>
          obtain ⟨⟨k₂, n⟩, hu₁, hk⟩ := res_bind_eq_ok.1 hu
          cases hk
          exact (hunlock hu₁).2.2
  | condSignal hc =>
      obtain ⟨⟨k₁, b⟩, hk₁, hc⟩ := res_bind_eq_ok.1 hc
      exact hwakes (wakeFirst_path (lock_inv h) hk₁) hc
  | condBroadcast hc =>
      obtain ⟨⟨k₁, b⟩, hk₁, hc⟩ := res_bind_eq_ok.1 hc
      exact hwakes (wakeAll_path (lock_inv h) hk₁) hc
  | claimIrq hd => exact maskRight_unlock hl
  | cleanupPush | cleanupPop | cleanupExecute | setcancelstate | exitStart => exact hrecord rfl
  | setpriority hp =>
      have hm : Move cfg (.prio t) (none, k.chxCpuSchedLock) _ :=
        .prio (setpriority_lt (t := t) h hf) hf (by simp [hr.2]) (by simp [hr.2]) (by simp [hr.2])
      have hr₁ := (hm.runs trivial (lock_inv h) hr.lock).1
      exact yieldOrUnlock_mask ((lock_inv h).move hm) hr₁ hl hp
  | cancel hc =>
      rename_i tp
      rw [chopstxCancel] at hc
      set k₀ := k.chxCpuSchedLock.modThread tp fun th => { th with flagGotCancel := true } with hk₀
      have hm : Move cfg (.flags tp .cancel) (none, k.chxCpuSchedLock) (none, k₀) := .flags .cancel
      have h₀ : KernelInv none k₀ := (lock_inv h).move hm
      have hr₀ : Runs k₀ t := (hm.runs trivial (lock_inv h) hr.lock).1
      simp only at hc
      split at hc
      · obtain ⟨o, hd, hc⟩ := res_bind_eq_ok.1 hc
        cases o with
        | some k₁ =>
            have hm₁ := cancelDequeue_move cfg h₀ hd
            refine yieldOrUnlock_mask (h₀.move hm₁) (hm₁.runs trivial h₀ hr₀).1 ?_ hc
            exact (hm₁.masked h₀ (by simp) (by simp)).trans hl
        | none =>
            cases hc
            exact maskRight_unlock hl
      · cases hc
        exact maskRight_unlock hl
  | joinFatal => exact hlu
  | joinSleep hd hj =>
      rcases chopstxJoin_locked h hr hj with ⟨hb, -⟩ | ⟨-, -, hs⟩
      · cases hb
      · refine hs.mask (lock_inv h) rfl hl (fun _ => Op.none_keepsMask) ?_
        rintro o (rfl | ho)
        · exact ⟨(by simp), (by simp)⟩
        · exact ho.keepsMask
  | joinDone hd hj =>
      rcases chopstxJoin_locked h hr hj with ⟨-, -, rfl⟩ | ⟨hb, -⟩
      · exact hlu
      · cases hb
  | joined hm =>
      rename_i tp rp mem
      have hj : (k.modThread tp fun th => { th with state := .finished }).MaskRight := hrecord rfl
      exact hj
  | poll hp => exact hp.mask h hr hk
  | exit hx =>
      exact (chxExit_locked h hr hx).mask (lock_inv h) rfl hl (fun _ => Op.Wakes.keepsMask)
        fun _ => Op.none_keepsMask
  | _ => exact hk

end Steps

/-! ## Steps of the machine -/

/-- `preempt` ends in a context switch with preemption masked. -/
theorem preempt_mask (h : KernelInv none k)
    (hr : ∀ t, k.running = some t → (k.thread t).state = .running ∨
      (k.thread t).state = .ready ∧ (k.thread t).flagSchedRr = true)
    (hp : k.preempt cfg = .ok k') : k'.MaskRight := by
  obtain ⟨k₁, hp₁, hm₁, -, rfl⟩ := preempt_cases h hr hp
  exact maskRight_switch (h.path hp₁) hm₁

/-- **Every step of the machine keeps the mask right.** -/
theorem Kernel.MaskRight.step (hk : s.k.MaskRight) (h : MachineInv cfg s)
    (hs : step cfg s e = .ok s') : s'.k.MaskRight := by
  cases step_stepTo hs with
  | tick => exact hk
  | systick hp hm =>
      rename_i lags
      have he := chxTimerExpired_expired (setLags_inv h.kernel lags)
      refine hk.congr he.masked he.running fun t _ => ?_
      by_cases ht : .thread t ∈ (s.k.setLags lags).expired
      · rw [he.self t ht]
        rfl
      · rw [he.others t ht]
        rfl
  | irq hi hm hk' =>
      rename_i n lags k'
      have hk₀ := setLags_inv h.kernel lags
      have hp : Path cfg (Op.Handles n) (none, s.k.setLags lags) (none, k') :=
        chxHandleIntr_path hk₀ hk'
      obtain ⟨hrun, hmask, -, -, hprio⟩ := handles_path hp hk₀
      exact hk.congr hmask hrun fun t _ => hprio t
  | pendsv hp hm hk' =>
      rename_i lags k'
      refine preempt_mask (setLags_inv h.kernel lags) (fun t ht => ?_) hk'
      exact (h.run.active t ht).imp id fun hst => ⟨hst.1, hst.2.1⟩
  | run hb hr hf hn hstep =>
      rename_i c lags t f rest k' ctx
      have hsec := h.section hb hr hf hn
      have hk₀ : (s.k.setLags lags).MaskRight := hk
      exact hn.mask hsec.kernel hsec.runs hk₀ hsec.fits

/-- **Preemption is masked exactly when the running thread inhibits it**, after every step of
every run from a state where it is so, and in every reachable state. -/
theorem maskRight_of_steps (cfg : Config) :
    (∀ s s', MachineInv cfg s → s.k.MaskRight → Steps (step cfg) anyEvent s s' →
      s'.k.MaskRight) ∧
    ∀ s, Reach (step cfg) anyEvent (init cfg) s → s.k.MaskRight := by
  have key : ∀ s s', MachineInv cfg s → s.k.MaskRight → Steps (step cfg) anyEvent s s' →
      s'.k.MaskRight := by
    intro s s' h hk hs
    refine (hs.keeps (P := fun s => MachineInv cfg s ∧ s.k.MaskRight) ?_ ⟨h, hk⟩).2
    rintro s₁ e s₂ ⟨h, hk⟩ - hs
    exact ⟨h.keeps hs, hk.step h hs⟩
  refine ⟨key, fun s h => key (init cfg) s (init_inv cfg) ?_ h⟩
  obtain ⟨hrun, -, -, hmask, -, -⟩ := initKernel_rest cfg
  obtain ⟨v, q, hth⟩ := initKernel_thread cfg 0
  rw [MaskRight, show (init cfg).k = initKernel cfg from rfl, hmask, hrun]
  simp [hth, mainKernel]

/-- The priority of a thread rises to 250 while it owns a mutex that a thread of this priority
wants, and falls again when it releases the mutex. -/
theorem maskRight_of_steps_boost : ∃ s s' : State,
    s.k.running = some 0 ∧ (s.k.thread 0).prio = 250 ∧ s.k.masked = true ∧
    s'.k.running = some 1 ∧ (s'.k.thread 0).prio = 1 ∧ s'.k.MaskRight := by
  have htest : runTest (step { sliceConfig with mainSchedRr := false }) (fun _ _ => true)
      (fun s => decide (s.k.running = some 0 ∧ (s.k.thread 0).prio = 250 ∧ s.k.masked = true) &&
        runTest (step { sliceConfig with mainSchedRr := false }) (fun _ _ => true)
          (fun s' => decide (s'.k.running = some 1 ∧ (s'.k.thread 0).prio = 1)) s
          (.run (.call (.mutexUnlock 0)) [] :: runs 1))
      (init { sliceConfig with mainSchedRr := false }) (.run (.call (.mutexLock 0)) [] :: runs 1 ++
        .run (.call (.create 250)) [] :: runs 1 ++
        .run (.call (.mutexLock 0)) [] :: runs 1) = true := by decide +kernel
  obtain ⟨s, hr, hp⟩ := reach_any_of_runTest htest
  rw [Bool.and_eq_true, decide_eq_true_eq] at hp
  obtain ⟨⟨hrun, hprio, hmask⟩, hp⟩ := hp
  obtain ⟨s', hs', hp'⟩ := reach_any_of_runTest hp
  rw [decide_eq_true_eq] at hp'
  obtain ⟨hsteps, hreach⟩ := maskRight_of_steps { sliceConfig with mainSchedRr := false }
  exact ⟨s, s', hrun, hprio, hmask, hp'.1, hp'.2,
    hsteps s s' (machineInv_of_reach hr) (hreach s hr) hs'⟩

end Chopstx
