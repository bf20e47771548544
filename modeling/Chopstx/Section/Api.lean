import Chopstx.Section.Path

/-!
# The sections of the public operations as sequences of moves

A section either leaves the running thread running, or ends in `chx_sched
(CHX_YIELD)`, or puts the thread to sleep.  `Sleeps` is the shape of the last kind:
the thread leaves its slice, is connected to something, and the next thread runs.

* `Ops` - the moves of each kind of section (`Op.Cancels`, `Op.UnlocksEnds`, `Op.WakesEnds`,
  `Op.Polls`, `Op.Handles`).
* `chopstxCancel_path`, `chopstxSetpriority_path`, `chopstxMutexUnlock_path` - sections after which
  the running thread goes on, or yields.
* `chopstxCondWait_sleeps`, `pollSleep_sleeps` - sections that put it to sleep.
* `chxHandleIntr_path` - the handler of an interrupt.

So an invariant needs one lemma about `Move` and none about the operations.
-/

namespace Chopstx

open Kernel

variable {cfg : Config} {k k' k₁ : Kernel} {t tp u : Tid} {P : Op → Prop} {op : Op}

/-! ## Sections that put the thread to sleep -/

/-- The thread `t` goes to sleep by the move `op`. -/
structure Sleeps (cfg : Config) (t : Tid) (before : Op → Prop) (op : Op) (after : Op → Prop)
    (k k' : Kernel) : Prop where
  intro ::
  steps : ∃ k₁ k₂ k₃ k₄, Path cfg before (none, k) (none, k₁) ∧
    Move cfg (.slice t) (none, k₁) (some t, k₂) ∧ Move cfg op (some t, k₂) (none, k₃) ∧
    Path cfg after (none, k₃) (none, k₄) ∧ k' = k₄.switchThread cfg

/-- Nothing is done. -/
def Op.None (_ : Op) : Prop := False

theorem slice_move (cfg : Config) (h : KernelInv none k) (hr : Runs k t)
    (he : k.endSlice t = .ok k') :
    Move cfg (.slice t) (none, k) (some t, k') ∧ KernelInv (some t) k' ∧ Runs k' t := by
  obtain ⟨h₁, hrun, -, hth⟩ := h.slice hr.2 he
  exact ⟨.slice hr.1 hr.2 he, h₁, hrun.trans hr.1, by rw [hth]; exact hr.2⟩

/-- A thread that is connected to something does not run. -/
theorem Move.connected (hm : Move cfg op (some t, k) (none, k')) (hc : op.Connects t)
    (h : KernelInv (some t) k) (hr : Runs k t) :
    k'.running = some t ∧ (k'.thread t).state ≠ .running := by
  cases hm with
  | block hs hq =>
      refine ⟨hr.1, ?_⟩
      cases hq <;> simp
  | sleep hs hst hpos hle =>
      rename_i st usec
      have hst' :
          ((k.modThread t fun th => { th with state := st }).thread t).state ≠ .running := by
        rcases hst with rfl | rfl <;> simp
      have hq : (k.modThread t fun th => { th with state := st }).HoldsThreads .timer :=
        h.timer.threads
      refine ⟨(chxTimerInsert_running hq).trans hr.1, ?_⟩
      rw [chxTimerInsert_eq hq]
      simpa [setParent] using hst'
  | pollSleep hs => exact ⟨hr.1, by simp⟩
  | die hs hst =>
      refine ⟨hr.1, ?_⟩
      rcases hst with rfl | rfl <;> simp
  | _ => exact absurd hc id

theorem Move.sleep_state {st : ThreadState} (h : KernelInv (some t) k)
    (hm : Move cfg (.sleep t st) (some t, k) (none, k')) : (k'.thread t).state = st := by
  cases hm with
  | sleep hs hst hpos hle =>
      rw [chxTimerInsert_thread h.timer_modThread, modThread_thread, Function.update_self]

namespace Sleeps

variable {before after : Op → Prop}

/-- The moves of such a section. -/
inductive Ops (t : Tid) (before : Op → Prop) (op : Op) (after : Op → Prop) : Op → Prop
  | before {o : Op} : before o → Ops t before op after o
  | slice : Ops t before op after (.slice t)
  | op : Ops t before op after op
  | after {o : Op} : after o → Ops t before op after o
  | switch : Ops t before op after .switch

theorem path (hs : Sleeps cfg t before op after k k') (hc : op.Connects t)
    (hqb : ∀ o, before o → o.Quiet) (hqa : ∀ o, after o → o.Quiet) (h : KernelInv none k)
    (hr : Runs k t) : Path cfg (Ops t before op after) (none, k) (none, k') ∧ Settled k' := by
  obtain ⟨k₁, k₂, k₃, k₄, hp₁, hm₁, hm₂, hp₂, rfl⟩ := hs.steps
  have h₁ : KernelInv none k₁ := h.path hp₁
  have h₂ : KernelInv (some t) k₂ := h₁.move hm₁
  have h₃ : KernelInv none k₃ := h₂.move hm₂
  have h₄ : KernelInv none k₄ := h₃.path hp₂
  have hr₁ := (hp₁.runs hqb h hr).1
  have hr₂ : Runs k₂ t := by
    cases hm₁ with
    | slice hr' hs' he => exact (slice_move cfg h₁ hr₁ he).2.2
  obtain ⟨hrun, hst⟩ := hm₂.connected hc h₂ hr₂
  obtain ⟨hst', hrun'⟩ := hp₂.notRunning hqa h₃ hst
  refine switch_path h₄ (fun u hu => ?_) (((hp₁.mono fun _ => .before).tail hm₁ .slice).tail hm₂
    .op |>.trans (hp₂.mono fun _ => .after)) .switch
  rw [hrun', hrun] at hu
  cases hu
  exact hst'

/-- A section that starts with `chx_cpu_sched_lock`. -/
theorem lock {before' : Op → Prop} (hs : Sleeps cfg t before op after k.chxCpuSchedLock k')
    (hb : ∀ o, o = .aux ∨ before o → before' o) : Sleeps cfg t before' op after k k' := by
  obtain ⟨k₁, k₂, k₃, k₄, hp₁, hm₁, hm₂, hp₂, rfl⟩ := hs.steps
  have hp : Path cfg before' (none, k) (none, k₁) :=
    (lock_move.path (hb _ (.inl rfl))).trans (hp₁.mono fun o ho => hb o (.inr ho))
  exact ⟨k₁, k₂, k₃, k₄, hp, hm₁, hm₂, hp₂, rfl⟩

end Sleeps

/-! ## Threads -/

/-- `chopstx_create`. -/
theorem chopstxCreate_path {fp : Nat} (h : KernelInv none k) (hr : Runs k t)
    (hc : k.chopstxCreate cfg t fp = .ok k') :
    Path cfg (fun op => op = .create k.nthread ∨ op.Ends t) (none, k) (none, k') ∧ Settled k' := by
  set k₁ : Kernel := { k with
    nthread := k.nthread + 1
    thread := Function.update k.thread k.nthread (newThread fp) } with hk₁
  have hm : Move cfg (.create k.nthread) (none, k) (none, k₁.chxReadyEnqueue k.nthread) :=
    .create fp
  have hm' : Move cfg .aux (none, k₁.chxReadyEnqueue k.nthread)
      (none, k₁.chxCpuSchedLock.chxReadyEnqueue k.nthread) :=
    .aux k₁.chxCpuSchedLock.masked k.counter k.ncall k.mem le_rfl fun _ _ => rfl
  have hr' := (hm.runs trivial h hr).1
  obtain ⟨hp, hs⟩ := yieldOrUnlock_path cfg ((h.move hm).move hm')
    (show Runs (k₁.chxCpuSchedLock.chxReadyEnqueue k.nthread) t from hr') hc
  exact ⟨(((hm.path (.inl rfl)).tail hm' (.inr .aux)).trans (hp.mono fun _ => .inr)), hs⟩

/-- The section of `chx_exit`. -/
theorem chxExit_locked {rv : Nat} (h : KernelInv none k) (hr : Runs k t)
    (hx : k.chxExit cfg t rv = .ok k') :
    Sleeps cfg t Op.Wakes (.die t rv) Op.None k.chxCpuSchedLock k' := by
  obtain ⟨k₁, hw, hx⟩ := res_bind_eq_ok.1 hx
  obtain ⟨k₂, he, hx⟩ := res_bind_eq_ok.1 hx
  cases hx
  have hp : Path cfg Op.Wakes (none, k.chxCpuSchedLock) (none, k₁) :=
    wakeJoiner_path (lock_inv h) hw
  have hr₁ := (hp.runs (fun _ => Op.Wakes.quiet) (lock_inv h) hr.lock).1
  obtain ⟨hm, -, hr₂⟩ := slice_move cfg ((lock_inv h).path hp) hr₁ he
  refine ⟨k₁, k₂, _, _, hp, hm, .die hr₂.2 ?_, .refl, rfl⟩
  split
  · exact .inr rfl
  · exact .inl rfl

/-- `chx_exit`. -/
theorem chxExit_sleeps {rv : Nat} (h : KernelInv none k) (hr : Runs k t)
    (hx : k.chxExit cfg t rv = .ok k') :
    Sleeps cfg t (fun op => op = .aux ∨ op.Wakes) (.die t rv) Op.None k k' :=
  (chxExit_locked h hr hx).lock fun _ => id

/-- The section of `chopstx_join`: the target has exited, or the thread goes to sleep. -/
theorem chopstxJoin_locked {b : Bool} (h : KernelInv none k) (hr : Runs k t)
    (hj : k.chopstxJoin cfg t tp = .ok (k', b)) :
    (b = false ∧ (k.thread tp).state = .exited ∧ k' = k.chxCpuSchedLock.chxCpuSchedUnlock) ∨
      b = true ∧ (k.thread tp).state ≠ .exited ∧
        Sleeps cfg t Op.None (.block t .join (some tp))
          (fun op => op = .flags tp .join ∨ op.Inherits) k.chxCpuSchedLock k' := by
  rw [chopstxJoin] at hj
  simp only at hj
  split at hj
  · rename_i hs
    cases hj
    exact .inl ⟨rfl, hs, rfl⟩
  · rename_i hs
    obtain ⟨k₁, he, hj⟩ := res_bind_eq_ok.1 hj
    obtain ⟨k₂, hi, hj⟩ := res_bind_eq_ok.1 hj
    cases hj
    obtain ⟨hm, hk₁, hr₁⟩ := slice_move cfg (lock_inv h) hr.lock he
    have hm₂ : Move cfg (.block t .join (some tp)) (some t, k₁) _ := .block hr₁.2 .join
    have hk₂ := hk₁.move hm₂
    set k₃ := (k₁.llPrioEnqueue (.thread t) .join).modThread t fun th =>
      { th with v := tp, state := .waitExit } with hk₃'
    have hm₃ : Move cfg (.flags tp .join) (none, k₃)
      (none, k₃.modThread tp fun th => { th with flagJoinReq := true }) := .flags .join
    have hk₃ := hk₂.move hm₃
    refine .inr ⟨rfl, hs, _, k₁, _, k₂, .refl, hm, hm₂, ?_, rfl⟩
    exact (hm₃.path (.inl rfl)).trans ((inherit_path hk₃ (hk₃.prio t) hi).mono fun _ => .inr)

/-- `chopstx_join`. -/
theorem chopstxJoin_cases {b : Bool} (h : KernelInv none k) (hr : Runs k t)
    (hj : k.chopstxJoin cfg t tp = .ok (k', b)) :
    (b = false ∧ (k.thread tp).state = .exited ∧ k' = k.chxCpuSchedLock.chxCpuSchedUnlock) ∨
      b = true ∧ (k.thread tp).state ≠ .exited ∧
        Sleeps cfg t (· = .aux) (.block t .join (some tp))
          (fun op => op = .flags tp .join ∨ op.Inherits) k k' :=
  (chopstxJoin_locked h hr hj).imp_right fun ⟨hb, hs, hl⟩ =>
    ⟨hb, hs, hl.lock fun _ ho => ho.resolve_right id⟩

/-- The moves of `chopstx_cancel`. -/
inductive Op.Cancels (t tp : Tid) : Op → Prop
  | aux : Cancels t tp .aux
  | flags : Cancels t tp (.flags tp .cancel)
  | wake : Cancels t tp (.wake tp .cancel)
  | ends {op : Op} : op.Ends t → Cancels t tp op

/-- The thread is taken out of its queue and resumed. -/
theorem cancelDequeue_move (cfg : Config) (h : KernelInv none k)
    (hd : k.cancelDequeue tp = .ok (some k')) :
    Move cfg (.wake tp .cancel) (none, k) (none, k'.resume tp .cancel minusOne) := by
  have hwf := h.place' tp
  rw [cancelDequeue] at hd
  split at hd
  · rename_i hs
    cases hd
    obtain ⟨c, hin⟩ := hwf.waitCnd hs
    exact .wakeQueued hin (.cnd c .cancel)
  · rename_i hs
    cases hd
    exact .wakeQueued (hwf.waitExit hs) (.join .cancel)
  · rename_i hs
    obtain ⟨⟨k₁, n⟩, hd₁, hk⟩ := res_bind_eq_ok.1 hd
    cases hk
    exact .wakeTimed (.inl hs) hd₁ .cancel
  · rename_i hs
    split at hd
    · obtain ⟨⟨k₁, n⟩, hd₁, hk⟩ := res_bind_eq_ok.1 hd
      cases hk
      exact .wakeTimed (.inr hs) hd₁ .cancel
    · rename_i hp
      cases hd
      exact .wakeLoose hs hp .cancel
  · cases hd

/-- **`chopstx_cancel`.** -/
theorem chopstxCancel_path (h : KernelInv none k) (hr : Runs k t)
    (hc : k.chopstxCancel cfg t tp = .ok k') :
    Path cfg (Op.Cancels t tp) (none, k) (none, k') ∧ Settled k' := by
  rw [chopstxCancel] at hc
  set k₀ := k.chxCpuSchedLock.modThread tp fun th => { th with flagGotCancel := true } with hk₀
  have hm : Move cfg (.flags tp .cancel) (none, k.chxCpuSchedLock) (none, k₀) := .flags .cancel
  have hp₀ : Path cfg (Op.Cancels t tp) (none, k) (none, k₀) :=
    (lock_move.path .aux).tail hm .flags
  have h₀ : KernelInv none k₀ := h.path hp₀
  have hr₀ : Runs k₀ t := (hm.runs trivial (lock_inv h) hr.lock).1
  simp only at hc
  split at hc
  · obtain ⟨o, hd, hc⟩ := res_bind_eq_ok.1 hc
    cases o with
    | some k₁ =>
        have hm₁ := cancelDequeue_move cfg h₀ hd
        obtain ⟨hp, hs⟩ := yieldOrUnlock_path cfg (h₀.move hm₁)
          (hm₁.runs trivial h₀ hr₀).1 hc
        exact ⟨(hp₀.tail hm₁ .wake).trans (hp.mono fun _ => .ends), hs⟩
    | none =>
        cases hc
        exact ⟨hp₀.tail unlock_move .aux, hr₀.unlock.settled⟩
  · cases hc
    exact ⟨hp₀.tail unlock_move .aux, hr₀.unlock.settled⟩

/-- The new priority of the thread is one. -/
theorem setpriority_lt {prio : Nat} (h : KernelInv none k) (hp : prio < 256) :
    (if (k.thread t).prio = (k.thread t).prioOrig then prio
      else if (k.thread t).prio < prio then prio else (k.thread t).prio) < 256 := by
  have := h.prio t
  split
  · exact hp
  · split <;> assumption

/-- **`chopstx_setpriority`.** -/
theorem chopstxSetpriority_path {prio : Nat} (h : KernelInv none k) (hr : Runs k t)
    (hp : prio < 256) (hc : k.chopstxSetpriority cfg t prio = .ok k') :
    Path cfg (fun op => op = .prio t ∨ op.Ends t) (none, k) (none, k') ∧ Settled k' := by
  rw [chopstxSetpriority] at hc
  have hm : Move cfg (.prio t) (none, k.chxCpuSchedLock) _ :=
    .prio (setpriority_lt (t := t) h hp) hp (by simp [hr.2]) (by simp [hr.2]) (by simp [hr.2])
  have hr₁ := (hm.runs trivial (lock_inv h) hr.lock).1
  obtain ⟨hp, hs⟩ := yieldOrUnlock_path cfg ((lock_inv h).move hm) hr₁ hc
  exact ⟨((lock_move.path (.inr .aux)).tail hm (.inl rfl)).trans (hp.mono fun _ => .inr), hs⟩

/-! ## Sleeping -/

/-- The ticks of a sleep fit into the counter. -/
theorem mul_mhz_le {usec : Nat} (hle : usec ≤ maxUsecForTimer cfg) :
    usec * cfg.mhz ≤ 16777215 := calc
  usec * cfg.mhz ≤ maxUsecForTimer cfg * cfg.mhz := Nat.mul_le_mul_right _ hle
  _ ≤ 16777215 := Nat.div_mul_le_self _ _

theorem usecToTicks_eq {usec : Nat} (hle : usec ≤ maxUsecForTimer cfg) :
    usecToTicks cfg usec = usec * cfg.mhz := by
  have hmul := mul_mhz_le hle
  exact Nat.mod_eq_of_lt (by omega)

theorem usecToTicks_le {usec : Nat} (hpos : 0 < usec) (hle : usec ≤ maxUsecForTimer cfg) :
    0 < usecToTicks cfg usec ∧ usecToTicks cfg usec ≤ 16777215 := by
  rw [usecToTicks_eq hle]
  exact ⟨Nat.mul_pos hpos cfg.mhz_pos, mul_mhz_le hle⟩

theorem maxUsecForTimer_pos : 0 < maxUsecForTimer cfg :=
  Nat.div_pos cfg.mhz_le cfg.mhz_pos

/-- `chx_snooze`: nothing is left to wait for, or the thread goes to sleep. -/
theorem chxSnooze_cases {st : ThreadState} {usec : Nat} {o : Option Nat} (h : KernelInv none k)
    (hr : Runs k t) (hst : st = .waitTime ∨ st = .waitPoll)
    (hz : k.chxSnooze cfg t st usec = .ok (k', o)) :
    (o = none ∧ k' = k.chxCpuSchedUnlock) ∨
      (∃ usec0, o = some usec0 ∧ Sleeps cfg t Op.None (.sleep t st) Op.None k k') := by
  rw [chxSnooze] at hz
  split at hz
  · cases hz
    exact .inl ⟨rfl, rfl⟩
  · rename_i hpos
    obtain ⟨k₁, he, hk⟩ := res_bind_eq_ok.1 hz
    cases hk
    obtain ⟨hm, hk₁, hr₁⟩ := slice_move cfg h hr he
    have hticks : 0 < usecToTicks cfg (if maxUsecForTimer cfg < usec then maxUsecForTimer cfg
        else usec) ∧ usecToTicks cfg (if maxUsecForTimer cfg < usec then maxUsecForTimer cfg
        else usec) ≤ 16777215 := by
      split
      · exact usecToTicks_le maxUsecForTimer_pos le_rfl
      · exact usecToTicks_le (by omega) (by omega)
    exact .inr ⟨_, rfl, k, k₁, _, _, .refl, hm, .sleep hr₁.2 hst hticks.1 hticks.2, .refl, rfl⟩

/-! ## Mutexes and condition variables -/

/-- One round of `chopstx_mutex_lock`: the mutex is free, or the thread goes to sleep. -/
theorem chopstxMutexLock_locked {m : Mid} {b : Bool} (h : KernelInv none k) (hr : Runs k t)
    (hl : k.chopstxMutexLock cfg t m = .ok (k', b)) :
    (b = true ∧ (k.mutex m).owner = none ∧
        k' = (k.chxCpuSchedLock.acquire t m).chxCpuSchedUnlock) ∨
      b = false ∧ (∃ u, (k.mutex m).owner = some u) ∧
        Sleeps cfg t Op.Inherits (.block t (.mtx m) none) Op.None k.chxCpuSchedLock k' := by
  rw [chopstxMutexLock] at hl
  simp only at hl
  split at hl
  · rename_i ho
    cases hl
    exact .inl ⟨rfl, ho, rfl⟩
  · rename_i owner ho
    obtain ⟨k₁, hi, hl⟩ := res_bind_eq_ok.1 hl
    obtain ⟨k₂, he, hl⟩ := res_bind_eq_ok.1 hl
    cases hl
    have hp : Path cfg Op.Inherits (none, k.chxCpuSchedLock) (none, k₁) :=
      inherit_path (lock_inv h) (h.prio t) hi
    have hr₁ := (hp.runs (fun _ => Op.Inherits.quiet) (lock_inv h) hr.lock).1
    obtain ⟨hm, -, hr₂⟩ := slice_move cfg ((lock_inv h).path hp) hr₁ he
    exact .inr ⟨rfl, ⟨owner, ho⟩, k₁, k₂, _, _, hp, hm, .block hr₂.2 (.mtx m), .refl,
      rfl⟩

theorem chopstxMutexLock_cases {m : Mid} {b : Bool} (h : KernelInv none k) (hr : Runs k t)
    (hl : k.chopstxMutexLock cfg t m = .ok (k', b)) :
    (b = true ∧ (k.mutex m).owner = none ∧
        k' = (k.chxCpuSchedLock.acquire t m).chxCpuSchedUnlock) ∨
      b = false ∧ (∃ u, (k.mutex m).owner = some u) ∧
        Sleeps cfg t (fun op => op = .aux ∨ op.Inherits) (.block t (.mtx m) none) Op.None k k' :=
  (chopstxMutexLock_locked h hr hl).imp_right fun ⟨hb, ho, hs⟩ => ⟨hb, ho, hs.lock fun _ => id⟩

/-- The moves of a section that releases a mutex and goes on or yields. -/
inductive Op.UnlocksEnds (t : Tid) (m : Mid) : Op → Prop
  | unlocks {op : Op} : op.Unlocks t m → UnlocksEnds t m op
  | ends {op : Op} : op.Ends t → UnlocksEnds t m op

/-- **`chopstx_mutex_unlock`.** -/
theorem chopstxMutexUnlock_path {m : Mid} (h : KernelInv none k) (hr : Runs k t)
    (hu : k.chopstxMutexUnlock cfg t m = .ok k') :
    Path cfg (Op.UnlocksEnds t m) (none, k) (none, k') ∧ Settled k' := by
  obtain ⟨⟨k₁, n⟩, hk₁, hu⟩ := res_bind_eq_ok.1 hu
  have hp₁ : Path cfg (Op.Unlocks t m) (none, k.chxCpuSchedLock) (none, k₁) :=
    chxMutexUnlock_path (lock_inv h) hr.lock hk₁
  have hr₁ := (hp₁.runs (fun _ => Op.Unlocks.quiet) (lock_inv h) hr.lock).1
  obtain ⟨hp, hs⟩ := yieldOrUnlock_path cfg ((lock_inv h).path hp₁) hr₁ hu
  exact ⟨((lock_move.path (.ends .aux)).trans (hp₁.mono fun _ => .unlocks)).trans
    (hp.mono fun _ => .ends), hs⟩

/-- The release of one mutex in `chopstx_exit`. -/
theorem exitMutexUnlock_path {m : Mid} (h : KernelInv none k) (hr : Runs k t)
    (hu : k.exitMutexUnlock cfg t m = .ok k') :
    Path cfg (Op.UnlocksEnds t m) (none, k) (none, k') ∧ Settled k' := by
  obtain ⟨⟨k₁, n⟩, hk₁, hu⟩ := res_bind_eq_ok.1 hu
  cases hu
  have hp₁ : Path cfg (Op.Unlocks t m) (none, k.chxCpuSchedLock) (none, k₁) :=
    chxMutexUnlock_path (lock_inv h) hr.lock hk₁
  have hr₁ := (hp₁.runs (fun _ => Op.Unlocks.quiet) (lock_inv h) hr.lock).1
  exact ⟨((lock_move.path (.ends .aux)).trans (hp₁.mono fun _ => .unlocks)).tail unlock_move
    (.ends .aux), hr₁.unlock.settled⟩

/-- The moves of `chx_mutex_unlock`, if there is a mutex. -/
def Op.CondUnlocks (t : Tid) (o : Option Mid) (op : Op) : Prop :=
  op = .aux ∨ ∃ m, o = some m ∧ op.Unlocks t m

theorem Op.CondUnlocks.quiet {o : Option Mid} (h : op.CondUnlocks t o) : op.Quiet := by
  rcases h with rfl | ⟨m, -, h⟩
  · trivial
  · exact h.quiet

/-- `if (mutex) chx_mutex_unlock (mutex)`. -/
theorem condUnlock_path {o : Option Mid} (h : KernelInv none k) (hr : Runs k t)
    (hu : k.condUnlock cfg t o = .ok k') :
    Path cfg (Op.CondUnlocks t o) (none, k) (none, k') := by
  cases o with
  | none =>
      cases hu
      exact .refl
  | some m =>
      obtain ⟨⟨k₁, n⟩, hu₁, hk⟩ := res_bind_eq_ok.1 hu
      cases hk
      exact (chxMutexUnlock_path h hr hu₁).mono fun op hop => .inr ⟨m, rfl, hop⟩

/-- `chopstx_cond_wait`: the mutex is released, and the thread goes to sleep. -/
theorem chopstxCondWait_cases {c : Cid} {o : Option Mid} (h : KernelInv none k) (hr : Runs k t)
    (hw : k.chopstxCondWait cfg t c o = .ok k') :
    ∃ k₁, k.chxCpuSchedLock.condUnlock cfg t o = .ok k₁ ∧ KernelInv none k₁ ∧ Runs k₁ t ∧
      Sleeps cfg t Op.None (.block t (.cnd c) none) Op.None k₁ k' := by
  obtain ⟨k₁, hu, hw⟩ := res_bind_eq_ok.1 hw
  obtain ⟨k₂, he, hw⟩ := res_bind_eq_ok.1 hw
  cases hw
  have hp := condUnlock_path (lock_inv h) hr.lock hu
  have h₁ : KernelInv none k₁ := (lock_inv h).path hp
  have hr₁ := (hp.runs (fun _ => Op.CondUnlocks.quiet) (lock_inv h) hr.lock).1
  obtain ⟨hm, -, hr₂⟩ := slice_move cfg h₁ hr₁ he
  exact ⟨k₁, hu, h₁, hr₁, k₁, k₂, _, _, .refl, hm, .block hr₂.2 (.cnd c), .refl, rfl⟩

/-- **`chopstx_cond_wait`.** -/
theorem chopstxCondWait_sleeps {c : Cid} {o : Option Mid} (h : KernelInv none k) (hr : Runs k t)
    (hw : k.chopstxCondWait cfg t c o = .ok k') :
    Sleeps cfg t (Op.CondUnlocks t o) (.block t (.cnd c) none) Op.None k k' := by
  obtain ⟨k₁, hu, -, -, hs⟩ := chopstxCondWait_cases h hr hw
  obtain ⟨k₂, k₃, k₄, k₅, hp₁, hm₁, hm₂, hp₂, rfl⟩ := hs.steps
  have hp : Path cfg (Op.CondUnlocks t o) (none, k) (none, k₂) :=
    ((lock_move.path (.inl rfl)).trans (condUnlock_path (lock_inv h) hr.lock hu)).trans
      (hp₁.mono fun _ ho => ho.elim)
  exact ⟨k₂, k₃, k₄, k₅, hp, hm₁, hm₂, hp₂, rfl⟩

/-- The moves of a section that wakes threads and goes on or yields. -/
inductive Op.WakesEnds (t : Tid) : Op → Prop
  | wakes {op : Op} : op.Wakes → WakesEnds t op
  | ends {op : Op} : op.Ends t → WakesEnds t op

theorem wakesEnds_path {b : Bool} (h : KernelInv none k) (hr : Runs k t)
    (hp : Path cfg Op.Wakes (none, k.chxCpuSchedLock) (none, k₁))
    (hy : k₁.yieldOrUnlock cfg t b = .ok k') :
    Path cfg (Op.WakesEnds t) (none, k) (none, k') ∧ Settled k' := by
  have hr₁ := (hp.runs (fun _ => Op.Wakes.quiet) (lock_inv h) hr.lock).1
  obtain ⟨hp', hs⟩ := yieldOrUnlock_path cfg ((lock_inv h).path hp) hr₁ hy
  exact ⟨((lock_move.path (.ends .aux)).trans (hp.mono fun _ => .wakes)).trans
    (hp'.mono fun _ => .ends), hs⟩

/-- `chopstx_cond_signal`. -/
theorem chopstxCondSignal_path {c : Cid} (h : KernelInv none k) (hr : Runs k t)
    (hc : k.chopstxCondSignal cfg t c = .ok k') :
    Path cfg (Op.WakesEnds t) (none, k) (none, k') ∧ Settled k' := by
  obtain ⟨⟨k₁, b⟩, hk₁, hc⟩ := res_bind_eq_ok.1 hc
  exact wakesEnds_path h hr (wakeFirst_path (lock_inv h) hk₁) hc

/-- `chopstx_cond_broadcast`. -/
theorem chopstxCondBroadcast_path {c : Cid} (h : KernelInv none k) (hr : Runs k t)
    (hc : k.chopstxCondBroadcast cfg t c = .ok k') :
    Path cfg (Op.WakesEnds t) (none, k) (none, k') ∧ Settled k' := by
  obtain ⟨⟨k₁, b⟩, hk₁, hc⟩ := res_bind_eq_ok.1 hc
  exact wakesEnds_path h hr (wakeAll_path (lock_inv h) hk₁) hc

/-! ## Polling -/

/-- The moves of the sections of `chopstx_poll` about proxy `p` and descriptor `d`. -/
inductive Op.Polls (cfg : Config) (p : PxId) (d : PdId) : Op → Prop
  | aux : Polls cfg p d .aux
  | count : Polls cfg p d (.count p.call)
  | proxy : Polls cfg p d (.proxy p)
  | link {q : Qh} : Polls cfg p d (.link p q)
  | unlink : Polls cfg p d (.unlink p)
  | ready {b : Bool} : Polls cfg p d (.ready d b)
  | flags {u : Tid} : Polls cfg p d (.flags u .join)
  | irq {n : Irq} {b : Bool} : cfg.pd d = .intr n → Polls cfg p d (.irq n b)

theorem Op.Polls.quiet {p : PxId} {d : PdId} (h : op.Polls cfg p d) : op.Quiet := by
  cases h <;> trivial

theorem bump_move {off : Option Tid} {call : Nat} :
    Move cfg (.count call) (off, k) (off, k.bumpCounter call) :=
  .count _

/-- The registration in `chx_cond_hook`. -/
theorem condHookEnqueue_path {p : PxId} {d : PdId} {c : Cid} :
    Path cfg (Op.Polls cfg p d) (none, k) (none, k.condHookEnqueue p c) :=
  ((lock_move.path .aux).tail (.link (.inr (.inr ⟨c, rfl⟩))) .link).tail unlock_move .aux

/-- The section of `chx_intr_hook`. -/
theorem chxIntrHook_path {p : PxId} {d : PdId} {n : Irq} (hd : cfg.pd d = .intr n) :
    Path cfg (Op.Polls cfg p d) (none, k) (none, k.chxIntrHook p d n) := by
  rw [chxIntrHook]
  have hp : Path cfg (Op.Polls cfg p d) (none, k)
      (none, k.chxCpuSchedLock.modPx p fun px => { px with v := n }) :=
    (lock_move.path .aux).tail (.proxy _) .proxy
  split
  · exact (hp.tail bump_move .count).tail unlock_move .aux
  · exact ((hp.tail (.link (.inl rfl)) .link).tail .enable (.irq hd)).tail unlock_move .aux

/-- The section of `chx_join_hook`. -/
theorem chxJoinHook_path {p : PxId} {d : PdId} :
    Path cfg (Op.Polls cfg p d) (none, k) (none, k.chxJoinHook p d tp) := by
  rw [chxJoinHook]
  have hp : Path cfg (Op.Polls cfg p d) (none, k) (none, k.chxCpuSchedLock) :=
    lock_move.path .aux
  split
  · exact ((hp.tail bump_move .count).tail .ready .ready).tail unlock_move .aux
  · exact ((((hp.tail .ready .ready).tail (.proxy _) .proxy).tail (.link (.inr (.inl rfl)))
      .link).tail (.flags .join) .flags).tail unlock_move .aux

/-- The sleep of `chopstx_poll` without timeout. -/
theorem pollSleep_sleeps (h : KernelInv none k) (hr : Runs k t)
    (hw : k.pollSleep cfg t = .ok k') : Sleeps cfg t Op.None (.pollSleep t) Op.None k k' := by
  obtain ⟨k₁, he, hw⟩ := res_bind_eq_ok.1 hw
  cases hw
  obtain ⟨hm, -, hr₁⟩ := slice_move cfg h hr he
  exact ⟨k, k₁, _, _, .refl, hm, .pollSleep hr₁.2, .refl, rfl⟩

/-- A round of the clean-up loop. -/
theorem pollCleanup_path {p : PxId} {d : PdId} :
    Path cfg (Op.Polls cfg p d) (none, k) (none, k.pollCleanup cfg p d) := by
  rw [pollCleanup]
  have hp : Path cfg (Op.Polls cfg p d) (none, k) (none, k.chxCpuSchedLock) :=
    lock_move.path .aux
  split
  · exact hp.tail unlock_move .aux
  · cases hd : cfg.pd d with
    | cond c m => exact (hp.tail .unlink .unlink).tail unlock_move .aux
    | intr n => exact ((hp.tail .unlink .unlink).tail .disable (.irq hd)).tail unlock_move .aux
    | join u => exact (hp.tail .unlink .unlink).tail unlock_move .aux

/-! ## Interrupts -/

/-- The moves of `chx_handle_intr`. -/
inductive Op.Handles (n : Irq) : Op → Prop
  | irq : Handles n (.irq n false)
  | wakes {op : Op} : op.Wakes → Handles n op
  | pend : Handles n (.pend true)

theorem Op.Handles.quiet {n : Irq} (h : op.Handles n) : op.Quiet := by
  cases h with
  | wakes h => exact h.quiet
  | _ => trivial

theorem request_path {off : Option Tid} {prio : Nat} :
    Path cfg (· = .pend true) (off, k) (off, k.chxRequestPreemption prio) := by
  rw [chxRequestPreemption]
  split
  · exact Move.path (.pend true) rfl
  · split
    · exact Move.path (.pend true) rfl
    · exact .refl

/-- **`chx_handle_intr`.** -/
theorem chxHandleIntr_path {n : Irq} (h : KernelInv none k)
    (hi : k.chxHandleIntr n = .ok k') : Path cfg (Op.Handles n) (none, k) (none, k') := by
  have hm : Move cfg (.irq n false) (none, k) (none, k.disableIntr n) := .disable
  rw [chxHandleIntr] at hi
  split at hi
  · rename_i p hf
    obtain ⟨⟨k₁, b⟩, hk₁, hi⟩ := res_bind_eq_ok.1 hi
    cases hi
    have hp : Path cfg Op.Wakes (none, k.disableIntr n) (none, k₁) :=
      chxWakeup_path (h.move hm) (List.mem_of_find?_eq_some hf) (.inr (.inr ⟨p, rfl⟩)) hk₁
    refine ((hm.path .irq).trans (hp.mono fun _ => .wakes)).trans (request_path.mono ?_)
    rintro op rfl
    exact .pend
  · cases hi
    exact hm.path .irq

end Chopstx
