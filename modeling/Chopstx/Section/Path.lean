import Chopstx.Section.Invariant

/-!
# The scheduler's functions as sequences of moves

Each function that is called with the scheduler lock held is a path of moves, with
the labels that say what it may do.

* `Wakes`, `Inherits`, `Unlocks`, `Ends`, `Connects`, `Preempts` - the labels of the functions.
* `chxMutexUnlock_path`, `inherit_path`, `yieldOrUnlock_path`, `preempt_path` - the functions as
  paths; so are the wake-ups (`wakeJoiner_path`) and `requeue` (`requeue_move`).
* `Settled`, `Runs`, `Quiet` - which thread runs at the end, and after which moves it still does.
-/

namespace Chopstx

open Kernel

/-! ## Classes of labels -/

namespace Op

/-- The moves of a wake-up. -/
inductive Wakes : Op → Prop
  | wake (t : Tid) (left : Option Nat) : Wakes (.wake t (.others left))
  | fire (p : PxId) : Wakes (.fire p)

/-- The moves of priority inheritance. -/
inductive Inherits : Op → Prop
  | prio (t : Tid) : Inherits (.prio t)
  | raise (t : Tid) : Inherits (.raise t)
  | wake (t : Tid) (left : Option Nat) : Inherits (.wake t (.others left))

/-- The moves of `chx_mutex_unlock`. -/
inductive Unlocks (t : Tid) (m : Mid) : Op → Prop
  | drop : Unlocks t m (.drop t m)
  | wake (u : Tid) : Unlocks t m (.wake u (.handOver m))
  | prio : Unlocks t m (.prio t)

/-- The moves of `chx_sched (CHX_YIELD)`, or else the end of the section. -/
inductive Ends (t : Tid) : Op → Prop
  | aux : Ends t .aux
  | slice : Ends t (.slice t)
  | yield : Ends t (.yield t)
  | switch : Ends t .switch

/-- The moves that connect the running thread to something. -/
def Connects (t : Tid) : Op → Prop
  | .block u _ _ | .sleep u _ | .pollSleep u | .die u _ => u = t
  | _ => False

/-- The moves that a section of the running thread may be made of. -/
def By (t : Tid) : Op → Prop
  | .pend _ | .expire | .norun _ | .pass => False
  | .block u _ _ | .sleep u _ | .pollSleep u | .die u _ | .slice u | .yield u | .acquire u _
  | .drop u _ => u = t
  | _ => True

theorem By.connects {t u : Tid} {op : Op} (h : op.By t) (hc : op.Connects u) : u = t := by
  cases op with
  | block | sleep | pollSleep | die => exact hc.symm.trans h
  | _ => exact absurd hc id

/-- The moves after which the running thread still runs. -/
def Quiet : Op → Prop
  | .slice _ | .block _ _ _ | .sleep _ _ | .pollSleep _ | .die _ _ | .yield _ | .norun _ | .switch
  | .expire => False
  | _ => True

theorem Quiet.not_connects {u : Tid} {op : Op} (h : op.Quiet) : ¬ op.Connects u := by
  cases op with
  | block | sleep | pollSleep | die => exact h.elim
  | _ => exact id

theorem Ends.not_connects {t u : Tid} {op : Op} (h : op.Ends t) : ¬ op.Connects u := by
  cases h <;> exact id

theorem Wakes.quiet {op : Op} (h : Wakes op) : op.Quiet := by
  cases h <;> trivial

theorem Inherits.quiet {op : Op} (h : Inherits op) : op.Quiet := by
  cases h <;> trivial

theorem Unlocks.quiet {op : Op} {t : Tid} {m : Mid} (h : Unlocks t m op) : op.Quiet := by
  cases h <;> trivial

end Op

/-- The thread runs. -/
def Runs (k : Kernel) (t : Tid) : Prop :=
  k.running = some t ∧ (k.thread t).state = .running

variable {cfg : Config} {k k' : Kernel} {t u : Tid} {P : Op → Prop} {a b : Point}

theorem Runs.lt (h : Runs k t) (hk : KernelInv none k) : t < k.nthread := hk.born t h.1

/-- A thread that is woken up does not run. -/
theorem WakesQueued.ne {q : Qh} {w : Waker} {v : Nat} (hw : WakesQueued q w v)
    (hin : (k.place u).IsIn q) (h : (k.place u).WellFormed) : (k.thread u).state ≠ .running := by
  intro hs
  have := h.running hs
  split at this
  · cases hw <;> cases hin.1.symm.trans this.1
  · exact absurd hin.links_self (by rw [this.links_eq]; simp)

/-- A quiet move switches to no other thread. -/
theorem Move.running {op : Op} {off off' : Option Tid} (hm : Move cfg op (off, k) (off', k'))
    (hq : op.Quiet) (h : KernelInv off k) : k'.running = k.running ∧ off' = off := by
  cases hm with
  | wakeTimed hs hd hw =>
      obtain ⟨front, back, -, rfl, -⟩ := chxTimerDequeue_ok h.timer hd
      exact ⟨rfl, rfl⟩
  | slice | block | sleep | pollSleep | die | yield | push | norun | switch | expire =>
      exact absurd hq id
  | _ => exact ⟨rfl, rfl⟩

/-- A quiet move leaves the running thread running. -/
theorem Move.runs {op : Op} {off off' : Option Tid} (hm : Move cfg op (off, k) (off', k'))
    (hq : op.Quiet) (h : KernelInv off k) (hr : Runs k t) : Runs k' t ∧ off' = off := by
  have hrun := hm.running hq h
  refine ⟨⟨hrun.1.trans hr.1, ?_⟩, hrun.2⟩
  by_cases ht : op.target = some t
  · -- the running thread itself: nothing that a quiet move does changes its state
    cases hm with
    | flags | prio => cases ht; simpa using hr.2
    | raise hp hlt hin hst =>
        cases ht
        rcases hst with hs | hs | hs <;> (rw [hr.2] at hs; cases hs)
    | wakeTimed hs hd hw =>
        cases ht
        rcases hs with hs | hs <;> (rw [hr.2] at hs; cases hs)
    | wakeQueued hin hw => cases ht; exact absurd hr.2 (hw.ne hin (h.place' _))
    | wakeLoose hs hp hw => cases ht; rw [hr.2] at hs; cases hs
    | finish hlt hs => cases ht; rcases hs with hs | hs <;> (rw [hr.2] at hs; cases hs)
    | acquire => cases ht; simpa [acquire_thread] using hr.2
    | drop => cases ht; simpa [dropMutex_thread] using hr.2
    | create fp => cases ht; exact absurd (h.born _ hr.1) (lt_irrefl _)
    | slice | block | sleep | pollSleep | die | yield | push | norun | switch | expire =>
        exact absurd hq id
    | _ => cases ht
  · rw [(hm.untouched h ht (by rintro rfl; exact hq) (by rintro rfl; exact hq)).state]
    exact hr.2

/-- A quiet move makes no thread run. -/
theorem Move.notRunning {op : Op} {off off' : Option Tid} (hm : Move cfg op (off, k) (off', k'))
    (hq : op.Quiet) (h : KernelInv off k) (hs : (k.thread u).state ≠ .running) :
    (k'.thread u).state ≠ .running := by
  by_cases ht : op.target = some u
  · cases hm with
    | flags | prio => cases ht; simpa using hs
    | raise hp hlt hin hst =>
        cases ht
        simpa [llPrioEnqueue_thread, setPrio] using hs
    | wakeTimed | wakeQueued | wakeLoose => cases ht; simp [resume_thread]
    | finish => cases ht; simp
    | acquire => cases ht; simpa [acquire_thread] using hs
    | drop => cases ht; simpa [dropMutex_thread] using hs
    | create fp => cases ht; simp [chxReadyEnqueue_thread]
    | slice | block | sleep | pollSleep | die | yield | push | norun | switch | expire =>
        exact absurd hq id
    | _ => cases ht
  · rw [(hm.untouched h ht (by rintro rfl; exact hq) (by rintro rfl; exact hq)).state]
    exact hs

/-- The same of a path of quiet moves. -/
theorem Path.notRunning {off off' : Option Tid} (hp : Path cfg P (off, k) (off', k'))
    (hq : ∀ op, P op → op.Quiet) (h : KernelInv off k) (hs : (k.thread u).state ≠ .running) :
    (k'.thread u).state ≠ .running ∧ k'.running = k.running := by
  have key := hp.keeps (I := fun a => KernelInv a.1 a.2 ∧ (a.2.thread u).state ≠ .running ∧
    a.2.running = k.running) ?_ ⟨h, hs, rfl⟩
  · exact key.2
  · rintro op ⟨off, k⟩ ⟨off', k'⟩ hop hm ⟨hk, hs, hr⟩
    exact ⟨hk.move hm, hm.notRunning (hq op hop) hk hs, (hm.running (hq op hop) hk).1.trans hr⟩

/-- So does a path of quiet moves. -/
theorem Path.runs {off : Option Tid} (hp : Path cfg P (none, k) (off, k'))
    (hq : ∀ op, P op → op.Quiet) (h : KernelInv none k) (hr : Runs k t) :
    Runs k' t ∧ off = none := by
  have key := hp.keeps (I := fun a => KernelInv a.1 a.2 ∧ Runs a.2 t ∧ a.1 = none) ?_
    ⟨h, hr, rfl⟩
  · exact key.2
  · rintro op ⟨off, k⟩ ⟨off', k'⟩ hop hm ⟨hk, hr, hoff⟩
    obtain ⟨hr', hoff'⟩ := hm.runs (hq op hop) hk hr
    exact ⟨hk.move hm, hr', hoff'.trans hoff⟩

/-! ## The lock, the context switch -/

theorem lock_move {off : Option Tid} : Move cfg .aux (off, k) (off, k.chxCpuSchedLock) :=
  .aux _ k.counter k.ncall k.mem le_rfl fun _ _ => rfl

theorem unlock_move {off : Option Tid} : Move cfg .aux (off, k) (off, k.chxCpuSchedUnlock) :=
  .aux _ k.counter k.ncall k.mem le_rfl fun _ _ => rfl

theorem lock_inv (h : KernelInv none k) : KernelInv none k.chxCpuSchedLock :=
  h.congr rfl rfl rfl rfl rfl rfl

theorem Runs.lock (h : Runs k t) : Runs k.chxCpuSchedLock t := h

theorem Runs.unlock (h : Runs k t) : Runs k.chxCpuSchedUnlock t := h

namespace KernelInv

/-- If the thread of `running` is in another state, no thread runs. -/
theorem notRunning {off : Option Tid} (h : KernelInv off k)
    (hr : ∀ t, k.running = some t → (k.thread t).state ≠ .running) (u : Tid) :
    (k.thread u).state ≠ .running :=
  fun hu => hr u (h.one u hu) hu

end KernelInv

/-- Every thread that `running` names is in the state of running. -/
def Settled (k : Kernel) : Prop := ∀ t, k.running = some t → (k.thread t).state = .running

theorem Runs.settled (h : Runs k t) : Settled k := by
  intro u hu
  rw [h.1] at hu
  cases hu
  exact h.2

/-- `chx_sched (CHX_SLEEP)`, or the end of `chx_sched (CHX_YIELD)`. -/
theorem switch_path {off : Option Tid} (h : KernelInv none k)
    (hr : ∀ t, k.running = some t → (k.thread t).state ≠ .running)
    (hp : Path cfg P (off, k') (none, k)) (hP : P .switch) :
    Path cfg P (off, k') (none, k.switchThread cfg) ∧ Settled (k.switchThread cfg) :=
  ⟨hp.tail (.switch (h.notRunning hr)) hP, (h.switch (h.notRunning hr)).2⟩

/-- **`chx_sched (CHX_YIELD)`, or the end of the critical section.** -/
theorem yieldOrUnlock_path (cfg : Config) {b : Bool} (h : KernelInv none k) (hr : Runs k t)
    (hy : k.yieldOrUnlock cfg t b = .ok k') :
    Path cfg (Op.Ends t) (none, k) (none, k') ∧ Settled k' := by
  rw [yieldOrUnlock] at hy
  split at hy
  · rw [chxSchedYield] at hy
    obtain ⟨k₁, he, hk⟩ := res_bind_eq_ok.1 hy
    cases hk
    have hm₁ : Move cfg (.slice t) (none, k) (some t, k₁) := .slice hr.1 hr.2 he
    have hs₁ : (k₁.thread t).state = .running := by
      rw [(h.slice hr.2 he).2.2.2 t]
      exact hr.2
    have hm₂ : Move cfg (.yield t) (some t, k₁) _ := .yield hs₁
    have hk₂ := (h.move hm₁).move hm₂
    exact switch_path hk₂ (by simp) ((hm₁.path .slice).tail hm₂ .yield) .switch
  · cases hy
    exact ⟨unlock_move.path .aux, hr.unlock.settled⟩

/-! ## Wake-up -/

/-- The wake-up of a sleeper. -/
theorem wakeSleeper_path (cfg : Config) (h : KernelInv none k)
    (hs : (k.thread t).state = .waitTime ∨ (k.thread t).state = .waitPoll)
    (hw : k.wakeSleeper t = .ok k') :
    ∃ left, Path cfg (fun op => op = .wake t (.others left)) (none, k) (none, k') := by
  rw [wakeSleeper] at hw
  split at hw
  · obtain ⟨⟨k₁, n⟩, hd, hk⟩ := res_bind_eq_ok.1 hw
    cases hk
    exact ⟨_, Move.path (.wakeTimed hs hd .others) rfl⟩
  · rename_i hp
    cases hw
    have hs' : (k.thread t).state = .waitPoll := by
      rcases hs with hs | hs
      · exact absurd ((h.place' t).waitTime hs).1 hp
      · exact hs
    exact ⟨_, Move.path (.wakeLoose hs' hp .others) rfl⟩

/-- An entry is taken out of its queue, and `chx_wakeup` is called. -/
theorem chxWakeup_path {x : Pq} {q : Qh} {b : Bool} (h : KernelInv none k)
    (hx : x ∈ k.queue q) (hq : q = .join ∨ (∃ c, q = .cnd c) ∨ ∃ p, x = .proxy p)
    (hw : (k.llDequeue x).chxWakeup x = .ok (k', b)) :
    Path cfg Op.Wakes (none, k) (none, k') := by
  cases x with
  | thread t =>
      cases hw
      have hin := h.isIn_of_mem hx
      refine Move.path (.wakeQueued (q := q) hin ?_) (.wake t none)
      rcases hq with rfl | ⟨c, rfl⟩ | ⟨p, hp⟩
      · exact .join .others
      · exact .cnd c .others
      · cases hp
  | proxy p =>
      have hm : Move cfg (.fire p) (none, k) (none, (k.llDequeue (.proxy p)).fireProxy p) :=
        .fire hx
      rw [chxWakeup] at hw
      split at hw
      · rename_i hs
        obtain ⟨k₁, hk₁, hk⟩ := res_bind_eq_ok.1 hw
        cases hk
        obtain ⟨left, hpath⟩ := wakeSleeper_path cfg (h.move hm) (.inr hs) hk₁
        refine (hm.path (.fire p)).trans (hpath.mono ?_)
        rintro op rfl
        exact .wake _ left
      · cases hw
        exact hm.path (.fire p)

/-- The loop of `chopstx_cond_broadcast`. -/
theorem wakeAll_path {c : Cid} {fuel : Nat} {b : Bool} (h : KernelInv none k)
    (hw : wakeAll c fuel k = .ok (k', b)) : Path cfg Op.Wakes (none, k) (none, k') := by
  induction fuel generalizing k b with
  | zero =>
      rw [wakeAll] at hw
      split at hw
      · cases hw
        exact .refl
      · cases hw
  | succ fuel ih =>
      rw [wakeAll] at hw
      cases hq : k.queue (.cnd c) with
      | nil =>
          simp only [llPop, hq] at hw
          cases hw
          exact .refl
      | cons x rest =>
          simp only [llPop, hq] at hw
          obtain ⟨⟨k₁, b₁⟩, hx, hk⟩ := res_bind_eq_ok.1 hw
          obtain ⟨⟨k₂, b₂⟩, hrest, hk₂⟩ := res_bind_eq_ok.1 hk
          cases hk₂
          have hpath : Path cfg Op.Wakes (none, k) (none, k₁) :=
            chxWakeup_path h (by rw [hq]; exact List.mem_cons_self ..) (.inr (.inl ⟨c, rfl⟩)) hx
          exact hpath.trans (ih (h.path hpath) hrest)

/-- The wake-up in `chopstx_cond_signal`. -/
theorem wakeFirst_path {c : Cid} {b : Bool} (h : KernelInv none k)
    (hw : k.wakeFirst c = .ok (k', b)) : Path cfg Op.Wakes (none, k) (none, k') := by
  cases hq : k.queue (.cnd c) with
  | nil =>
      simp only [wakeFirst, llPop, hq] at hw
      cases hw
      exact .refl
  | cons x rest =>
      simp only [wakeFirst, llPop, hq] at hw
      exact chxWakeup_path h (by rw [hq]; exact List.mem_cons_self ..) (.inr (.inl ⟨c, rfl⟩)) hw

/-- The loop of `chx_exit` over `q_join`. -/
theorem wakeJoiner_path (h : KernelInv none k) (hw : k.wakeJoiner t = .ok k') :
    Path cfg Op.Wakes (none, k) (none, k') := by
  rw [wakeJoiner] at hw
  split at hw
  · split at hw
    · rename_i x hx
      obtain ⟨⟨k₁, b⟩, hk₁, hk⟩ := res_bind_eq_ok.1 hw
      cases hk
      exact chxWakeup_path h (List.mem_of_find?_eq_some hx) (.inl rfl) hk₁
    · cases hw
      exact .refl
  · cases hw
    exact .refl

/-! ## Mutexes -/

/-- The loop of `chx_mutex_unlock` over the mutexes that are held. -/
theorem heldPrio_lt {fuel : Nat} {o : Option Mid} {newprio n : Nat} (h : KernelInv none k)
    (hn : newprio < 256) (hh : k.heldPrio fuel o newprio = .ok n) : n < 256 := by
  induction fuel generalizing o newprio with
  | zero =>
      cases o with
      | none =>
          cases hh
          exact hn
      | some m => cases hh
  | succ fuel ih =>
      cases o with
      | none =>
          cases hh
          exact hn
      | some m =>
          rw [heldPrio] at hh
          refine ih ?_ hh
          split
          · exact hn
          · rename_i p rest hq
            split
            · obtain ⟨t, rfl⟩ := h.mtxThreads m p (by rw [hq]; exact List.mem_cons_self ..)
              exact h.prio t
            · exact hn

/-- **`chx_mutex_unlock`.** -/
theorem chxMutexUnlock_path {m : Mid} {n : Nat} (h : KernelInv none k) (hr : Runs k t)
    (hu : k.chxMutexUnlock cfg t m = .ok (k', n)) :
    Path cfg (Op.Unlocks t m) (none, k) (none, k') := by
  have hm₁ : Move cfg (.drop t m) (none, k) (none, k.dropMutex t m) := .drop hr.1 hr.2
  have hk₁ := h.move hm₁
  have hr₁ := (hm₁.runs trivial h hr).1
  rw [chxMutexUnlock] at hu
  simp only at hu
  cases hq : (k.dropMutex t m).queue (.mtx m) with
  | nil =>
      simp only [llPop, hq] at hu
      cases hu
      exact hm₁.path .drop
  | cons x rest =>
      have hx : x ∈ (k.dropMutex t m).queue (.mtx m) := by
        rw [hq]
        exact List.mem_cons_self ..
      obtain ⟨tp, rfl⟩ := hk₁.mtxThreads m x hx
      simp only [llPop, hq] at hu
      obtain ⟨n', hn, hk⟩ := res_bind_eq_ok.1 hu
      cases hk
      have hm₂ : Move cfg (.wake tp (.handOver m)) (none, k.dropMutex t m)
          (none, ((k.dropMutex t m).llDequeue (.thread tp)).resume tp (.handOver m) 0) :=
        .wakeQueued (hk₁.isIn_of_mem hx) (.handOver m)
      have hk₂ := hk₁.move hm₂
      have hr₂ := (hm₂.runs trivial hk₁ hr₁).1
      have hlt := heldPrio_lt hk₂ (hk₂.prioOrig t) hn
      refine ((hm₁.path .drop).tail hm₂ (.wake tp)).tail (.prio hlt (hk₂.prioOrig t)
        ?_ ?_ ?_) .prio
      · simp [hr₂.2]
      · simp [hr₂.2]
      · simp [hr₂.2]

/-! ## Priority inheritance -/

theorem setPrio_thread {p : Nat} : (k.setPrio t p).thread = Function.update k.thread t
    { k.thread t with prio := p } := rfl

/-- A round of the loop that hands the priority on: the thread is raised, and put to
its new place. -/
theorem requeue_move (cfg : Config) {p : Nat} (h : KernelInv none k) (hlt : (k.thread t).prio < p)
    (hp : p < 256) :
    ∃ op, op.Inherits ∧ Move cfg op (none, k) (none, ((k.setPrio t p).requeue t).1) := by
  have hprio : ∀ st, (k.thread t).state = st → st ≠ .ready → st ≠ .waitMtx → st ≠ .waitCnd →
      Move cfg (.prio t) (none, k) (none, k.setPrio t p) := by
    rintro st rfl hnr hnm hnc
    exact .prio hp (h.prioOrig t) hnr hnm hnc
  have hraise : ∀ q, (k.place t).IsIn q → ((k.thread t).state = .ready ∨
      (k.thread t).state = .waitMtx ∨ (k.thread t).state = .waitCnd) →
      Move cfg (.raise t) (none, k) (none, (k.setPrio t p).reEnqueue t) := by
    intro q hin hst
    have hpar : ((k.setPrio t p).thread t).parent = some q := by
      rw [setPrio_thread, Function.update_self]
      exact hin.1
    rw [reEnqueue, hpar]
    exact .raise hp hlt hin hst
  have hst : ((k.setPrio t p).thread t).state = (k.thread t).state := by
    rw [setPrio_thread, Function.update_self]
  rw [requeue, hst]
  cases hs : (k.thread t).state with
  | ready => exact ⟨_, .raise t, hraise _ ((h.place' t).ready hs) (.inl hs)⟩
  | waitMtx =>
      obtain ⟨m, hin⟩ := (h.place' t).waitMtx hs
      exact ⟨_, .raise t, hraise _ hin (.inr (.inl hs))⟩
  | waitCnd =>
      obtain ⟨c, hin⟩ := (h.place' t).waitCnd hs
      exact ⟨_, .raise t, hraise _ hin (.inr (.inr hs))⟩
  | waitExit => exact ⟨_, .prio t, hprio _ hs (by simp) (by simp) (by simp)⟩
  | waitTime => exact ⟨_, .prio t, hprio _ hs (by simp) (by simp) (by simp)⟩
  | waitPoll => exact ⟨_, .prio t, hprio _ hs (by simp) (by simp) (by simp)⟩
  | running => exact ⟨_, .prio t, hprio _ hs (by simp) (by simp) (by simp)⟩
  | exited => exact ⟨_, .prio t, hprio _ hs (by simp) (by simp) (by simp)⟩
  | finished => exact ⟨_, .prio t, hprio _ hs (by simp) (by simp) (by simp)⟩

/-- **The loops that hand the priority of the running thread on.** -/
theorem inherit_path {wakes : Bool} {p fuel : Nat} {o : Option Tid} (h : KernelInv none k)
    (hp : p < 256) (hi : k.inherit wakes p fuel o = .ok k') :
    Path cfg Op.Inherits (none, k) (none, k') := by
  induction fuel generalizing k o with
  | zero =>
      cases o with
      | none =>
          cases hi
          exact .refl
      | some tp =>
          rw [inherit] at hi
          split at hi
          · cases hi
          · cases hi
            exact .refl
  | succ fuel ih =>
      cases o with
      | none =>
          cases hi
          exact .refl
      | some tp =>
          rw [inherit] at hi
          split at hi
          · rename_i hlt
            simp only at hi
            split at hi
            · rename_i hs
              have hst : ((k.setPrio tp p).thread tp).state = (k.thread tp).state := by
                rw [setPrio_thread, Function.update_self]
              have hs' := hs.2
              rw [hst] at hs'
              have hm : Move cfg (.prio tp) (none, k) (none, k.setPrio tp p) := by
                refine .prio hp (h.prioOrig tp) ?_ ?_ ?_ <;>
                rcases hs' with hs' | hs' <;> simp [hs']
              obtain ⟨left, hpath⟩ := wakeSleeper_path cfg (h.move hm) hs.2 hi
              refine (hm.path (.prio tp)).trans (hpath.mono ?_)
              rintro op rfl
              exact .wake tp left
            · obtain ⟨op, hop, hm⟩ := requeue_move cfg h hlt hp
              exact (hm.path hop).trans (ih (h.move hm) hi)
          · cases hi
            exact .refl

/-! ## PendSV -/

/-- The moves of `preempt`. -/
inductive Op.Preempts : Op → Prop
  | aux : Preempts .aux
  | pend : Preempts (.pend false)
  | slice (t : Tid) : Preempts (.slice t)
  | yield (t : Tid) : Preempts (.yield t)
  | norun (t : Tid) : Preempts (.norun t)
  | switch : Preempts .switch

/-- `preempt`, entered with the running thread running or its slice over, up to the end of the
context switch. -/
theorem preempt_cases (h : KernelInv none k)
    (hr : ∀ t, k.running = some t → (k.thread t).state = .running ∨
      (k.thread t).state = .ready ∧ (k.thread t).flagSchedRr = true)
    (hp : k.preempt cfg = .ok k') :
    ∃ k₁, Path cfg Op.Preempts (none, k) (none, k₁) ∧ k₁.masked = true ∧ k₁.running = none ∧
      k' = k₁.switchThread cfg := by
  have hm : Move cfg .aux (none, k) (none, { k with masked := true }) :=
    .aux true k.counter k.ncall k.mem le_rfl fun _ _ => rfl
  have hm' : Move cfg (.pend false) (none, { k with masked := true })
      (none, { k with masked := true, pendsv := false }) := .pend false
  have hpath : Path cfg Op.Preempts (none, k) (none, { k with masked := true, pendsv := false }) :=
    (hm.path .aux).tail hm' .pend
  have h₀ := (h.move hm).move hm'
  rw [preempt] at hp
  simp only at hp
  split at hp
  · rename_i hrun
    cases hp
    exact ⟨_, hpath, rfl, hrun, rfl⟩
  · rename_i t hrun
    split at hp
    · rename_i hrr
      split at hp
      · rename_i hs
        obtain ⟨⟨k₁, n⟩, hd, hk⟩ := res_bind_eq_ok.1 hp
        cases hk
        have he : endSlice { k with masked := true, pendsv := false } t = .ok k₁ := by
          rw [endSlice, if_pos hrr, hd]
          rfl
        have hm₁ : Move cfg (.slice t) (none, { k with masked := true, pendsv := false })
            (some t, k₁) := .slice hrun hs he
        have hs₁ : (k₁.thread t).state = .running := by
          rw [(h₀.slice hs he).2.2.2 t]
          exact hs
        have hm₂ : Move cfg (.yield t) (some t, k₁) _ := .yield hs₁
        have hmask : k₁.masked = true := by
          obtain ⟨front, back, -, rfl, -⟩ := chxTimerDequeue_ok h₀.timer hd
          rfl
        exact ⟨_, (hpath.tail hm₁ (.slice t)).tail hm₂ (.yield t), hmask, rfl, rfl⟩
      · rename_i hs
        cases hp
        have hready : (k.thread t).state = .ready := by
          rcases hr t hrun with h' | h'
          · exact absurd h' hs
          · exact h'.1
        have hm₁ : Move cfg (.norun t) (none, { k with masked := true, pendsv := false }) _ :=
          .norun hrun hready
        exact ⟨_, hpath.tail hm₁ (.norun t), rfl, rfl, rfl⟩
    · rename_i hrr
      cases hp
      have hs : (k.thread t).state = .running := by
        rcases hr t hrun with h' | h'
        · exact h'
        · exact absurd h'.2 hrr
      have hm₁ : Move cfg (.yield t) (none, { k with masked := true, pendsv := false }) _ :=
        .push hrun hs (by simpa using hrr)
      exact ⟨_, hpath.tail hm₁ (.yield t), rfl, rfl, rfl⟩

/-- **`preempt`.** -/
theorem preempt_path (h : KernelInv none k)
    (hr : ∀ t, k.running = some t → (k.thread t).state = .running ∨
      (k.thread t).state = .ready ∧ (k.thread t).flagSchedRr = true)
    (hp : k.preempt cfg = .ok k') :
    Path cfg Op.Preempts (none, k) (none, k') ∧ Settled k' := by
  obtain ⟨k₁, hp₁, -, hrun, rfl⟩ := preempt_cases h hr hp
  exact switch_path (h.path hp₁) (fun t ht => by rw [hrun] at ht; cases ht) hp₁ .switch

end Chopstx
