import Chopstx.Run.Locks
import Chopstx.Run.Step
import Chopstx.Section.Donors

/-!
# What a step does to priorities

`DonorsTo` lists what a step of a thread can do to the priorities and to who waits for whom:
each frame does one of the things that can happen to donors (`Next.donors`).

* `HandOver`, `Frame.frees`, `DonorsTo` - the priority that `chx_mutex_unlock` gives, the thread
  that an exit frees, and the outcomes.
* `chxMutexUnlock_donors` - the waiters of the mutex wait for nobody, and the thread gets its new
  priority if there is one.
* `chopstxMutexLock_donors`, `chopstxCondWait_donors`, `chxHandleIntr_donors` - the other sections.
* `Frame.Neutral`, `Frame.May.keepsDonors` - the frames that do none of this.
* `Next.donors` - the assembly.
-/

namespace Chopstx

open Kernel Donation

/-- The thread in `chopstx_join` that the section of this frame wakes up. -/
def Frame.frees (k : Kernel) (t : Tid) : Frame → Option Tid
  | .cancel tp =>
      if (k.thread tp).flagCancelable = true ∧ (k.thread tp).state = .waitExit then some tp
      else none
  | .exit _ =>
      match k.joiner t with
      | some (.thread u) => some u
      | _ => none
  | _ => none

/-- The priority `p` that `chx_mutex_unlock` of the mutex `m` gives the thread: its own, or
that of the first waiter of another mutex that it owns. -/
structure HandOver (k : Kernel) (t : Tid) (m : Mid) (p : Nat) : Prop where
  orig : (k.thread t).prioOrig ≤ p
  cause : p = (k.thread t).prioOrig ∨ ∃ n u, n ≠ m ∧ (k.mutex n).owner = some t ∧
    .thread u ∈ k.queue (.mtx n) ∧ p = (k.thread u).prio
  heads : ∀ n u, n ≠ m → (k.mutex n).owner = some t →
    (k.queue (.mtx n)).head? = some (.thread u) → (k.thread u).prio ≤ p

variable {cfg : Config} {k k' k₁ : Kernel} {t tp u : Tid} {m : Mid} {off off' : Option Tid}
  {op : Op} {P : Op → Prop} {f : Frame} {rest : List Frame} {ret : Int} {ctx : Ctx}

/-! ## Hand-over of a mutex -/

/-- The loop of `chx_mutex_unlock` finds the greatest priority of a first waiter. -/
theorem heldPrio_spec {fuel newprio p : Nat} {o : Option Mid} {l : List Mid}
    (hc : Locks.Chain (fun m => (k.mutex m).list) o l)
    (hh : k.heldPrio fuel o newprio = .ok p) :
    newprio ≤ p ∧
      (p = newprio ∨ ∃ m ∈ l, ∃ x, (k.queue (.mtx m)).head? = some x ∧ p = k.pqPrio x) ∧
      ∀ m ∈ l, ∀ x, (k.queue (.mtx m)).head? = some x → k.pqPrio x ≤ p := by
  induction fuel generalizing o newprio l with
  | zero =>
      cases o with
      | some m => cases hh
      | none =>
          cases hh
          cases l with
          | nil => exact ⟨le_rfl, .inl rfl, by simp⟩
          | cons m l => cases hc.1
  | succ fuel ih =>
      cases o with
      | none =>
          cases hh
          cases l with
          | nil => exact ⟨le_rfl, .inl rfl, by simp⟩
          | cons m l => cases hc.1
      | some m =>
          cases l with
          | nil => cases hc
          | cons m' l =>
              obtain ⟨hm, hc⟩ := hc
              cases hm
              rw [heldPrio] at hh
              obtain ⟨hle, hcase, hheads⟩ := ih hc hh
              cases hq : k.queue (.mtx m) with
              | nil =>
                  simp only [hq] at hle hcase
                  have hcase' : p = newprio ∨
                      ∃ n ∈ m :: l, ∃ x, (k.queue (.mtx n)).head? = some x ∧ p = k.pqPrio x := by
                    refine hcase.imp id ?_
                    rintro ⟨n, hn, h⟩
                    exact ⟨n, List.mem_cons_of_mem _ hn, h⟩
                  refine ⟨hle, hcase', ?_⟩
                  intro n hn x hx
                  rcases List.mem_cons.1 hn with rfl | hn
                  · rw [hq] at hx
                    cases hx
                  · exact hheads n hn x hx
              | cons y ys =>
                  have hhead : (k.queue (.mtx m)).head? = some y := by rw [hq]; rfl
                  simp only [hq] at hle hcase
                  -- the new priority so far, after this mutex
                  have hmax : newprio ≤ p ∧ k.pqPrio y ≤ p ∧ (p = newprio ∨ p = k.pqPrio y ∨
                      ∃ n ∈ l, ∃ x, (k.queue (.mtx n)).head? = some x ∧ p = k.pqPrio x) := by
                    split at hle
                    · rename_i hlt
                      rw [if_pos hlt] at hcase
                      exact ⟨hlt.le.trans hle, hle, .inr hcase⟩
                    · rename_i hge
                      rw [if_neg hge] at hcase
                      exact ⟨hle, (not_lt.1 hge).trans hle, hcase.imp id .inr⟩
                  obtain ⟨h₁, h₂, h₃⟩ := hmax
                  refine ⟨h₁, ?_, ?_⟩
                  · rcases h₃ with h | h | ⟨n, hn, h⟩
                    · exact .inl h
                    · exact .inr ⟨m, List.mem_cons_self .., y, hhead, h⟩
                    · exact .inr ⟨n, List.mem_cons_of_mem _ hn, h⟩
                  · intro n hn x hx
                    rcases List.mem_cons.1 hn with rfl | hn
                    · rw [hhead] at hx
                      cases hx
                      exact h₂
                    · exact hheads n hn x hx

theorem modThread_prio_donors {p : Nat} :
    (k.modThread t fun th => { th with prio := p }).donors =
      k.donors.assign t p (k.thread t).prioOrig := by
  refine (setPrio_donors (k := k) (t := t) (p := p)).trans (Donors.ext rfl rfl ?_)
  exact (Function.update_eq_self t k.donors.orig).symm

/-- **`chx_mutex_unlock`**: its waiters wait for nobody, and the thread gets a new priority
if there is one. -/
theorem chxMutexUnlock_donors {n : Nat} (h : KernelInv none k) (hr : Runs k t)
    (hA : k.locks.Agree) (hm : (k.ghost.held t).head? = some m)
    (hu : k.chxMutexUnlock cfg t m = .ok (k', n)) :
    (k.queue (.mtx m) = [] ∧ k'.donors = k.donors) ∨
      k.queue (.mtx m) ≠ [] ∧ ∃ p, HandOver k t m p ∧
        k'.donors = (k.donors.redirect (k.queuedOn m) none).assign t p (k.thread t).prioOrig := by
  have hm₁ : Move cfg (.drop t m) (none, k) (none, k.dropMutex t m) := .drop hr.1 hr.2
  have hk₁ := h.move hm₁
  have hd₁ := dropMutex_donors (t := t) (m := m) h
  have hA₁ : (k.dropMutex t m).locks.Agree := by
    rw [dropMutex_locks]
    exact hA.release hm
  rw [chxMutexUnlock] at hu
  simp only at hu
  cases hq : (k.dropMutex t m).queue (.mtx m) with
  | nil =>
      simp only [llPop, hq] at hu
      cases hu
      have hq' : k.queue (.mtx m) = [] := hq
      refine .inl ⟨hq', hd₁.trans (Donors.ext (funext fun u => ?_) rfl rfl)⟩
      simp [queuedOn, hq']
  | cons x rest =>
      have hx : x ∈ (k.dropMutex t m).queue (.mtx m) := by
        rw [hq]
        exact List.mem_cons_self ..
      obtain ⟨tp, rfl⟩ := hk₁.mtxThreads m x hx
      simp only [llPop, hq] at hu
      obtain ⟨p, hp, hk⟩ := res_bind_eq_ok.1 hu
      cases hk
      set k₂ := ((k.dropMutex t m).llDequeue (.thread tp)).resume tp (.handOver m) 0 with hk₂'
      have hm₂ : Move cfg (.wake tp (.handOver m)) (none, k.dropMutex t m) (none, k₂) :=
        .wakeQueued (hk₁.isIn_of_mem hx) (.handOver m)
      have hlocks : k₂.locks = (k.dropMutex t m).locks := by
        have hobj := hm₂.objects hk₁ trivial
        refine locks_congr (congrArg Objects.mutex hobj) (congrArg Objects.held hobj) fun u => ?_
        rw [hm₂.record hk₁ trivial u]
      have hA₂ : k₂.locks.Agree := hlocks ▸ hA₁
      have hprio : ∀ u, (k₂.thread u).prio = (k.thread u).prio ∧
          (k₂.thread u).prioOrig = (k.thread u).prioOrig := by
        intro u
        rw [hm₂.record hk₁ trivial u, dropMutex_thread]
        by_cases hut : u = t
        · subst hut
          simp
        · simp [hut]
      -- the waiters of the other mutexes that the thread owns stay where they are
      have hqueue : ∀ n, n ≠ m → k₂.queue (.mtx n) = k.queue (.mtx n) := by
        intro n hn
        rw [hk₂', resume_queue_of_ne (by simp)]
        refine llDequeue_queue_of_notMem fun hmem => hn ?_
        have hin := (hk₁.isIn_of_mem hmem).1.symm.trans (hk₁.isIn_of_mem hx).1
        exact Qh.mtx.inj (Option.some.inj hin)
      have howner : ∀ n, n ≠ m → (k₂.mutex n).owner = (k.mutex n).owner := by
        intro n hn
        have := congrArg (fun L : Locks Tid Mid => L.owner n) (hlocks.trans dropMutex_locks)
        simpa [Locks.release, hn, Kernel.locks] using this
      have hheld : ∀ n, n ∈ k₂.ghost.held t ↔ n ≠ m ∧ (k.mutex n).owner = some t := by
        intro n
        refine (hA₂.owner n t).symm.trans ?_
        by_cases hn : n = m
        · subst hn
          have := congrArg (fun L : Locks Tid Mid => L.owner n) (hlocks.trans dropMutex_locks)
          simp only [Locks.release, Function.update_self] at this
          rw [this]
          simp
        · change (k₂.mutex n).owner = some t ↔ _
          rw [howner n hn]
          simp [hn]
      have hd₂ : k₂.donors = k.donors.redirect (k.queuedOn m) none := by
        rw [hm₂.donors_wake hk₁, hd₁]
        refine Donors.free_eq ?_
        have hmem : k.queuedOn m tp = true := decide_eq_true hx
        rw [Donors.redirect_waits, if_pos hmem]
      obtain ⟨hle, hcase, hheads⟩ := heldPrio_spec (hA₂.chain t) hp
      have hne : k.queue (.mtx m) ≠ [] := by
        change (k.dropMutex t m).queue (.mtx m) ≠ []
        rw [hq]
        simp
      refine .inr ⟨hne, p, ⟨(hprio t).2 ▸ hle, ?_, ?_⟩, ?_⟩
      · rcases hcase with hcase | ⟨n, hn, x, hx, hpx⟩
        · exact .inl (hcase.trans (hprio t).2)
        · obtain ⟨hnm, ho⟩ := (hheld n).1 hn
          rw [hqueue n hnm] at hx
          have hmem := List.mem_of_head? hx
          obtain ⟨u, rfl⟩ := h.mtxThreads n x hmem
          exact .inr ⟨n, u, hnm, ho, hmem, hpx.trans (hprio u).1⟩
      · intro n u hnm ho hx
        have := hheads n ((hheld n).2 ⟨hnm, ho⟩) (.thread u) (by rw [hqueue n hnm]; exact hx)
        exact (hprio u).1 ▸ this
      · rw [modThread_prio_donors, hd₂, (hprio t).2]

/-! ## Sections -/

/-- The running thread waits for nobody. -/
theorem Runs.waitsFor (hr : Runs k t) : k.waitsFor t = none :=
  waitsFor_eq_none (not_waits_of hr.2 (by simp))

/-- `chopstx_create`. -/
theorem chopstxCreate_donors {fp : Nat} (h : KernelInv none k) (hr : Runs k t)
    (hc : k.chopstxCreate cfg t fp = .ok k') :
    k'.donors = k.donors.assign k.nthread (fp % 256) (fp % 256) := by
  set k₁ : Kernel := { k with
    nthread := k.nthread + 1
    thread := Function.update k.thread k.nthread (newThread fp) } with hk₁
  have hm : Move cfg (.create k.nthread) (none, k) (none, k₁.chxReadyEnqueue k.nthread) :=
    .create fp
  have hm' : Move cfg .aux (none, k₁.chxReadyEnqueue k.nthread)
      (none, k₁.chxCpuSchedLock.chxReadyEnqueue k.nthread) :=
    .aux k₁.chxCpuSchedLock.masked k.counter k.ncall k.mem le_rfl fun _ _ => rfl
  have hr' := (hm.runs trivial h hr).1
  refine (yieldOrUnlock_donors ((h.move hm).move hm')
    (show Runs (k₁.chxCpuSchedLock.chxReadyEnqueue k.nthread) t from hr') hc).trans ?_
  refine (hm'.donors (h.move hm) trivial).trans ?_
  have hth : ∀ u, u ≠ k.nthread → (k₁.chxReadyEnqueue k.nthread).thread u = k.thread u := by
    intro u hu
    rw [chxReadyEnqueue_thread, Function.update_of_ne hu, hk₁]
    simp [hu]
  refine Donors.ext (funext fun u => ?_) (funext fun u => ?_) (funext fun u => ?_)
  · change (k₁.chxReadyEnqueue k.nthread).waitsFor u = k.waitsFor u
    by_cases hu : u = k.nthread
    · subst hu
      refine waitsFor_congr_none (not_waits_of (h.unborn _ le_rfl).1 (by simp))
        (not_waits_of rfl ?_)
      simp [chxReadyEnqueue_thread]
    · refine waitsFor_congr ?_ ?_ (fun _ => ?_) fun _ => rfl <;> rw [hth u hu]
  · change ((k₁.chxReadyEnqueue k.nthread).thread u).prio =
      Function.update k.donors.prio k.nthread (fp % 256) u
    by_cases hu : u = k.nthread
    · subst hu
      simp [chxReadyEnqueue_thread, hk₁, newThread]
    · rw [hth u hu, Function.update_of_ne hu]
      rfl
  · change ((k₁.chxReadyEnqueue k.nthread).thread u).prioOrig =
      Function.update k.donors.orig k.nthread (fp % 256) u
    by_cases hu : u = k.nthread
    · subst hu
      simp [chxReadyEnqueue_thread, hk₁, newThread]
    · rw [hth u hu, Function.update_of_ne hu]
      rfl

/-- `chx_exit`. -/
theorem chxExit_donors {rv : Nat} (h : KernelInv none k) (hr : Runs k t)
    (hx : k.chxExit cfg t rv = .ok k') :
    k'.donors = match (Frame.exit rv).frees k t with
      | some u => k.donors.free u
      | none => k.donors := by
  obtain ⟨k₁, hw, hx⟩ := res_bind_eq_ok.1 hx
  obtain ⟨k₂, he, hx⟩ := res_bind_eq_ok.1 hx
  cases hx
  have hp : Path cfg Op.Wakes (none, k.chxCpuSchedLock) (none, k₁) :=
    wakeJoiner_path (lock_inv h) hw
  have h₁ := (lock_inv h).path hp
  have hr₁ := (hp.runs (fun _ => Op.Wakes.quiet) (lock_inv h) hr.lock).1
  obtain ⟨hm, hk₂, hr₂⟩ := slice_move cfg h₁ hr₁ he
  have hst : (if (k₂.thread t).flagDetached then ThreadState.finished else .exited) = .exited ∨
      (if (k₂.thread t).flagDetached then ThreadState.finished else .exited) = .finished := by
    split <;> simp
  have hm₂ : Move cfg (.die t rv) (some t, k₂) _ := .die hr₂.2 hst
  refine (switchThread_donors (hk₂.move hm₂)).trans ((hm₂.donors hk₂ trivial).trans
    ((hm.donors h₁ trivial).trans ?_))
  rw [wakeJoiner_donors cfg (lock_inv h) hw]
  have hj : k.chxCpuSchedLock.joiner t = k.joiner t := rfl
  rw [hj, Frame.frees]
  cases k.joiner t with
  | none => rfl
  | some x => cases x <;> rfl

/-- `chopstx_cancel`. -/
theorem chopstxCancel_donors (h : KernelInv none k) (hr : Runs k t)
    (hc : k.chopstxCancel cfg t tp = .ok k') :
    k'.donors = match (Frame.cancel tp).frees k t with
      | some u => k.donors.free u
      | none => k.donors := by
  rw [chopstxCancel] at hc
  set k₀ := k.chxCpuSchedLock.modThread tp fun th => { th with flagGotCancel := true } with hk₀
  have hm : Move cfg (.flags tp .cancel) (none, k.chxCpuSchedLock) (none, k₀) := .flags .cancel
  have h₀ : KernelInv none k₀ := (lock_inv h).move hm
  have hr₀ : Runs k₀ t := (hm.runs trivial (lock_inv h) hr.lock).1
  have hd₀ : k₀.donors = k.donors := hm.donors (lock_inv h) trivial
  have hfc : (k₀.thread tp).flagCancelable = (k.thread tp).flagCancelable := by simp [hk₀]
  have hst : (k₀.thread tp).state = (k.thread tp).state := by simp [hk₀]
  simp only at hc
  rw [Frame.frees]
  split at hc
  · rename_i hcan
    rw [hfc] at hcan
    obtain ⟨o, hd, hc⟩ := res_bind_eq_ok.1 hc
    cases o with
    | some k₁ =>
        have hm₁ := cancelDequeue_move cfg h₀ hd
        rw [yieldOrUnlock_donors (h₀.move hm₁) (hm₁.runs trivial h₀ hr₀).1 hc,
          hm₁.donors_wake h₀, hd₀]
        by_cases hs : (k.thread tp).state = .waitExit
        · rw [if_pos ⟨hcan, hs⟩]
        · rw [if_neg fun hn => hs hn.2]
          refine Donors.free_eq (waitsFor_eq_none fun hw => ?_)
          -- a thread that is queued on a mutex is at no cancellation point
          rw [cancelDequeue, hst] at hd
          rcases hw with hw | hw
          · rw [hw] at hd
            cases hd
          · exact hs hw
    | none =>
        cases hc
        have hs : (k.thread tp).state ≠ .waitExit := by
          intro hs
          rw [cancelDequeue, hst, hs] at hd
          cases hd
        rw [if_neg fun hn => hs hn.2]
        exact hd₀
  · rename_i hcan
    rw [hfc] at hcan
    cases hc
    rw [if_neg fun hn => hcan hn.1]
    exact hd₀

/-- `chopstx_setpriority`. -/
theorem chopstxSetpriority_donors {prio : Nat} (h : KernelInv none k) (hr : Runs k t)
    (hp : prio < 256) (hc : k.chopstxSetpriority cfg t prio = .ok k') :
    k'.donors = k.donors.assign t (if (k.thread t).prio = (k.thread t).prioOrig then prio
      else if (k.thread t).prio < prio then prio else (k.thread t).prio) prio := by
  rw [chopstxSetpriority] at hc
  have hm : Move cfg (.prio t) (none, k.chxCpuSchedLock) _ :=
    .prio (setpriority_lt (t := t) h hp) hp (by simp [hr.2]) (by simp [hr.2]) (by simp [hr.2])
  have hr₁ := (hm.runs trivial (lock_inv h) hr.lock).1
  refine (yieldOrUnlock_donors ((lock_inv h).move hm) hr₁ hc).trans ?_
  refine Donors.ext (funext fun u => ?_) (funext fun u => ?_) (funext fun u => ?_)
  · by_cases hut : u = t
    · subst hut
      exact waitsFor_congr (by simp) (by simp) (fun _ => by simp) fun _ => rfl
    · exact waitsFor_congr (by simp [hut]) (by simp [hut]) (fun _ => by simp [hut]) fun _ => rfl
  · by_cases hut : u = t
    · subst hut
      simp [donors]
    · simp [donors, hut]
  · by_cases hut : u = t
    · subst hut
      simp [donors]
    · simp [donors, hut]

/-- `chopstx_join`: nothing, or the thread waits for its target and hands its priority on. -/
theorem chopstxJoin_donors {b : Bool} (h : KernelInv none k) (hr : Runs k t)
    (hj : k.chopstxJoin cfg t tp = .ok (k', b)) :
    (b = false ∧ k'.donors = k.donors) ∨ b = true ∧
      Donors.Lift (k.thread t).prio (k.donors.link t tp) (some tp) k'.donors := by
  rw [chopstxJoin] at hj
  simp only at hj
  split at hj
  · cases hj
    exact .inl ⟨rfl, rfl⟩
  · obtain ⟨k₁, he, hj⟩ := res_bind_eq_ok.1 hj
    obtain ⟨k₂, hi, hj⟩ := res_bind_eq_ok.1 hj
    cases hj
    obtain ⟨hm, hk₁, hr₁⟩ := slice_move cfg (lock_inv h) hr.lock he
    have hm₂ : Move cfg (.block t .join (some tp)) (some t, k₁) _ := .block hr₁.2 .join
    have hk₂ := hk₁.move hm₂
    set k₃ := (k₁.llPrioEnqueue (.thread t) .join).modThread t fun th =>
      { th with v := tp, state := .waitExit } with hk₃'
    have hm₃ : Move cfg (.flags tp .join) (none, k₃)
      (none, k₃.modThread tp fun th => { th with flagJoinReq := true }) := .flags .join
    have hk₃ := hk₂.move hm₃
    have hd : (k₃.modThread tp fun th => { th with flagJoinReq := true }).donors =
        k.donors.link t tp := by
      rw [hm₃.donors hk₂ trivial]
      refine (hm₂.donors_block hk₁).trans ?_
      rw [hm.donors (lock_inv h) trivial]
      rfl
    have hl := inherit_donors cfg hk₃ (hk₃.prio t) hi
    have hprio : ((k₃.modThread tp fun th => { th with flagJoinReq := true }).thread t).prio =
        (k.thread t).prio := congrFun (congrArg Donors.prio hd) t
    rw [hd, hprio] at hl
    have hp : Path cfg Op.Inherits (none, _) (none, k₂) := inherit_path hk₃ (hk₃.prio t) hi
    exact .inr ⟨rfl, (switchThread_donors (hk₃.path hp)).symm ▸ hl⟩

/-- `chopstx_mutex_lock`: the waiters of the mutex wait for the thread, or the thread hands
its priority on and waits for the owner. -/
theorem chopstxMutexLock_donors {b : Bool} (h : KernelInv none k) (hr : Runs k t)
    (hl : k.chopstxMutexLock cfg t m = .ok (k', b)) :
    ((k.mutex m).owner = none ∧ k'.donors = k.donors.redirect (k.queuedOn m) (some t)) ∨
      ∃ u D, (k.mutex m).owner = some u ∧
        Donors.Lift (k.thread t).prio k.donors (some u) D ∧ k'.donors = D.link t u := by
  rw [chopstxMutexLock] at hl
  simp only at hl
  split at hl
  · rename_i ho
    cases hl
    exact .inl ⟨ho, acquire_donors (lock_inv h)⟩
  · rename_i owner ho
    obtain ⟨k₁, hi, hl⟩ := res_bind_eq_ok.1 hl
    obtain ⟨k₂, he, hl⟩ := res_bind_eq_ok.1 hl
    cases hl
    have hp : Path cfg Op.Inherits (none, k.chxCpuSchedLock) (none, k₁) :=
      inherit_path (lock_inv h) (h.prio t) hi
    have h₁ := (lock_inv h).path hp
    have hr₁ := (hp.runs (fun _ => Op.Inherits.quiet) (lock_inv h) hr.lock).1
    obtain ⟨hm, hk₂, hr₂⟩ := slice_move cfg h₁ hr₁ he
    have hm₂ : Move cfg (.block t (.mtx m) none) (some t, k₂) _ := .block hr₂.2 (.mtx m)
    have hlift := inherit_donors cfg (lock_inv h) (h.prio t) hi
    have hmx : k₂.mutex = k.mutex := by
      have key := hp.keeps (I := fun a => KernelInv a.1 a.2 ∧ a.2.mutex = k.mutex) ?_
        ⟨lock_inv h, rfl⟩
      · exact (hm.owner h₁ trivial).trans key.2
      · rintro op ⟨off, k₃⟩ ⟨off', k₄⟩ hop hmv ⟨hk, hmx⟩
        refine ⟨hk.move hmv, (congrArg Objects.mutex (hmv.objects hk ?_)).trans hmx⟩
        cases hop <;> trivial
    refine .inr ⟨owner, k₁.donors, ho, hlift, ?_⟩
    refine (switchThread_donors (hk₂.move hm₂)).trans ((hm₂.donors_block hk₂).trans ?_)
    rw [hm.donors h₁ trivial, hmx]
    change k₁.donors.redirect _ (k.mutex m).owner = _
    rw [show (k.mutex m).owner = some owner from ho]
    rfl

/-- `chopstx_cond_wait`: what the release of the mutex does. -/
theorem chopstxCondWait_donors {c : Cid} {o : Option Mid} (h : KernelInv none k) (hr : Runs k t)
    (hw : k.chopstxCondWait cfg t c o = .ok k') :
    ∃ k₁, k.chxCpuSchedLock.condUnlock cfg t o = .ok k₁ ∧ k'.donors = k₁.donors := by
  obtain ⟨k₁, hu, h₁, hr₁, hs⟩ := chopstxCondWait_cases h hr hw
  obtain ⟨k₂, k₃, k₄, k₅, hp₁, hm₁, hm₂, hp₂, rfl⟩ := hs.steps
  have h₂ : KernelInv none k₂ := h₁.path hp₁
  have h₃ : KernelInv (some t) k₃ := h₂.move hm₁
  have h₄ : KernelInv none k₄ := h₃.move hm₂
  have hd₂ : k₂.donors = k₁.donors := hp₁.donors h₁ fun _ ho => ho.elim
  refine ⟨k₁, hu, (switchThread_donors (h₄.path hp₂)).trans
    ((hp₂.donors h₄ fun _ ho => ho.elim).trans ((hm₂.donors_block h₃).trans ?_))⟩
  rw [hm₁.donors h₂ trivial, hd₂]
  exact Donors.free_eq hr₁.waitsFor

/-- `chx_handle_intr`. -/
theorem chxHandleIntr_donors (cfg : Config) {n : Irq} (h : KernelInv none k)
    (hi : k.chxHandleIntr n = .ok k') : k'.donors = k.donors := by
  have hm : Move cfg (.irq n false) (none, k) (none, k.disableIntr n) := .disable
  rw [chxHandleIntr] at hi
  split at hi
  · rename_i p hf
    obtain ⟨⟨k₁, b⟩, hk₁, hi⟩ := res_bind_eq_ok.1 hi
    cases hi
    have hwake : Path cfg Op.Wakes (none, _) (none, k₁) :=
      chxWakeup_path (h.move hm) (List.mem_of_find?_eq_some hf) (.inr (.inr ⟨p, rfl⟩)) hk₁
    have h₁ := (h.move hm).path hwake
    have hreq : Path cfg (· = .pend true) (none, k₁) (none, k₁.chxRequestPreemption
        (k₁.thread (k₁.px p).master).prio) := request_path
    refine (hreq.donors h₁ (by rintro op rfl; trivial)).trans ?_
    exact (chxWakeup_donors cfg (h.move hm) (List.mem_of_find?_eq_some hf) (.inr (.inr ⟨p, rfl⟩))
      hk₁).trans (hm.donors h trivial)
  · cases hi
    exact hm.donors h trivial

/-! ## Steps -/

/-- What a step of the thread does; `D` are the donors after it. -/
inductive DonorsTo (k : Kernel) (t : Tid) : Frame → Donors Tid Nat → Prop
  | keep {f : Frame} (hrel : f.releases = none) (hlock : ∀ m b, f ≠ .mutexLock m b)
      (hprio : ∀ prio, f ≠ .setpriority prio) (hfree : f.frees k t = none) :
      DonorsTo k t f k.donors
  | create {fp : Nat} :
      DonorsTo k t (.create fp) (k.donors.assign k.nthread (fp % 256) (fp % 256))
  | acquire {m : Mid} {b : Bool} (ho : (k.mutex m).owner = none) :
      DonorsTo k t (.mutexLock m b) (k.donors.redirect (k.queuedOn m) (some t))
  | block {m : Mid} {b : Bool} {u : Tid} {D : Donors Tid Nat} (ho : (k.mutex m).owner = some u)
      (hl : Donors.Lift (k.thread t).prio k.donors (some u) D) :
      DonorsTo k t (.mutexLock m b) (D.link t u)
  | join {tp : Tid} {rp : Option Nat} {D : Donors Tid Nat}
      (hl : Donors.Lift (k.thread t).prio (k.donors.link t tp) (some tp) D) :
      DonorsTo k t (.join tp rp) D
  | release {f : Frame} {m : Mid} (hf : f.releases = some m) (hq : k.queue (.mtx m) = []) :
      DonorsTo k t f k.donors
  | handOver {f : Frame} {m : Mid} {p : Nat} (hf : f.releases = some m)
      (ho : (k.mutex m).owner = some t) (hq : k.queue (.mtx m) ≠ []) (hp : HandOver k t m p) :
      DonorsTo k t f
        ((k.donors.redirect (k.queuedOn m) none).assign t p (k.thread t).prioOrig)
  | setpriority {prio : Nat} :
      DonorsTo k t (.setpriority prio) (k.donors.assign t
        (if (k.thread t).prio = (k.thread t).prioOrig then prio
          else if (k.thread t).prio < prio then prio else (k.thread t).prio) prio)
  | free {f : Frame} {j : Tid} (hf : f.frees k t = some j) : DonorsTo k t f (k.donors.free j)

/-- A release of a mutex, and what is left of the section. -/
theorem unlock_donorsTo {n : Nat} (h : KernelInv none k) (hr : Runs k t) (hA : k.locks.Agree)
    (hf : f.releases = some m) (hm : (k.ghost.held t).head? = some m)
    (hu : k.chxCpuSchedLock.chxMutexUnlock cfg t m = .ok (k₁, n))
    (hd : k'.donors = k₁.donors) : DonorsTo k t f k'.donors := by
  rw [hd]
  rcases chxMutexUnlock_donors (k := k.chxCpuSchedLock) (lock_inv h) hr.lock hA hm hu with
    ⟨hq, hd₁⟩ | ⟨hq, p, hp, hd₁⟩
  · rw [hd₁]
    exact .release hf hq
  · rw [hd₁]
    exact .handOver hf ((hA.owner m t).2 (List.mem_of_head? hm)) hq ⟨hp.orig, hp.cause, hp.heads⟩

/-- The frames whose sections neither wake a thread nor touch a priority or a mutex. -/
def Frame.Neutral : Frame → Prop
  | .create _ | .mutexLock _ _ | .mutexUnlock _ | .exitUnlock _ _ _ | .condWait _ _
  | .condSignal _ | .condBroadcast _ | .setpriority _ | .cancel _ | .exit _ | .join _ _ => False
  | _ => True

theorem Op.sleepsOps_keepsDonors {op' : Op} (h : Sleeps.Ops t Op.None op' Op.None op)
    (ho : op'.KeepsDonors) : op.KeepsDonors := by
  cases h with
  | before h => exact h.elim
  | slice => trivial
  | op => exact ho
  | after h => exact h.elim
  | switch => trivial

theorem Op.Polls.keepsDonors {p : PxId} {d : PdId} (h : op.Polls cfg p d) : op.KeepsDonors := by
  cases h <;> trivial

theorem Frame.May.keepsDonors (h : f.May cfg t op) (hf : f.Neutral) : op.KeepsDonors := by
  cases f with
  | create | mutexLock | mutexUnlock | exitUnlock | condWait | condSignal | condBroadcast
  | setpriority | cancel | exit | join => exact hf.elim
  | usecSnooze usec =>
      rcases h with rfl | h
      · trivial
      · exact Op.sleepsOps_keepsDonors h trivial
  | claimIrq d => rcases h with rfl | rfl | ⟨n, -, rfl⟩ <;> trivial
  | intrDone | pollCall =>
      cases h
      trivial
  | cleanupPush | cleanupPop | setcancelstate | exitStart =>
      obtain ⟨c, l, rfl⟩ := h
      trivial
  | joinRet tp ret r => rcases h with rfl | rfl <;> trivial
  | poll P pt =>
      cases pt with
      | init | hook | condStore =>
          cases h
          trivial
      | condReady | condClear =>
          obtain ⟨d, b, -, rfl⟩ := h
          trivial
      | condEnqueue | intrHook | joinHook | cleanup =>
          obtain ⟨d, -, h⟩ := h
          exact h.keepsDonors
      | main | snooze =>
          rcases h with rfl | h
          · trivial
          · exact Op.sleepsOps_keepsDonors h trivial
      | _ => exact h.elim
  | _ => exact h.elim

/-- **What a step of a thread does to the donors.** -/
theorem Next.donors (hn : Next cfg k t rest ret f k' ctx) (h : KernelInv none k) (hr : Runs k t)
    (hfits : f.Fits k) (hA : k.locks.Agree)
    (hm : ∀ m, f.releases = some m → (k.ghost.held t).head? = some m) :
    DonorsTo k t f k'.donors := by
  -- the sections that neither wake a thread nor touch a priority
  have hkeep : f.Neutral → f.releases = none → (∀ m b, f ≠ .mutexLock m b) →
      (∀ prio, f ≠ .setpriority prio) → f.frees k t = none → DonorsTo k t f k'.donors := by
    intro hf hrel hlock hprio hfree
    rw [(hn.path h hr hfits).1.donors h fun _ hop => hop.keepsDonors hf]
    exact .keep hrel hlock hprio hfree
  cases hn with
  | create hc =>
      rw [chopstxCreate_donors h hr hc]
      exact .create
  | acquired hl | blocked hl =>
      rcases chopstxMutexLock_donors h hr hl with ⟨ho, hd⟩ | ⟨u, D, ho, hlift, hd⟩
      · rw [hd]
        exact .acquire ho
      · rw [hd]
        exact .block ho hlift
  | mutexUnlock hu =>
      obtain ⟨⟨k₁, n⟩, hu₁, hy⟩ := res_bind_eq_ok.1 hu
      have hp := chxMutexUnlock_path (lock_inv h) hr.lock hu₁
      exact unlock_donorsTo h hr hA rfl (hm _ rfl) hu₁ (yieldOrUnlock_donors ((lock_inv h).path hp)
        (hp.runs (fun _ => Op.Unlocks.quiet) (lock_inv h) hr.lock).1 hy)
  | exitUnlock hu =>
      obtain ⟨⟨k₁, n⟩, hu₁, hk⟩ := res_bind_eq_ok.1 hu
      cases hk
      exact unlock_donorsTo h hr hA rfl (hm _ rfl) hu₁ rfl
  | condWait hw =>
      rename_i c o
      obtain ⟨k₁, hu, hd⟩ := chopstxCondWait_donors h hr hw
      cases o with
      | none =>
          cases hu
          rw [hd]
          exact .keep rfl (by simp) (by simp) rfl
      | some m =>
          obtain ⟨⟨k₂, n⟩, hu₁, hk⟩ := res_bind_eq_ok.1 hu
          cases hk
          exact unlock_donorsTo h hr hA rfl (hm _ rfl) hu₁ hd
  | condSignal hc =>
      obtain ⟨⟨k₁, b⟩, hw, hy⟩ := res_bind_eq_ok.1 hc
      have hp : Path cfg Op.Wakes (none, _) (none, k₁) := wakeFirst_path (lock_inv h) hw
      have hr₁ := (hp.runs (fun _ => Op.Wakes.quiet) (lock_inv h) hr.lock).1
      rw [yieldOrUnlock_donors ((lock_inv h).path hp) hr₁ hy,
        wakeFirst_donors cfg (lock_inv h) hw]
      exact .keep rfl (by simp) (by simp) rfl
  | condBroadcast hc =>
      obtain ⟨⟨k₁, b⟩, hw, hy⟩ := res_bind_eq_ok.1 hc
      have hp : Path cfg Op.Wakes (none, _) (none, k₁) := wakeAll_path (lock_inv h) hw
      have hr₁ := (hp.runs (fun _ => Op.Wakes.quiet) (lock_inv h) hr.lock).1
      rw [yieldOrUnlock_donors ((lock_inv h).path hp) hr₁ hy,
        wakeAll_donors cfg (lock_inv h) hw]
      exact .keep rfl (by simp) (by simp) rfl
  | setpriority hp =>
      rw [chopstxSetpriority_donors h hr hfits hp]
      exact .setpriority
  | cancel hc =>
      rename_i tp
      rw [chopstxCancel_donors h hr hc]
      cases hf : (Frame.cancel tp).frees k t with
      | none => exact .keep rfl (by simp) (by simp) hf
      | some u => exact .free hf
  | exit hx =>
      rename_i rv
      rw [chxExit_donors h hr hx]
      cases hf : (Frame.exit rv).frees k t with
      | none => exact .keep rfl (by simp) (by simp) hf
      | some u => exact .free hf
  | joinSleep hf hj | joinDone hf hj =>
      rcases chopstxJoin_donors h hr hj with ⟨-, hd⟩ | ⟨-, hl⟩
      · rw [hd]
        exact .keep rfl (by simp) (by simp) rfl
      · exact .join hl
  | joinFatal => exact .keep rfl (by simp) (by simp) rfl
  | _ => exact hkeep trivial rfl (by simp) (by simp) rfl

end Chopstx
