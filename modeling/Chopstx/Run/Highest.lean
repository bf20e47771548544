import Chopstx.Run.Donors
import Chopstx.Run.Proxies

/-!
# The running thread has the highest priority

A context switch takes the first thread of `q_ready`, which has the highest priority of all
as long as the queue is sorted.  A section that wakes threads up compares their priorities
with the one of the running thread, and yields if one of them is greater.

* `Top` - no thread that is ready outranks the running one.
* `RunsOn`, `GivesWay` - a part of a section in which the running thread runs on, and a section that
  switches only to a thread that is the highest.
* `switchThread_top`, `chxWakeup_runsOn`, `yieldOrUnlock_givesWay` - the pieces, and for each
  section one lemma (`chopstxCancel_givesWay`, `chopstxMutexUnlock_givesWay` and so on).
* `chxTimerExpired_top`, `chxHandleIntr_top` - the handlers ask for a preemption.
* `Lent`, `Releases` - what is required of the release of a mutex.
* `Next.givesWay` - a step of a thread.
-/

namespace Chopstx

open Kernel PrioQueue

variable {cfg : Config} {k k' k₁ k₂ : Kernel} {off off' : Option Tid} {op : Op} {P : Op → Prop}
  {t u tp : Tid} {b b' : Bool} {q : Qh} {x y : Pq}

/-! ## Sorted queues -/

theorem Qh.Sorts.pairwise (hq : q.Sorts) (hs : k.Sorted) :
    (k.queue q).Pairwise fun x y => k.pqPrio y ≤ k.pqPrio x := by
  obtain ⟨A, hA⟩ := hs
  exact (hA q hq).sorted.imp fun h => h.prio_le

theorem KernelInv.mem_ready_of_state (h : KernelInv off k) (hoff : off ≠ some u)
    (hs : (k.thread u).state = .ready) : .thread u ∈ k.queue .ready :=
  mem_of_isIn ((h.place u hoff).ready hs)

/-! ## Ready threads that do not outrank the running one -/

namespace Kernel

/-- No thread that is ready outranks the running one, and if none runs, none is ready. -/
def Top (k : Kernel) : Prop := ∀ u, (k.thread u).state = .ready → k.outranks u = false

theorem outranks_eq_false :
    k.outranks u = false ↔ ∃ t, k.running = some t ∧ (k.thread u).prio ≤ (k.thread t).prio := by
  unfold outranks
  cases k.running <;> simp

end Kernel

/-- The running thread keeps its priority and, unless `b`, no thread that has become ready
outranks it. -/
structure RunsOn (k k' : Kernel) (b : Bool) : Prop where
  running : k'.running = k.running
  prio : ∀ t, k.running = some t → (k'.thread t).prio = (k.thread t).prio
  ready : b = false → ∀ u, (k'.thread u).state = .ready → k'.outranks u = false ∨
    (k.thread u).state = .ready ∧ (k'.thread u).prio = (k.thread u).prio

namespace RunsOn

theorem outranks (h : RunsOn k k' b) (hp : (k'.thread u).prio = (k.thread u).prio) :
    k'.outranks u = k.outranks u := by
  unfold Kernel.outranks
  rw [h.running]
  cases hr : k.running with
  | none => rfl
  | some t => simp only [h.prio t hr, hp]

theorem refl : RunsOn k k b := ⟨rfl, fun _ _ => rfl, fun _ _ hu => .inr ⟨hu, rfl⟩⟩

theorem top (h : RunsOn k k' b) (hb : b = false) (ht : k.Top) : k'.Top := by
  intro u hu
  rcases h.ready hb u hu with hout | ⟨hs, hp⟩
  · exact hout
  · rw [h.outranks hp]
    exact ht u hs

theorem trans (h : RunsOn k k₁ b) (h' : RunsOn k₁ k₂ b') : RunsOn k k₂ (b || b') := by
  refine ⟨h'.running.trans h.running, fun t ht => ?_, fun hb u hu => ?_⟩
  · rw [h'.prio t (h.running.trans ht), h.prio t ht]
  · obtain ⟨hb, hb'⟩ := Bool.or_eq_false_iff.1 hb
    rcases h'.ready hb' u hu with hout | ⟨hs, hp⟩
    · exact .inl hout
    · rcases h.ready hb u hs with hout | ⟨hs, hp'⟩
      · exact .inl ((h'.outranks hp).trans hout)
      · exact .inr ⟨hs, hp.trans hp'⟩

end RunsOn

/-- A move of one thread, after which it is ready only if that is accounted for by `b`. -/
theorem Move.runsOn (hm : Move cfg op (off, k) (off', k')) (h : KernelInv off k)
    (hq : op.Quiet) (hrec : op.KeepsRecords ∨ ∀ u, (k'.thread u).prio = (k.thread u).prio)
    (hb : b = false → ∀ u, op.target = some u → (k'.thread u).state = .ready →
      k'.outranks u = false ∨ (k.thread u).state = .ready) : RunsOn k k' b := by
  have hprio : ∀ u, (k'.thread u).prio = (k.thread u).prio := fun u =>
    hrec.elim (fun hrec => by rw [hm.record h hrec u]) fun hp => hp u
  refine ⟨(hm.running hq h).1, fun t _ => hprio t, fun hf u hu => ?_⟩
  by_cases ht : op.target = some u
  · exact (hb hf u ht hu).imp id fun hs => ⟨hs, hprio u⟩
  · have hsw : op ≠ .switch := by
      rintro rfl
      exact hq
    have hex : op ≠ .expire := by
      rintro rfl
      exact hq
    rw [(hm.untouched h ht hsw hex).thread] at hu
    exact .inr ⟨hu, hprio u⟩

/-! ## The context switch -/

/-- **A context switch leaves no thread ready that outranks the one it takes.** -/
theorem switchThread_top (cfg : Config) (h : KernelInv none k) (hs : k.Sorted) :
    (k.switchThread cfg).Top := by
  intro u hu
  rcases switchThread_switched cfg h with ⟨hq, heq⟩ | ⟨t, hsw⟩
  · rw [heq] at hu
    have hm := h.mem_ready_of_state (by simp) hu
    rw [hq] at hm
    cases hm
  · have hne : u ≠ t := by
      rintro rfl
      rw [hsw.self] at hu
      cases hu
    have hprio : ∀ v, ((k.switchThread cfg).thread v).prio = (k.thread v).prio := by
      intro v
      by_cases hv : v = t
      · rw [hv, hsw.self]
      · rw [hsw.others v hv]
    rw [hsw.others u hne] at hu
    have hm := h.mem_ready_of_state (by simp) hu
    have hsorted := Qh.Sorts.ready.pairwise hs
    rw [hsw.first] at hm hsorted
    refine outranks_eq_false.2 ⟨t, hsw.running, ?_⟩
    rw [hprio, hprio]
    rcases List.mem_cons.1 hm with heq | hm
    · exact absurd (Pq.thread.inj heq) hne
    · exact (List.pairwise_cons.1 hsorted).1 _ hm

/-- The end of a section that yields if need be. -/
theorem yieldOrUnlock_top (h : KernelInv none k) (hr : Runs k t) (hs : k.Sorted)
    (hb : b = false → k.Top) (hy : k.yieldOrUnlock cfg t b = .ok k') : k'.Top := by
  cases b with
  | false =>
      cases hy
      exact hb rfl
  | true =>
      obtain ⟨k₁, he, hk⟩ := res_bind_eq_ok.1 hy
      cases hk
      have hm₁ : Move cfg (.slice t) (none, k) (some t, k₁) := .slice hr.1 hr.2 he
      obtain ⟨-, hk₁, hr₁⟩ := slice_move cfg h hr he
      have hm₂ : Move cfg (.yield t) (some t, k₁)
          (none, { k₁.chxReadyEnqueue t with running := none }) := .yield hr₁.2
      exact switchThread_top cfg (hk₁.move hm₂)
        (hm₂.sorted hk₁ trivial (hm₁.sorted h trivial hs))

/-- A section of `t` switches to another thread only as the highest.  If `P` holds, the thread that
runs after it is the highest in any case. -/
structure GivesWay (t : Tid) (P : Prop) (k' : Kernel) : Prop where
  switches : k'.Top ∨ k'.running = some t
  top : P → k'.Top

theorem GivesWay.of_top {P : Prop} (h : k'.Top) : GivesWay t P k' := ⟨.inl h, fun _ => h⟩

theorem GivesWay.of_runs {P : Prop} (hr : Runs k' t) (h : P → k'.Top) : GivesWay t P k' :=
  ⟨.inr hr.1, h⟩

theorem GivesWay.imp {P Q : Prop} (h : GivesWay t P k') (hPQ : Q → P) : GivesWay t Q k' :=
  ⟨h.switches, fun hQ => h.top (hPQ hQ)⟩

theorem yieldOrUnlock_givesWay {P : Prop} (h : KernelInv none k) (hr : Runs k t) (hs : k.Sorted)
    (hb : P → b = false → k.Top) (hy : k.yieldOrUnlock cfg t b = .ok k') : GivesWay t P k' := by
  refine ⟨?_, fun hP => yieldOrUnlock_top h hr hs (hb hP) hy⟩
  cases b with
  | false =>
      cases hy
      exact .inr hr.1
  | true => exact .inl (yieldOrUnlock_top h hr hs (by simp) hy)

/-- So does the section of a thread that goes to sleep. -/
theorem Sleeps.highest {before after : Op → Prop} (hz : Sleeps cfg t before op after k k')
    (h : KernelInv none k) (hs : k.Sorted) (hop : op.Placid) (hb : ∀ o, before o → o.Placid)
    (ha : ∀ o, after o → o.Placid) : k'.Top := by
  obtain ⟨k₁, k₂, k₃, k₄, hp₁, hm₁, hm₂, hp₂, rfl⟩ := hz.steps
  have h₁ := h.path hp₁
  have h₂ := h₁.move hm₁
  have h₃ := h₂.move hm₂
  have hs₂ := hm₁.sorted h₁ trivial (hp₁.sorted h hb hs)
  exact switchThread_top cfg (h₃.path hp₂)
    (hp₂.sorted h₃ ha (hm₂.sorted h₂ hop.orderly hs₂))

theorem Op.Inherits.placid (h : op.Inherits) : op.Placid := by
  cases h <;> trivial

theorem Op.Wakes.placid (h : op.Wakes) : op.Placid := by
  cases h <;> trivial

theorem Op.Unlocks.placid {m : Mid} (h : op.Unlocks t m) : op.Placid := by
  cases h <;> trivial

/-! ## Wake-ups -/

/-- The moves that make no thread ready and leave the priorities alone. -/
def Op.Calm : Op → Prop
  | .aux | .count _ | .pend _ | .pass | .flags _ _ | .finish _ | .acquire _ _ | .drop _ _
  | .proxy _ | .fire _ | .link _ _ | .unlink _ | .ready _ _ | .irq _ _ => True
  | _ => False

theorem Op.Calm.quiet (h : op.Calm) : op.Quiet := by
  cases op <;> first | exact h.elim | trivial

/-- The record of one thread changes, but not its priority. -/
theorem prio_of_update {th : Thread} (hk : k'.thread = Function.update k.thread t th)
    (hp : th.prio = (k.thread t).prio) (u : Tid) : (k'.thread u).prio = (k.thread u).prio := by
  rw [hk]
  by_cases hu : u = t
  · rw [hu, Function.update_self, hp]
  · rw [Function.update_of_ne hu]

theorem Move.calm (hm : Move cfg op (off, k) (off', k')) (h : KernelInv off k) (hop : op.Calm) :
    RunsOn k k' b := by
  refine hm.runsOn h hop.quiet (.inr ?_) fun _ u ht hu => .inr ?_
  · cases hm with
    | flags w => exact prio_of_update rfl (w.set_prio _)
    | acquire | drop | finish => exact prio_of_update rfl rfl
    | _ => first | exact hop.elim | exact fun _ => rfl
  · cases hm with
    | finish =>
        cases ht
        simp at hu
    | flags | acquire | drop =>
        cases ht
        simpa [Kernel.acquire, dropMutex] using hu
    | _ => first | exact hop.elim | cases ht

theorem Path.calm (hp : Path cfg P (off, k) (off', k')) (h : KernelInv off k)
    (hP : ∀ op, P op → op.Calm) : RunsOn k k' b := by
  have key := hp.keeps (I := fun a => KernelInv a.1 a.2 ∧ RunsOn k a.2 b) ?_ ⟨h, .refl⟩
  · exact key.2
  · rintro op ⟨off, k₁⟩ ⟨off', k₂⟩ hop hm ⟨hk, hr⟩
    exact ⟨hk.move hm, by simpa using hr.trans (hm.calm (b := b) hk (hP op hop))⟩

/-- A thread is woken up, and nothing else happens to the others. -/
theorem Path.wake_runsOn (hp : Path cfg (fun op => ∃ w, op = .wake t w) (none, k) (none, k'))
    (h : KernelInv none k) : RunsOn k k' (k'.outranks t) := by
  have key := hp.keeps (I := fun a => KernelInv a.1 a.2 ∧ a.2.running = k.running ∧
    ∀ u, (a.2.thread u).prio = (k.thread u).prio ∧
      ((a.2.thread u).state = .ready → u = t ∨ (k.thread u).state = .ready)) ?_
    ⟨h, rfl, fun u => ⟨rfl, .inr⟩⟩
  · obtain ⟨-, hrun, hth⟩ := key
    refine ⟨hrun, fun u _ => (hth u).1, fun hb u hu => ?_⟩
    rcases (hth u).2 hu with rfl | hs
    · exact .inl hb
    · exact .inr ⟨hs, (hth u).1⟩
  · rintro op ⟨off, k₁⟩ ⟨off', k₂⟩ ⟨w, rfl⟩ hm ⟨hk, hrun, hth⟩
    refine ⟨hk.move hm, (hm.running trivial hk).1.trans hrun, fun u => ⟨?_, fun hu => ?_⟩⟩
    · rw [hm.record hk trivial u]
      exact (hth u).1
    · by_cases hut : u = t
      · exact .inl hut
      · have hun := hm.untouched hk (u := u) (fun h => hut (Option.some.inj h).symm) (by simp)
          (by simp)
        rw [hun.thread] at hu
        exact (hth u).2 hu

/-- **`chx_wakeup` says whether the thread that it wakes up outranks the running one.** -/
theorem chxWakeup_runsOn (cfg : Config) (h : KernelInv none k) (hx : x ∈ k.queue q)
    (hq : q = .join ∨ (∃ c, q = .cnd c) ∨ ∃ p, x = .proxy p)
    (hw : (k.llDequeue x).chxWakeup x = .ok (k', b)) : RunsOn k k' b := by
  cases x with
  | thread t =>
      cases hw
      have hm : Move cfg (.wake t (.others none)) (none, k)
          (none, (k.llDequeue (.thread t)).resume t (.others none) 1) := by
        refine .wakeQueued (q := q) (h.isIn_of_mem hx) ?_
        rcases hq with rfl | ⟨c, rfl⟩ | ⟨p, hp⟩
        · exact .join .others
        · exact .cnd c .others
        · cases hp
      exact (hm.path (P := fun op => ∃ w, op = .wake t w) ⟨_, rfl⟩).wake_runsOn h
  | proxy p =>
      have hm : Move cfg (.fire p) (none, k) (none, (k.llDequeue (.proxy p)).fireProxy p) :=
        .fire hx
      rw [chxWakeup] at hw
      split at hw
      · rename_i hs
        obtain ⟨k₁, hk₁, hk⟩ := res_bind_eq_ok.1 hw
        cases hk
        obtain ⟨left, hp⟩ := wakeSleeper_path cfg (h.move hm) (.inr hs) hk₁
        have hwake := (hp.mono fun op hop => ⟨_, hop⟩).wake_runsOn (h.move hm)
        exact (hm.calm (b := false) h trivial).trans hwake
      · cases hw
        exact hm.calm h trivial

theorem wakeAll_runsOn (cfg : Config) {c : Cid} {fuel : Nat} (h : KernelInv none k)
    (hw : wakeAll c fuel k = .ok (k', b)) : RunsOn k k' b := by
  induction fuel generalizing k b with
  | zero =>
      rw [wakeAll] at hw
      split at hw
      · cases hw
        exact .refl
      · cases hw
  | succ fuel ih =>
      cases hq : k.queue (.cnd c) with
      | nil =>
          simp only [wakeAll, llPop, hq] at hw
          cases hw
          exact .refl
      | cons x rest =>
          simp only [wakeAll, llPop, hq] at hw
          obtain ⟨⟨k₁, b₁⟩, hk₁, hw⟩ := res_bind_eq_ok.1 hw
          obtain ⟨⟨k₂, b₂⟩, hk₂, hw⟩ := res_bind_eq_ok.1 hw
          cases hw
          have hx : x ∈ k.queue (.cnd c) := by
            rw [hq]
            exact List.mem_cons_self ..
          have hp : Path cfg Op.Wakes (none, k) (none, k₁) :=
            chxWakeup_path h hx (.inr (.inl ⟨c, rfl⟩)) hk₁
          exact (chxWakeup_runsOn cfg h hx (.inr (.inl ⟨c, rfl⟩)) hk₁).trans
            (ih (h.path hp) hk₂)

theorem wakeFirst_runsOn (cfg : Config) {c : Cid} (h : KernelInv none k)
    (hw : k.wakeFirst c = .ok (k', b)) : RunsOn k k' b := by
  cases hq : k.queue (.cnd c) with
  | nil =>
      simp only [wakeFirst, llPop, hq] at hw
      cases hw
      exact .refl
  | cons x rest =>
      simp only [wakeFirst, llPop, hq] at hw
      have hx : x ∈ k.queue (.cnd c) := by
        rw [hq]
        exact List.mem_cons_self ..
      exact chxWakeup_runsOn cfg h hx (.inr (.inl ⟨c, rfl⟩)) hw

/-! ## Sections -/

/-- `chopstx_create`. -/
theorem chopstxCreate_givesWay {fp : Nat} (h : KernelInv none k) (hr : Runs k t) (hs : k.Sorted)
    (hc : k.chopstxCreate cfg t fp = .ok k') : GivesWay t k.Top k' := by
  set k₁ : Kernel := { k with
    nthread := k.nthread + 1
    thread := Function.update k.thread k.nthread (newThread fp) } with hk₁
  have hm : Move cfg (.create k.nthread) (none, k) (none, k₁.chxReadyEnqueue k.nthread) :=
    .create fp
  have hm' : Move cfg .aux (none, k₁.chxReadyEnqueue k.nthread)
      (none, k₁.chxCpuSchedLock.chxReadyEnqueue k.nthread) :=
    .aux k₁.chxCpuSchedLock.masked k.counter k.ncall k.mem le_rfl fun _ _ => rfl
  have hr' := (hm.runs trivial h hr).1
  have h₁ := h.move hm
  have hs₁ := hm'.sorted h₁ trivial (hm.sorted h trivial hs)
  have hother : ∀ u, u ≠ k.nthread →
      (k₁.chxCpuSchedLock.chxReadyEnqueue k.nthread).thread u = k.thread u := fun u hu => by
    rw [chxReadyEnqueue_thread, Function.update_of_ne hu]
    exact Function.update_of_ne hu _ _
  refine yieldOrUnlock_givesWay (h₁.move hm')
    (show Runs (k₁.chxCpuSchedLock.chxReadyEnqueue k.nthread) t from hr') hs₁ (fun ht hb => ?_) hc
  refine RunsOn.top (k := k) (b := false) ⟨rfl, fun v hv => ?_, fun _ u hu => ?_⟩ rfl ht
  · rw [hother v (h.born v hv).ne]
  · by_cases hun : u = k.nthread
    · rw [hun]
      exact .inl hb
    · rw [hother u hun] at hu ⊢
      exact .inr ⟨hu, rfl⟩

/-- A section that wakes threads up. -/
theorem wakesEnds_givesWay (h : KernelInv none k) (hr : Runs k t) (hs : k.Sorted)
    (hp : Path cfg Op.Wakes (none, k.chxCpuSchedLock) (none, k₁))
    (hw : RunsOn k.chxCpuSchedLock k₁ b) (hy : k₁.yieldOrUnlock cfg t b = .ok k') :
    GivesWay t k.Top k' := by
  exact yieldOrUnlock_givesWay ((lock_inv h).path hp)
    (hp.runs (fun _ => Op.Wakes.quiet) (lock_inv h) hr.lock).1
    (hp.sorted (lock_inv h) (fun _ => Op.Wakes.placid) hs) (fun ht hb => hw.top hb ht) hy

/-- `chopstx_cond_signal`. -/
theorem chopstxCondSignal_givesWay {c : Cid} (h : KernelInv none k) (hr : Runs k t)
    (hs : k.Sorted) (hc : k.chopstxCondSignal cfg t c = .ok k') : GivesWay t k.Top k' := by
  obtain ⟨⟨k₁, b⟩, hk₁, hc⟩ := res_bind_eq_ok.1 hc
  exact wakesEnds_givesWay h hr hs (wakeFirst_path (lock_inv h) hk₁)
    (wakeFirst_runsOn cfg (lock_inv h) hk₁) hc

/-- `chopstx_cond_broadcast`. -/
theorem chopstxCondBroadcast_givesWay {c : Cid} (h : KernelInv none k) (hr : Runs k t)
    (hs : k.Sorted) (hc : k.chopstxCondBroadcast cfg t c = .ok k') : GivesWay t k.Top k' := by
  obtain ⟨⟨k₁, b⟩, hk₁, hc⟩ := res_bind_eq_ok.1 hc
  exact wakesEnds_givesWay h hr hs (wakeAll_path (lock_inv h) hk₁)
    (wakeAll_runsOn cfg (lock_inv h) hk₁) hc

/-- `chopstx_cancel`. -/
theorem chopstxCancel_givesWay (h : KernelInv none k) (hr : Runs k t) (hs : k.Sorted)
    (hc : k.chopstxCancel cfg t tp = .ok k') : GivesWay t k.Top k' := by
  rw [chopstxCancel] at hc
  set k₀ := k.chxCpuSchedLock.modThread tp fun th => { th with flagGotCancel := true } with hk₀
  have hm : Move cfg (.flags tp .cancel) (none, k.chxCpuSchedLock) (none, k₀) := .flags .cancel
  have h₀ := (lock_inv h).move hm
  have hs₀ := hm.sorted (lock_inv h) trivial hs
  have hr₀ := (hm.runs trivial (lock_inv h) hr.lock).1
  have ht₀ : k.Top → k₀.Top := fun ht => (hm.calm (b := false) (lock_inv h) trivial).top rfl ht
  have hkeep : k₀.yieldOrUnlock cfg t false = .ok k' → GivesWay t k.Top k' := fun hy =>
    yieldOrUnlock_givesWay h₀ hr₀ hs₀ (fun ht _ => ht₀ ht) hy
  simp only at hc
  split at hc
  · obtain ⟨o, hd, hc⟩ := res_bind_eq_ok.1 hc
    cases o with
    | none => exact hkeep hc
    | some k₁ =>
        have hm₁ := cancelDequeue_move cfg h₀ hd
        refine yieldOrUnlock_givesWay (h₀.move hm₁) (hm₁.runs trivial h₀ hr₀).1
          (hm₁.sorted h₀ trivial hs₀) (fun ht hb => ?_) hc
        have hwake := (hm₁.path (P := fun op => ∃ w, op = .wake tp w) ⟨_, rfl⟩).wake_runsOn h₀
        exact hwake.top hb (ht₀ ht)
  · exact hkeep hc

/-- `chopstx_setpriority`. -/
theorem chopstxSetpriority_givesWay {prio : Nat} (h : KernelInv none k) (hr : Runs k t)
    (hs : k.Sorted) (hp : prio < 256) (hc : k.chopstxSetpriority cfg t prio = .ok k') :
    GivesWay t k.Top k' := by
  rw [chopstxSetpriority] at hc
  have hm : Move cfg (.prio t) (none, k.chxCpuSchedLock) _ :=
    .prio (setpriority_lt (t := t) h hp) hp (by simp [hr.2]) (by simp [hr.2]) (by simp [hr.2])
  have hr₁ := (hm.runs trivial (lock_inv h) hr.lock).1
  refine yieldOrUnlock_givesWay ((lock_inv h).move hm) hr₁ (hm.sorted (lock_inv h) trivial hs)
    (fun ht hb u hu => ?_) hc
  have hut : u ≠ t := by
    rintro rfl
    rw [hr₁.2] at hu
    cases hu
  have hu' : (k.thread u).state = .ready := by
    simpa [hut] using hu
  obtain ⟨v, hv, hle⟩ := outranks_eq_false.1 (ht u hu')
  cases hr.1.symm.trans hv
  refine outranks_eq_false.2 ⟨t, hr₁.1, ?_⟩
  rw [modThread_thread, Function.update_of_ne hut]
  exact hle.trans (not_lt.1 (of_decide_eq_false hb))

/-! ## Release of a mutex -/

namespace Kernel

/-- The thread has no more than its own priority, or than that of a thread which waits for a
mutex that it owns. -/
def Lent (k : Kernel) (t : Tid) : Prop :=
  (k.thread t).prio ≤ (k.thread t).prioOrig ∨ ∃ m u, (k.mutex m).owner = some t ∧
    .thread u ∈ k.queue (.mtx m) ∧ (k.thread t).prio ≤ (k.thread u).prio

end Kernel

/-- `chx_mutex_unlock` wakes up the first thread that waits. -/
theorem chxMutexUnlock_wakes {m : Mid} {n : Nat} (h : KernelInv none k) (hr : Runs k t)
    (hu : k.chxMutexUnlock cfg t m = .ok (k', n)) :
    (k.queue (.mtx m) = [] ∧
        ∀ u, (k'.thread u).state = .ready → (k.thread u).state = .ready) ∨
      ∃ tp, (k.queue (.mtx m)).head? = some (.thread tp) ∧ tp ≠ t ∧ n = (k.thread tp).prio ∧
        ∀ u, (k'.thread u).state = .ready → u = tp ∨ (k.thread u).state = .ready := by
  have hm₁ : Move cfg (.drop t m) (none, k) (none, k.dropMutex t m) := .drop hr.1 hr.2
  have hk₁ := h.move hm₁
  have hdrop : ∀ v, ((k.dropMutex t m).thread v).state = (k.thread v).state ∧
      ((k.dropMutex t m).thread v).prio = (k.thread v).prio := by
    intro v
    rw [dropMutex_thread]
    by_cases hv : v = t <;> simp [hv]
  rw [chxMutexUnlock] at hu
  simp only at hu
  cases hq : (k.dropMutex t m).queue (.mtx m) with
  | nil =>
      simp only [llPop, hq] at hu
      cases hu
      exact .inl ⟨hq, fun u hs => (hdrop u).1.symm.trans hs⟩
  | cons x rest =>
      have hx : x ∈ (k.dropMutex t m).queue (.mtx m) := by
        rw [hq]
        exact List.mem_cons_self ..
      obtain ⟨tp, rfl⟩ := hk₁.mtxThreads m x hx
      simp only [llPop, hq] at hu
      obtain ⟨p, hp, hk⟩ := res_bind_eq_ok.1 hu
      cases hk
      have htp : tp ≠ t := by
        rintro rfl
        have hs := hk₁.holds_of_mem hx
        rw [(hdrop tp).1, hr.2] at hs
        cases hs
      refine .inr ⟨tp, ?_, htp, ?_, fun u hs => ?_⟩
      · change ((k.dropMutex t m).queue (.mtx m)).head? = _
        rw [hq]
        rfl
      · rw [modThread_thread, Function.update_of_ne htp, resume_thread, Function.update_self]
        exact (hdrop tp).2
      · by_cases hup : u = tp
        · exact .inl hup
        · refine .inr ((hdrop u).1.symm.trans ?_)
          by_cases hut : u = t
          · subst hut
            simpa [resume_thread, hup] using hs
          · simpa [resume_thread, hup, hut] using hs

/-- The first thread that waits for a mutex has the highest priority of those that do. -/
theorem head_mtx {m : Mid} (h : KernelInv none k) (hs : k.Sorted)
    (hw : .thread u ∈ k.queue (.mtx m)) :
    ∃ x, (k.queue (.mtx m)).head? = some (.thread x) ∧ (k.thread u).prio ≤ (k.thread x).prio := by
  have hsorted := (Qh.Sorts.mtx m).pairwise hs
  cases hq : k.queue (.mtx m) with
  | nil =>
      rw [hq] at hw
      cases hw
  | cons x rest =>
      obtain ⟨x, rfl⟩ := h.mtxThreads m x (by rw [hq]; exact List.mem_cons_self ..)
      rw [hq] at hw hsorted
      refine ⟨x, rfl, ?_⟩
      rcases List.mem_cons.1 hw with heq | hw
      · cases heq
        exact le_rfl
      · exact (List.pairwise_cons.1 hsorted).1 _ hw

/-- A thread whose priority is lent by those who wait for its mutexes falls below it only by the
release of the mutex that the highest of them waits for. -/
theorem chxMutexUnlock_prio {m : Mid} {n : Nat} (h : KernelInv none k) (hr : Runs k t)
    (hs : k.Sorted) (hA : k.locks.Agree) (hm : (k.ghost.held t).head? = some m) (hl : k.Lent t)
    (hu : k.chxMutexUnlock cfg t m = .ok (k', n)) (hn : n ≤ (k'.thread t).prio) :
    (k.thread t).prio ≤ (k'.thread t).prio ∧
      ∀ u, u ≠ t → (k'.thread u).prio = (k.thread u).prio := by
  rcases chxMutexUnlock_donors h hr hA hm hu with ⟨-, hd⟩ | ⟨hq, p, hp, hd⟩
  · have hprio : ∀ v, (k'.thread v).prio = (k.thread v).prio :=
      congrFun (congrArg (fun D => D.prio) hd)
    exact ⟨(hprio t).ge, fun u _ => hprio u⟩
  · have hprio : ∀ v, (k'.thread v).prio = Function.update k.donors.prio t p v :=
      congrFun (congrArg (fun D => D.prio) hd)
    have hpt : (k'.thread t).prio = p := by rw [hprio, Function.update_self]
    refine ⟨?_, fun u hut => by rw [hprio, Function.update_of_ne hut]; rfl⟩
    rw [hpt] at hn ⊢
    rcases hl with hl | ⟨m', w, ho, hw, hl⟩
    · exact hl.trans hp.orig
    · obtain ⟨x, hx, hwx⟩ := head_mtx h hs hw
      by_cases hmm : m' = m
      · subst hmm
        rcases chxMutexUnlock_wakes h hr hu with ⟨hnil, -⟩ | ⟨tp, htp, -, hntp, -⟩
        · exact absurd hnil hq
        · cases hx.symm.trans htp
          exact (hl.trans hwx).trans (hntp.ge.trans hn)
      · exact (hl.trans hwx).trans (hp.heads m' x hmm ho hx)

/-- **`chopstx_mutex_unlock`** keeps the running thread the highest, if its priority is lent by
those who wait for its mutexes. -/
theorem chopstxMutexUnlock_givesWay {m : Mid} (h : KernelInv none k) (hr : Runs k t)
    (hs : k.Sorted) (hu : k.chopstxMutexUnlock cfg t m = .ok k') :
    GivesWay t (k.Top ∧ k.locks.Agree ∧ (k.ghost.held t).head? = some m ∧ k.Lent t) k' := by
  obtain ⟨⟨k₁, n⟩, hk₁, hy⟩ := res_bind_eq_ok.1 hu
  have hp := chxMutexUnlock_path (lock_inv h) hr.lock hk₁
  have hs₁ : k₁.Sorted := hp.sorted (lock_inv h) (fun _ => Op.Unlocks.placid) hs
  have hr₁ := (hp.runs (fun _ => Op.Unlocks.quiet) (lock_inv h) hr.lock).1
  refine yieldOrUnlock_givesWay ((lock_inv h).path hp) hr₁ hs₁ (fun hP hb u hsu => ?_) hy
  obtain ⟨ht, hA, hm, hl⟩ := hP
  have hn : n ≤ (k₁.thread t).prio := not_lt.1 (of_decide_eq_false hb)
  obtain ⟨hge, hother⟩ := chxMutexUnlock_prio (lock_inv h) hr.lock hs hA hm hl hk₁ hn
  have hut : u ≠ t := by
    rintro rfl
    rw [hr₁.2] at hsu
    cases hsu
  -- a thread that was ready before is below what the running one had
  have hold : (k.thread u).state = .ready → k₁.outranks u = false := by
    intro hs
    obtain ⟨v, hv, hle⟩ := outranks_eq_false.1 (ht u hs)
    cases hr.1.symm.trans hv
    refine outranks_eq_false.2 ⟨t, hr₁.1, ?_⟩
    rw [hother u hut]
    exact hle.trans hge
  rcases chxMutexUnlock_wakes (lock_inv h) hr.lock hk₁ with ⟨-, hw⟩ | ⟨tp, -, -, hntp, hw⟩
  · exact hold (hw u hsu)
  · rcases hw u hsu with rfl | hs
    · refine outranks_eq_false.2 ⟨t, hr₁.1, ?_⟩
      rw [hother u hut, ← hntp]
      exact hn
    · exact hold hs

/-! ## Handlers -/

/-- A handler that makes threads ready asks for a preemption, or none of them outranks the running
thread. -/
theorem chxRequestPreemption_top {prio : Nat}
    (hk : ∀ u, (k.thread u).state = .ready → k.outranks u = false ∨ (k.thread u).prio ≤ prio) :
    (k.chxRequestPreemption prio).pendsv = true ∨ (k.chxRequestPreemption prio).Top := by
  rw [chxRequestPreemption]
  split
  · exact .inl rfl
  · rename_i r hr
    split
    · exact .inl rfl
    · rename_i hle
      refine .inr fun u hu => ?_
      rcases hk u hu with hout | hle'
      · exact hout
      · exact outranks_eq_false.2 ⟨r, hr, hle'.trans (not_lt.1 hle)⟩

theorem prio_le_expirePrio (prio : Nat) (h : (k.thread t).prio ≤ 256) :
    (k.thread t).prio ≤ k.expirePrio t prio := by
  unfold expirePrio
  split
  · exact h
  · split <;> omega

/-- The threads that the loop of `chx_timer_expired` makes ready have at most the priority that it
computes. -/
theorem expireLoop_ready {l : List Pq} (next : Nat) {prio : Nat} (h : prio ≤ 256)
    (hprio : ∀ t, (k.thread t).prio ≤ 256) :
    (expireLoop k next prio l).1.running = k.running ∧ prio ≤ (expireLoop k next prio l).2.2 ∧
      ∀ u, ((expireLoop k next prio l).1.thread u).prio = (k.thread u).prio ∧
        (((expireLoop k next prio l).1.thread u).state = .ready →
          (k.thread u).state = .ready ∨
            (k.thread u).prio ≤ (expireLoop k next prio l).2.2) := by
  induction l generalizing k next prio with
  | nil => exact ⟨rfl, le_rfl, fun u => ⟨rfl, .inl⟩⟩
  | cons x l ih =>
      cases x with
      | proxy p => exact ⟨rfl, le_rfl, fun u => ⟨rfl, .inl⟩⟩
      | thread t =>
          rw [expireLoop]
          split
          · obtain ⟨hle, hle'⟩ := expirePrio_le h (hprio t)
            have hself := prio_le_expirePrio prio (hprio t)
            obtain ⟨hrun, hp, hth⟩ := ih (k := k.expireOne t) (k.thread t).v hle'
              fun u => expireOne_prio.le.trans (hprio u)
            refine ⟨hrun.trans expireOne_running, hle.trans hp, fun u => ?_⟩
            obtain ⟨hpu, hsu⟩ := hth u
            refine ⟨hpu.trans expireOne_prio, fun hs => ?_⟩
            rcases hsu hs with hs | hs
            · by_cases hut : u = t
              · rw [hut]
                exact .inr (hself.trans hp)
              · rw [expireOne_thread, Function.update_of_ne hut] at hs
                exact .inl hs
            · exact .inr (expireOne_prio.symm.le.trans hs)
          · exact ⟨rfl, le_rfl, fun u => ⟨rfl, .inl⟩⟩

/-- **`chx_timer_expired`** asks for a preemption, or keeps the running thread the highest. -/
theorem chxTimerExpired_top (hprio : ∀ t, (k.thread t).prio ≤ 256) (ht : k.Top) :
    k.chxTimerExpired.pendsv = true ∨ k.chxTimerExpired.Top := by
  have hnone : (k.chxRequestPreemption 0).pendsv = true ∨ (k.chxRequestPreemption 0).Top :=
    chxRequestPreemption_top fun u hu => .inl (ht u hu)
  rw [chxTimerExpired]
  split
  · rename_i t rest hq
    have hle := (expirePrio_le (t := t) (Nat.zero_le 256) (hprio t)).2
    obtain ⟨hrun, hp, hth⟩ := expireLoop_ready (k := k.expireOne t) (l := rest)
      (k.thread t).v hle fun u => expireOne_prio.le.trans (hprio u)
    have hself := prio_le_expirePrio 0 (hprio t)
    set r := expireLoop (k.expireOne t) (k.thread t).v (k.expirePrio t 0) rest with hr
    have hthread : ∀ K : Kernel, K.thread = r.1.thread → K.running = r.1.running →
        (K.chxRequestPreemption r.2.2).pendsv = true ∨ (K.chxRequestPreemption r.2.2).Top := by
      intro K hK hKr
      refine chxRequestPreemption_top fun u hu => ?_
      obtain ⟨hpu, hsu⟩ := hth u
      rw [hK] at hu ⊢
      rw [hpu, expireOne_prio]
      rcases hsu hu with hs | hs
      · by_cases hut : u = t
        · rw [hut]
          exact .inr (hself.trans hp)
        · rw [expireOne_thread, Function.update_of_ne hut] at hs
          obtain ⟨v, hv, hle⟩ := outranks_eq_false.1 (ht u hs)
          refine .inl (outranks_eq_false.2 ⟨v, ?_, ?_⟩)
          · rw [hKr, hrun, expireOne_running, hv]
          · rw [hK, hpu, (hth v).1, expireOne_prio, expireOne_prio]
            exact hle
      · exact .inr (expireOne_prio.symm.le.trans hs)
    simp only
    split
    · exact hthread _ rfl rfl
    · exact hthread _ rfl rfl
  · exact hnone

/-- If `chx_wakeup` of a proxy says to yield, its master outranks the running thread. -/
theorem chxWakeup_master (cfg : Config) {p : PxId} (h : KernelInv none k)
    (hp : .proxy p ∈ k.queue q)
    (hw : (k.llDequeue (.proxy p)).chxWakeup (.proxy p) = .ok (k', true)) :
    k'.outranks (k'.px p).master = true := by
  have hm : Move cfg (.fire p) (none, k) (none, (k.llDequeue (.proxy p)).fireProxy p) := .fire hp
  rw [chxWakeup] at hw
  split at hw
  · rename_i hs
    obtain ⟨k₁, hk₁, hk⟩ := res_bind_eq_ok.1 hw
    obtain ⟨left, hpath⟩ := wakeSleeper_path cfg (h.move hm) (.inr hs) hk₁
    have key := hpath.keeps (I := fun a => KernelInv a.1 a.2 ∧ a.2.px = k.px) ?_ ⟨h.move hm, rfl⟩
    · obtain ⟨rfl, hout⟩ := Prod.mk.inj (Except.ok.inj hk)
      rw [key.2]
      exact hout
    · rintro op ⟨off, k₂⟩ ⟨off', k₃⟩ rfl hm₂ ⟨hk₂, hpx⟩
      exact ⟨hk₂.move hm₂, (congrArg Objects.px (hm₂.objects hk₂ trivial)).trans hpx⟩
  · cases hw

/-- **`chx_handle_intr`** asks for a preemption, or keeps the running thread the highest. -/
theorem chxHandleIntr_top (cfg : Config) {n : Irq} (h : KernelInv none k) (ht : k.Top)
    (hi : k.chxHandleIntr n = .ok k') : k'.pendsv = true ∨ k'.Top := by
  have hm : Move cfg (.irq n false) (none, k) (none, k.disableIntr n) := .disable
  rw [chxHandleIntr] at hi
  split at hi
  · rename_i p hf
    obtain ⟨⟨k₁, b⟩, hk₁, hi⟩ := res_bind_eq_ok.1 hi
    cases hi
    have hr : RunsOn (k.disableIntr n) k₁ b :=
      chxWakeup_runsOn cfg (h.move hm) (List.mem_of_find?_eq_some hf) (.inr (.inr ⟨p, rfl⟩)) hk₁
    cases b with
    | false => exact chxRequestPreemption_top fun u hu => .inl (hr.top rfl ht u hu)
    | true =>
        have hout := chxWakeup_master cfg (h.move hm) (List.mem_of_find?_eq_some hf) hk₁
        refine .inl ?_
        rw [chxRequestPreemption]
        split
        · rfl
        · rename_i r hrun
          unfold outranks at hout
          rw [hrun] at hout
          rw [if_pos (of_decide_eq_true hout)]
  · cases hi
    exact .inr ht

/-! ## Steps of a thread -/

/-- The frames of `chopstx_exit` in which mutexes are released. -/
def Frame.exiting : Frame → Bool
  | .exitMutex _ _ | .exitUnlock _ _ _ | .exit _ => true
  | _ => false

/-- The frames whose code wakes no thread, and does not sleep. -/
def Frame.Calm : Frame → Prop
  | .create _ | .usecSnooze _ | .mutexLock _ _ | .mutexUnlock _ | .condWait _ _ | .condSignal _
  | .condBroadcast _ | .setpriority _ | .cancel _ | .join _ _ | .poll _ .main | .poll _ .snooze
  | .exitUnlock _ _ _ | .exit _ => False
  | _ => True

theorem Op.Polls.calm {p : PxId} {d : PdId} (h : op.Polls cfg p d) : op.Calm := by
  cases h <;> trivial

theorem Frame.May.calm {f : Frame} (h : f.May cfg t op) (hf : f.Calm) : op.Calm := by
  cases f with
  | claimIrq d => rcases h with rfl | rfl | ⟨n, -, rfl⟩ <;> trivial
  | intrDone d =>
      cases h
      trivial
  | cleanupPush | cleanupPop | setcancelstate | exitStart =>
      obtain ⟨c, l, rfl⟩ := h
      trivial
  | joinRet => rcases h with rfl | rfl <;> trivial
  | pollCall =>
      cases h
      trivial
  | poll P pt =>
      cases pt with
      | init | hook | condStore =>
          cases h
          trivial
      | condReady | condClear =>
          obtain ⟨d, b, -, rfl⟩ := h
          trivial
      | condEnqueue | intrHook | joinHook | cleanup =>
          obtain ⟨d, -, h⟩ := h
          exact h.calm
      | main | snooze => exact hf.elim
      | _ => exact h.elim
  | _ => first | exact hf.elim | exact h.elim

/-- What is required of the release of a mutex. -/
def Releases (k : Kernel) (t : Tid) (f : Frame) : Prop :=
  ∀ m, f = .mutexUnlock m → k.locks.Agree ∧ (k.ghost.held t).head? = some m ∧ k.Lent t

/-- **A step of a thread** switches to another thread only as the highest, and leaves the running
thread the highest if it was so before, and does not release its mutexes in `chopstx_exit`. -/
theorem Next.givesWay {rest : List Frame} {ret : Int} {f : Frame} {ctx : Ctx}
    (hn : Next cfg k t rest ret f k' ctx) (h : KernelInv none k) (hr : Runs k t)
    (hs : k.Sorted) (hfit : f.Fits k) (hp : Path cfg (f.May cfg t) (none, k) (none, k')) :
    GivesWay t (f.exiting = false ∧ k.Top ∧ Releases k t f) k' := by
  have hcalm : f.Calm → GivesWay t (f.exiting = false ∧ k.Top ∧ Releases k t f) k' := fun hf =>
    .of_runs (hp.runs (fun op hop => (hop.calm hf).quiet) h hr).1 fun hP =>
      (hp.calm (b := false) h fun op hop => hop.calm hf).top rfl hP.2.1
  have hnone : ∀ o, Op.None o → o.Placid := fun _ ho => ho.elim
  have haux : ∀ {Q : Op → Prop}, (∀ o, Q o → o.Placid) → ∀ o, o = .aux ∨ Q o → o.Placid := by
    rintro Q hQ o (rfl | ho)
    · trivial
    · exact hQ o ho
  have hsnooze : ∀ {st : ThreadState} {usec : Nat} {o : Option Nat},
      st = .waitTime ∨ st = .waitPoll → k.chxCpuSchedLock.chxSnooze cfg t st usec = .ok (k', o) →
      GivesWay t (f.exiting = false ∧ k.Top ∧ Releases k t f) k' := by
    intro st usec o hst hz
    rcases chxSnooze_cases (lock_inv h) hr.lock hst hz with ⟨-, rfl⟩ | ⟨usec0, -, hz⟩
    · exact .of_runs hr fun hP => hP.2.1
    · exact .of_top (hz.highest (lock_inv h) hs trivial hnone hnone)
  cases hn with
  | create hc => exact (chopstxCreate_givesWay h hr hs hc).imp fun hP => hP.2.1
  | usecEnd hz | usecSleep hz => exact hsnooze (.inl rfl) hz
  | acquired hl | blocked hl =>
      rcases chopstxMutexLock_cases h hr hl with ⟨-, ho, rfl⟩ | ⟨-, -, hz⟩
      · have hm : Move cfg (.acquire t _) (none, k.chxCpuSchedLock) (none, _) :=
          .acquire hr.1 hr.2 ho
        exact .of_runs (hm.runs trivial (lock_inv h) hr.lock).1 fun hP =>
          (hm.calm (b := false) (lock_inv h) trivial).top rfl hP.2.1
      · exact .of_top (hz.highest h hs trivial (haux fun _ => Op.Inherits.placid) hnone)
  | mutexUnlock hl =>
      refine (chopstxMutexUnlock_givesWay h hr hs hl).imp fun hP => ⟨hP.2.1, hP.2.2 _ rfl⟩
  | condWait hw =>
      refine .of_top ((chopstxCondWait_sleeps h hr hw).highest h hs trivial
        (haux fun o ho => ?_) hnone)
      obtain ⟨m, -, ho⟩ := ho
      exact ho.placid
  | condSignal hc => exact (chopstxCondSignal_givesWay h hr hs hc).imp fun hP => hP.2.1
  | condBroadcast hc => exact (chopstxCondBroadcast_givesWay h hr hs hc).imp fun hP => hP.2.1
  | setpriority hc => exact (chopstxSetpriority_givesWay h hr hs hfit hc).imp fun hP => hP.2.1
  | cancel hc => exact (chopstxCancel_givesWay h hr hs hc).imp fun hP => hP.2.1
  | joinFatal => exact .of_runs hr fun hP => hP.2.1
  | joinSleep hf hj | joinDone hf hj =>
      rcases chopstxJoin_cases h hr hj with ⟨-, -, rfl⟩ | ⟨-, -, hz⟩
      · exact .of_runs hr fun hP => hP.2.1
      · refine .of_top (hz.highest h hs trivial (by rintro o rfl; trivial) fun o ho => ?_)
        rcases ho with rfl | ho
        · trivial
        · exact ho.placid
  | poll hn =>
      cases hn with
      | mainReady | mainLoop | snoozeReady => exact .of_runs hr fun hP => hP.2.1
      | mainSleep hc hu hz =>
          exact .of_top ((pollSleep_sleeps (lock_inv h) hr.lock hz).highest (lock_inv h) hs
            trivial hnone hnone)
      | snoozeEnd hc hz | snoozeSleep hc hz => exact hsnooze (.inr rfl) hz
      | _ => exact hcalm trivial
  | exitUnlock hx =>
      obtain ⟨⟨k₁, n⟩, hk₁, hx⟩ := res_bind_eq_ok.1 hx
      cases hx
      have hp₁ := chxMutexUnlock_path (lock_inv h) hr.lock hk₁
      exact .of_runs (hp₁.runs (fun _ => Op.Unlocks.quiet) (lock_inv h) hr.lock).1
        fun hP => by cases hP.1
  | exit hx =>
      exact .of_top ((chxExit_sleeps h hr hx).highest h hs trivial
        (haux fun _ => Op.Wakes.placid) hnone)
  | _ => exact hcalm trivial

/-- A thread that releases its mutexes in `chopstx_exit` goes on with that until it ends. -/
theorem Next.exiting {rest : List Frame} {ret : Int} {f : Frame} {ctx : Ctx}
    (hn : Next cfg k t rest ret f k' ctx) (h : KernelInv none k) (hr : Runs k t)
    (hs : k.Sorted) (hx : f.exiting = true) :
    k'.Top ∨ Runs k' t ∧ ∃ g rest', ctx.frames = g :: rest' ∧ g.exiting = true := by
  cases hn with
  | exitMutex | exitEnd => exact .inr ⟨hr, _, _, rfl, rfl⟩
  | exitUnlock hu =>
      obtain ⟨⟨k₁, n⟩, hk₁, hu⟩ := res_bind_eq_ok.1 hu
      cases hu
      have hp₁ := chxMutexUnlock_path (lock_inv h) hr.lock hk₁
      exact .inr ⟨(hp₁.runs (fun _ => Op.Unlocks.quiet) (lock_inv h) hr.lock).1, _, _, rfl, rfl⟩
  | exit he =>
      refine .inl ((chxExit_sleeps h hr he).highest h hs trivial (fun o ho => ?_)
        fun _ ho => ho.elim)
      rcases ho with rfl | ho
      · trivial
      · exact ho.placid
  | _ => cases hx

end Chopstx
