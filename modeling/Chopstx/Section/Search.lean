import Chopstx.Section.Api
import Chopstx.Section.Frame

/-!
# The search of `chx_timer_dequeue`

`chx_timer_dequeue` looks for a thread in `q_timer`, and never stops if the thread is
not there.  The callers look at the flag of the thread, its state or its field `parent`
first.  `Kernel.Honest` says that `parent` is right where they do, and then every search
ends.  All moves keep it but one: a round-robin thread that goes to sleep in
`chopstx_poll` without a timeout.

* `SearchEnds` - a point at which no search goes on for ever.
* `Place.Honest.move` - the moves keep `Honest`, with that exception.
* `chopstxMutexUnlock_ends`, `chopstxCondWait_ends`, `chxHandleIntr_ends`, `preempt_ends` and their
  siblings - the searches of each section end where `Honest` holds.
-/

namespace Chopstx

open Kernel

/-- `parent` names `q_timer` only if the thread is in it: for a thread that polls, and
for one that is about to go to sleep and is not round-robin. -/
def Place.Honest (p : Place) : Prop :=
  p.parent = some .timer → p.state = .waitPoll ∨ p.state = .running ∧ p.schedRr = false →
    p.IsIn .timer

/-- `parent` is right where it is read. -/
def Kernel.Honest (k : Kernel) : Prop := ∀ t, (k.place t).Honest

variable {cfg : Config} {k k' k₁ : Kernel} {t tp u : Tid} {off off' : Option Tid} {op : Op}
  {P : Op → Prop}

theorem Place.Honest.of_state {p : Place} (hp : p.state ≠ .waitPoll) (hr : p.state ≠ .running) :
    p.Honest := by
  rintro - (hs | ⟨hs, -⟩)
  · exact absurd hs hp
  · exact absurd hs hr

/-! ## The moves -/

/-- No thread changes its scheduling class. -/
theorem Move.schedRr (hm : Move cfg op (off, k) (off', k')) (h : KernelInv off k)
    (hu : u < k.nthread) : (k'.thread u).flagSchedRr = (k.thread u).flagSchedRr := by
  by_cases hsw : op = .switch
  · subst hsw
    cases hm with
    | switch hs =>
        rcases switchThread_switched cfg h with ⟨-, heq⟩ | ⟨t, hsw⟩
        · rw [heq]
        · by_cases hut : u = t
          · rw [hut, hsw.self]
          · rw [hsw.others u hut]
  by_cases hex : op = .expire
  · subst hex
    cases hm with
    | expire hp hr =>
        have he := chxTimerExpired_expired h
        by_cases hmem : .thread u ∈ k.expired
        · rw [he.self u hmem]
        · rw [he.others u hmem]
  by_cases ht : op.target = some u
  · cases hm with
    | flags | prio | pollSleep | die | finish =>
        cases ht
        simp
    | raise =>
        cases ht
        simp [llPrioEnqueue_thread, setPrio_thread]
    | wakeTimed hs hd hw =>
        cases ht
        obtain ⟨front, back, hq, rfl, -⟩ := chxTimerDequeue_ok h.timer hd
        rw [resume_thread, Function.update_self, KernelInv.dequeued_thread]
    | wakeQueued | wakeLoose =>
        cases ht
        simp [resume_thread]
    | slice hr hs he =>
        cases ht
        rcases endSlice_ok h.timer he with rfl | ⟨front, back, -, hq, rfl⟩
        · rfl
        · rw [KernelInv.dequeued_thread]
    | block =>
        cases ht
        simp [llPrioEnqueue_thread]
    | sleep =>
        cases ht
        rw [chxTimerInsert_thread h.timer_modThread]
        simp
    | yield =>
        cases ht
        simp [chxReadyEnqueue_thread]
    | push =>
        cases ht
        simp [chxReadyPush_thread]
    | acquire =>
        cases ht
        simp [acquire_thread]
    | drop =>
        cases ht
        simp [dropMutex_thread]
    | norun => rfl
    | create =>
        cases ht
        exact absurd hu (lt_irrefl _)
    | _ => cases ht
  · rw [(hm.untouched h ht hsw hex).thread]

theorem Path.schedRr (hp : Path cfg P (off, k) (off', k')) (h : KernelInv off k)
    (hu : u < k.nthread) : (k'.thread u).flagSchedRr = (k.thread u).flagSchedRr := by
  have key := hp.keeps (I := fun a => KernelInv a.1 a.2 ∧ k.nthread ≤ a.2.nthread ∧
    (a.2.thread u).flagSchedRr = (k.thread u).flagSchedRr) ?_ ⟨h, le_rfl, rfl⟩
  · exact key.2.2
  · rintro op ⟨off, k₁⟩ ⟨off', k₂⟩ - hm ⟨hk, hn, hrr⟩
    exact ⟨hk.move hm, hn.trans (hm.nthread_le hk), (hm.schedRr hk (hu.trans_le hn)).trans hrr⟩

/-- **The moves keep `parent` right**, but for the sleep of a round-robin thread in
`chopstx_poll` without a timeout. -/
theorem Place.Honest.move (h : (k.place u).Honest) (hm : Move cfg op (off, k) (off', k'))
    (hk : KernelInv off k) (hop : op = .pollSleep u → (k.thread u).flagSchedRr = false) :
    (k'.place u).Honest := by
  have hk' : KernelInv off' k' := hk.move hm
  by_cases hsw : op = .switch
  · subst hsw
    cases hm with
    | switch hs =>
        rcases switchThread_switched cfg hk with ⟨-, heq⟩ | ⟨t, hsw⟩
        · rw [heq]
          exact h
        · by_cases hut : u = t
          · subst hut
            rintro hpar (hst | ⟨hst, hrr⟩)
            · rw [place_state, hsw.self] at hst
              cases hst
            · -- it comes from `q_ready`
              have hrr' : (k.thread u).flagSchedRr = false := by
                rw [place_schedRr, hsw.self] at hrr
                exact hrr
              have hready := ((hk.place' u).ready hsw.ready).1
              rw [place_parent, hsw.parent hrr'] at hpar
              cases hready.symm.trans hpar
          · rw [hsw.place u hut]
            exact h
  by_cases hex : op = .expire
  · subst hex
    cases hm with
    | expire hp hr =>
        have he := chxTimerExpired_expired hk
        by_cases hmem : .thread u ∈ k.expired
        · refine .of_state ?_ ?_ <;> simp [he.self u hmem]
        · rintro hpar hst
          rw [place_parent, he.others u hmem] at hpar
          rw [place_state, place_schedRr, he.others u hmem] at hst
          have hq := mem_of_isIn (h hpar hst)
          rw [← expired_append_remaining, List.mem_append] at hq
          refine hk'.isIn_of_mem ?_
          rw [he.timer]
          exact hq.resolve_left hmem
  by_cases ht : op.target = some u
  · cases hm with
    | flags | prio | acquire | drop =>
        cases ht
        have hplace : ∀ K : Kernel, K.place = k.place → (K.place u).Honest := fun K hK => hK ▸ h
        refine hplace _ ?_
        first
          | exact place_acquire
          | exact place_dropMutex
          | exact place_modThread_of (by simp) (by simp) (by simp)
    | raise hp hlt hq hst =>
        cases ht
        refine .of_state ?_ ?_ <;> rcases hst with hst | hst | hst <;>
          simp [llPrioEnqueue_thread, setPrio_thread, hst]
    | wakeTimed | wakeQueued | wakeLoose =>
        cases ht
        refine .of_state ?_ ?_ <;> simp
    | slice hr hs he =>
        cases ht
        rcases endSlice_ok hk.timer he with rfl | ⟨front, back, hrr, hq, rfl⟩
        · exact h
        · rintro - (hst | ⟨-, hrr'⟩)
          · rw [place_state, KernelInv.dequeued_thread] at hst
            rw [hs] at hst
            cases hst
          · rw [place_schedRr, KernelInv.dequeued_thread] at hrr'
            rw [hrr] at hrr'
            cases hrr'
    | block hs hq =>
        cases ht
        refine .of_state ?_ ?_ <;> cases hq <;> simp
    | sleep hs hst hpos hle =>
        cases ht
        rintro - -
        refine hk'.isIn_of_mem ((chxTimerInsert_perm hk.timer_modThread).mem_iff.2 ?_)
        exact List.mem_cons_self ..
    | pollSleep hs =>
        cases ht
        rintro hpar -
        rw [place_parent, modThread_thread, Function.update_self] at hpar
        have hin := h hpar (.inr ⟨hs, hop rfl⟩)
        exact absurd (mem_of_isIn hin) hk.notMem_of_out
    | die hs hst =>
        cases ht
        refine .of_state ?_ ?_ <;> rcases hst with rfl | rfl <;> simp
    | finish =>
        cases ht
        refine .of_state ?_ ?_ <;> simp
    | norun hr hs =>
        cases ht
        refine .of_state ?_ ?_ <;> simp [hs]
    | yield | push | create =>
        cases ht
        refine .of_state ?_ ?_ <;> simp [chxReadyEnqueue_thread, chxReadyPush_thread]
    | _ => cases ht
  · rw [(hm.untouched hk ht hsw hex).place]
    exact h

theorem Kernel.Honest.move (h : k.Honest) (hm : Move cfg op (off, k) (off', k'))
    (hk : KernelInv off k)
    (hop : ∀ t, op = .pollSleep t → (k.thread t).flagSchedRr = false) : k'.Honest :=
  fun u => (h u).move hm hk (hop u)

theorem Kernel.Honest.path (h : k.Honest) (hp : Path cfg P (off, k) (off', k'))
    (hk : KernelInv off k)
    (hP : ∀ t, P (.pollSleep t) → t < k.nthread ∧ (k.thread t).flagSchedRr = false) :
    k'.Honest := by
  have key := hp.keeps (I := fun a => KernelInv a.1 a.2 ∧ a.2.Honest ∧ k.nthread ≤ a.2.nthread ∧
    ∀ t, t < k.nthread → (a.2.thread t).flagSchedRr = (k.thread t).flagSchedRr) ?_
    ⟨hk, h, le_rfl, fun _ _ => rfl⟩
  · exact key.2.1
  · rintro op ⟨off, k₁⟩ ⟨off', k₂⟩ hop hm ⟨hk₁, h₁, hn, hrr⟩
    refine ⟨hk₁.move hm, h₁.move hm hk₁ ?_, hn.trans (hm.nthread_le hk₁), fun t ht => ?_⟩
    · rintro t rfl
      exact (hrr t (hP t hop).1).trans (hP t hop).2
    · exact (hm.schedRr hk₁ (ht.trans_le hn)).trans (hrr t ht)

/-! ## The searches -/

namespace Kernel

/-- No search for a thread in `q_timer` goes on for ever. -/
def SearchEnds {α : Type} (x : Res α) : Prop := x ≠ .error .endlessSearch

namespace SearchEnds

variable {α β : Type}

theorem ok (a : α) : SearchEnds (.ok a : Res α) := nofun

theorem disabled : SearchEnds (.error .disabled : Res α) := nofun

theorem endlessLoop : SearchEnds (.error .endlessLoop : Res α) := nofun

theorem bind {x : Res α} {f : α → Res β} (hx : SearchEnds x)
    (hf : ∀ a, x = .ok a → SearchEnds (f a)) : SearchEnds (x >>= f) := by
  cases x with
  | ok a => exact hf a rfl
  | error e =>
      intro he
      cases he
      exact hx rfl

theorem ite {c : Prop} [Decidable c] {x y : Res α} (hx : c → SearchEnds x)
    (hy : ¬ c → SearchEnds y) : SearchEnds (if c then x else y) := by
  split
  · exact hx ‹_›
  · exact hy ‹_›

end SearchEnds

variable {m : Mid} {c : Cid}

theorem chxTimerDequeue_ends (h : KernelInv off k) (hm : .thread t ∈ k.queue .timer) :
    SearchEnds (k.chxTimerDequeue t) := by
  obtain ⟨front, back, hq⟩ := List.append_of_mem hm
  rw [chxTimerDequeue_of_append h.timer hq]
  exact .ok _

/-- A round-robin thread that runs is in `q_timer`. -/
theorem endSlice_ends (h : KernelInv none k) (hr : Runs k t) : SearchEnds (k.endSlice t) := by
  refine .ite (fun hrr => ?_) fun _ => .ok _
  have hin := (h.place' t).running hr.2
  rw [place_schedRr, if_pos hrr] at hin
  exact (chxTimerDequeue_ends h (mem_of_isIn hin)).bind fun _ _ => .ok _

theorem yieldOrUnlock_ends {b : Bool} (h : KernelInv none k) (hr : Runs k t) :
    SearchEnds (k.yieldOrUnlock cfg t b) :=
  .ite (fun _ => (endSlice_ends h hr).bind fun _ _ => .ok _) fun _ => .ok _

/-- A sleeper whose `parent` is `q_timer` is there. -/
theorem mem_timer_of_parent (h : KernelInv none k) (hh : k.Honest)
    (hs : (k.thread t).state = .waitTime ∨ (k.thread t).state = .waitPoll)
    (hp : (k.thread t).parent = some .timer) : .thread t ∈ k.queue .timer := by
  rcases hs with hs | hs
  · exact mem_of_isIn ((h.place' t).waitTime hs)
  · exact mem_of_isIn (hh t hp (.inl hs))

theorem wakeSleeper_ends (h : KernelInv none k) (hh : k.Honest)
    (hs : (k.thread t).state = .waitTime ∨ (k.thread t).state = .waitPoll) :
    SearchEnds (k.wakeSleeper t) :=
  .ite (fun hp => (chxTimerDequeue_ends h (mem_timer_of_parent h hh hs hp)).bind fun _ _ => .ok _)
    fun _ => .ok _

theorem chxWakeup_ends (cfg : Config) {x : Pq} {q : Qh} (h : KernelInv none k) (hh : k.Honest)
    (hx : x ∈ k.queue q) : SearchEnds ((k.llDequeue x).chxWakeup x) := by
  cases x with
  | thread t => exact .ok _
  | proxy p =>
      have hm : Move cfg (.fire p) (none, k) (none, (k.llDequeue (.proxy p)).fireProxy p) :=
        .fire hx
      have hh' := hh.move hm h (by simp)
      exact .ite (fun hs => (wakeSleeper_ends (h.move hm) hh' (.inr hs)).bind fun _ _ => .ok _)
        fun _ => .ok _

/-- The moves of a wake-up put nobody to sleep. -/
theorem Honest.wakes (hh : k.Honest) (h : KernelInv none k)
    (hp : Path cfg Op.Wakes (none, k) (none, k')) : k'.Honest :=
  hh.path hp h fun _ h => by cases h

theorem wakeAll_ends (cfg : Config) {fuel : Nat} (h : KernelInv none k) (hh : k.Honest) :
    SearchEnds (wakeAll c fuel k) := by
  induction fuel generalizing k with
  | zero => exact .ite (fun _ => .ok _) fun _ => .endlessLoop
  | succ fuel ih =>
      rw [wakeAll]
      cases hq : k.queue (.cnd c) with
      | nil =>
          simp only [llPop, hq]
          exact .ok _
      | cons x rest =>
          simp only [llPop, hq]
          have hx : x ∈ k.queue (.cnd c) := by
            rw [hq]
            exact List.mem_cons_self ..
          refine (chxWakeup_ends cfg h hh hx).bind fun r hr => ?_
          have hp : Path cfg Op.Wakes (none, k) (none, r.1) :=
            chxWakeup_path h hx (.inr (.inl ⟨c, rfl⟩)) hr
          exact (ih (h.path hp) (hh.wakes h hp)).bind fun _ _ => .ok _

theorem wakeFirst_ends (cfg : Config) (h : KernelInv none k) (hh : k.Honest) :
    SearchEnds (k.wakeFirst c) := by
  cases hq : k.queue (.cnd c) with
  | nil =>
      simp only [wakeFirst, llPop, hq]
      exact .ok _
  | cons x rest =>
      simp only [wakeFirst, llPop, hq]
      refine chxWakeup_ends cfg h hh (q := .cnd c) ?_
      rw [hq]
      exact List.mem_cons_self ..

theorem wakeJoiner_ends (cfg : Config) (h : KernelInv none k) (hh : k.Honest) :
    SearchEnds (k.wakeJoiner t) := by
  refine .ite (fun _ => ?_) fun _ => .ok _
  split
  · rename_i p hp
    exact (chxWakeup_ends cfg h hh (List.mem_of_find?_eq_some hp)).bind fun _ _ => .ok _
  · exact .ok _

theorem heldPrio_ends {fuel n : Nat} {o : Option Mid} : SearchEnds (k.heldPrio fuel o n) := by
  induction fuel generalizing o n with
  | zero =>
      cases o with
      | none => exact .ok _
      | some m => exact .endlessLoop
  | succ fuel ih =>
      cases o with
      | none => exact .ok _
      | some m => exact ih

theorem chxMutexUnlock_ends : SearchEnds (k.chxMutexUnlock cfg t m) := by
  rw [chxMutexUnlock]
  simp only
  split
  · exact heldPrio_ends.bind fun _ _ => .ok _
  · exact .ok _

theorem inherit_ends (cfg : Config) {wakes : Bool} {p fuel : Nat} {o : Option Tid}
    (h : KernelInv none k) (hh : k.Honest) (hp : p < 256) :
    SearchEnds (k.inherit wakes p fuel o) := by
  induction fuel generalizing k o with
  | zero =>
      cases o with
      | none => exact .ok _
      | some tp => exact .ite (fun _ => .endlessLoop) fun _ => .ok _
  | succ fuel ih =>
      cases o with
      | none => exact .ok _
      | some tp =>
          refine .ite (fun hlt => .ite (fun hs => ?_) fun _ => ?_) fun _ => .ok _
          · have hst : ((k.setPrio tp p).thread tp).state = (k.thread tp).state := by
              rw [setPrio_thread, Function.update_self]
            have hs' := hs.2
            rw [hst] at hs'
            have hm : Move cfg (.prio tp) (none, k) (none, k.setPrio tp p) := by
              refine .prio hp (h.prioOrig tp) ?_ ?_ ?_ <;>
              rcases hs' with hs' | hs' <;> simp [hs']
            exact wakeSleeper_ends (h.move hm) (hh.move hm h (by simp)) hs.2
          · obtain ⟨op, hop, hm⟩ := requeue_move cfg h hlt hp
            refine ih (h.move hm) (hh.move hm h ?_)
            rintro t rfl
            cases hop

/-! ## The sections -/

theorem Honest.lock (hh : k.Honest) : k.chxCpuSchedLock.Honest := hh

theorem chopstxCreate_ends {fp : Nat} (h : KernelInv none k) (hr : Runs k t) :
    SearchEnds (k.chopstxCreate cfg t fp) := by
  set k₁ : Kernel := { k with
    nthread := k.nthread + 1
    thread := Function.update k.thread k.nthread (newThread fp) } with hk₁
  have hm : Move cfg (.create k.nthread) (none, k) (none, k₁.chxReadyEnqueue k.nthread) :=
    .create fp
  have hm' : Move cfg .aux (none, k₁.chxReadyEnqueue k.nthread)
      (none, k₁.chxCpuSchedLock.chxReadyEnqueue k.nthread) :=
    .aux k₁.chxCpuSchedLock.masked k.counter k.ncall k.mem le_rfl fun _ _ => rfl
  exact yieldOrUnlock_ends ((h.move hm).move hm') (hm.runs trivial h hr).1

theorem chxExit_ends {rv : Nat} (h : KernelInv none k) (hh : k.Honest) (hr : Runs k t) :
    SearchEnds (k.chxExit cfg t rv) := by
  refine (wakeJoiner_ends cfg (lock_inv h) hh.lock).bind fun k₁ hk₁ => ?_
  have hp : Path cfg Op.Wakes (none, k.chxCpuSchedLock) (none, k₁) :=
    wakeJoiner_path (lock_inv h) hk₁
  have hr₁ := (hp.runs (fun _ => Op.Wakes.quiet) (lock_inv h) hr.lock).1
  exact (endSlice_ends ((lock_inv h).path hp) hr₁).bind fun _ _ => .ok _

theorem chopstxJoin_ends (h : KernelInv none k) (hh : k.Honest) (hr : Runs k t) :
    SearchEnds (k.chopstxJoin cfg t tp) := by
  refine .ite (fun _ => .ok _) fun _ => ?_
  refine (endSlice_ends (lock_inv h) hr.lock).bind fun k₁ he => ?_
  obtain ⟨hm, hk₁, hr₁⟩ := slice_move cfg (lock_inv h) hr.lock he
  have hm₂ : Move cfg (.block t .join (some tp)) (some t, k₁) _ := .block hr₁.2 .join
  have hk₂ := hk₁.move hm₂
  have hm₃ : Move cfg (.flags tp .join) (none, _) (none, _) :=
    .flags (k := (k₁.llPrioEnqueue (.thread t) .join).modThread t fun th =>
      { th with v := tp, state := .waitExit }) .join
  have hk₃ := hk₂.move hm₃
  have hh₂ := (hh.lock.move hm (lock_inv h) (by simp)).move hm₂ hk₁ (by simp)
  have hh₃ := hh₂.move hm₃ hk₂ (by simp)
  exact (inherit_ends cfg hk₃ hh₃ (hk₃.prio t)).bind fun _ _ => .ok _

theorem cancelDequeue_ends (h : KernelInv none k) (hh : k.Honest) :
    SearchEnds (k.cancelDequeue tp) := by
  rw [cancelDequeue]
  split
  · exact .ok _
  · exact .ok _
  · rename_i hs
    exact (chxTimerDequeue_ends h (mem_of_isIn ((h.place' tp).waitTime hs))).bind fun _ _ => .ok _
  · rename_i hs
    refine .ite (fun hp => ?_) fun _ => .ok _
    exact (chxTimerDequeue_ends h (mem_timer_of_parent h hh (.inr hs) hp)).bind fun _ _ => .ok _
  · exact .ok _

theorem chopstxCancel_ends (h : KernelInv none k) (hh : k.Honest) (hr : Runs k t) :
    SearchEnds (k.chopstxCancel cfg t tp) := by
  have hm : Move cfg (.flags tp .cancel) (none, k.chxCpuSchedLock)
      (none, k.chxCpuSchedLock.modThread tp fun th => { th with flagGotCancel := true }) :=
    .flags .cancel
  have h₀ := (lock_inv h).move hm
  have hr₀ := (hm.runs trivial (lock_inv h) hr.lock).1
  refine .ite (fun _ => ?_) fun _ => .ok _
  refine (cancelDequeue_ends h₀ (hh.lock.move hm (lock_inv h) (by simp))).bind fun o hd => ?_
  cases o with
  | none => exact .ok _
  | some k₁ =>
      have hm₁ := cancelDequeue_move cfg h₀ hd
      exact yieldOrUnlock_ends (h₀.move hm₁) (hm₁.runs trivial h₀ hr₀).1

theorem chopstxSetpriority_ends {prio : Nat} (h : KernelInv none k) (hr : Runs k t)
    (hp : prio < 256) : SearchEnds (k.chopstxSetpriority cfg t prio) := by
  have hlt : (if (k.thread t).prio = (k.thread t).prioOrig then prio
      else if (k.thread t).prio < prio then prio else (k.thread t).prio) < 256 := by
    have := h.prio t
    split
    · exact hp
    · split <;> assumption
  have hm : Move cfg (.prio t) (none, k.chxCpuSchedLock) _ :=
    .prio hlt hp (by simp [hr.2]) (by simp [hr.2]) (by simp [hr.2])
  exact yieldOrUnlock_ends ((lock_inv h).move hm) (hm.runs trivial (lock_inv h) hr.lock).1

theorem chxSnooze_ends {st : ThreadState} {usec : Nat} (h : KernelInv none k) (hr : Runs k t) :
    SearchEnds (k.chxSnooze cfg t st usec) :=
  .ite (fun _ => .ok _) fun _ => (endSlice_ends h hr).bind fun _ _ => .ok _

theorem chopstxMutexLock_ends (h : KernelInv none k) (hh : k.Honest) (hr : Runs k t) :
    SearchEnds (k.chopstxMutexLock cfg t m) := by
  rw [chopstxMutexLock]
  simp only
  split
  · exact .ok _
  · refine (inherit_ends cfg (lock_inv h) hh.lock (h.prio t)).bind fun k₁ hi => ?_
    have hp : Path cfg Op.Inherits (none, k.chxCpuSchedLock) (none, k₁) :=
      inherit_path (lock_inv h) (h.prio t) hi
    have hr₁ := (hp.runs (fun _ => Op.Inherits.quiet) (lock_inv h) hr.lock).1
    exact (endSlice_ends ((lock_inv h).path hp) hr₁).bind fun _ _ => .ok _

theorem chopstxMutexUnlock_ends (h : KernelInv none k) (hr : Runs k t) :
    SearchEnds (k.chopstxMutexUnlock cfg t m) := by
  refine chxMutexUnlock_ends.bind fun r hu => ?_
  have hp := chxMutexUnlock_path (lock_inv h) hr.lock hu
  exact yieldOrUnlock_ends ((lock_inv h).path hp)
    (hp.runs (fun _ => Op.Unlocks.quiet) (lock_inv h) hr.lock).1

theorem exitMutexUnlock_ends : SearchEnds (k.exitMutexUnlock cfg t m) :=
  chxMutexUnlock_ends.bind fun _ _ => .ok _

theorem chopstxCondWait_ends {o : Option Mid} (h : KernelInv none k) (hr : Runs k t) :
    SearchEnds (k.chopstxCondWait cfg t c o) := by
  have hu : SearchEnds (k.chxCpuSchedLock.condUnlock cfg t o) := by
    cases o with
    | none => exact .ok _
    | some m => exact chxMutexUnlock_ends.bind fun _ _ => .ok _
  refine hu.bind fun k₁ hk₁ => ?_
  suffices hk : KernelInv none k₁ ∧ Runs k₁ t from
    (endSlice_ends hk.1 hk.2).bind fun _ _ => .ok _
  cases o with
  | none =>
      cases hk₁
      exact ⟨lock_inv h, hr.lock⟩
  | some m =>
      obtain ⟨⟨k₁, n⟩, hu₁, hk⟩ := res_bind_eq_ok.1 hk₁
      cases hk
      have hp := chxMutexUnlock_path (lock_inv h) hr.lock hu₁
      exact ⟨(lock_inv h).path hp,
        (hp.runs (fun _ => Op.Unlocks.quiet) (lock_inv h) hr.lock).1⟩

theorem chopstxCondSignal_ends (h : KernelInv none k) (hh : k.Honest) (hr : Runs k t) :
    SearchEnds (k.chopstxCondSignal cfg t c) := by
  refine (wakeFirst_ends cfg (lock_inv h) hh.lock).bind fun r hw => ?_
  have hp : Path cfg Op.Wakes (none, _) (none, r.1) := wakeFirst_path (lock_inv h) hw
  exact yieldOrUnlock_ends ((lock_inv h).path hp)
    (hp.runs (fun _ => Op.Wakes.quiet) (lock_inv h) hr.lock).1

theorem chopstxCondBroadcast_ends (h : KernelInv none k) (hh : k.Honest) (hr : Runs k t) :
    SearchEnds (k.chopstxCondBroadcast cfg t c) := by
  refine (wakeAll_ends cfg (lock_inv h) hh.lock).bind fun r hw => ?_
  have hp : Path cfg Op.Wakes (none, _) (none, r.1) := wakeAll_path (lock_inv h) hw
  exact yieldOrUnlock_ends ((lock_inv h).path hp)
    (hp.runs (fun _ => Op.Wakes.quiet) (lock_inv h) hr.lock).1

theorem pollSleep_ends (h : KernelInv none k) (hr : Runs k t) : SearchEnds (k.pollSleep cfg t) :=
  (endSlice_ends h hr).bind fun _ _ => .ok _

theorem chxHandleIntr_ends (cfg : Config) {n : Irq} (h : KernelInv none k) (hh : k.Honest) :
    SearchEnds (k.chxHandleIntr n) := by
  have hm : Move cfg (.irq n false) (none, k) (none, k.disableIntr n) := .disable
  rw [chxHandleIntr]
  split
  · rename_i p hp
    exact (chxWakeup_ends cfg (h.move hm) (hh.move hm h (by simp))
      (List.mem_of_find?_eq_some hp)).bind fun _ _ => .ok _
  · exact .ok _

theorem preempt_ends (h : KernelInv none k) : SearchEnds (k.preempt cfg) := by
  rw [preempt]
  simp only
  split
  · exact .ok _
  · rename_i t ht
    refine .ite (fun hrr => .ite (fun hs => ?_) fun _ => .ok _) fun _ => .ok _
    have hin := (h.place' t).running hs
    rw [place_schedRr, if_pos hrr] at hin
    have h₁ : KernelInv none { k with masked := true, pendsv := false } :=
      h.congr rfl rfl rfl rfl rfl rfl
    exact (chxTimerDequeue_ends h₁ (mem_of_isIn hin)).bind fun _ _ => .ok _

end Kernel

end Chopstx
