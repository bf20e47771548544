import Chopstx.Section.Drift

/-!
# The value that a waker stores

The field `v` of a thread that has been woken up holds what its waker stored, until the
thread gets a slice: then `chx_timer_insert` has written a delta to the same field.

* `ValueInv` - what is known of the values of the threads that run or are about to.
* `ValueInv.move`, `ValueInv.path` - every move keeps it.
* `dequeued_v_pos`, `v_pos` - the delta of a thread that runs stays above 0, whatever is taken out
  of `q_timer` and put into it.
-/

namespace Chopstx

open Kernel

/-- What is known of the values of threads that run or are about to. -/
structure ValueInv (off : Option Tid) (k : Kernel) : Prop where
  fresh : ∀ u, k.nthread ≤ u → k.ghost.wake u = none
  /-- The value of the waker, if the thread is not round-robin. -/
  plain : ∀ u, (k.thread u).state.Active → (k.thread u).flagSchedRr = false →
    ∀ w v, k.ghost.wake u = some (w, v) → (k.thread u).v = v
  /-- A delta, if the thread is round-robin. -/
  slice : ∀ u, (k.thread u).state = .running → (k.thread u).flagSchedRr = true → off ≠ some u →
    0 < (k.thread u).v

variable {cfg : Config} {k k' : Kernel} {t u : Tid} {off off' : Option Tid} {op : Op}
  {P : Op → Prop}

namespace KernelInv

/-- A thread in `q_timer` that runs is round-robin. -/
theorem schedRr_of_mem_timer (h : KernelInv off k) (hm : .thread u ∈ k.queue .timer)
    (hs : (k.thread u).state = .running) : (k.thread u).flagSchedRr = true := by
  have hoff : off ≠ some u := by
    rintro rfl
    exact notMem_of_isOut (h.out u rfl) hm
  have hwf := (h.place u hoff).running hs
  rw [place_schedRr] at hwf
  split at hwf
  · assumption
  · exact absurd hm (notMem_of_isOut hwf)

/-- A thread that is active and not round-robin is not in `q_timer`. -/
theorem notMem_timer (h : KernelInv off k) (hs : (k.thread u).state.Active)
    (hf : (k.thread u).flagSchedRr = false) : .thread u ∉ k.queue .timer := by
  intro hm
  rcases hs with hs | hs
  · rcases h.holds_of_mem hm with h' | h' | h' <;> (rw [hs] at h'; cases h')
  · rw [h.schedRr_of_mem_timer hm hs] at hf
    cases hf

end KernelInv

/-- Taking a thread out of `q_timer` makes no delta of another zero. -/
theorem dequeued_v_pos {front back : List Pq} (hut : u ≠ t) (hpos : 0 < (k.thread u).v) :
    0 < ((k.dequeued t front back).thread u).v := by
  have hv : ((k.dequeued t front back).thread u).v = k.dequeueVals t front u := rfl
  rw [hv, dequeueVals, Function.update_of_ne hut]
  by_cases hl : front.getLast? = some (.thread u)
  · rw [writeLast_of_getLast hl, vals_apply]
    exact Nat.add_pos_left hpos _
  · rwa [writeLast_of_ne hl]

namespace ValueInv

/-- The invariant is kept by a move that leaves the thread alone. -/
theorem of_untouched (h : ValueInv off k) (hk : KernelInv off k) (hu : Untouched k k' u)
    (hw : k'.ghost.wake u = k.ghost.wake u) :
    (k'.thread u).state.Active → (k'.thread u).flagSchedRr = false →
      ∀ w v, k'.ghost.wake u = some (w, v) → (k'.thread u).v = v := by
  intro hs hf w v hwv
  rw [hu.state] at hs
  have hf' : (k.thread u).flagSchedRr = false := by
    rw [hu.thread] at hf
    exact hf
  rw [hu.value (hk.notMem_timer hs hf')]
  exact h.plain u hs hf' w v (hw ▸ hwv)

/-- A thread on its way stays so, unless the move is about it. -/
theorem off_eq (hm : Move cfg op (off, k) (off', k')) (hoff : off = some u)
    (ht : op.target ≠ some u) : off' = some u := by
  cases hm with
  | block | sleep | pollSleep | die | yield => exact absurd hoff ht
  | raise | wakeTimed | wakeQueued | wakeLoose | slice | push | norun | switch | acquire | drop
  | create | expire => cases hoff
  | _ => exact hoff

/-- A move that leaves the running thread alone makes no delta of it zero. -/
theorem v_pos (hm : Move cfg op (off, k) (off', k')) (hk : KernelInv off k)
    (hs : (k.thread u).state = .running) (hoff : off ≠ some u) (ht : op.target ≠ some u)
    (hsw : op ≠ .switch) (hex : op ≠ .expire) (hpos : 0 < (k.thread u).v) :
    0 < (k'.thread u).v := by
  have hne : ∀ t, op.target = some t → u ≠ t := fun t hop hut => ht (hut ▸ hop)
  by_cases hmem : .thread u ∈ k.queue .timer
  · cases hm with
    | wakeTimed hs' hd hw =>
        obtain ⟨front, back, hq, rfl, -⟩ := chxTimerDequeue_ok hk.timer hd
        rw [resume_thread, Function.update_of_ne (hne _ rfl)]
        exact dequeued_v_pos (hne _ rfl) hpos
    | slice hr hs' he =>
        rcases endSlice_ok hk.timer he with rfl | ⟨front, back, -, hq, rfl⟩
        · exact hpos
        · exact dequeued_v_pos (hne _ rfl) hpos
    | sleep hs' hst hpos' hle =>
        -- no other thread runs
        have := (hk.one _ hs').symm.trans (hk.one u hs)
        exact absurd (Option.some.inj this).symm (hne _ rfl)
    | switch hs' => exact absurd rfl hsw
    | expire hp hr => exact absurd rfl hex
    | wakeQueued | wakeLoose =>
        rw [resume_thread, Function.update_of_ne (hne _ rfl)]
        exact hpos
    | flags | prio | pollSleep | die | finish =>
        rw [modThread_thread, Function.update_of_ne (hne _ rfl)]
        exact hpos
    | raise hp hlt hq hst =>
        rw [llPrioEnqueue_thread, Function.update_of_ne (hne _ rfl), llDequeue_thread,
          setPrio_thread, Function.update_of_ne (hne _ rfl)]
        exact hpos
    | block hs' hq =>
        rw [modThread_thread, Function.update_of_ne (hne _ rfl), llPrioEnqueue_thread,
          Function.update_of_ne (hne _ rfl)]
        exact hpos
    | yield hs' =>
        rw [chxReadyEnqueue_thread, Function.update_of_ne (hne _ rfl)]
        exact hpos
    | push hr hs' hf =>
        rw [chxReadyPush_thread, Function.update_of_ne (hne _ rfl)]
        exact hpos
    | acquire =>
        rw [acquire_thread, Function.update_of_ne (hne _ rfl)]
        exact hpos
    | drop =>
        rw [dropMutex_thread, Function.update_of_ne (hne _ rfl)]
        exact hpos
    | create fp =>
        rw [chxReadyEnqueue_thread, Function.update_of_ne (hne _ rfl)]
        simp only [Function.update_of_ne (hne _ rfl)]
        exact hpos
    | _ => exact hpos
  · rw [(hm.untouched hk ht hsw hex).value hmem]
    exact hpos

/-- **Every move keeps the invariant of the values.** -/
theorem move (hm : Move cfg op (off, k) (off', k')) (hk : KernelInv off k) (h : ValueInv off k) :
    ValueInv off' k' := by
  have hfresh : ∀ u, k'.nthread ≤ u → k'.ghost.wake u = none := by
    intro u hu
    have hlt : k.nthread ≤ u := (hm.nthread_le hk).trans hu
    have hstate : (k.thread u).state = .exited := (hk.unborn u hlt).1
    by_cases hex : op = .expire
    · subst hex
      cases hm with
      | expire hp hr =>
          have he := chxTimerExpired_expired hk
          rw [he.wake u, if_neg, h.fresh u hlt]
          rintro ⟨hmem, -⟩
          rcases hk.holds_of_mem (he.mem _ hmem) with hs | hs | hs <;>
          (rw [hstate] at hs; cases hs)
    · rw [hm.wake_eq hk ?_ hex, h.fresh u hlt]
      rintro w rfl
      cases hm with
      | wakeTimed hs hd hw =>
          rcases hs with hs | hs <;> (rw [hstate] at hs; cases hs)
      | wakeQueued hq hw => exact absurd (hk.lt_of_isIn hq) (not_lt.2 hlt)
      | wakeLoose hs hp hw => rw [hstate] at hs; cases hs
  have hrecord : op.KeepsRecords → ∀ u, (k'.thread u).flagSchedRr = (k.thread u).flagSchedRr := by
    intro hop u
    rw [hm.record hk hop u]
  by_cases hsw : op = .switch
  · subst hsw
    cases hm with
    | switch hs =>
        rcases switchThread_switched cfg hk with ⟨-, heq⟩ | ⟨t, hsw⟩
        · rw [heq]
          exact ⟨h.fresh, h.plain, h.slice⟩
        · refine ⟨hfresh, fun u ha hf w v hwv => ?_, fun u hr hf _ => ?_⟩
          · rw [hrecord trivial u] at hf
            rw [hsw.wake] at hwv
            by_cases hut : u = t
            · subst hut
              rw [hsw.plain hf]
              exact h.plain u (.inl hsw.ready) hf w v hwv
            · rw [hsw.others u hut] at ha
              rw [hsw.value u hut (hk.notMem_timer ha hf)]
              exact h.plain u ha hf w v hwv
          · rw [hrecord trivial u] at hf
            by_cases hut : u = t
            · subst hut
              exact hsw.slice hf
            · rw [hsw.others u hut] at hr
              exact absurd hr (hs u)
  by_cases hex : op = .expire
  · subst hex
    cases hm with
    | expire hp hr =>
        have he := chxTimerExpired_expired hk
        refine ⟨hfresh, fun u ha hf w v hwv => ?_, fun u hs hf _ => ?_⟩
        · rw [he.wake u] at hwv
          by_cases hmem : .thread u ∈ k.expired
          · rw [he.self u hmem] at hf ⊢
            have hrun : k.running ≠ some u := by
              intro hru
              have hnot := fun ha => hk.notMem_timer ha hf
              rcases hr u hru with hs | hs
              · exact hnot (.inr hs) (he.mem _ hmem)
              · exact hnot (.inl hs) (he.mem _ hmem)
            rw [if_pos ⟨hmem, hrun⟩] at hwv
            cases hwv
            rfl
          · rw [if_neg (by simp [hmem])] at hwv
            rw [he.others u hmem] at ha hf ⊢
            exact h.plain u ha hf w v hwv
        · by_cases hmem : .thread u ∈ k.expired
          · rw [he.self u hmem] at hs
            cases hs
          · rw [he.others u hmem] at hs hf ⊢
            exact h.slice u hs hf (by simp)
  refine ⟨hfresh, fun u => ?_, fun u => ?_⟩
  · by_cases ht : op.target = some u
    · intro ha hf w v hwv
      cases hm with
      | flags | prio | acquire | drop =>
          cases ht
          simp only [modThread_thread, acquire_thread, dropMutex_thread, Flag.set_state,
            Flag.set_flagSchedRr, Flag.set_v, Function.update_self] at ha hf ⊢
          exact h.plain u ha hf w v hwv
      | raise hp hlt hq hst =>
          cases ht
          simp only [llPrioEnqueue_thread, llDequeue_thread, setPrio_thread,
            Function.update_self] at ha hf ⊢
          exact h.plain u ha hf w v hwv
      | wakeTimed | wakeQueued | wakeLoose =>
          cases ht
          rw [resume_thread, Function.update_self]
          have hwv' := (Function.update_self ..).symm.trans hwv
          cases hwv'
          rfl
      | slice hr hs he =>
          cases ht
          rcases endSlice_ok hk.timer he with rfl | ⟨front, back, hrr, -, rfl⟩
          · exact h.plain u ha hf w v hwv
          · rw [KernelInv.dequeued_thread] at hf
            rw [hrr] at hf
            cases hf
      | block hs hq =>
          cases ht
          simp only [modThread_thread, Function.update_self] at ha
          cases hq <;> simp [ThreadState.Active] at ha
      | sleep hs hst hpos hle =>
          cases ht
          rw [chxTimerInsert_thread hk.timer_modThread, modThread_thread,
            Function.update_self] at ha
          rcases hst with rfl | rfl <;> simp [ThreadState.Active] at ha
      | pollSleep hs =>
          cases ht
          simp [ThreadState.Active] at ha
      | die hs hst =>
          cases ht
          rcases hst with rfl | rfl <;> simp [ThreadState.Active] at ha
      | finish =>
          cases ht
          simp [ThreadState.Active] at ha
      | yield hs =>
          cases ht
          simp only [chxReadyEnqueue_thread, Function.update_self] at hf ⊢
          exact h.plain u (.inr hs) hf w v hwv
      | push hr hs hf' =>
          cases ht
          simp only [chxReadyPush_thread, Function.update_self]
          exact h.plain u (.inr hs) hf' w v hwv
      | norun hr hs =>
          cases ht
          exact h.plain u ha hf w v hwv
      | create fp =>
          cases ht
          cases (h.fresh _ le_rfl).symm.trans hwv
      | _ => cases ht
    · exact h.of_untouched hk (hm.untouched hk ht hsw hex)
        (hm.wake_eq hk (fun w hw => ht (hw ▸ rfl)) hex)
  · intro hs hf hoff
    by_cases ht : op.target = some u
    · cases hm with
      | flags | prio | acquire | drop =>
          cases ht
          simp only [modThread_thread, acquire_thread, dropMutex_thread, Flag.set_state,
            Flag.set_flagSchedRr, Flag.set_v, Function.update_self] at hs hf ⊢
          exact h.slice u hs hf hoff
      | raise hp hlt hq hst =>
          cases ht
          simp only [llPrioEnqueue_thread, llDequeue_thread, setPrio_thread,
            Function.update_self] at hs hf ⊢
          exact h.slice u hs hf hoff
      | wakeTimed | wakeQueued | wakeLoose =>
          cases ht
          simp [resume_thread] at hs
      | slice hr hs' he =>
          cases ht
          exact absurd rfl hoff
      | block hs' hq =>
          cases ht
          cases hq <;> simp at hs
      | sleep hs' hst hpos hle =>
          cases ht
          rw [chxTimerInsert_thread hk.timer_modThread, modThread_thread,
            Function.update_self] at hs
          rcases hst with rfl | rfl <;> simp at hs
      | pollSleep | finish =>
          cases ht
          simp at hs
      | die hs' hst =>
          cases ht
          rcases hst with rfl | rfl <;> simp at hs
      | yield | push =>
          cases ht
          simp [chxReadyEnqueue_thread, chxReadyPush_thread] at hs
      | norun hr hs' =>
          cases ht
          exact h.slice u hs hf hoff
      | create fp =>
          cases ht
          simp [chxReadyEnqueue_thread] at hs
      | _ => cases ht
    · have hu := hm.untouched hk ht hsw hex
      have hs' : (k.thread u).state = .running := hu.state ▸ hs
      have hoff' : off ≠ some u := fun ho => hoff (off_eq hm ho ht)
      refine v_pos hm hk hs' hoff' ht hsw hex (h.slice u hs' ?_ hoff')
      rw [hu.thread] at hf
      exact hf

theorem path (hp : Path cfg P (off, k) (off', k')) (hk : KernelInv off k) (h : ValueInv off k) :
    ValueInv off' k' := by
  have key := hp.keeps (I := fun a => KernelInv a.1 a.2 ∧ ValueInv a.1 a.2) ?_ ⟨hk, h⟩
  · exact key.2
  · rintro op ⟨off, k⟩ ⟨off', k'⟩ hop hm ⟨hk, h⟩
    exact ⟨hk.move hm, h.move hm hk⟩

end ValueInv

end Chopstx
