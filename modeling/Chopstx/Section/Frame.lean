import Chopstx.Section.Path

/-!
# What the moves leave alone

Most moves change the state, the field `parent` and the value of threads only
(`Move.record`), and most leave the other objects of the kernel alone (`Move.objects`).
The two moves that are about no thread in particular, the context switch and the expiry
of timers, are described thread by thread.

* `Objects`, `SameRecord` - the parts of the kernel and of a thread that most moves leave alone.
* `switchThread_switched`, `chxTimerExpired_expired` - the two exceptions, thread by thread
  (`Switched`, `Expired`).
* `Move.pendsv`, `Move.masked` - what becomes of a pending preemption and of the mask.
* `Move.wake_eq` - the history of wake-ups changes in the moves that wake a thread only.
-/

namespace Chopstx

open Kernel DeltaQueue

/-! ## Objects other than threads and queues -/

/-- The objects of the kernel other than threads and queues. -/
structure Objects where
  nthread : Nat
  mutex : Mid → Mtx
  px : PxId → Px
  counter : Nat → Nat
  ncall : Nat
  ready : PdId → Bool
  irq : Irq → Bool
  mem : Nat → Nat
  held : Tid → List Mid
  irqBy : Irq → Option Nat

namespace Kernel

variable {cfg : Config} {k k' : Kernel} {t u : Tid} {q : Qh} {w : Waker} {n v usec : Nat} {x : Pq}

def objects (k : Kernel) : Objects where
  nthread := k.nthread
  mutex := k.mutex
  px := k.px
  counter := k.counter
  ncall := k.ncall
  ready := k.ready
  irq := k.irq
  mem := k.mem
  held := k.ghost.held
  irqBy := k.ghost.irqBy

@[simp] theorem resume_objects : (k.resume t w v).objects = k.objects := rfl

@[simp] theorem dequeued_objects {front back : List Pq} :
    (k.dequeued t front back).objects = k.objects := rfl

theorem chxTimerInsert_objects (hq : k.HoldsThreads .timer) :
    (k.chxTimerInsert cfg t usec).objects = k.objects := by
  rw [chxTimerInsert_eq hq]
  rfl

theorem chxTimerInsert_wake (hq : k.HoldsThreads .timer) :
    (k.chxTimerInsert cfg t usec).ghost.wake = k.ghost.wake := by
  rw [chxTimerInsert_eq hq]
  rfl

theorem expireOne_objects : (k.expireOne t).objects = k.objects := by
  rw [expireOne]
  split <;> rfl

theorem expireOne_wake : (k.expireOne t).ghost.wake =
    if k.running = some t then k.ghost.wake
    else Function.update k.ghost.wake t (some (.timer, 0)) := by
  rw [expireOne]
  split <;> rfl

end Kernel

/-! ## The context switch -/

/-- The thread `t` runs now. -/
structure Switched (k k' : Kernel) (t : Tid) : Prop where
  ready : (k.thread t).state = .ready
  running : k'.running = some t
  self : k'.thread t = { k.thread t with
    state := .running, parent := (k'.thread t).parent, v := (k'.thread t).v }
  plain : (k.thread t).flagSchedRr = false → (k'.thread t).v = (k.thread t).v
  parent : (k.thread t).flagSchedRr = false → (k'.thread t).parent = (k.thread t).parent
  slice : (k.thread t).flagSchedRr = true → 0 < (k'.thread t).v
  others : ∀ u, u ≠ t → k'.thread u = { k.thread u with v := (k'.thread u).v }
  value : ∀ u, u ≠ t → .thread u ∉ k.queue .timer → (k'.thread u).v = (k.thread u).v
  place : ∀ u, u ≠ t → k'.place u = k.place u
  wake : k'.ghost.wake = k.ghost.wake
  objects : k'.objects = k.objects
  first : k.queue .ready = .thread t :: k'.queue .ready
  queue : ∀ q, q ≠ .ready → q ≠ .timer → k'.queue q = k.queue q
  masked : k'.masked = if prioInhibitPreemption ≤ (k.thread t).prio then k.masked else false
  pendsv : k'.pendsv = k.pendsv

variable {cfg : Config} {k k' k₁ : Kernel} {t u : Tid} {q : Qh} {off off' : Option Tid} {op : Op}

/-- The slice that a thread gets has a positive delta. -/
theorem insertVals_pos (cfg : Config) :
    let r := locate k.pqV (k.queue .timer) (usecToTicks cfg cfg.preemptionUsec)
      k.systick.elapse.count
    0 < k.insertVals t r.1 r.2.2.1 r.2.2.2 t := by
  simp only
  rw [insertVals_self]
  cases hn : (locate k.pqV (k.queue .timer) (usecToTicks cfg cfg.preemptionUsec)
    k.systick.elapse.count).2.2.2 with
  | none => exact Nat.one_pos
  | some n => exact Nat.sub_pos_of_lt (locate_lt hn)

theorem switched_of_popped (h : KernelInv none k) {rest : List Pq} {k₁ : Kernel}
    (hq : k.queue .ready = .thread t :: rest) (hk₁ : k₁ = (k.popped t).sliced cfg t) :
    Switched k { k₁ with
      running := some t
      masked := if prioInhibitPreemption ≤ (k₁.thread t).prio then k₁.masked else false } t := by
  have hm : .thread t ∈ k.queue .ready := by
    rw [hq]
    exact List.mem_cons_self ..
  have hnot : .thread t ∉ k.queue .timer :=
    KernelInv.notMem_timer_of_isIn (h.isIn_of_mem hm) (by simp)
  have hT : TimerInv (k.popped t) := h.popped_timer hm
  have hothers : ∀ u, u ≠ t → (k.popped t).thread u = k.thread u := fun u hut => by
    rw [popped_thread, Function.update_of_ne hut]
  have hself : (k.popped t).thread t = { k.thread t with state := .running } := by
    rw [popped_thread, Function.update_self]
  have hqueue : ∀ q, q ≠ .ready → (k.popped t).queue q = k.queue q := by
    intro q hq
    refine llDequeue_queue_of_notMem fun hm' => hq ?_
    exact Option.some.inj ((h.isIn_of_mem hm').1.symm.trans (h.isIn_of_mem hm).1)
  -- the thread is linked once
  have hfirst : k.queue .ready = .thread t :: (k.popped t).queue .ready := by
    have hlinks : (k.queue .ready).count (.thread t) = 1 := (h.isIn_of_mem hm).links_self
    rw [hq, List.count_cons_self, Nat.add_eq_right, List.count_eq_zero] at hlinks
    have hrest : (k.popped t).queue .ready = rest := by
      simp only [popped, modThread_queue, llDequeue_queue, hq]
      rw [List.filter_cons_of_neg (by simp), List.filter_eq_self.2]
      rintro x hx
      rw [decide_eq_true_eq]
      rintro rfl
      exact hlinks hx
    rw [hrest, hq]
  by_cases hrr : (k.thread t).flagSchedRr = true
  · have hs : (k.popped t).sliced cfg t = (k.popped t).chxTimerInsert cfg t cfg.preemptionUsec := by
      rw [sliced, if_pos (by rw [hself]; exact hrr)]
    have hth : ∀ u, ((k.popped t).chxTimerInsert cfg t cfg.preemptionUsec).thread u =
        { (k.popped t).thread u with
          v := ((k.popped t).chxTimerInsert cfg t cfg.preemptionUsec).vals u
          parent := if u = t then some .timer else ((k.popped t).thread u).parent } := fun u =>
      chxTimerInsert_thread hT
    rw [hk₁, hs]
    refine ⟨h.state_of_mem_ready hm, rfl, ?_, ?_, ?_, ?_, ?_, ?_, ?_, ?_, ?_, ?_, ?_, ?_, ?_⟩
    · simp only
      rw [hth t, hself]
    · intro hf
      rw [hrr] at hf
      cases hf
    · intro hf
      rw [hrr] at hf
      cases hf
    · intro _
      simp only
      rw [hth t, chxTimerInsert_vals hT]
      exact insertVals_pos cfg
    · intro u hut
      simp only
      rw [hth u, if_neg hut, hothers u hut]
    · intro u hut hu
      simp only
      rw [chxTimerInsert_v_of_notMem hT (fun hm' => hu (List.mem_of_mem_filter hm')) hut,
        hothers u hut]
    · intro u hut
      refine (congrFun (place_chxTimerInsert hT) u).trans ?_
      rw [Function.update_of_ne hut, popped_place, Function.update_of_ne hut]
    · exact chxTimerInsert_wake hT.threads
    · exact chxTimerInsert_objects hT.threads
    · exact hfirst.trans (congrArg _ (chxTimerInsert_queue_of_ne hT (by simp)).symm)
    · intro q hqr hqt
      exact (chxTimerInsert_queue_of_ne hT hqt).trans (hqueue q hqr)
    · simp only
      rw [hth t, hself, chxTimerInsert_eq hT.threads]
      rfl
    · simp only
      rw [chxTimerInsert_eq hT.threads]
      rfl
  · have hs : (k.popped t).sliced cfg t = k.popped t := by
      rw [sliced, if_neg (by rw [hself]; exact hrr)]
    rw [hk₁, hs]
    refine ⟨h.state_of_mem_ready hm, rfl, ?_, ?_, ?_, fun hf => absurd hf hrr, ?_, ?_, ?_, rfl,
      rfl, hfirst, ?_, ?_, rfl⟩
    · simp only
      rw [hself]
    · intro _
      simp only
      rw [hself]
    · intro _
      simp only
      rw [hself]
    · intro u hut
      simp only
      rw [hothers u hut]
    · intro u hut _
      simp only
      rw [hothers u hut]
    · intro u hut
      refine (congrFun popped_place u).trans ?_
      rw [Function.update_of_ne hut]
    · intro q hqr _
      exact hqueue q hqr
    · simp only
      rw [hself]
      rfl

/-- **What a context switch does**, thread by thread. -/
theorem switchThread_switched (cfg : Config) (h : KernelInv none k) :
    (k.queue .ready = [] ∧ k.switchThread cfg = { k with running := none, masked := false }) ∨
      ∃ t, Switched k (k.switchThread cfg) t := by
  rcases switchThread_cases cfg h.readyThreads with ⟨hq, heq⟩ | ⟨t, rest, hq, heq⟩
  · exact .inl ⟨hq, heq⟩
  · rw [heq]
    exact .inr ⟨t, switched_of_popped h hq rfl⟩

/-! ## The expiry of timers -/

/-- The threads in `ex` are taken out of `q_timer` and made ready. -/
structure Expired (k k' : Kernel) (ex : List Pq) : Prop where
  mem : ∀ x ∈ ex, x ∈ k.queue .timer
  running : k'.running = k.running
  self : ∀ u, .thread u ∈ ex →
    k'.thread u = { k.thread u with v := 0, state := .ready, parent := some .ready }
  others : ∀ u, .thread u ∉ ex → k'.thread u = k.thread u
  wake : ∀ u, k'.ghost.wake u =
    if .thread u ∈ ex ∧ k.running ≠ some u then some (.timer, 0) else k.ghost.wake u
  objects : k'.objects = k.objects
  timer : k'.queue .timer = k.remaining.1
  queue : ∀ q, q ≠ .ready → q ≠ .timer → k'.queue q = k.queue q
  masked : k'.masked = k.masked
  pendsv : k.pendsv = true → k'.pendsv = true
  /-- The end of a slice asks for preemption. -/
  preempts : ∀ u, .thread u ∈ ex → k.running = some u → k'.pendsv = true

theorem expireOne_masked : (k.expireOne t).masked = k.masked := by
  rw [expireOne]
  split <;> rfl

theorem expireOne_pendsv : (k.expireOne t).pendsv = k.pendsv := by
  rw [expireOne]
  split <;> rfl

theorem foldl_expireEntry_thread {ex : List Pq} (hex : ∀ x ∈ ex, ∃ t, x = .thread t) :
    (ex.foldl expireEntry k).thread u =
      if .thread u ∈ ex then { k.thread u with v := 0, state := .ready, parent := some .ready }
      else k.thread u := by
  induction ex generalizing k with
  | nil => simp
  | cons x ex ih =>
      obtain ⟨t, rfl⟩ := hex x (List.mem_cons_self ..)
      rw [List.foldl_cons, ih fun x hx => hex x (List.mem_cons_of_mem _ hx), expireEntry,
        expireOne_thread]
      by_cases hut : u = t
      · subst hut
        simp
      · have hne : Pq.thread u ≠ .thread t := fun e => hut (Pq.thread.inj e)
        simp [hut]

theorem foldl_expireEntry_wake {ex : List Pq} (hex : ∀ x ∈ ex, ∃ t, x = .thread t) :
    (ex.foldl expireEntry k).ghost.wake u =
      if .thread u ∈ ex ∧ k.running ≠ some u then some (.timer, 0) else k.ghost.wake u := by
  induction ex generalizing k with
  | nil => simp
  | cons x ex ih =>
      obtain ⟨t, rfl⟩ := hex x (List.mem_cons_self ..)
      rw [List.foldl_cons, ih fun x hx => hex x (List.mem_cons_of_mem _ hx), expireEntry,
        expireOne_wake, expireOne_running]
      by_cases hr : k.running = some t
      · by_cases hut : u = t
        · subst hut
          simp [hr]
        · simp [hr, hut]
      · by_cases hut : u = t
        · subst hut
          simp [hr]
        · simp [hr, hut]

/-- **What `chx_timer_expired` does**, thread by thread. -/
theorem chxTimerExpired_expired (h : KernelInv none k) :
    Expired k (k.setSystick { k.systick with pending := false }).chxTimerExpired k.expired := by
  set k₀ := k.setSystick { k.systick with pending := false } with hk₀
  have hexp : k₀.expired = k.expired := by
    simp only [expired, hk₀, pqV_setSystick]
    rfl
  obtain ⟨prio, heq, hprio⟩ := chxTimerExpired_eq (k := k₀) h.timer.threads h.timer.nodup
  obtain ⟨b, hb, hb₁, hb₂⟩ := chxRequestPreemption_eq
    (k := (k₀.expired.foldl expireEntry k₀).setSystick k₀.rearm) prio
  rw [heq, hb]
  rw [hexp] at hprio hb₁ hb₂ ⊢
  have hthr : ∀ x ∈ k.expired, ∃ t, x = .thread t := expired_threads h.timer.threads
  have hmem : ∀ x ∈ k.expired, x ∈ k.queue .timer := fun x hx =>
    expired_append_remaining (k := k) ▸ List.mem_append_left _ hx
  have hrun : (k.expired.foldl expireEntry k₀).running = k.running :=
    foldl_expireEntry_keeps (P := fun K => K.running = k.running)
      (fun _ _ _ h => expireOne_running.trans h) rfl
  have hpend : (k.expired.foldl expireEntry k₀).pendsv = k.pendsv :=
    foldl_expireEntry_keeps (P := fun K => K.pendsv = k.pendsv)
      (fun _ _ _ h => expireOne_pendsv.trans h) rfl
  refine ⟨hmem, hrun, ?_, ?_, ?_, ?_, ?_, ?_, ?_, fun hp => hb₁ (hpend.trans hp), ?_⟩
  · intro u hu
    exact (foldl_expireEntry_thread hthr).trans (if_pos hu)
  · intro u hu
    exact (foldl_expireEntry_thread hthr).trans (if_neg hu)
  · intro u
    exact foldl_expireEntry_wake hthr
  · exact foldl_expireEntry_keeps (P := fun K => K.objects = k.objects)
      (fun _ _ _ h => expireOne_objects.trans h) rfl
  · have hrem : k₀.remaining = k.remaining := by
      simp only [remaining, hk₀, pqV_setSystick]
      rfl
    rw [← hexp, ← hrem]
    exact foldl_expired_queue_timer h.timer.threads h.timer.nodup
  · intro q hqr hqt
    refine (foldl_expireEntry_queue hthr hqr).trans (List.filter_eq_self.2 fun x hx => ?_)
    rw [decide_eq_true_eq]
    intro hx'
    obtain ⟨t, rfl⟩ := hthr x hx'
    refine hqt (Option.some.inj ?_)
    exact (h.isIn_of_mem hx).1.symm.trans (h.isIn_of_mem (hmem _ hx')).1
  · exact foldl_expireEntry_keeps (P := fun K => K.masked = k.masked)
      (fun _ _ _ h => expireOne_masked.trans h) rfl
  · intro u hu hr
    have h256 := hprio (fun t => (h.prio t).le) u hr hu
    refine hb₂ u (hrun.trans hr) (lt_of_lt_of_le ?_ h256)
    have hth := foldl_expireEntry_thread (k := k₀) (u := u) hthr
    rw [if_pos hu] at hth
    rw [setSystick_thread, hth]
    exact h.prio u

/-! ## Records and objects -/

/-- The end of a slice takes a round-robin thread out of `q_timer`. -/
theorem endSlice_ok (hT : TimerInv k) (he : k.endSlice t = .ok k') :
    k' = k ∨ ∃ front back, (k.thread t).flagSchedRr = true ∧
      k.queue .timer = front ++ .thread t :: back ∧ k' = k.dequeued t front back := by
  rw [endSlice] at he
  split at he
  · rename_i hrr
    obtain ⟨⟨k₁, n⟩, hd, hk⟩ := res_bind_eq_ok.1 he
    cases hk
    obtain ⟨front, back, hq, rfl, -⟩ := chxTimerDequeue_ok hT hd
    exact .inr ⟨front, back, hrr, hq, rfl⟩
  · cases he
    exact .inl rfl

namespace Op

/-- The moves that change state, `parent` and value of threads only. -/
def KeepsRecords : Op → Prop
  | .flags _ _ | .prio _ | .raise _ | .acquire _ _ | .drop _ _ | .create _ => False
  | _ => True

/-- The moves that change no object other than threads and queues. -/
def KeepsObjects : Op → Prop
  | .aux | .count _ | .acquire _ _ | .drop _ _ | .create _ | .proxy _ | .fire _ | .link _ _
  | .ready _ _ | .irq _ _ =>
      False
  | _ => True

end Op

/-- The record is as before, but for state, `parent` and value. -/
def SameRecord (k k' : Kernel) (u : Tid) : Prop :=
  k'.thread u = { k.thread u with
    state := (k'.thread u).state, parent := (k'.thread u).parent, v := (k'.thread u).v }

theorem SameRecord.of_v (h : k'.thread u = { k.thread u with v := (k'.thread u).v }) :
    SameRecord k k' u := by
  rw [SameRecord, h]

theorem Move.record (hm : Move cfg op (off, k) (off', k')) (h : KernelInv off k)
    (hop : op.KeepsRecords) (u : Tid) : SameRecord k k' u := by
  have hthread : ∀ {K : Kernel} {t : Tid} {th : Thread},
      K.thread = Function.update k.thread t th →
      th = { k.thread t with state := th.state, parent := th.parent, v := th.v } →
      SameRecord k K u := by
    intro K t th hK hth
    rw [SameRecord, hK]
    by_cases hut : u = t
    · subst hut
      rw [Function.update_self]
      exact hth
    · rw [Function.update_of_ne hut]
  by_cases ht : op.target = some u
  · cases hm with
    | wakeTimed hs hd hw =>
        cases ht
        obtain ⟨front, back, hq, rfl, -⟩ := chxTimerDequeue_ok h.timer hd
        rw [SameRecord, resume_thread, Function.update_self, KernelInv.dequeued_thread]
    | wakeQueued hq hw => exact hthread resume_thread rfl
    | wakeLoose hs hp hw => exact hthread resume_thread rfl
    | slice hr hs he => exact .of_v ((h.slice hs he).2.2.2 u)
    | block hs hq =>
        cases ht
        rw [SameRecord, modThread_thread, Function.update_self, llPrioEnqueue_thread,
          Function.update_self]
    | sleep hs hst hpos hle =>
        cases ht
        rw [SameRecord, chxTimerInsert_thread h.timer_modThread, modThread_thread,
          Function.update_self]
    | pollSleep hs => exact hthread rfl rfl
    | die hs hst => exact hthread rfl rfl
    | finish hlt hs => exact hthread rfl rfl
    | yield hs => exact hthread chxReadyEnqueue_thread rfl
    | push hr hs hf => exact hthread chxReadyPush_thread rfl
    | norun hr hs => rfl
    | flags | prio | raise | acquire | drop | create => exact absurd hop id
    | _ => cases ht
  · by_cases hsw : op = .switch
    · subst hsw
      cases hm with
      | switch hs =>
          rcases switchThread_switched cfg h with ⟨-, heq⟩ | ⟨t, hsw⟩
          · rw [heq]
            rfl
          · by_cases hut : u = t
            · subst hut
              rw [SameRecord, hsw.self]
            · exact .of_v (hsw.others u hut)
    · by_cases hex : op = .expire
      · subst hex
        cases hm with
        | expire hp hr =>
            have he := chxTimerExpired_expired h
            by_cases hu : .thread u ∈ k.expired
            · rw [SameRecord, he.self u hu]
            · rw [SameRecord, he.others u hu]
      · exact .of_v (hm.untouched h ht hsw hex).thread

theorem Move.objects (hm : Move cfg op (off, k) (off', k')) (h : KernelInv off k)
    (hop : op.KeepsObjects) : k'.objects = k.objects := by
  cases hm with
  | wakeTimed hs hd hw =>
      obtain ⟨front, back, -, rfl, -⟩ := chxTimerDequeue_ok h.timer hd
      rw [resume_objects, dequeued_objects]
  | slice hr hs he =>
      rcases endSlice_ok h.timer he with rfl | ⟨front, back, -, -, rfl⟩
      · rfl
      · rw [dequeued_objects]
  | sleep hs hst hpos hle =>
      rw [chxTimerInsert_objects h.timer_modThread.threads]
      rfl
  | switch hs =>
      rcases switchThread_switched cfg h with ⟨-, heq⟩ | ⟨t, hsw⟩
      · rw [heq]
        rfl
      · exact hsw.objects
  | expire hp hr => exact (chxTimerExpired_expired h).objects
  | aux | count | acquire | drop | create | proxy | fire | link | ready | enable | disable =>
      exact absurd hop id
  | _ => rfl

/-- No thread is ever forgotten. -/
theorem Move.nthread_le (hm : Move cfg op (off, k) (off', k')) (h : KernelInv off k) :
    k.nthread ≤ k'.nthread := by
  by_cases hop : op.KeepsObjects
  · exact (congrArg Objects.nthread (hm.objects h hop)).ge
  · cases hm with
    | create fp => exact Nat.le_succ _
    | aux | count | acquire | drop | proxy | fire | link | ready | enable | disable => exact le_rfl
    | _ => exact absurd trivial hop

/-- The numbers of the calls of `chopstx_poll` only grow. -/
theorem Move.ncall_le (hm : Move cfg op (off, k) (off', k')) (h : KernelInv off k) :
    k.ncall ≤ k'.ncall := by
  by_cases hop : op.KeepsObjects
  · exact (congrArg Objects.ncall (hm.objects h hop)).ge
  · cases hm with
    | aux masked counter ncall mem hn => exact hn
    | count | acquire | drop | create | proxy | fire | link | ready | enable | disable =>
        exact le_rfl
    | _ => exact absurd trivial hop

/-- The PendSV exception becomes pending, or is taken, by moves of its own. -/
theorem Move.pendsv (hm : Move cfg op (off, k) (off', k')) (h : KernelInv off k)
    (hp : ∀ b, op ≠ .pend b) (hex : op ≠ .expire) : k'.pendsv = k.pendsv := by
  cases hm with
  | pend b => exact absurd rfl (hp b)
  | expire => exact absurd rfl hex
  | wakeTimed hs hd hw =>
      obtain ⟨front, back, -, rfl, -⟩ := chxTimerDequeue_ok h.timer hd
      rfl
  | slice hr hs he =>
      rcases endSlice_ok h.timer he with rfl | ⟨front, back, -, -, rfl⟩ <;> rfl
  | sleep hs hst hpos hle =>
      rw [chxTimerInsert_eq h.timer_modThread.threads]
      rfl
  | switch hs =>
      rcases switchThread_switched cfg h with ⟨-, heq⟩ | ⟨t, hsw⟩
      · rw [heq]
      · exact hsw.pendsv
  | _ => rfl

/-- Preemption is masked by the lock and by context switches. -/
theorem Move.masked (hm : Move cfg op (off, k) (off', k')) (h : KernelInv off k)
    (ha : op ≠ .aux) (hsw : op ≠ .switch) : k'.masked = k.masked := by
  cases hm with
  | aux => exact absurd rfl ha
  | switch => exact absurd rfl hsw
  | wakeTimed hs hd hw =>
      obtain ⟨front, back, -, rfl, -⟩ := chxTimerDequeue_ok h.timer hd
      rfl
  | slice hr hs he =>
      rcases endSlice_ok h.timer he with rfl | ⟨front, back, -, -, rfl⟩ <;> rfl
  | sleep hs hst hpos hle =>
      rw [chxTimerInsert_eq h.timer_modThread.threads]
      rfl
  | expire hp hr => exact (chxTimerExpired_expired h).masked
  | _ => rfl

/-! ## PendSV and its handler -/

theorem chxSetTimer_pendsv (p : Option Pq) (n : Nat) : (k.chxSetTimer p n).pendsv = k.pendsv := by
  cases p with
  | none => rfl
  | some p => cases p <;> rfl

theorem chxTimerInsert_pendsv {usec : Nat} : (k.chxTimerInsert cfg t usec).pendsv = k.pendsv := by
  simp only [chxTimerInsert]
  split <;> simp only [chxSetTimer_pendsv] <;> rfl

theorem switchThread_pendsv : (k.switchThread cfg).pendsv = k.pendsv := by
  simp only [switchThread]
  split
  · rename_i t k₁ hp
    have hk₁ : k₁.pendsv = k.pendsv := by
      simp only [chxReadyPop, llPop] at hp
      cases hq : k.queue .ready with
      | nil =>
          rw [hq] at hp
          cases hp
      | cons x l =>
          rw [hq] at hp
          cases x <;> cases hp
          rfl
    simp only
    split
    · exact chxTimerInsert_pendsv.trans hk₁
    · exact hk₁
  · rfl

theorem chxTimerDequeue_pendsv {n : Nat} (h : k.chxTimerDequeue t = .ok (k', n)) :
    k'.pendsv = k.pendsv := by
  simp only [chxTimerDequeue] at h
  split at h
  · cases h
  · split at h
    · cases h
      split <;> rfl
    · split at h
      · cases h
        generalize List.getLast _ _ = p
        cases p <;> rfl
      · cases h

/-- PendSV is not pending after its handler. -/
theorem preempt_pendsv (h : k.preempt cfg = .ok k') : k'.pendsv = false := by
  simp only [preempt] at h
  split at h
  · cases h
    exact switchThread_pendsv
  · split at h
    · split at h
      · obtain ⟨⟨k₁, n⟩, hd, hk⟩ := res_bind_eq_ok.1 h
        cases hk
        exact switchThread_pendsv.trans (chxTimerDequeue_pendsv hd)
      · cases h
        exact switchThread_pendsv
    · cases h
      exact switchThread_pendsv
/-! ## History -/

/-- Who woke a thread last is noted by wake-ups only. -/
theorem Move.wake_eq (hm : Move cfg op (off, k) (off', k')) (h : KernelInv off k)
    (ht : ∀ w, op ≠ .wake u w) (hex : op ≠ .expire) : k'.ghost.wake u = k.ghost.wake u := by
  have hne : ∀ {t w}, op = .wake t w → u ≠ t := by
    rintro t w rfl rfl
    exact ht w rfl
  cases hm with
  | wakeTimed hs hd hw =>
      obtain ⟨front, back, -, rfl, -⟩ := chxTimerDequeue_ok h.timer hd
      exact Function.update_of_ne (hne rfl) _ _
  | wakeQueued hq hw => exact Function.update_of_ne (hne rfl) _ _
  | wakeLoose hs hp hw => exact Function.update_of_ne (hne rfl) _ _
  | slice hr hs he =>
      rcases endSlice_ok h.timer he with rfl | ⟨front, back, -, -, rfl⟩ <;> rfl
  | sleep hs hst hpos hle =>
      rw [chxTimerInsert_wake h.timer_modThread.threads]
      rfl
  | switch hs =>
      rcases switchThread_switched cfg h with ⟨-, heq⟩ | ⟨t, hsw⟩
      · rw [heq]
      · rw [hsw.wake]
  | expire hp hr => exact absurd rfl hex
  | _ => rfl

end Chopstx
