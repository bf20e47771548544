import Chopstx.Section.Move

/-!
# The invariant of the kernel

`KernelInv` holds at every point of a critical section: every thread is where its
state says, but for the one thread that is linked nowhere at this point.  Every move
keeps it (`KernelInv.move`).

* `KernelInv` - the places of the threads, the timer (`TimerInv`), queues that hold threads only,
  the running thread, priorities of eight bits, and the records that are not given out yet.
* `KernelInv.move` - it is kept, with one lemma for each kind of move behind it (`place_acquire`,
  `place_dropMutex`, `ExpireInv`, `popped`, `sliced`).
* `Op.target`, `Move.untouched` - the thread that a move is about, and that it leaves the others
  alone.
-/

namespace Chopstx

open PrioQueue DeltaQueue Kernel

/-- What all operations keep. -/
structure KernelInv (off : Option Tid) (k : Kernel) : Prop where
  place : ∀ t, off ≠ some t → (k.place t).WellFormed
  out : ∀ t, off = some t → (k.place t).IsOut
  timer : TimerInv k
  readyThreads : k.HoldsThreads .ready
  mtxThreads : ∀ m, k.HoldsThreads (.mtx m)
  /-- Only the running thread is in the state of running. -/
  one : ∀ t, (k.thread t).state = .running → k.running = some t
  born : ∀ t, k.running = some t → t < k.nthread
  unborn : ∀ t, k.nthread ≤ t → (k.thread t).state = .exited ∧ (k.thread t).parent = none
  prio : ∀ t, (k.thread t).prio < 256
  prioOrig : ∀ t, (k.thread t).prioOrig < 256

namespace KernelInv

variable {off : Option Tid} {k k' : Kernel} {t : Tid} {q : Qh}

/-- The invariant is about these parts of the kernel. -/
theorem congr (h : KernelInv off k) (hr : k'.running = k.running) (hn : k'.nthread = k.nthread)
    (ht : k'.thread = k.thread) (hq : k'.queue = k.queue) (hc : k'.systick.count = k.systick.count)
    (hp : k'.systick.pending = k.systick.pending) : KernelInv off k' := by
  have hplace := place_congr ht hq
  refine ⟨hplace ▸ h.place, hplace ▸ h.out, ?_, ?_, ?_, ?_, ?_, ?_, ?_, ?_⟩
  · refine h.timer.congr (by rw [hq]) (fun p hp => ?_) hc hp
    obtain ⟨t, rfl⟩ := h.timer.threads p hp
    rw [pqV_thread, pqV_thread, ht]
  · intro p hp
    rw [hq] at hp
    exact h.readyThreads p hp
  · intro m p hp
    rw [hq] at hp
    exact h.mtxThreads m p hp
  · rw [ht, hr]
    exact h.one
  · rw [hr, hn]
    exact h.born
  · rw [hn, ht]
    exact h.unborn
  · rw [ht]
    exact h.prio
  · rw [ht]
    exact h.prioOrig

/-- A thread linked in a queue is there by its place. -/
theorem isIn_of_mem (h : KernelInv off k) (hm : .thread t ∈ k.queue q) : (k.place t).IsIn q := by
  have hpos := place_links_pos.2 hm
  refine (h.place t ?_).isIn_of_pos hpos
  rintro rfl
  rw [(h.out t rfl).links_eq] at hpos
  exact lt_irrefl _ hpos

/-- A thread that is linked nowhere is in no queue. -/
theorem notMem_of_out (h : KernelInv (some t) k) : .thread t ∉ k.queue q :=
  notMem_of_isOut (h.out t rfl)

theorem place' (h : KernelInv none k) (t : Tid) : (k.place t).WellFormed := h.place t (by simp)

/-- A change of one thread, which goes to a well-formed place. -/
theorem place_update {P : Place} (h : KernelInv off k) (hoff : off = none ∨ off = some t)
    (hp : k'.place = Function.update k.place t P) (hP : P.WellFormed) :
    (∀ u, (none : Option Tid) ≠ some u → (k'.place u).WellFormed) ∧
      ∀ u, (none : Option Tid) = some u → (k'.place u).IsOut := by
  refine ⟨fun u _ => ?_, fun u hu => by cases hu⟩
  rw [hp]
  by_cases hu : u = t
  · subst hu
    rwa [Function.update_self]
  · rw [Function.update_of_ne hu]
    refine h.place u ?_
    rintro rfl
    rcases hoff with hoff | hoff
    · cases hoff
    · exact hu (Option.some.inj hoff)

/-! ## Moves that change no queue of threads -/

theorem pass {s : Systick} (h : KernelInv off k) (hs : k.systick.Later s) :
    KernelInv off (k.setSystick s) :=
  ⟨h.place, h.out, h.timer.later hs, h.readyThreads, h.mtxThreads, h.one, h.born, h.unborn,
    h.prio, h.prioOrig⟩

/-- A change of fields of a thread that say nothing about its place. -/
theorem modThread {f : Thread → Thread} (h : KernelInv off k)
    (hs : (f (k.thread t)).state = (k.thread t).state)
    (hpar : (f (k.thread t)).parent = (k.thread t).parent)
    (hr : (f (k.thread t)).flagSchedRr = (k.thread t).flagSchedRr)
    (hv : (f (k.thread t)).v = (k.thread t).v) (hp : (f (k.thread t)).prio < 256)
    (hpo : (f (k.thread t)).prioOrig < 256) : KernelInv off (k.modThread t f) := by
  have hplace : (k.modThread t f).place = k.place := place_modThread_of hs hpar hr
  refine ⟨hplace ▸ h.place, hplace ▸ h.out, ?_, h.readyThreads, h.mtxThreads, ?_, h.born, ?_, ?_,
    ?_⟩
  · refine h.timer.congr rfl (fun p hp => ?_) rfl rfl
    obtain ⟨u, rfl⟩ := h.timer.threads p hp
    by_cases hu : u = t
    · subst hu
      simp [hv]
    · simp [hu]
  · intro u hu
    refine h.one u ?_
    by_cases hut : u = t
    · subst hut
      rw [modThread_thread, Function.update_self, hs] at hu
      exact hu
    · rw [modThread_thread, Function.update_of_ne hut] at hu
      exact hu
  · intro u hu
    by_cases hut : u = t
    · subst hut
      rw [modThread_thread, Function.update_self, hs, hpar]
      exact h.unborn u hu
    · rw [modThread_thread, Function.update_of_ne hut]
      exact h.unborn u hu
  · intro u
    by_cases hut : u = t
    · subst hut
      simpa using hp
    · simpa [hut] using h.prio u
  · intro u
    by_cases hut : u = t
    · subst hut
      simpa using hpo
    · simpa [hut] using h.prioOrig u

/-! ## Moves that change the place of a thread -/

/-- A change that moves one thread to a well-formed place. -/
theorem relocate {P : Place} (h : KernelInv off k) (hoff : off = none ∨ off = some t)
    (hn : k'.nthread = k.nthread) (hr : ∀ u, k'.running = some u → u < k.nthread)
    (hone : ∀ u, (k'.place u).state = .running → k'.running = some u)
    (hplace : k'.place = Function.update k.place t P) (hP : P.WellFormed)
    (hth : ∀ u, u ≠ t → k'.thread u = { k.thread u with v := (k'.thread u).v })
    (ht : t < k.nthread) (hp : (k'.thread t).prio < 256) (hpo : (k'.thread t).prioOrig < 256)
    (htimer : TimerInv k') (hready : k'.HoldsThreads .ready)
    (hmtx : ∀ m, k'.HoldsThreads (.mtx m)) : KernelInv none k' := by
  obtain ⟨hpl, hout⟩ := h.place_update hoff hplace hP
  refine ⟨hpl, hout, htimer, hready, hmtx, hone, ?_, ?_, ?_, ?_⟩
  · intro u hu
    rw [hn]
    exact hr u hu
  · intro u hu
    rw [hn] at hu
    have hut : u ≠ t := by
      rintro rfl
      exact absurd ht (not_lt.2 hu)
    rw [hth u hut]
    exact h.unborn u hu
  · intro u
    by_cases hut : u = t
    · exact hut ▸ hp
    · rw [hth u hut]
      exact h.prio u
  · intro u
    by_cases hut : u = t
    · exact hut ▸ hpo
    · rw [hth u hut]
      exact h.prioOrig u

/-- A linked thread has been created. -/
theorem lt_of_isIn (h : KernelInv off k) (hin : (k.place t).IsIn q) : t < k.nthread := by
  by_contra hge
  have hpar := hin.1
  rw [place_parent, (h.unborn t (not_lt.1 hge)).2] at hpar
  cases hpar

/-- So has a thread that has not ended. -/
theorem lt_of_state (h : KernelInv off k) (hs : (k.thread t).state ≠ .exited) : t < k.nthread := by
  by_contra hge
  exact hs (h.unborn t (not_lt.1 hge)).1

end KernelInv

/-! ## Wake-up -/

namespace Kernel

variable {k : Kernel} {t u : Tid} {q : Qh} {w : Waker} {v : Nat}

theorem resume_thread :
    (k.resume t w v).thread = Function.update k.thread t
      { k.thread t with v := v, state := .ready, parent := some .ready } := by
  simp only [resume, chxReadyEnqueue_thread, setV, modThread_thread_eq, noteWake_thread,
    Function.update_self, Function.update_idem]
  rfl

@[simp] theorem place_resume :
    (k.resume t w v).place = Function.update k.place t (k.place t).toReady := by
  rw [resume, place_chxReadyEnqueue, place_setV, place_noteWake]

theorem resume_queue_of_ne (h : q ≠ .ready) : (k.resume t w v).queue q = k.queue q := by
  rw [resume, chxReadyEnqueue_queue_of_ne h]
  rfl

theorem resume_queue_perm :
    ((k.resume t w v).queue .ready).Perm (.thread t :: k.queue .ready) := by
  rw [resume]
  exact chxReadyEnqueue_queue_perm

end Kernel

namespace KernelInv

variable {cfg : Config} {off : Option Tid} {k k' k₁ : Kernel} {t : Tid} {q : Qh} {w : Waker}
  {n v : Nat}

/-- A thread that has been taken out of its queue is resumed. -/
theorem resume (h : KernelInv none k) (hn : k₁.nthread = k.nthread) (hr : k₁.running = k.running)
    (hplace : k₁.place = Function.update k.place t (k.place t).unlinked)
    (hth : ∀ u, k₁.thread u = { k.thread u with v := (k₁.thread u).v })
    (hst : (k.thread t).state ≠ .running) (hx : (k.thread t).state ≠ .exited)
    (htimer : TimerInv k₁) (hready : k₁.HoldsThreads .ready)
    (hmtx : ∀ m, k₁.HoldsThreads (.mtx m)) : KernelInv none (k₁.resume t w v) := by
  have hout : (k₁.place t).IsOut := by
    rw [hplace, Function.update_self]
    rfl
  refine h.relocate (t := t) (P := (k.place t).unlinked.toReady) (.inl rfl) hn
    (fun u hu => h.born u (hr ▸ hu)) ?_ ?_ (Place.IsOut.wellFormed_toReady rfl) ?_
    (h.lt_of_state hx) ?_ ?_ ?_ ?_ ?_
  · intro u hu
    have hrun : (k₁.resume t w v).running = k.running := hr
    rw [hrun]
    refine h.one u ?_
    rw [place_resume] at hu
    by_cases hut : u = t
    · subst hut
      rw [Function.update_self] at hu
      cases hu
    · rw [Function.update_of_ne hut, hplace, Function.update_of_ne hut] at hu
      exact hu
  · rw [place_resume, hplace, Function.update_idem, Function.update_self]
  · intro u hut
    rw [resume_thread, Function.update_of_ne hut]
    exact hth u
  · rw [resume_thread, Function.update_self, hth t]
    exact h.prio t
  · rw [resume_thread, Function.update_self, hth t]
    exact h.prioOrig t
  · refine htimer.congr_thread (resume_queue_of_ne (by simp)) (fun u hu => ?_) rfl
    have hut : u ≠ t := by
      rintro rfl
      exact notMem_of_isOut hout hu
    rw [resume_thread, Function.update_of_ne hut]
  · exact hready.of_perm resume_queue_perm
  · intro m
    exact (hmtx m).congr (resume_queue_of_ne (by simp))

theorem dequeued_thread {front back : List Pq} (u : Tid) :
    (k.dequeued t front back).thread u =
      { k.thread u with v := ((k.dequeued t front back).thread u).v } := rfl

/-- Only threads of `q_timer` get other values. -/
theorem dequeued_v_of_notMem {front back : List Pq} {u : Tid}
    (hq : k.queue .timer = front ++ .thread t :: back) (hu : .thread u ∉ k.queue .timer)
    (hut : u ≠ t) : ((k.dequeued t front back).thread u).v = (k.thread u).v := by
  have hv : ((k.dequeued t front back).thread u).v = k.dequeueVals t front u := rfl
  rw [hv, dequeueVals, Function.update_of_ne hut]
  refine writeLast_of_ne fun hl => hu ?_
  rw [hq]
  exact List.mem_append_left _ (List.mem_of_getLast? hl)

theorem wakeTimed (h : KernelInv none k)
    (hs : (k.thread t).state = .waitTime ∨ (k.thread t).state = .waitPoll)
    (hd : k.chxTimerDequeue t = .ok (k₁, n)) : KernelInv none (k₁.resume t w v) := by
  obtain ⟨front, back, hq, rfl, -⟩ := chxTimerDequeue_ok h.timer hd
  refine h.resume rfl rfl place_dequeued dequeued_thread ?_ ?_ (h.timer.dequeue hq) ?_ ?_
  · rcases hs with hs | hs <;> simp [hs]
  · rcases hs with hs | hs <;> simp [hs]
  · exact h.readyThreads.llDequeue
  · intro m
    exact (h.mtxThreads m).llDequeue

/-- A thread in a queue other than `q_timer` does not sleep there. -/
theorem notMem_timer_of_isIn (hin : (k.place t).IsIn q) (hq : q ≠ .timer) :
    .thread t ∉ k.queue .timer := by
  intro hm
  exact hq (hin.links_pos (place_links_pos.2 hm)).symm

theorem wakeQueued (h : KernelInv none k) (hin : (k.place t).IsIn q) (hw : WakesQueued q w v) :
    KernelInv none ((k.llDequeue (.thread t)).resume t w v) := by
  have hwf := h.place' t
  have hqt : q ≠ .timer := by
    rintro rfl
    cases hw
  have hqr : q ≠ .ready := by
    rintro rfl
    cases hw
  have hnot := notMem_timer_of_isIn hin hqt
  have hlinked : ∀ q', (k.place t).IsIn q' → q' = q := fun q' hq' =>
    Option.some.inj (hq'.1.symm.trans hin.1)
  refine h.resume rfl rfl place_llDequeue_thread (fun u => rfl) ?_ ?_ ?_ ?_ ?_
  · intro hs
    have := hwf.running hs
    split at this
    · exact hqt (hlinked _ this).symm
    · exact absurd hin.links_self (by rw [this.links_eq]; simp)
  · intro hs
    exact absurd hin.links_self (by rw [(hwf.ended (.inl hs)).links_eq]; simp)
  · exact h.timer.congr_thread (llDequeue_queue_of_notMem hnot) (fun u _ => rfl) rfl
  · exact h.readyThreads.llDequeue
  · intro m
    exact (h.mtxThreads m).llDequeue

theorem isOut_of_parent (h : KernelInv none k) (hs : (k.thread t).state = .waitPoll)
    (hp : (k.thread t).parent ≠ some .timer) : (k.place t).IsOut := by
  rcases (h.place' t).waitPoll hs with hin | hout
  · exact absurd hin.1 hp
  · exact hout

theorem wakeLoose (h : KernelInv none k) (hs : (k.thread t).state = .waitPoll)
    (hp : (k.thread t).parent ≠ some .timer) : KernelInv none (k.resume t w v) := by
  have hout := h.isOut_of_parent hs hp
  refine h.resume rfl rfl ?_ (fun u => rfl) (by simp [hs]) (by simp [hs])
    h.timer h.readyThreads h.mtxThreads
  have hun : (k.place t).unlinked = k.place t := by
    rw [Place.unlinked, ← show (k.place t).links = 0 from hout]
  rw [hun, Function.update_eq_self]

/-! ## The running thread on its way -/

/-- After `endSlice` the running thread is linked nowhere. -/
theorem slice (h : KernelInv none k) (hs : (k.thread t).state = .running)
    (he : k.endSlice t = .ok k') : KernelInv (some t) k' ∧ k'.running = k.running ∧
      k'.nthread = k.nthread ∧ (∀ u, k'.thread u = { k.thread u with v := (k'.thread u).v }) := by
  have hwf := (h.place' t).running hs
  rw [endSlice] at he
  rw [place_schedRr] at hwf
  split at he
  · obtain ⟨⟨k₁, n⟩, hd, hk⟩ := res_bind_eq_ok.1 he
    cases hk
    obtain ⟨front, back, hq, rfl, -⟩ := chxTimerDequeue_ok h.timer hd
    refine ⟨⟨?_, ?_, h.timer.dequeue hq, h.readyThreads.llDequeue,
      fun m => (h.mtxThreads m).llDequeue, h.one, h.born, ?_, h.prio, h.prioOrig⟩, rfl, rfl,
      dequeued_thread⟩
    · intro u hu
      have hut : u ≠ t := fun e => hu (e ▸ rfl)
      rw [place_dequeued, Function.update_of_ne hut]
      exact h.place' u
    · intro u hu
      cases hu
      rw [place_dequeued, Function.update_self]
      rfl
    · intro u hu
      have hut : u ≠ t := by
        rintro rfl
        exact absurd (h.lt_of_state (by simp [hs])) (not_lt.2 hu)
      rw [dequeued_thread]
      exact h.unborn u hu
  · rename_i hf
    cases he
    rw [if_neg (by simpa using hf)] at hwf
    refine ⟨⟨fun u _ => h.place' u, ?_, h.timer, h.readyThreads, h.mtxThreads, h.one, h.born,
      h.unborn, h.prio, h.prioOrig⟩, rfl, rfl, fun _ => rfl⟩
    intro u hu
    cases hu
    exact hwf

theorem lt_of_off (h : KernelInv (some t) k) (hs : (k.thread t).state = .running) :
    t < k.nthread := h.lt_of_state (by simp [hs])

/-- The running thread goes to a place in which it is not running. -/
theorem relocate_off {P : Place} (h : KernelInv (some t) k) (hs : (k.thread t).state = .running)
    (hn : k'.nthread = k.nthread) (hr : k'.running = k.running ∨ k'.running = none)
    (hplace : k'.place = Function.update k.place t P) (hP : P.WellFormed)
    (hPs : P.state ≠ .running)
    (hth : ∀ u, u ≠ t → k'.thread u = { k.thread u with v := (k'.thread u).v })
    (hp : (k'.thread t).prio = (k.thread t).prio)
    (hpo : (k'.thread t).prioOrig = (k.thread t).prioOrig)
    (htimer : TimerInv k') (hready : k'.HoldsThreads .ready)
    (hmtx : ∀ m, k'.HoldsThreads (.mtx m)) : KernelInv none k' := by
  refine h.relocate (.inr rfl) hn ?_ ?_ hplace hP hth (h.lt_of_off hs) (hp ▸ h.prio t)
    (hpo ▸ h.prioOrig t) htimer hready hmtx
  · intro u hu
    rcases hr with hr | hr
    · exact h.born u (hr ▸ hu)
    · rw [hr] at hu
      cases hu
  · intro u hu
    rw [hplace] at hu
    by_cases hut : u = t
    · subst hut
      rw [Function.update_self] at hu
      exact absurd hu hPs
    · rw [Function.update_of_ne hut] at hu
      have hut' := (h.one t hs).symm.trans (h.one u hu)
      exact absurd (Option.some.inj hut').symm hut

theorem block {st : ThreadState} {v : Option Nat} (h : KernelInv (some t) k)
    (hs : (k.thread t).state = .running) (hq : Blocks q st) :
    KernelInv none ((k.llPrioEnqueue (.thread t) q).modThread t fun th =>
      { th with state := st, v := v.getD th.v }) := by
  have hout := h.out t rfl
  have hqt : q ≠ .timer := by
    rintro rfl
    cases hq
  have hqr : q ≠ .ready := by
    rintro rfl
    cases hq
  have hin : Place.IsIn { k.place t with
      state := st, parent := some q, links := (k.place t).links + Pi.single q 1 } q :=
    ⟨rfl, by simp only [show (k.place t).links = 0 from hout, zero_add]⟩
  refine h.relocate_off (P := { k.place t with
      state := st, parent := some q, links := (k.place t).links + Pi.single q 1 }) hs rfl (.inl rfl)
    ?_ ?_ ?_ ?_ ?_ ?_ ?_ ?_ ?_
  · rw [place_modThread, place_llPrioEnqueue, Function.update_idem, Function.update_self]
    simp [llPrioEnqueue_thread]
  · cases hq with
    | mtx m => exact ⟨m, hin⟩
    | cnd c => exact ⟨c, hin⟩
    | join => exact hin
  · cases hq <;> simp
  · intro u hut
    simp [llPrioEnqueue_thread, hut]
  · simp [llPrioEnqueue_thread]
  · simp [llPrioEnqueue_thread]
  · refine h.timer.congr_thread (llPrioEnqueue_queue_of_ne hqt.symm) (fun u hu => ?_) rfl
    have hut : u ≠ t := by
      rintro rfl
      exact notMem_of_isOut hout hu
    simp [llPrioEnqueue_thread, hut]
  · exact h.readyThreads.congr (llPrioEnqueue_queue_of_ne hqr.symm)
  · intro m
    by_cases hqm : q = .mtx m
    · subst hqm
      exact (h.mtxThreads m).of_perm llPrioEnqueue_queue_perm
    · exact (h.mtxThreads m).congr (llPrioEnqueue_queue_of_ne (Ne.symm hqm))

/-- A change of the thread on its way is none of `q_timer`. -/
theorem timer_modThread {f : Thread → Thread} (h : KernelInv (some t) k) :
    TimerInv (k.modThread t f) := by
  refine h.timer.congr_thread rfl (fun u hu => ?_) rfl
  have hut : u ≠ t := by
    rintro rfl
    exact notMem_of_isOut (h.out u rfl) hu
  rw [modThread_thread, Function.update_of_ne hut]

theorem sleep {cfg : Config} {st : ThreadState} {usec : Nat} (h : KernelInv (some t) k)
    (hs : (k.thread t).state = .running) (hst : st = .waitTime ∨ st = .waitPoll)
    (hpos : 0 < usecToTicks cfg usec) (hle : usecToTicks cfg usec ≤ 16777215) :
    KernelInv none ((k.modThread t fun th => { th with state := st }).chxTimerInsert cfg t
      usec) := by
  have hout := h.out t rfl
  have hnot : .thread t ∉ k.queue .timer := notMem_of_isOut hout
  set k₀ := k.modThread t fun th => { th with state := st } with hk₀
  have hT : TimerInv k₀ := h.timer_modThread
  have hin : Place.IsIn { k.place t with
      state := st, parent := some .timer, links := (k.place t).links + Pi.single .timer 1 }
      .timer :=
    ⟨rfl, by simp only [show (k.place t).links = 0 from hout, zero_add]⟩
  have hprio : (k₀.thread t).prio = (k.thread t).prio ∧
      (k₀.thread t).prioOrig = (k.thread t).prioOrig := by
    simp [hk₀]
  have hrest : (k₀.chxTimerInsert cfg t usec).nthread = k.nthread ∧
      (k₀.chxTimerInsert cfg t usec).running = k.running := by
    rw [chxTimerInsert_eq hT.threads]
    exact ⟨rfl, rfl⟩
  refine h.relocate_off (P := { k.place t with
      state := st, parent := some .timer, links := (k.place t).links + Pi.single .timer 1 }) hs
    hrest.1 (.inl hrest.2) ?_ ?_ ?_ ?_ ?_ ?_ ?_ ?_ ?_
  · rw [place_chxTimerInsert hT, hk₀, place_modThread, Function.update_idem, Function.update_self]
    rfl
  · rcases hst with rfl | rfl
    · exact hin
    · exact .inl hin
  · rcases hst with rfl | rfl <;> simp
  · intro u hut
    rw [chxTimerInsert_thread hT, if_neg hut]
    simp [hk₀, hut]
  · rw [chxTimerInsert_thread hT]
    exact hprio.1
  · rw [chxTimerInsert_thread hT]
    exact hprio.2
  · exact hT.insert hnot hpos hle
  · exact h.readyThreads.congr (chxTimerInsert_queue_of_ne hT (by simp))
  · intro m
    exact (h.mtxThreads m).congr (chxTimerInsert_queue_of_ne hT (by simp))

theorem pollSleep (h : KernelInv (some t) k) (hs : (k.thread t).state = .running) :
    KernelInv none (k.modThread t fun th => { th with state := .waitPoll }) := by
  have hout := h.out t rfl
  refine h.relocate_off (P := { k.place t with state := .waitPoll }) hs rfl (.inl rfl) ?_
    (.inr hout) (by simp) ?_ ?_ ?_ h.timer_modThread h.readyThreads h.mtxThreads
  · rw [place_modThread]
    rfl
  · intro u hut
    simp [hut]
  · simp
  · simp

theorem die {st : ThreadState} {retval : Nat} (h : KernelInv (some t) k)
    (hs : (k.thread t).state = .running) (hst : st = .exited ∨ st = .finished) :
    KernelInv none (k.modThread t fun th => { th with state := st, v := retval }) := by
  have hout := h.out t rfl
  refine h.relocate_off (P := { k.place t with state := st }) hs rfl (.inl rfl) ?_ ?_ ?_ ?_ ?_ ?_
    h.timer_modThread h.readyThreads h.mtxThreads
  · rw [place_modThread]
    rfl
  · rcases hst with rfl | rfl <;> exact hout
  · rcases hst with rfl | rfl <;> simp
  · intro u hut
    simp [hut]
  · simp
  · simp

theorem yield (h : KernelInv (some t) k) (hs : (k.thread t).state = .running) :
    KernelInv none { k.chxReadyEnqueue t with running := none } := by
  have hout := h.out t rfl
  refine h.relocate_off (P := (k.place t).toReady) hs rfl (.inr rfl) place_chxReadyEnqueue
    hout.wellFormed_toReady (by simp) ?_ ?_ ?_ ?_
    (h.readyThreads.of_perm chxReadyEnqueue_queue_perm)
    (fun m => (h.mtxThreads m).congr
      (chxReadyEnqueue_queue_of_ne (k := k) (t := t) (q := .mtx m) (by simp)))
  · intro u hut
    simp [chxReadyEnqueue_thread, hut]
  · simp [chxReadyEnqueue_thread]
  · simp [chxReadyEnqueue_thread]
  · refine h.timer.congr_thread (chxReadyEnqueue_queue_of_ne (k := k) (t := t) (q := .timer)
      (by simp)) (fun u hu => ?_) rfl
    have hut : u ≠ t := by
      rintro rfl
      exact notMem_of_isOut hout hu
    simp [chxReadyEnqueue_thread, hut]

/-- A thread that is linked nowhere may be taken to be on its way. -/
theorem to_off (h : KernelInv none k) (hout : (k.place t).IsOut) : KernelInv (some t) k :=
  ⟨fun u _ => h.place' u, fun u hu => by cases hu; exact hout, h.timer, h.readyThreads,
    h.mtxThreads, h.one, h.born, h.unborn, h.prio, h.prioOrig⟩

theorem push (h : KernelInv none k) (hs : (k.thread t).state = .running)
    (hf : (k.thread t).flagSchedRr = false) :
    KernelInv none { k.chxReadyPush t with running := none } := by
  have hout : (k.place t).IsOut := by
    have := (h.place' t).running hs
    rwa [if_neg (by simp [hf])] at this
  refine (h.to_off hout).relocate_off (P := (k.place t).toReady) hs rfl (.inr rfl)
    place_chxReadyPush hout.wellFormed_toReady (by simp) ?_ ?_ ?_ ?_
    (h.readyThreads.of_perm chxReadyPush_queue_perm)
    (fun m => (h.mtxThreads m).congr
      (chxReadyPush_queue_of_ne (k := k) (t := t) (q := .mtx m) (by simp)))
  · intro u hut
    simp [chxReadyPush_thread, hut]
  · simp [chxReadyPush_thread]
  · simp [chxReadyPush_thread]
  · refine h.timer.congr_thread (chxReadyPush_queue_of_ne (k := k) (t := t) (q := .timer)
      (by simp)) (fun u hu => ?_) rfl
    have hut : u ≠ t := by
      rintro rfl
      exact notMem_of_isOut hout hu
    simp [chxReadyPush_thread, hut]

theorem norun (h : KernelInv none k) (hr : k.running = some t)
    (hs : (k.thread t).state = .ready) : KernelInv none { k with running := none } := by
  refine ⟨h.place, h.out, h.timer.congr_thread rfl (fun _ _ => rfl) rfl, h.readyThreads,
    h.mtxThreads, ?_, by simp, h.unborn, h.prio, h.prioOrig⟩
  intro u hu
  have hu' := h.one u hu
  rw [hr] at hu'
  cases hu'
  rw [hs] at hu
  cases hu

end KernelInv

/-! ## Context switch -/

namespace Kernel

variable {cfg : Config} {k : Kernel} {t : Tid}

/-- The thread `t` is popped from `q_ready` to run. -/
def popped (k : Kernel) (t : Tid) : Kernel :=
  (k.llDequeue (.thread t)).modThread t fun th => { th with state := .running }

/-- It gets a slice if it is round-robin. -/
def sliced (cfg : Config) (k : Kernel) (t : Tid) : Kernel :=
  if (k.thread t).flagSchedRr then k.chxTimerInsert cfg t cfg.preemptionUsec else k

/-- What a context switch does. -/
theorem switchThread_cases (cfg : Config) (h : k.HoldsThreads .ready) :
    (k.queue .ready = [] ∧ k.switchThread cfg = { k with running := none, masked := false }) ∨
      ∃ t rest, k.queue .ready = .thread t :: rest ∧
        k.switchThread cfg = { (k.popped t).sliced cfg t with
          running := some t
          masked := if prioInhibitPreemption ≤ (((k.popped t).sliced cfg t).thread t).prio then
            ((k.popped t).sliced cfg t).masked else false } := by
  cases hq : k.queue .ready with
  | nil =>
      left
      simp [switchThread, chxReadyPop, llPop, hq]
  | cons p rest =>
      obtain ⟨t, rfl⟩ := h p (by rw [hq]; exact List.mem_cons_self ..)
      right
      refine ⟨t, rest, rfl, ?_⟩
      simp only [switchThread, chxReadyPop, llPop, hq]
      rfl

theorem popped_thread : (k.popped t).thread = Function.update k.thread t
    { k.thread t with state := .running } := rfl

theorem popped_place : (k.popped t).place = Function.update k.place t
    { (k.place t).unlinked with state := .running } := by
  rw [popped, place_modThread, place_llDequeue_thread, Function.update_idem, Function.update_self]
  rfl

/-- A slice fits into the counter. -/
theorem slice_ticks (cfg : Config) : 0 < usecToTicks cfg cfg.preemptionUsec ∧
    usecToTicks cfg cfg.preemptionUsec ≤ 16777215 := by
  have h := cfg.slice_le
  have hpos := Nat.mul_pos cfg.preemptionUsec_pos cfg.mhz_pos
  rw [usecToTicks, Nat.mod_eq_of_lt (by omega)]
  exact ⟨hpos, h⟩

end Kernel

namespace KernelInv

variable {cfg : Config} {off : Option Tid} {k k' k₁ : Kernel} {t : Tid} {q : Qh} {w : Waker}
  {n v : Nat}

/-- The state of a thread in a queue. -/
theorem holds_of_mem (h : KernelInv off k) (hm : .thread t ∈ k.queue q) :
    q.Holds (k.thread t).state := by
  refine (h.place t ?_).holds (h.isIn_of_mem hm)
  rintro rfl
  exact notMem_of_isOut (h.out t rfl) hm

/-- A thread in `q_ready` is ready. -/
theorem state_of_mem_ready (h : KernelInv off k) (hm : .thread t ∈ k.queue .ready) :
    (k.thread t).state = .ready :=
  h.holds_of_mem hm

/-- The popped thread is not in `q_timer`. -/
theorem popped_timer (h : KernelInv off k) (hm : .thread t ∈ k.queue .ready) :
    TimerInv (k.popped t) := by
  have hnot : .thread t ∉ k.queue .timer := notMem_timer_of_isIn (h.isIn_of_mem hm) (by simp)
  refine h.timer.congr_thread (llDequeue_queue_of_notMem hnot) (fun u hu => ?_) rfl
  have hut : u ≠ t := by
    rintro rfl
    exact hnot hu
  simp [popped_thread, hut]

theorem switch (h : KernelInv none k) (hs : ∀ u, (k.thread u).state ≠ .running) :
    KernelInv none (k.switchThread cfg) ∧
      ∀ u, (k.switchThread cfg).running = some u →
        ((k.switchThread cfg).thread u).state = .running := by
  rcases switchThread_cases cfg h.readyThreads with ⟨-, heq⟩ | ⟨t, rest, hq, heq⟩
  · rw [heq]
    refine ⟨⟨h.place, h.out, h.timer.congr_thread rfl (fun _ _ => rfl) rfl, h.readyThreads,
      h.mtxThreads, fun u hu => absurd hu (hs u), by simp, h.unborn, h.prio, h.prioOrig⟩, by simp⟩
  · rw [heq]
    have hm : .thread t ∈ k.queue .ready := by
      rw [hq]
      exact List.mem_cons_self ..
    have hin := h.isIn_of_mem hm
    have hnot : .thread t ∉ k.queue .timer := notMem_timer_of_isIn hin (by simp)
    have ht := h.lt_of_isIn hin
    have hT : TimerInv (k.popped t) := h.popped_timer hm
    have hnot' : .thread t ∉ (k.popped t).queue .timer := fun hm' =>
      hnot (List.mem_of_mem_filter hm')
    have hout : (k.place t).unlinked.links = 0 := rfl
    have hready : (k.popped t).HoldsThreads .ready := h.readyThreads.llDequeue
    have hmtx : ∀ m, (k.popped t).HoldsThreads (.mtx m) := fun m => (h.mtxThreads m).llDequeue
    have hsched : ((k.popped t).thread t).flagSchedRr = (k.thread t).flagSchedRr := by
      simp [popped_thread]
    have hone : ∀ (K : Kernel) (P : Place), K.place = Function.update k.place t P →
        ∀ u, (K.place u).state = .running → some t = some u := by
      intro K P hK u hu
      by_cases hut : u = t
      · rw [hut]
      · rw [hK, Function.update_of_ne hut] at hu
        exact absurd hu (hs u)
    have hborn : ∀ u, some t = some u → u < k.nthread := by
      rintro u hu
      cases hu
      exact ht
    by_cases hrr : (k.thread t).flagSchedRr = true
    · rw [sliced, if_pos (hsched.trans hrr)]
      set k₁ := (k.popped t).chxTimerInsert cfg t cfg.preemptionUsec with hk₁
      have hplace : k₁.place = _ := place_chxTimerInsert hT
      rw [popped_place, Function.update_idem, Function.update_self] at hplace
      have hn : k₁.nthread = k.nthread := by
        rw [hk₁, chxTimerInsert_eq hT.threads]
        rfl
      have hth : ∀ u, ((k.popped t).chxTimerInsert cfg t cfg.preemptionUsec).thread u =
          { (k.popped t).thread u with
            v := (((k.popped t).chxTimerInsert cfg t cfg.preemptionUsec).thread u).v
            parent := if u = t then some .timer else ((k.popped t).thread u).parent } := fun u =>
        chxTimerInsert_thread hT
      refine ⟨h.relocate (.inl rfl) hn hborn (hone _ _ hplace) hplace ?_ ?_ ht
        ?_ ?_ ?_ ?_ ?_, ?_⟩
      · rw [Place.WellFormed]
        simp only [place_schedRr, Place.unlinked_schedRr, hrr, if_true]
        exact ⟨rfl, zero_add _⟩
      · intro u hut
        simp only
        rw [hth u, if_neg hut]
        simp [popped_thread, hut]
      · simp only
        rw [hth t]
        simpa [popped_thread] using h.prio t
      · simp only
        rw [hth t]
        simpa [popped_thread] using h.prioOrig t
      · exact (hT.insert hnot' (slice_ticks cfg).1 (slice_ticks cfg).2).congr_thread rfl
          (fun _ _ => rfl) rfl
      · exact hready.congr (chxTimerInsert_queue_of_ne (k := k.popped t) hT (by simp))
      · intro m
        exact (hmtx m).congr (chxTimerInsert_queue_of_ne (k := k.popped t) hT (by simp))
      · intro u hu
        cases hu
        simp only
        rw [hth t]
        simp [popped_thread]
    · rw [sliced, if_neg (by rw [hsched]; exact hrr)]
      refine ⟨h.relocate (.inl rfl) rfl hborn (hone _ _ popped_place) popped_place ?_ ?_ ht
        ?_ ?_ ?_ hready hmtx, ?_⟩
      · rw [Place.WellFormed]
        simp only [place_schedRr, Place.unlinked_schedRr, hrr]
        rfl
      · intro u hut
        simp [popped_thread, hut]
      · simpa [popped_thread] using h.prio t
      · simpa [popped_thread] using h.prioOrig t
      · exact hT.congr_thread rfl (fun _ _ => rfl) rfl
      · intro u hu
        cases hu
        simp [popped_thread]

/-! ## Priorities, creation, expiry -/

theorem raise {p : Nat} (h : KernelInv none k) (hp : p < 256) (hin : (k.place t).IsIn q)
    (hst : (k.thread t).state = .ready ∨ (k.thread t).state = .waitMtx ∨
      (k.thread t).state = .waitCnd) :
    KernelInv none (((k.setPrio t p).llDequeue (.thread t)).llPrioEnqueue (.thread t) q) := by
  have ht := h.lt_of_isIn hin
  have hwf := h.place' t
  have hqt : q ≠ .timer := by
    rintro rfl
    rcases hst with hs | hs | hs
    · cases hin.1.symm.trans (hwf.ready hs).1
    · obtain ⟨m, hm⟩ := hwf.waitMtx hs
      cases hin.1.symm.trans hm.1
    · obtain ⟨c, hc⟩ := hwf.waitCnd hs
      cases hin.1.symm.trans hc.1
  have hk := h.modThread (t := t) (f := fun th => { th with prio := p }) rfl rfl rfl rfl hp
    (h.prioOrig t)
  have hplace : (((k.setPrio t p).llDequeue (.thread t)).llPrioEnqueue (.thread t) q).place =
      k.place := by
    have hpl : (k.setPrio t p).place = k.place := place_modThread_of rfl rfl rfl
    rw [place_llPrioEnqueue, place_llDequeue_thread, Function.update_idem, Function.update_self,
      hpl]
    refine Function.update_eq_self_iff.2 ?_
    obtain ⟨hpar, hl⟩ := hin
    rw [Place.unlinked, zero_add, ← hl, ← hpar]
  have hth : ∀ u, (((k.setPrio t p).llDequeue (.thread t)).llPrioEnqueue (.thread t) q).thread u =
      { (k.setPrio t p).thread u with
        parent := if u = t then some q else ((k.setPrio t p).thread u).parent } := by
    intro u
    by_cases hut : u = t
    · subst hut
      simp [llPrioEnqueue_thread]
    · simp [llPrioEnqueue_thread, hut]
  refine ⟨hplace ▸ h.place, hplace ▸ h.out, ?_, ?_, ?_, ?_, h.born, ?_, ?_, ?_⟩
  · refine h.timer.congr_thread ?_ (fun u hu => ?_) rfl
    · rw [llPrioEnqueue_queue_of_ne hqt.symm, llDequeue_queue_of_notMem]
      · rfl
      · exact notMem_timer_of_isIn (k := k) hin hqt
    · rw [hth]
      have hut : u ≠ t := by
        rintro rfl
        exact notMem_timer_of_isIn hin hqt hu
      simp [setPrio, hut]
  · have hr : ((k.setPrio t p).llDequeue (.thread t)).HoldsThreads .ready :=
      h.readyThreads.llDequeue
    by_cases hq : q = .ready
    · subst hq
      exact hr.of_perm llPrioEnqueue_queue_perm
    · exact hr.congr (llPrioEnqueue_queue_of_ne (Ne.symm hq))
  · intro m
    have hm : ((k.setPrio t p).llDequeue (.thread t)).HoldsThreads (.mtx m) :=
      (h.mtxThreads m).llDequeue
    by_cases hq : q = .mtx m
    · subst hq
      exact hm.of_perm llPrioEnqueue_queue_perm
    · exact hm.congr (llPrioEnqueue_queue_of_ne (Ne.symm hq))
  · intro u hu
    rw [hth] at hu
    exact hk.one u hu
  · intro u hu
    have hut : u ≠ t := by
      rintro rfl
      exact absurd ht (not_lt.2 hu)
    rw [hth, if_neg hut]
    exact hk.unborn u hu
  · intro u
    rw [hth]
    exact hk.prio u
  · intro u
    rw [hth]
    exact hk.prioOrig u

theorem create (h : KernelInv none k) (flagsAndPrio : Nat) :
    KernelInv none ({ k with
      nthread := k.nthread + 1
      thread := Function.update k.thread k.nthread
        (newThread flagsAndPrio) }.chxReadyEnqueue k.nthread) := by
  have hub := h.unborn k.nthread (le_refl _)
  have hout : (k.place k.nthread).IsOut :=
    (h.place' _).ended (.inl (by rw [place_state, hub.1]))
  have hlt := Nat.mod_lt flagsAndPrio (show 0 < 256 by omega)
  set k₀ : Kernel := { k with
    nthread := k.nthread + 1
    thread := Function.update k.thread k.nthread (newThread flagsAndPrio) } with hk₀
  have hth : ∀ u, u ≠ k.nthread → k₀.thread u = k.thread u := fun u hu => by simp [hk₀, hu]
  have hnew : k₀.thread k.nthread = newThread flagsAndPrio := by simp [hk₀]
  have hplace : k₀.place = Function.update k.place k.nthread (k₀.place k.nthread) := by
    funext u
    by_cases hu : u = k.nthread
    · rw [hu, Function.update_self]
    · rw [Function.update_of_ne hu]
      simp only [Kernel.place, hth u hu]
      rfl
  have hout₀ : (k₀.place k.nthread).IsOut := hout
  have hinv : KernelInv none k₀ := by
    refine ⟨?_, by simp, ?_, h.readyThreads, h.mtxThreads, ?_, ?_, ?_, ?_, ?_⟩
    · intro u _
      rw [hplace]
      by_cases hu : u = k.nthread
      · rw [hu, Function.update_self, Place.WellFormed, place_state, hnew]
        exact hout₀
      · rw [Function.update_of_ne hu]
        exact h.place' u
    · refine h.timer.congr_thread rfl (fun u hu => ?_) rfl
      have hne : u ≠ k.nthread := by
        rintro rfl
        exact notMem_of_isOut hout hu
      rw [hth u hne]
    · intro u hu
      by_cases hne : u = k.nthread
      · rw [hne, hnew] at hu
        cases hu
      · rw [hth u hne] at hu
        exact h.one u hu
    · intro u hu
      exact Nat.lt_succ_of_lt (h.born u hu)
    · intro u hu
      have hu' : k.nthread + 1 ≤ u := hu
      rw [hth u (by omega)]
      exact h.unborn u (by omega)
    · intro u
      by_cases hne : u = k.nthread
      · rw [hne, hnew]
        exact hlt
      · rw [hth u hne]
        exact h.prio u
    · intro u
      by_cases hne : u = k.nthread
      · rw [hne, hnew]
        exact hlt
      · rw [hth u hne]
        exact h.prioOrig u
  refine hinv.relocate (t := k.nthread) (.inl rfl) rfl hinv.born ?_ place_chxReadyEnqueue
    hout₀.wellFormed_toReady ?_ (Nat.lt_succ_self _) ?_ ?_ ?_
    (hinv.readyThreads.of_perm chxReadyEnqueue_queue_perm)
    (fun m => (hinv.mtxThreads m).congr (chxReadyEnqueue_queue_of_ne (q := .mtx m) (by simp)))
  · intro u hu
    refine hinv.one u ?_
    rw [place_chxReadyEnqueue] at hu
    by_cases hut : u = k.nthread
    · subst hut
      rw [Function.update_self] at hu
      cases hu
    · rw [Function.update_of_ne hut] at hu
      exact hu
  · intro u hut
    simp [chxReadyEnqueue_thread, hut]
  · simpa [chxReadyEnqueue_thread] using hinv.prio k.nthread
  · simpa [chxReadyEnqueue_thread] using hinv.prioOrig k.nthread
  · refine hinv.timer.congr_thread (chxReadyEnqueue_queue_of_ne (by simp)) (fun u hu => ?_) rfl
    have hut : u ≠ k.nthread := by
      rintro rfl
      exact notMem_of_isOut hout₀ hu
    simp [chxReadyEnqueue_thread, hut]

/-- What the expiry of one thread keeps, `q_timer` left aside. -/
structure ExpireInv (k₀ k : Kernel) : Prop where
  place : ∀ t, (k.place t).WellFormed
  readyThreads : k.HoldsThreads .ready
  mtxThreads : ∀ m, k.HoldsThreads (.mtx m)
  one : ∀ t, (k.thread t).state = .running → k.running = some t
  nthread : k.nthread = k₀.nthread
  running : k.running = k₀.running
  unborn : ∀ t, k.nthread ≤ t → (k.thread t).state = .exited ∧ (k.thread t).parent = none
  prio : ∀ t, (k.thread t).prio < 256
  prioOrig : ∀ t, (k.thread t).prioOrig < 256

theorem ExpireInv.expireOne {k₀ : Kernel} (h : ExpireInv k₀ k) (ht : t < k₀.nthread) :
    ExpireInv k₀ (k.expireOne t) := by
  have hn : (k.expireOne t).nthread = k.nthread := by
    rw [Kernel.expireOne]
    split <;> rfl
  refine ⟨?_, ?_, ?_, ?_, hn.trans h.nthread, expireOne_running.trans h.running, ?_, ?_, ?_⟩
  · intro u
    rw [place_expireOne]
    by_cases hut : u = t
    · subst hut
      rw [Function.update_self]
      exact Place.IsOut.wellFormed_toReady rfl
    · rw [Function.update_of_ne hut]
      exact h.place u
  · exact HoldsThreads.of_perm (k := k.llDequeue (.thread t)) h.readyThreads.llDequeue
      expireOne_queue_ready
  · intro m
    exact HoldsThreads.congr (k := k.llDequeue (.thread t)) (h.mtxThreads m).llDequeue
      (expireOne_queue_of_ne (by simp))
  · intro u hu
    rw [expireOne_running]
    refine h.one u ?_
    rw [expireOne_thread] at hu
    by_cases hut : u = t
    · subst hut
      rw [Function.update_self] at hu
      cases hu
    · rwa [Function.update_of_ne hut] at hu
  · intro u hu
    rw [hn, h.nthread] at hu
    have hut : u ≠ t := by
      rintro rfl
      exact absurd ht (not_lt.2 hu)
    rw [expireOne_thread, Function.update_of_ne hut]
    exact h.unborn u (h.nthread ▸ hu)
  · intro u
    rw [expireOne_prio]
    exact h.prio u
  · intro u
    rw [expireOne_thread]
    by_cases hut : u = t
    · subst hut
      rw [Function.update_self]
      exact h.prioOrig u
    · rw [Function.update_of_ne hut]
      exact h.prioOrig u

/-- The entries of `q_timer` other than the last may expire; a slice that is over asks
for preemption. -/
theorem expire (h : KernelInv none k) :
    KernelInv none ((k.setSystick { k.systick with pending := false }).chxTimerExpired) := by
  have hT := h.timer.expire
  set k₀ := k.setSystick { k.systick with pending := false } with hk₀
  obtain ⟨prio, heq, -⟩ := chxTimerExpired_eq (k := k₀) h.timer.threads h.timer.nodup
  obtain ⟨b, hb, -⟩ := chxRequestPreemption_eq
    (k := (k₀.expired.foldl expireEntry k₀).setSystick k₀.rearm) prio
  rw [heq, hb] at hT ⊢
  have hE : ExpireInv k₀ (k₀.expired.foldl expireEntry k₀) := by
    refine foldl_expireEntry_keeps (fun K t ht hK => hK.expireOne ?_)
      ⟨h.place', h.readyThreads, h.mtxThreads, h.one, rfl, rfl, h.unborn, h.prio, h.prioOrig⟩
    refine KernelInv.lt_of_isIn (k := k) (q := .timer) h (h.isIn_of_mem ?_)
    have hsplit : k₀.expired ++ k₀.remaining.1 = k.queue .timer := expired_append_remaining
    rw [← hsplit]
    exact List.mem_append_left _ ht
  refine ⟨fun t _ => hE.place t, by simp, hT, hE.readyThreads, hE.mtxThreads, hE.one, ?_,
    hE.unborn, hE.prio, hE.prioOrig⟩
  intro t ht
  have hr : (k₀.expired.foldl expireEntry k₀).running = some t := ht
  rw [hE.running] at hr
  exact hE.nthread ▸ h.born t hr

/-! ## Proxies -/

/-- An operation on a proxy keeps the places of the threads. -/
theorem of_proxy (h : KernelInv off k) (hr : k'.running = k.running) (hn : k'.nthread = k.nthread)
    (ht : k'.thread = k.thread) (hp : k'.place = k.place)
    (hq : ∀ q, q ≠ .intr → q ≠ .join → (∀ c, q ≠ .cnd c) →
      ∀ x, x ∈ k'.queue q → x ∈ k.queue q)
    (htq : k'.queue .timer = k.queue .timer) (hs : k'.systick = k.systick) :
    KernelInv off k' := by
  refine ⟨hp ▸ h.place, hp ▸ h.out, ?_, ?_, ?_, ?_, ?_, ?_, ?_, ?_⟩
  · exact h.timer.congr_thread htq (fun u _ => by rw [ht]) hs
  · intro x hx
    exact h.readyThreads x (hq _ (by simp) (by simp) (by simp) x hx)
  · intro m x hx
    exact h.mtxThreads m x (hq _ (by simp) (by simp) (by simp) x hx)
  · rw [ht, hr]
    exact h.one
  · rw [hr, hn]
    exact h.born
  · rw [hn, ht]
    exact h.unborn
  · rw [ht]
    exact h.prio
  · rw [ht]
    exact h.prioOrig

theorem unlink {p : PxId} (h : KernelInv off k) : KernelInv off (k.llDequeue (.proxy p)) := by
  refine h.of_proxy rfl rfl rfl place_llDequeue_proxy
    (fun q _ _ _ x hx => List.mem_of_mem_filter hx) ?_ rfl
  refine llDequeue_queue_of_notMem fun hm => ?_
  obtain ⟨t, ht⟩ := h.timer.threads _ hm
  cases ht

theorem link {p : PxId} (h : KernelInv off k) (hq : q = .intr ∨ q = .join ∨ ∃ c, q = .cnd c) :
    KernelInv off (k.llPrioEnqueue (.proxy p) q) := by
  have hne : ∀ q', q' ≠ .intr → q' ≠ .join → (∀ c, q' ≠ .cnd c) → q' ≠ q := by
    rintro q' h₁ h₂ h₃ rfl
    rcases hq with hq | hq | ⟨c, hq⟩
    · exact h₁ hq
    · exact h₂ hq
    · exact h₃ c hq
  refine h.of_proxy rfl rfl rfl place_llPrioEnqueue_proxy (fun q' h₁ h₂ h₃ x hx => ?_)
    (llPrioEnqueue_queue_of_ne (hne _ (by simp) (by simp) (by simp))) rfl
  rwa [llPrioEnqueue_queue_of_ne (hne q' h₁ h₂ h₃)] at hx

theorem flags {w : Flag} (h : KernelInv off k) : KernelInv off (k.modThread t w.set) := by
  refine h.modThread ?_ ?_ ?_ ?_ ?_ ?_ <;> simp [h.prio t, h.prioOrig t]

theorem setPrio {p po : Nat} (h : KernelInv off k) (hp : p < 256) (hpo : po < 256) :
    KernelInv off (k.modThread t fun th => { th with prio := p, prioOrig := po }) :=
  h.modThread rfl rfl rfl rfl hp hpo

theorem setMutexList {l : Option Mid} (h : KernelInv off k) :
    KernelInv off (k.modThread t fun th => { th with mutexList := l }) :=
  h.modThread rfl rfl rfl rfl (h.prio t) (h.prioOrig t)

/-- A thread that has exited is joined. -/
theorem finish (h : KernelInv off k) (ht : t < k.nthread)
    (hs : (k.thread t).state = .exited ∨ (k.thread t).state = .finished) :
    KernelInv off (k.modThread t fun th => { th with state := .finished }) := by
  have hout : off ≠ some t → (k.place t).IsOut := fun hoff => (h.place t hoff).ended hs
  have hplace : (k.modThread t fun th => { th with state := .finished }).place =
      Function.update k.place t { k.place t with state := .finished } := by
    rw [place_modThread]
    rfl
  have hth : ∀ u, u ≠ t →
      (k.modThread t fun th => { th with state := .finished }).thread u = k.thread u := by
    intro u hut
    rw [modThread_thread, Function.update_of_ne hut]
  refine ⟨fun u hu => ?_, fun u hu => ?_, ?_, h.readyThreads, h.mtxThreads, fun u hu => ?_,
    h.born, fun u hu => ?_, fun u => ?_, fun u => ?_⟩
  · rw [hplace]
    by_cases hut : u = t
    · subst hut
      rw [Function.update_self]
      exact hout hu
    · rw [Function.update_of_ne hut]
      exact h.place u hu
  · rw [hplace]
    by_cases hut : u = t
    · subst hut
      rw [Function.update_self]
      exact h.out u hu
    · rw [Function.update_of_ne hut]
      exact h.out u hu
  · refine h.timer.congr_thread rfl (fun u _ => ?_) rfl
    by_cases hut : u = t
    · subst hut
      simp
    · rw [hth u hut]
  · by_cases hut : u = t
    · subst hut
      simp at hu
    · rw [hth u hut] at hu
      exact h.one u hu
  · have hut : u ≠ t := by
      rintro rfl
      exact absurd ht (not_lt.2 hu)
    rw [hth u hut]
    exact h.unborn u hu
  · by_cases hut : u = t
    · subst hut
      simpa using h.prio u
    · rw [hth u hut]
      exact h.prio u
  · by_cases hut : u = t
    · subst hut
      simpa using h.prioOrig u
    · rw [hth u hut]
      exact h.prioOrig u

/-- **Every move keeps the invariant of the kernel.** -/
theorem move {op : Op} {a b : Point} (hm : Move cfg op a b) (h : KernelInv a.1 a.2) :
    KernelInv b.1 b.2 := by
  cases hm with
  | aux => exact h.congr rfl rfl rfl rfl rfl rfl
  | count n => exact h.congr rfl rfl rfl rfl rfl rfl
  | pend => exact h.congr rfl rfl rfl rfl rfl rfl
  | pass hs => exact h.pass hs
  | flags => exact h.flags
  | prio hp hpo hr hm hc => exact h.setPrio hp hpo
  | raise hp hlt hq hst => exact h.raise hp hq hst
  | wakeTimed hs hd hw => exact h.wakeTimed hs hd
  | wakeQueued hq hw => exact h.wakeQueued hq hw
  | wakeLoose hs hp hw => exact h.wakeLoose hs hp
  | slice hr hs he => exact (h.slice hs he).1
  | block hs hq => exact h.block hs hq
  | sleep hs hst hpos hle => exact h.sleep hs hst hpos hle
  | pollSleep hs => exact h.pollSleep hs
  | die hs hst => exact h.die hs hst
  | finish ht hs => exact h.finish ht hs
  | yield hs => exact h.yield hs
  | push hr hs hf => exact h.push hs hf
  | norun hr hs => exact h.norun hr hs
  | switch hs => exact (h.switch hs).1
  | acquire hr hs ho => exact h.setMutexList.congr rfl rfl rfl rfl rfl rfl
  | drop hr hs => exact h.setMutexList.congr rfl rfl rfl rfl rfl rfl
  | create fp => exact h.create fp
  | expire hp hr => exact h.expire
  | proxy f => exact h.congr rfl rfl rfl rfl rfl rfl
  | fire => exact h.unlink.congr rfl rfl rfl rfl rfl rfl
  | link hq => exact h.link hq
  | unlink => exact h.unlink
  | ready => exact h.congr rfl rfl rfl rfl rfl rfl
  | enable => exact h.congr rfl rfl rfl rfl rfl rfl
  | disable => exact h.congr rfl rfl rfl rfl rfl rfl

theorem path {P : Op → Prop} {a b : Point} (hp : Path cfg P a b) (h : KernelInv a.1 a.2) :
    KernelInv b.1 b.2 :=
  hp.keeps (I := fun a => KernelInv a.1 a.2) (fun _ _ _ _ hm ha => ha.move hm) h

end KernelInv

namespace Kernel

variable {k : Kernel} {t : Tid} {m : Mid}

theorem acquire_thread : (k.acquire t m).thread = Function.update k.thread t
    { k.thread t with mutexList := some m } := rfl

theorem dropMutex_thread : (k.dropMutex t m).thread = Function.update k.thread t
    { k.thread t with mutexList := (k.mutex m).list } := rfl

theorem acquire_mutex : (k.acquire t m).mutex = Function.update k.mutex m
    { owner := some t, list := (k.thread t).mutexList } := rfl

theorem dropMutex_mutex : (k.dropMutex t m).mutex = Function.update k.mutex m
    { owner := none, list := none } := rfl

theorem place_acquire : (k.acquire t m).place = k.place := by
  have h : (k.modThread t fun th => { th with mutexList := some m }).place = k.place :=
    place_modThread_of rfl rfl rfl
  exact h

theorem place_dropMutex : (k.dropMutex t m).place = k.place := by
  have h : (k.modThread t fun th => { th with mutexList := (k.mutex m).list }).place = k.place :=
    place_modThread_of rfl rfl rfl
  exact h

end Kernel

/-! ## What a move leaves alone -/

/-- The thread that a move is about; a context switch and the expiry of timers are about
none in particular. -/
def Op.target : Op → Option Tid
  | .flags t _ | .prio t | .raise t | .wake t _ | .slice t | .block t _ _ | .sleep t _
  | .pollSleep t | .die t _ | .finish t | .yield t | .norun t | .acquire t _ | .drop t _
  | .create t => some t
  | _ => none

/-- The thread is as before, but for its value if it is in `q_timer`. -/
structure Untouched (k k' : Kernel) (u : Tid) : Prop where
  thread : k'.thread u = { k.thread u with v := (k'.thread u).v }
  value : .thread u ∉ k.queue .timer → (k'.thread u).v = (k.thread u).v
  place : k'.place u = k.place u

namespace Untouched

variable {k k' : Kernel} {t u : Tid}

theorem of_eq (ht : k'.thread u = k.thread u) (hp : k'.place u = k.place u) :
    Untouched k k' u := by
  refine ⟨?_, fun _ => by rw [ht], hp⟩
  rw [ht]

theorem state (h : Untouched k k' u) : (k'.thread u).state = (k.thread u).state := by
  rw [h.thread]

theorem of_update {th : Thread} {P : Place} (hut : u ≠ t)
    (ht : k'.thread = Function.update k.thread t th) (hp : k'.place = Function.update k.place t P) :
    Untouched k k' u :=
  of_eq (by rw [ht, Function.update_of_ne hut]) (by rw [hp, Function.update_of_ne hut])

theorem modThread {f : Thread → Thread} (hut : u ≠ t) : Untouched k (k.modThread t f) u :=
  of_update hut rfl place_modThread

end Untouched

/-- **A move leaves every thread alone but its target.** -/
theorem Move.untouched {cfg : Config} {op : Op} {off off' : Option Tid} {k k' : Kernel} {u : Tid}
    (hm : Move cfg op (off, k) (off', k')) (h : KernelInv off k) (ht : op.target ≠ some u)
    (hsw : op ≠ .switch) (hex : op ≠ .expire) : Untouched k k' u := by
  have hne : ∀ t, op.target = some t → u ≠ t := fun t hop hut => ht (hut ▸ hop)
  cases hm with
  | aux => exact .of_eq rfl rfl
  | count n => exact .of_eq rfl rfl
  | pend => exact .of_eq rfl rfl
  | pass hs => exact .of_eq rfl rfl
  | flags => exact .modThread (hne _ rfl)
  | prio hp hpo hr hm hc => exact .modThread (hne _ rfl)
  | raise hp hlt hq hst =>
      have hut := hne _ rfl
      refine .of_eq ?_ ?_
      · simp [llPrioEnqueue_thread, setPrio, hut]
      · rw [place_llPrioEnqueue, place_llDequeue_thread, Function.update_of_ne hut,
          Function.update_of_ne hut, setPrio, place_modThread, Function.update_of_ne hut]
  | wakeTimed hs hd hw =>
      have hut := hne _ rfl
      obtain ⟨front, back, hq, rfl, -⟩ := chxTimerDequeue_ok h.timer hd
      refine ⟨?_, fun hu => ?_, ?_⟩
      · simp only [resume_thread, Function.update_of_ne hut]
        exact KernelInv.dequeued_thread u
      · simp only [resume_thread, Function.update_of_ne hut]
        exact KernelInv.dequeued_v_of_notMem hq hu hut
      · rw [place_resume, Function.update_of_ne hut, place_dequeued, Function.update_of_ne hut]
  | wakeQueued hq hw =>
      have hut := hne _ rfl
      refine .of_eq ?_ ?_
      · rw [resume_thread, Function.update_of_ne hut, llDequeue_thread]
      · rw [place_resume, Function.update_of_ne hut, place_llDequeue_thread,
          Function.update_of_ne hut]
  | wakeLoose hs hp hw => exact .of_update (hne _ rfl) resume_thread place_resume
  | slice hr hs he =>
      have hut := hne _ rfl
      rw [endSlice] at he
      split at he
      · obtain ⟨⟨k₁, n⟩, hd, hk⟩ := res_bind_eq_ok.1 he
        cases hk
        obtain ⟨front, back, hq, rfl, -⟩ := chxTimerDequeue_ok h.timer hd
        exact ⟨KernelInv.dequeued_thread u, fun hu => KernelInv.dequeued_v_of_notMem hq hu hut,
          by rw [place_dequeued, Function.update_of_ne hut]⟩
      · cases he
        exact .of_eq rfl rfl
  | block hs hq =>
      have hut := hne _ rfl
      refine .of_eq ?_ ?_
      · rw [modThread_thread, Function.update_of_ne hut, llPrioEnqueue_thread,
          Function.update_of_ne hut]
      · rw [place_modThread, Function.update_of_ne hut, place_llPrioEnqueue,
          Function.update_of_ne hut]
  | sleep hs hst hpos hle =>
      have hut := hne _ rfl
      set k₀ := k.modThread _ fun th => { th with state := _ } with hk₀
      have hT : TimerInv k₀ := h.timer_modThread
      have h₀ : Untouched k k₀ u := .modThread hut
      refine ⟨?_, fun hu => ?_, ?_⟩
      · rw [chxTimerInsert_thread hT, if_neg hut, h₀.thread]
      · rw [chxTimerInsert_v_of_notMem hT hu hut, h₀.value hu]
      · rw [place_chxTimerInsert hT, Function.update_of_ne hut, h₀.place]
  | pollSleep hs => exact .modThread (hne _ rfl)
  | die hs hst => exact .modThread (hne _ rfl)
  | finish ht hs => exact .modThread (hne _ rfl)
  | yield hs => exact .of_update (hne _ rfl) chxReadyEnqueue_thread place_chxReadyEnqueue
  | push hr hs hf => exact .of_update (hne _ rfl) chxReadyPush_thread place_chxReadyPush
  | norun hr hs => exact .of_eq rfl rfl
  | switch hs' => exact absurd rfl hsw
  | acquire hr hs ho =>
      exact .of_eq (by rw [acquire_thread, Function.update_of_ne (hne _ rfl)])
        (by rw [place_acquire])
  | drop hr hs =>
      exact .of_eq (by rw [dropMutex_thread, Function.update_of_ne (hne _ rfl)])
        (by rw [place_dropMutex])
  | create fp =>
      have hut := hne _ rfl
      refine .of_eq ?_ ?_
      · rw [chxReadyEnqueue_thread, Function.update_of_ne hut]
        exact Function.update_of_ne hut ..
      · rw [place_chxReadyEnqueue, Function.update_of_ne hut]
        simp only [Kernel.place, Function.update_of_ne hut]
  | expire hp hr => exact absurd rfl hex
  | proxy f => exact .of_eq rfl rfl
  | fire => exact .of_eq rfl (congrFun (place_llDequeue_proxy (k := k)) u)
  | link hq => exact .of_eq rfl (congrFun place_llPrioEnqueue_proxy u)
  | unlink => exact .of_eq rfl (congrFun place_llDequeue_proxy u)
  | ready => exact .of_eq rfl rfl
  | enable => exact .of_eq rfl rfl
  | disable => exact .of_eq rfl rfl

end Chopstx
