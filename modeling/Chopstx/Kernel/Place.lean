import Chopstx.Kernel.Timer

/-!
# Where a thread is

The place of a thread is its state, its field `parent`, and how often it is linked
in each queue.  An operation on a queue changes the place of one thread, so each of
them is a `Function.update` of the places.

A place is well formed if the state says which queue the thread is linked in, and
`parent` names that queue.

* `Place`, `Kernel.place` - the place of a thread, and `WellFormed` what the state says of it.
* `HoldsThreads` - a queue that has threads only, as `q_ready` and `q_timer` do.
* For each operation of `Chopstx.Kernel.Basic` and for `chxReadyPush` and `chxReadyEnqueue` one
  lemma says which place it changes, and one what becomes of the queue
  (`chxReadyEnqueue_queue_perm`, `chxReadyPush_queue_perm`).
-/

namespace Chopstx

open PrioQueue

/-- The states of the threads in a queue. -/
def Qh.Holds : Qh → ThreadState → Prop
  | .ready, s => s = .ready
  | .timer, s => s = .waitTime ∨ s = .waitPoll ∨ s = .running
  | .join, s => s = .waitExit
  | .intr, _ => False
  | .mtx _, s => s = .waitMtx
  | .cnd _, s => s = .waitCnd

/-- Where a thread is. -/
structure Place where
  state : ThreadState
  parent : Option Qh
  schedRr : Bool
  links : Qh → Nat

namespace Place

variable {p : Place} {q : Qh}

/-- Linked once, in the queue that `parent` names. -/
def IsIn (p : Place) (q : Qh) : Prop := p.parent = some q ∧ p.links = Pi.single q 1

/-- Linked nowhere. -/
def IsOut (p : Place) : Prop := p.links = 0

/-- The state says where the thread is linked. -/
def WellFormed (p : Place) : Prop :=
  match p.state with
  | .ready => p.IsIn .ready
  | .waitMtx => ∃ m, p.IsIn (.mtx m)
  | .waitCnd => ∃ c, p.IsIn (.cnd c)
  | .waitExit => p.IsIn .join
  | .waitTime => p.IsIn .timer
  | .waitPoll => p.IsIn .timer ∨ p.IsOut
  | .running => if p.schedRr then p.IsIn .timer else p.IsOut
  | .exited | .finished => p.IsOut

/-- The place in `q_ready`. -/
def toReady (p : Place) : Place :=
  { p with state := .ready, parent := some .ready, links := p.links + Pi.single .ready 1 }

/-- Unlinked. -/
def unlinked (p : Place) : Place := { p with links := 0 }

@[simp] theorem isOut_unlinked : p.unlinked.IsOut := rfl

@[simp] theorem unlinked_state : p.unlinked.state = p.state := rfl

@[simp] theorem unlinked_schedRr : p.unlinked.schedRr = p.schedRr := rfl

@[simp] theorem toReady_state : p.toReady.state = .ready := rfl

@[simp] theorem toReady_schedRr : p.toReady.schedRr = p.schedRr := rfl

theorem IsOut.toReady_isIn (h : p.IsOut) : p.toReady.IsIn .ready := by
  refine ⟨rfl, ?_⟩
  rw [IsOut] at h
  rw [toReady, h, zero_add]

theorem IsOut.wellFormed_toReady (h : p.IsOut) : p.toReady.WellFormed := h.toReady_isIn

theorem WellFormed.ready (h : p.WellFormed) (hs : p.state = .ready) : p.IsIn .ready := by
  rwa [WellFormed, hs] at h

theorem WellFormed.waitMtx (h : p.WellFormed) (hs : p.state = .waitMtx) :
    ∃ m, p.IsIn (.mtx m) := by
  rwa [WellFormed, hs] at h

theorem WellFormed.waitCnd (h : p.WellFormed) (hs : p.state = .waitCnd) :
    ∃ c, p.IsIn (.cnd c) := by
  rwa [WellFormed, hs] at h

theorem WellFormed.waitExit (h : p.WellFormed) (hs : p.state = .waitExit) : p.IsIn .join := by
  rwa [WellFormed, hs] at h

theorem WellFormed.waitTime (h : p.WellFormed) (hs : p.state = .waitTime) : p.IsIn .timer := by
  rwa [WellFormed, hs] at h

theorem WellFormed.waitPoll (h : p.WellFormed) (hs : p.state = .waitPoll) :
    p.IsIn .timer ∨ p.IsOut := by
  rwa [WellFormed, hs] at h

theorem WellFormed.running (h : p.WellFormed) (hs : p.state = .running) :
    if p.schedRr then p.IsIn .timer else p.IsOut := by
  rwa [WellFormed, hs] at h

theorem WellFormed.ended (h : p.WellFormed) (hs : p.state = .exited ∨ p.state = .finished) :
    p.IsOut := by
  rcases hs with hs | hs <;> rwa [WellFormed, hs] at h

theorem IsIn.links_pos (h : p.IsIn q) {q' : Qh} (hpos : 0 < p.links q') : q' = q := by
  rw [h.2] at hpos
  by_contra hne
  rw [Pi.single_eq_of_ne hne] at hpos
  exact lt_irrefl _ hpos

theorem IsIn.links_self (h : p.IsIn q) : p.links q = 1 := by
  rw [h.2, Pi.single_eq_same]

theorem IsOut.links_eq (h : p.IsOut) (q : Qh) : p.links q = 0 := congrFun h q

/-- A well-formed place is in one queue or in none. -/
theorem WellFormed.isIn_or_isOut (h : p.WellFormed) : (∃ q, p.IsIn q) ∨ p.IsOut := by
  unfold WellFormed at h
  split at h
  · exact .inl ⟨_, h⟩
  · obtain ⟨m, h⟩ := h
    exact .inl ⟨_, h⟩
  · obtain ⟨c, h⟩ := h
    exact .inl ⟨_, h⟩
  · exact .inl ⟨_, h⟩
  · exact .inl ⟨_, h⟩
  · exact h.imp (fun h => ⟨_, h⟩) id
  · split at h
    · exact .inl ⟨_, h⟩
    · exact .inr h
  · exact .inr h
  · exact .inr h

theorem WellFormed.isIn_of_pos (h : p.WellFormed) (hpos : 0 < p.links q) : p.IsIn q := by
  rcases h.isIn_or_isOut with ⟨q', hin⟩ | hout
  · exact hin.links_pos hpos ▸ hin
  · rw [hout.links_eq] at hpos
    exact absurd hpos (lt_irrefl _)

theorem WellFormed.holds (h : p.WellFormed) (hin : p.IsIn q) : q.Holds p.state := by
  have hq : ∀ q', p.IsIn q' → q' = q := fun q' h' => Option.some.inj (h'.1.symm.trans hin.1)
  have hout : ¬ p.IsOut := fun h' => by
    have := hin.links_self
    rw [h'.links_eq] at this
    cases this
  unfold WellFormed at h
  split at h <;> rename_i hs
  · rw [← hq _ h]
    exact hs
  · obtain ⟨m, h⟩ := h
    rw [← hq _ h]
    exact hs
  · obtain ⟨c, h⟩ := h
    rw [← hq _ h]
    exact hs
  · rw [← hq _ h]
    exact hs
  · rw [← hq _ h]
    exact .inl hs
  · rcases h with h | h
    · rw [← hq _ h]
      exact .inr (.inl hs)
    · exact absurd h hout
  · split at h
    · rw [← hq _ h]
      exact .inr (.inr hs)
    · exact absurd h hout
  · exact absurd h hout
  · exact absurd h hout

end Place

namespace Kernel

variable {k : Kernel} {t u : Tid} {q : Qh} {x : Pq}

/-- The place of a thread. -/
def place (k : Kernel) (t : Tid) : Place where
  state := (k.thread t).state
  parent := (k.thread t).parent
  schedRr := (k.thread t).flagSchedRr
  links := fun q => (k.queue q).count (.thread t)

@[simp] theorem place_state : (k.place t).state = (k.thread t).state := rfl

@[simp] theorem place_parent : (k.place t).parent = (k.thread t).parent := rfl

@[simp] theorem place_schedRr : (k.place t).schedRr = (k.thread t).flagSchedRr := rfl

theorem place_links_pos : 0 < (k.place t).links q ↔ .thread t ∈ k.queue q :=
  List.count_pos_iff

theorem mem_of_isIn (h : (k.place t).IsIn q) : .thread t ∈ k.queue q :=
  place_links_pos.1 (by rw [h.links_self]; exact one_pos)

theorem notMem_of_isOut (h : (k.place t).IsOut) : .thread t ∉ k.queue q := fun hm => by
  have := place_links_pos.2 hm
  rw [h.links_eq] at this
  exact lt_irrefl _ this

/-- Places depend on the records of the threads and on the queues only. -/
theorem place_congr {k' : Kernel} (ht : k'.thread = k.thread) (hq : k'.queue = k.queue) :
    k'.place = k.place := by
  unfold place
  rw [ht, hq]

theorem place_modThread {f : Thread → Thread} :
    (k.modThread t f).place = Function.update k.place t
      { k.place t with
        state := (f (k.thread t)).state
        parent := (f (k.thread t)).parent
        schedRr := (f (k.thread t)).flagSchedRr } := by
  funext u
  by_cases hu : u = t
  · subst hu
    simp [place]
  · simp [place, hu]

/-- A change of other fields. -/
theorem place_modThread_of {f : Thread → Thread} (hs : (f (k.thread t)).state = (k.thread t).state)
    (hp : (f (k.thread t)).parent = (k.thread t).parent)
    (hr : (f (k.thread t)).flagSchedRr = (k.thread t).flagSchedRr) :
    (k.modThread t f).place = k.place := by
  rw [place_modThread, hs, hp, hr]
  exact Function.update_eq_self ..

@[simp] theorem place_modPx {p : PxId} {f : Px → Px} : (k.modPx p f).place = k.place := rfl

@[simp] theorem place_modMutex {m : Mid} {f : Mtx → Mtx} : (k.modMutex m f).place = k.place := rfl

@[simp] theorem place_setV {n : Nat} : (k.setV n x).place = k.place := by
  cases x with
  | thread t =>
      rw [setV]
      exact place_modThread_of rfl rfl rfl
  | proxy p => rfl

@[simp] theorem place_noteWake {w : Waker} {n : Nat} : (k.noteWake t w n).place = k.place := rfl

@[simp] theorem place_noteDue {n : Nat} : (k.noteDue t n).place = k.place := rfl

@[simp] theorem place_noteLateEdit {b : Bool} : (k.noteLateEdit b).place = k.place := rfl

@[simp] theorem place_elapse : k.elapse.place = k.place := rfl

@[simp] theorem place_chxSystickReload {n : Nat} : (k.chxSystickReload n).place = k.place := rfl

@[simp] theorem place_llDequeue_thread :
    (k.llDequeue (.thread t)).place = Function.update k.place t (k.place t).unlinked := by
  funext u
  by_cases hu : u = t
  · subst hu
    have h : ∀ q, ((k.queue q).filter (· ≠ .thread u)).count (.thread u) = 0 := fun q =>
      List.count_eq_zero.2 (by simp)
    rw [Function.update_self]
    simp only [place, Place.unlinked, llDequeue_thread, llDequeue_queue, h]
    rfl
  · simp [place, hu]

@[simp] theorem place_llDequeue_proxy {p : PxId} : (k.llDequeue (.proxy p)).place = k.place := by
  funext u
  simp [place]

theorem place_llPrioEnqueue :
    (k.llPrioEnqueue (.thread t) q).place = Function.update k.place t
      { k.place t with parent := some q, links := (k.place t).links + Pi.single q 1 } := by
  funext u
  by_cases hu : u = t
  · subst hu
    rw [Function.update_self]
    simp only [place, llPrioEnqueue, setParent, setQueue_thread, setQueue_queue, modThread_thread,
      Function.update_self, Place.mk.injEq, true_and]
    funext q'
    by_cases hq : q' = q
    · subst hq
      simp [count_insertBefore]
    · simp [hq]
  · have hne : Pq.thread t ≠ .thread u := fun h => hu (Pq.thread.inj h).symm
    rw [Function.update_of_ne hu]
    simp only [place, llPrioEnqueue, setParent, setQueue_thread, setQueue_queue, modThread_thread,
      Function.update_of_ne hu, Place.mk.injEq, true_and]
    funext q'
    by_cases hq : q' = q
    · subst hq
      simp [count_insertBefore, hne]
    · simp [hq]

theorem place_llPrioPush :
    (k.llPrioPush (.thread t) q).place = Function.update k.place t
      { k.place t with parent := some q, links := (k.place t).links + Pi.single q 1 } := by
  rw [← place_llPrioEnqueue]
  funext u
  simp only [place, llPrioEnqueue, llPrioPush, setParent, setQueue_thread, setQueue_queue,
    Place.mk.injEq, true_and]
  funext q'
  by_cases hq : q' = q
  · subst hq
    simp [count_insertBefore]
  · simp [hq]

@[simp] theorem place_llPrioEnqueue_proxy {p : PxId} :
    (k.llPrioEnqueue (.proxy p) q).place = k.place := by
  funext u
  simp only [place, llPrioEnqueue, setParent, setQueue_thread, setQueue_queue, modPx_thread,
    Place.mk.injEq, true_and]
  funext q'
  by_cases hq : q' = q
  · subst hq
    simp [count_insertBefore]
  · simp [hq]

@[simp] theorem place_chxReadyEnqueue :
    (k.chxReadyEnqueue t).place = Function.update k.place t (k.place t).toReady := by
  rw [chxReadyEnqueue, place_llPrioEnqueue, place_modThread, Function.update_idem,
    Function.update_self]
  rfl

@[simp] theorem place_chxReadyPush :
    (k.chxReadyPush t).place = Function.update k.place t (k.place t).toReady := by
  rw [chxReadyPush, place_llPrioPush, place_modThread, Function.update_idem,
    Function.update_self]
  rfl

@[simp] theorem place_expireOne :
    (k.expireOne t).place = Function.update k.place t (k.place t).unlinked.toReady := by
  rw [expireOne, place_chxReadyEnqueue, place_setV, place_llDequeue_thread, Function.update_idem,
    Function.update_self]
  split <;> rfl

/-! ## Records and queues -/

/-- The queue holds threads only. -/
def HoldsThreads (k : Kernel) (q : Qh) : Prop := ∀ p ∈ k.queue q, ∃ t, p = .thread t

theorem llPrioEnqueue_queue_of_ne {q' : Qh} (h : q' ≠ q) :
    (k.llPrioEnqueue x q).queue q' = k.queue q' := by
  cases x <;> simp [llPrioEnqueue, setParent, h]

theorem llPrioEnqueue_queue_perm : ((k.llPrioEnqueue x q).queue q).Perm (x :: k.queue q) := by
  rw [llPrioEnqueue, setQueue_queue, Function.update_self]
  exact insertBefore_perm ..

theorem modThread_thread_eq {f : Thread → Thread} :
    (k.modThread t f).thread = Function.update k.thread t (f (k.thread t)) := rfl

theorem llPrioEnqueue_thread :
    (k.llPrioEnqueue (.thread t) q).thread =
      Function.update k.thread t { k.thread t with parent := some q } := rfl

theorem chxReadyEnqueue_thread :
    (k.chxReadyEnqueue t).thread =
      Function.update k.thread t { k.thread t with state := .ready, parent := some .ready } := by
  simp only [chxReadyEnqueue, llPrioEnqueue_thread, modThread_thread_eq, Function.update_self,
    Function.update_idem]

theorem chxReadyEnqueue_queue_of_ne (h : q ≠ .ready) :
    (k.chxReadyEnqueue t).queue q = k.queue q := by
  rw [chxReadyEnqueue, llPrioEnqueue_queue_of_ne h, modThread_queue]

theorem chxReadyEnqueue_queue_perm :
    ((k.chxReadyEnqueue t).queue .ready).Perm (.thread t :: k.queue .ready) := by
  rw [chxReadyEnqueue]
  exact llPrioEnqueue_queue_perm

theorem chxReadyPush_thread :
    (k.chxReadyPush t).thread =
      Function.update k.thread t { k.thread t with state := .ready, parent := some .ready } := by
  rw [← chxReadyEnqueue_thread]
  rfl

theorem chxReadyPush_queue_of_ne (h : q ≠ .ready) :
    (k.chxReadyPush t).queue q = k.queue q := by
  simp [chxReadyPush, llPrioPush, setParent, h]

theorem chxReadyPush_queue_perm :
    ((k.chxReadyPush t).queue .ready).Perm (.thread t :: k.queue .ready) := by
  rw [chxReadyPush, llPrioPush, setQueue_queue, Function.update_self]
  exact insertBefore_perm ..

theorem HoldsThreads.llDequeue (h : k.HoldsThreads q) : (k.llDequeue x).HoldsThreads q :=
  fun p hp => h p (List.mem_of_mem_filter hp)

theorem HoldsThreads.of_perm {k' : Kernel} (h : k.HoldsThreads q)
    (hp : (k'.queue q).Perm (.thread t :: k.queue q)) : k'.HoldsThreads q := by
  intro p hmem
  rcases List.mem_cons.1 (hp.mem_iff.1 hmem) with rfl | hmem
  · exact ⟨t, rfl⟩
  · exact h p hmem

theorem HoldsThreads.congr {k' : Kernel} (h : k.HoldsThreads q) (hq : k'.queue q = k.queue q) :
    k'.HoldsThreads q := by
  intro p hp
  rw [hq] at hp
  exact h p hp

/-- An entry that is not in the queue is not missed. -/
theorem llDequeue_queue_of_notMem (h : x ∉ k.queue q) : (k.llDequeue x).queue q = k.queue q := by
  rw [llDequeue_queue]
  refine List.filter_eq_self.2 fun p hp => ?_
  rw [decide_eq_true_eq]
  rintro rfl
  exact h hp

end Kernel

end Chopstx
