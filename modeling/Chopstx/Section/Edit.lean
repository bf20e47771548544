import Chopstx.Library.Arrivals
import Chopstx.Section.Drift
import Chopstx.Section.Path

/-!
# What a move does to the sorted queues

`q_ready` and the queues of mutexes and condition variables are sorted by priority.  Every
move takes one entry out of them, puts one entry into one of them, or leaves them as they
are; only `chx_timer_expired` puts several threads into `q_ready`, one after another.

* `Qh.Sorts`, `Edit`, `Edited` - the queues that are sorted, and what one move does to them.
* `Move.edited` - each move is one of these edits, or an expiry (`chxTimerExpired_queues`).
* `Numbers`, `Ordered` - the numbers of arrival, and the order that they stand for.
* `Move.ordered` - a move keeps the queues sorted by priority and arrival.
* `Op.Orderly`, `Move.mem_proxy` - proxies come and go by moves of their own only.
-/

namespace Chopstx

open Kernel PrioQueue

/-- The queues that are sorted by priority. -/
inductive Qh.Sorts : Qh → Prop
  | ready : Sorts .ready
  | mtx (m : Mid) : Sorts (.mtx m)
  | cnd (c : Cid) : Sorts (.cnd c)

/-- An edit of the queues. -/
inductive Edit where
  | same
  | drop (x : Pq)
  | behind (x : Pq) (q : Qh)
  | front (x : Pq) (q : Qh)

namespace Edit

/-- The queues after the edit. -/
def apply (prio : Pq → Nat) (Q : Qh → List Pq) : Edit → Qh → List Pq
  | same, q => Q q
  | drop x, q => (Q q).filter (· ≠ x)
  | behind x q₀, q =>
      if q = q₀ then insertBefore (fun p => decide (prio p < prio x)) x ((Q q).filter (· ≠ x))
      else (Q q).filter (· ≠ x)
  | front x q₀, q =>
      if q = q₀ then insertBefore (fun p => decide (prio p ≤ prio x)) x ((Q q).filter (· ≠ x))
      else (Q q).filter (· ≠ x)

/-- The entry that is put into a queue. -/
def puts : Edit → Option Pq
  | behind x _ | front x _ => some x
  | _ => none

end Edit

/-- The move takes the entry, a thread, off the processor. -/
def Op.Pushes (op : Op) (off : Option Tid) (x : Pq) : Prop :=
  off = none ∧ ∃ t, op = .yield t ∧ x = .thread t

namespace Kernel

/-- The queues with the priorities of the entries. -/
def queues (k : Kernel) : Queues Qh Pq := ⟨k.queue, k.pqPrio⟩

end Kernel

/-- A move with the label `op` edits the sorted queues. -/
structure Edited (op : Op) (off : Option Tid) (k k' : Kernel) (ed : Edit) : Prop where
  queue : ∀ q, q ≠ .timer → k'.queue q = ed.apply k'.pqPrio k.queue q
  /-- Nothing else that is linked in these queues gets another priority. -/
  prio : ∀ q x, q.Sorts → x ∈ k.queue q → ed.puts ≠ some x → k'.pqPrio x = k.pqPrio x
  /-- What is put into a queue was not there, or has another priority than before. -/
  fresh : ∀ x q, ed = .behind x q ∨ ed = .front x q → x ∈ k.queue q → k'.pqPrio x ≠ k.pqPrio x
  pushes : ∀ x q, ed = .front x q → op.Pushes off x
  stays : ∀ x q, ed = .behind x q → ¬ op.Pushes off x
  links : ∀ p, ed.puts = some (.proxy p) → ∃ q, op = .link p q
  drops : ∀ p, ed = .drop (.proxy p) → op = .fire p ∨ op = .unlink p

variable {cfg : Config} {op : Op} {off off' : Option Tid} {k k' : Kernel} {t u : Tid} {p : PxId}
  {q : Qh} {x : Pq}

/-! ## Priorities of entries -/

theorem pqPrio_eq (ht : ∀ u, (k'.thread u).prio = (k.thread u).prio)
    (hp : ∀ p, (k'.px p).prio = (k.px p).prio) : k'.pqPrio = k.pqPrio := by
  funext x
  cases x with
  | thread u => exact ht u
  | proxy p => exact hp p

theorem modThread_pqPrio {f : Thread → Thread} (hf : (f (k.thread t)).prio = (k.thread t).prio) :
    (k.modThread t f).pqPrio = k.pqPrio := by
  refine pqPrio_eq (fun u => ?_) fun _ => rfl
  by_cases hu : u = t
  · subst hu
    rw [modThread_thread, Function.update_self, hf]
  · rw [modThread_thread, Function.update_of_ne hu]

theorem Move.pqPrio (hm : Move cfg op (off, k) (off', k')) (h : KernelInv off k)
    (hr : op.KeepsRecords) (ho : op.KeepsObjects) : k'.pqPrio = k.pqPrio := by
  refine pqPrio_eq (fun u => ?_) fun p => ?_
  · rw [hm.record h hr u]
  · exact congrArg (fun o : Objects => (o.px p).prio) (hm.objects h ho)

/-! ## The edit of a move -/

theorem Edited.same (hq : ∀ q, q ≠ .timer → k'.queue q = k.queue q) (hp : k'.pqPrio = k.pqPrio) :
    Edited op off k k' .same :=
  ⟨hq, fun _ x _ _ _ => congrFun hp x, fun _ _ h => h.elim (by simp) (by simp), by simp, by simp,
    by rintro _ ⟨⟩, by rintro _ ⟨⟩⟩

theorem Qh.Sorts.ne_timer (h : q.Sorts) : q ≠ .timer := by
  rintro rfl
  cases h

/-- A thread that is in none of the queues. -/
theorem filter_eq_of_notMem {l : List Pq} (h : x ∉ l) : l.filter (· ≠ x) = l := by
  refine List.filter_eq_self.2 fun y hy => ?_
  rw [decide_eq_true_eq]
  rintro rfl
  exact h hy


theorem KernelInv.notMem_ready (h : KernelInv off k) (hs : (k.thread t).state ≠ .ready) :
    .thread t ∉ k.queue .ready :=
  fun hm => hs (h.state_of_mem_ready hm)

/-! ## Queues after an insertion -/

@[simp] theorem llPrioEnqueue_pqPrio : (k.llPrioEnqueue x q).pqPrio = k.pqPrio := by
  refine pqPrio_eq (fun u => ?_) fun p => ?_
  · cases x with
    | thread t =>
        by_cases hu : u = t
        · subst hu
          simp [llPrioEnqueue_thread]
        · simp [llPrioEnqueue_thread, hu]
    | proxy p => rfl
  · cases x with
    | thread t => rfl
    | proxy p' =>
        by_cases hp : p = p'
        · subst hp
          simp [llPrioEnqueue, setParent]
        · simp [llPrioEnqueue, setParent, hp]

theorem llPrioEnqueue_queue_self : (k.llPrioEnqueue x q).queue q =
    insertBefore (fun p => decide (k.pqPrio p < k.pqPrio x)) x (k.queue q) := by
  rw [llPrioEnqueue, setQueue_queue, Function.update_self]

theorem chxReadyEnqueue_queue_ready : (k.chxReadyEnqueue t).queue .ready =
    insertBefore (fun p => decide (k.pqPrio p < k.pqPrio (.thread t))) (.thread t)
      (k.queue .ready) := by
  have hp : (k.modThread t fun th => { th with state := .ready }).pqPrio = k.pqPrio :=
    modThread_pqPrio rfl
  rw [chxReadyEnqueue, llPrioEnqueue_queue_self, hp]
  rfl

@[simp] theorem chxReadyEnqueue_pqPrio : (k.chxReadyEnqueue t).pqPrio = k.pqPrio := by
  rw [chxReadyEnqueue, llPrioEnqueue_pqPrio]
  exact modThread_pqPrio rfl

theorem setV_pqPrio {v : Nat} : (k.setV v (.thread t)).pqPrio = k.pqPrio := by
  rw [setV]
  exact modThread_pqPrio rfl

@[simp] theorem resume_pqPrio {w : Waker} {v : Nat} : (k.resume t w v).pqPrio = k.pqPrio := by
  rw [resume, chxReadyEnqueue_pqPrio, setV_pqPrio]
  rfl

@[simp] theorem dequeued_pqPrio {front back : List Pq} :
    (k.dequeued t front back).pqPrio = k.pqPrio :=
  pqPrio_eq (fun _ => rfl) fun _ => rfl

theorem resume_queue_ready {w : Waker} {v : Nat} : (k.resume t w v).queue .ready =
    insertBefore (fun p => decide (k.pqPrio p < k.pqPrio (.thread t))) (.thread t)
      (k.queue .ready) := by
  rw [resume, chxReadyEnqueue_queue_ready, setV_pqPrio]
  rfl

/-! ## Edits by kind -/

theorem Edited.drop (hq : ∀ q, q ≠ .timer → k'.queue q = (k.queue q).filter (· ≠ x))
    (hp : k'.pqPrio = k.pqPrio) (hx : ∀ p, x = .proxy p → op = .fire p ∨ op = .unlink p) :
    Edited op off k k' (.drop x) := by
  refine ⟨hq, fun _ x _ _ _ => congrFun hp x, fun _ _ h => h.elim (by simp) (by simp), by simp,
    by simp, by rintro _ ⟨⟩, fun p h => ?_⟩
  cases h
  exact hx p rfl

/-- An entry of the same priority as before, which was not in the queue. -/
theorem Edited.behind {m : Kernel} (hself : k'.queue q =
      insertBefore (fun p => decide (m.pqPrio p < m.pqPrio x)) x (m.queue q))
    (hothers : ∀ q', q' ≠ q → k'.queue q' = m.queue q')
    (hq : ∀ q', q' ≠ .timer → m.queue q' = (k.queue q').filter (· ≠ x))
    (hp₁ : k'.pqPrio = m.pqPrio) (hp : ∀ y, y ≠ x → m.pqPrio y = k.pqPrio y)
    (hx : x ∉ k.queue q) (hno : ¬ op.Pushes off x) (hl : ∀ p, x = .proxy p → ∃ q, op = .link p q) :
    Edited op off k k' (.behind x q) := by
  refine ⟨fun q' hq' => ?_, fun _ y _ _ hne => ?_, ?_, (by simp), ?_, fun p hp => ?_,
    by rintro _ ⟨⟩⟩
  · rw [Edit.apply]
    split
    · next heq =>
        subst heq
        rw [hself, hq q' hq', hp₁]
    · next hne => rw [hothers q' hne, hq q' hq']
  · rw [hp₁]
    exact hp y fun hy => hne (hy ▸ rfl)
  · rintro y q' (h | h) hy
    · cases h
      exact absurd hy hx
    · cases h
  · rintro y q' h
    cases h
    exact hno
  · exact hl p (Option.some.inj hp)

theorem not_pushes (h : ∀ t, op ≠ .yield t) : ¬ op.Pushes off x := by
  rintro ⟨-, t, ht, -⟩
  exact h t ht

/-- A thread in one of these states is in no queue but perhaps in `q_timer`. -/
theorem KernelInv.notMem_of_state (h : KernelInv off k)
    (hs : (k.thread t).state = .running ∨ (k.thread t).state = .waitPoll) (hq : q ≠ .timer) :
    .thread t ∉ k.queue q := by
  intro hm
  have hholds := h.holds_of_mem hm
  cases q with
  | timer => exact hq rfl
  | intr => exact hholds
  | _ => rcases hs with hs | hs <;> rw [hs] at hholds <;> cases hholds

/-- **What a move does to the sorted queues.** -/
theorem Move.edited (hm : Move cfg op (off, k) (off', k')) (h : KernelInv off k)
    (hex : op ≠ .expire) (hlink : ∀ p q, op = .link p q → ∀ q', .proxy p ∉ k.queue q')
    (hproxy : ∀ p, op = .proxy p → (k'.px p).prio = (k.px p).prio ∨ ∀ q, .proxy p ∉ k.queue q) :
    ∃ ed, Edited op off k k' ed := by
  have hpq := hm.pqPrio h
  cases hm with
  | expire => exact absurd rfl hex
  | aux | count | pend | pass | ready | enable | disable | norun =>
      exact ⟨.same, .same (fun _ _ => rfl) rfl⟩
  | flags w => exact ⟨.same, .same (fun _ _ => rfl) (modThread_pqPrio (w.set_prio _))⟩
  | @prio _ _ t _ _ hp hpo hr hm hc =>
      refine ⟨.same, fun _ _ => rfl, fun q x hq hx _ => ?_, fun _ _ h => h.elim (by simp) (by simp),
        by simp, by simp, by rintro _ ⟨⟩, by rintro _ ⟨⟩⟩
      cases x with
      | proxy p => rfl
      | thread u =>
          have hu : u ≠ t := by
            rintro rfl
            have hholds := h.holds_of_mem hx
            cases hq with
            | ready => exact hr hholds
            | mtx m => exact hm hholds
            | cnd c => exact hc hholds
          simp [Kernel.pqPrio, hu]
  | acquire | drop =>
      refine ⟨.same, .same (fun _ _ => rfl) (pqPrio_eq (fun u => ?_) fun _ => rfl)⟩
      simp only [acquire_thread, dropMutex_thread, Function.update_apply]
      split
      · next hu => rw [hu]
      · rfl
  | pollSleep | die | finish => exact ⟨.same, .same (fun _ _ => rfl) (modThread_pqPrio rfl)⟩
  | @raise _ t q p hp hlt hin hst =>
      have hprio : ∀ x, x ≠ .thread t → (k.setPrio t p).pqPrio x = k.pqPrio x := by
        intro x hx
        cases x with
        | proxy p => rfl
        | thread u =>
            have hu : u ≠ t := fun hu => hx (hu ▸ rfl)
            simp [Kernel.pqPrio, setPrio, hu]
      have hself : (k.setPrio t p).pqPrio (.thread t) = p := by
        simp [Kernel.pqPrio, setPrio]
      refine ⟨.behind (.thread t) q, fun q' _ => ?_, fun q' x _ _ hne => ?_, ?_, by simp, ?_,
        by rintro _ ⟨⟩, by rintro _ ⟨⟩⟩
      · rw [llPrioEnqueue_pqPrio, Edit.apply]
        split
        · next heq =>
            subst heq
            rw [llPrioEnqueue_queue_self]
            rfl
        · next hne => exact llPrioEnqueue_queue_of_ne hne
      · rw [llPrioEnqueue_pqPrio]
        exact hprio x fun hx => hne (hx ▸ rfl)
      · rintro x q' (hx | hx) -
        · cases hx
          rw [llPrioEnqueue_pqPrio]
          intro heq
          have heq' : p = (k.thread t).prio := hself.symm.trans heq
          omega
        · cases hx
      · rintro x q' hx
        cases hx
        exact not_pushes (by simp)
  | @wakeTimed _ k₁ t w n v hs hd hw =>
      obtain ⟨front, back, -, rfl, -⟩ := chxTimerDequeue_ok h.timer hd
      have hnot : .thread t ∉ k.queue .ready :=
        h.notMem_ready (by rcases hs with hs | hs <;> rw [hs] <;> decide)
      exact ⟨_, .behind resume_queue_ready (fun _ => resume_queue_of_ne) (fun _ _ => rfl)
        resume_pqPrio (fun y _ => congrFun dequeued_pqPrio y) hnot (not_pushes (by simp)) (by simp)⟩
  | @wakeQueued _ t q w v hin hw =>
      have hnot : .thread t ∉ k.queue .ready := by
        refine h.notMem_ready fun hs => ?_
        have hq : some Qh.ready = some q := ((h.place' t).ready hs).1.symm.trans hin.1
        cases hq
        cases hw
      exact ⟨_, .behind resume_queue_ready (fun _ => resume_queue_of_ne) (fun _ _ => rfl)
        resume_pqPrio (fun _ _ => rfl) hnot (not_pushes (by simp)) (by simp)⟩
  | @wakeLoose _ t w v hs hp hw =>
      have hnot : ∀ q, q ≠ .timer → .thread t ∉ k.queue q := fun q hq =>
        h.notMem_of_state (.inr hs) hq
      exact ⟨_, .behind (m := k) resume_queue_ready (fun _ => resume_queue_of_ne)
        (fun q hq => (filter_eq_of_notMem (hnot q hq)).symm) resume_pqPrio (fun _ _ => rfl)
        (hnot _ (by simp)) (not_pushes (by simp)) (by simp)⟩
  | slice hr hs he =>
      refine ⟨.same, .same (fun q hq => ?_) (hpq trivial trivial)⟩
      rcases endSlice_ok h.timer he with rfl | ⟨front, back, -, -, rfl⟩
      · rfl
      · exact filter_eq_of_notMem (h.notMem_of_state (.inl hs) hq)
  | @block _ t q st v hs hb =>
      have hnot : ∀ q, .thread t ∉ k.queue q := fun q => h.notMem_of_out
      refine ⟨_, .behind (m := k) llPrioEnqueue_queue_self (fun _ => llPrioEnqueue_queue_of_ne)
        (fun q hq => (filter_eq_of_notMem (hnot q)).symm) ?_ (fun _ _ => rfl) (hnot _)
        (not_pushes (by simp)) (by simp)⟩
      rw [modThread_pqPrio rfl, llPrioEnqueue_pqPrio]
  | sleep hs hst hpos hle =>
      refine ⟨.same, .same (fun q hq => ?_) (hpq trivial trivial)⟩
      exact chxTimerInsert_queue_of_ne h.timer_modThread hq
  | @yield _ t hs =>
      have hnot : ∀ q, .thread t ∉ k.queue q := fun q => h.notMem_of_out
      exact ⟨_, .behind (m := k) chxReadyEnqueue_queue_ready (fun _ => chxReadyEnqueue_queue_of_ne)
        (fun q hq => (filter_eq_of_notMem (hnot q)).symm) chxReadyEnqueue_pqPrio
        (fun _ _ => rfl) (hnot _) (by simp [Op.Pushes]) (by simp)⟩
  | @push _ t hr hs hf =>
      have hnot : ∀ q, .thread t ∉ k.queue q := by
        have hplace := (h.place' t).running hs
        rw [place_schedRr, hf, if_neg Bool.false_ne_true] at hplace
        exact fun q => notMem_of_isOut hplace
      have hp : (k.modThread t fun th => { th with state := .ready }).pqPrio = k.pqPrio :=
        modThread_pqPrio rfl
      have hp' : (k.chxReadyPush t).pqPrio = k.pqPrio := by
        rw [← chxReadyEnqueue_pqPrio (k := k) (t := t)]
        exact pqPrio_eq (fun _ => rfl) fun _ => rfl
      refine ⟨.front (.thread t) .ready, fun q hq => ?_, fun _ x _ _ _ => congrFun hp' x, ?_, ?_,
        by simp, by rintro _ ⟨⟩, by rintro _ ⟨⟩⟩
      · change (k.chxReadyPush t).queue q = Edit.apply (k.chxReadyPush t).pqPrio k.queue _ q
        rw [Edit.apply, filter_eq_of_notMem (hnot q), hp']
        split
        · next heq =>
            subst heq
            rw [chxReadyPush, llPrioPush, setQueue_queue, Function.update_self, hp]
            rfl
        · next hne => exact chxReadyPush_queue_of_ne hne
      · rintro x q (hx | hx) hm
        · cases hx
        · cases hx
          exact absurd hm (hnot _)
      · rintro x q hx
        cases hx
        exact ⟨rfl, t, rfl, rfl⟩
  | switch hs =>
      have hp := hpq trivial trivial
      rcases switchThread_cases cfg h.readyThreads with ⟨-, heq⟩ | ⟨t, rest, hq, heq⟩
      · rw [heq] at hp ⊢
        exact ⟨.same, .same (fun _ _ => rfl) hp⟩
      · rw [heq] at hp ⊢
        refine ⟨.drop (.thread t), .drop (fun q hq' => ?_) hp (by simp)⟩
        change ((k.popped t).sliced cfg t).queue q = _
        rw [sliced]
        split
        · have hm : .thread t ∈ k.queue .ready := hq ▸ List.mem_cons_self ..
          exact chxTimerInsert_queue_of_ne (h.popped_timer hm) hq'
        · rfl
  | create fp =>
      have hnot : ∀ q, .thread k.nthread ∉ k.queue q := by
        intro q hm
        exact absurd (h.lt_of_isIn (h.isIn_of_mem hm)) (lt_irrefl _)
      refine ⟨_, .behind (m := { k with
          nthread := k.nthread + 1
          thread := Function.update k.thread k.nthread (newThread fp) }) chxReadyEnqueue_queue_ready
        (fun _ => chxReadyEnqueue_queue_of_ne)
        (fun q hq => (filter_eq_of_notMem (hnot q)).symm) chxReadyEnqueue_pqPrio
        (fun y hy => ?_) (hnot _) (not_pushes (by simp)) (by simp)⟩
      cases y with
      | proxy p => rfl
      | thread u =>
          have hu : u ≠ k.nthread := fun hu => hy (hu ▸ rfl)
          simp [Kernel.pqPrio, hu]
  | @proxy _ _ p f =>
      refine ⟨.same, fun _ _ => rfl, fun q x _ hx _ => ?_, fun _ _ h => h.elim (by simp) (by simp),
        by simp, by simp, by rintro _ ⟨⟩, by rintro _ ⟨⟩⟩
      cases x with
      | thread t => rfl
      | proxy p' =>
          by_cases hp : p' = p
          · subst hp
            rcases hproxy p' rfl with hprio | hnot
            · exact hprio
            · exact absurd hx (hnot q)
          · simp [Kernel.pqPrio, hp]
  | fire => exact ⟨.drop _, .drop (fun _ _ => rfl) rfl fun p hp => .inl (by rw [Pq.proxy.inj hp])⟩
  | @link _ _ p q hq =>
      have hnot := hlink p q rfl
      exact ⟨_, .behind (m := k) llPrioEnqueue_queue_self (fun _ => llPrioEnqueue_queue_of_ne)
        (fun q' _ => (filter_eq_of_notMem (hnot q')).symm) llPrioEnqueue_pqPrio (fun _ _ => rfl)
        (hnot _) (not_pushes (by simp)) fun p' hp' => ⟨q, by rw [Pq.proxy.inj hp']⟩⟩
  | unlink =>
      exact ⟨.drop _, .drop (fun _ _ => rfl) rfl fun p hp => .inr (by rw [Pq.proxy.inj hp])⟩

/-! ## Expiry -/

theorem expireOne_pqPrio : (k.expireOne t).pqPrio = k.pqPrio :=
  pqPrio_eq (fun _ => expireOne_prio) fun p => congrArg (fun o : Objects => (o.px p).prio)
    expireOne_objects

theorem expireOne_queue_insert : (k.expireOne t).queue .ready =
    insertBefore (fun p => decide (k.pqPrio p < k.pqPrio (.thread t))) (.thread t)
      ((k.queue .ready).filter (· ≠ .thread t)) := by
  rw [expireOne, chxReadyEnqueue_queue_ready, setV_pqPrio]
  split <;> rfl

/-- The threads whose time is over arrive in `q_ready` one after another. -/
theorem foldl_expireEntry_ready {xs : List Pq} (hthr : ∀ x ∈ xs, ∃ t, x = .thread t)
    (hnd : xs.Nodup) (hnot : ∀ x ∈ xs, x ∉ k.queue .ready) :
    (xs.foldl expireEntry k).queue .ready = behinds k.pqPrio (k.queue .ready) xs ∧
      (xs.foldl expireEntry k).pqPrio = k.pqPrio := by
  induction xs generalizing k with
  | nil => exact ⟨rfl, rfl⟩
  | cons x xs ih =>
      obtain ⟨t, rfl⟩ := hthr x (List.mem_cons_self ..)
      rw [List.nodup_cons] at hnd
      have hq : (k.expireOne t).queue .ready =
          insertBefore (fun p => decide (k.pqPrio p < k.pqPrio (.thread t))) (.thread t)
            (k.queue .ready) := by
        rw [expireOne_queue_insert, filter_eq_of_notMem (hnot _ (List.mem_cons_self ..))]
      have hnot' : ∀ x ∈ xs, x ∉ (k.expireOne t).queue .ready := by
        intro y hy hm
        rw [hq] at hm
        rcases mem_insertBefore.1 hm with rfl | hm
        · exact hnd.1 hy
        · exact hnot y (List.mem_cons_of_mem _ hy) hm
      obtain ⟨ih₁, ih₂⟩ := ih (k := k.expireOne t) (fun y hy => hthr y (List.mem_cons_of_mem _ hy))
        hnd.2 hnot'
      rw [List.foldl_cons, expireEntry, ih₁, ih₂, hq, expireOne_pqPrio]
      exact ⟨rfl, rfl⟩

theorem request_queue {prio : Nat} : (k.chxRequestPreemption prio).queue = k.queue ∧
    (k.chxRequestPreemption prio).pqPrio = k.pqPrio := by
  rw [chxRequestPreemption]
  split
  · exact ⟨rfl, rfl⟩
  · split <;> exact ⟨rfl, rfl⟩

/-- What `chx_timer_expired` does to the sorted queues. -/
theorem chxTimerExpired_queues (h : KernelInv none k) (s : Systick) :
    ∃ xs, xs.Sublist (k.queue .timer) ∧ (∀ x ∈ xs, ∀ q, q ≠ .timer → x ∉ k.queue q) ∧
      (k.setSystick s).chxTimerExpired.pqPrio = k.pqPrio ∧
      (k.setSystick s).chxTimerExpired.queue .ready = behinds k.pqPrio (k.queue .ready) xs ∧
      ∀ q, q ≠ .timer → q ≠ .ready → (k.setSystick s).chxTimerExpired.queue q = k.queue q := by
  set k₀ := k.setSystick s with hk₀
  have hthr : k₀.HoldsThreads .timer := h.timer.threads
  have hnd : (k₀.queue .timer).Nodup := h.timer.nodup
  obtain ⟨prio, heq, -⟩ := chxTimerExpired_eq hthr hnd
  have hsub : k₀.expired.Sublist (k.queue .timer) := by
    have happ : k₀.expired ++ k₀.remaining.1 = k.queue .timer := expired_append_remaining
    rw [← happ]
    exact List.sublist_append_left ..
  have hnot : ∀ x ∈ k₀.expired, ∀ q, q ≠ .timer → x ∉ k.queue q := by
    intro x hx q hq hm
    obtain ⟨t, rfl⟩ := expired_threads hthr x hx
    have hp := (h.isIn_of_mem (hsub.subset hx)).1.symm.trans (h.isIn_of_mem hm).1
    exact hq (Option.some.inj hp).symm
  have hfold := foldl_expireEntry_ready (k := k₀) (expired_threads hthr) (hnd.sublist hsub)
    fun x hx => hnot x hx .ready (by simp)
  rw [heq, request_queue.1, request_queue.2]
  refine ⟨k₀.expired, hsub, hnot, hfold.2, hfold.1, fun q hq hne => ?_⟩
  have hq' := foldl_expireEntry_queue (k := k₀) (expired_threads hthr) hne
  change (k₀.expired.foldl expireEntry k₀).queue q = _
  rw [hq']
  refine List.filter_eq_self.2 fun x hx => ?_
  rw [decide_eq_true_eq]
  exact fun hx' => hnot x hx' q hq hx

/-! ## The order of the queues -/

/-- What is known about the proxies in a move: a proxy that is linked keeps its priority,
and one that is put into a queue is linked nowhere. -/
def Op.Orderly (op : Op) (k k' : Kernel) : Prop :=
  match op with
  | .link p _ => ∀ q, .proxy p ∉ k.queue q
  | .proxy p => (k'.px p).prio = (k.px p).prio ∨ ∀ q, .proxy p ∉ k.queue q
  | _ => True

/-- The numbers of arrival of the entries of the queues. -/
abbrev Numbers := Arrivals Qh Pq

/-- The numbers after a move.  The threads that arrive in `q_ready` in one move come from
`q_timer`, in its order. -/
def Numbers.After (op : Op) (off : Option Tid) (k k' : Kernel) (A B : Numbers) : Prop :=
  A.Next k.queues k'.queues (op.Pushes off) (k.queue .timer) B

namespace Kernel

/-- The sorted queues are sorted, by priority and by arrival. -/
def Ordered (k : Kernel) (A : Numbers) : Prop := ∀ q, q.Sorts → k.queues.Ordered A q

end Kernel

/-- An edit keeps the queues sorted. -/
theorem Edited.ordered {ed : Edit} {A B : Numbers} (he : Edited op off k k' ed)
    (hAB : Numbers.After op off k k' A B) (ho : k.Ordered A) : k'.Ordered B := by
  intro q hq
  have hqueue := he.queue q hq.ne_timer
  have hprio : ∀ x ∈ k.queue q, ed.puts ≠ some x → k'.pqPrio x = k.pqPrio x :=
    fun x hx hne => he.prio q x hq hx hne
  have hfilter : ∀ x : Pq, ((k.queue q).filter (· ≠ x)).Sublist (k.queue q) :=
    fun _ => List.filter_sublist
  have hprio' : ∀ x, ed.puts = some x → ∀ y ∈ (k.queue q).filter (· ≠ x),
      k'.pqPrio y = k.pqPrio y := by
    intro x hx y hy
    obtain ⟨hy, hne⟩ := List.mem_filter.1 hy
    rw [decide_eq_true_eq] at hne
    exact hprio y hy fun h => hne (Option.some.inj (h.symm.trans hx))
  have hkeep : ∀ l, k'.queue q = l → l.Sublist (k.queue q) →
      (∀ y ∈ l, k'.pqPrio y = k.pqPrio y) → k'.queues.Ordered B q := by
    rintro l rfl hsub hp
    exact (ho q hq).keep hAB hsub hp
  cases ed with
  | same => exact hkeep _ hqueue (.refl _) fun x hx => hprio x hx (by rintro ⟨⟩)
  | drop x =>
      exact hkeep _ hqueue (hfilter x) fun y hy => hprio y (List.mem_of_mem_filter hy)
        (by rintro ⟨⟩)
  | behind x q₀ =>
      by_cases hqq : q = q₀
      · subst hqq
        refine (ho q hq).behind hAB (hfilter x) (hprio' x rfl) (hqueue.trans (if_pos rfl)) ?_ ?_
        · exact he.fresh x q (.inl rfl)
        · exact he.stays x q rfl
      · exact hkeep _ (hqueue.trans (if_neg hqq)) (hfilter x) (hprio' x rfl)
  | front x q₀ =>
      by_cases hqq : q = q₀
      · subst hqq
        refine (ho q hq).front hAB (hfilter x) (hprio' x rfl) (hqueue.trans (if_pos rfl)) ?_ ?_
        · exact he.fresh x q (.inr rfl)
        · exact he.pushes x q rfl
      · exact hkeep _ (hqueue.trans (if_neg hqq)) (hfilter x) (hprio' x rfl)

/-- **A move keeps the queues sorted.** -/
theorem Move.ordered {A B : Numbers} (hm : Move cfg op (off, k) (off', k')) (h : KernelInv off k)
    (hop : op.Orderly k k') (hAB : Numbers.After op off k k' A B) (ho : k.Ordered A) :
    k'.Ordered B := by
  by_cases hex : op = .expire
  · subst hex
    cases hm with
    | expire hp hr =>
        obtain ⟨xs, hsub, hnot, hprio, hready, hothers⟩ :=
          chxTimerExpired_queues h { k.systick with pending := false }
        intro q hq
        by_cases hqr : q = .ready
        · subst hqr
          refine (ho .ready hq).behinds hAB (.refl _) (fun x _ => congrFun hprio x) ?_
            (fun x hx hm => absurd hm (hnot x hx .ready (by simp)))
            (fun x _ => not_pushes (by simp)) (.inl hsub)
          rw [queues, hprio]
          exact hready
        · refine (ho q hq).keep hAB ?_ fun x _ => congrFun hprio x
          change (Kernel.queue _ q).Sublist _
          rw [hothers q hq.ne_timer hqr]
          exact .refl _
  · have hlink : ∀ p q, op = .link p q → ∀ q', .proxy p ∉ k.queue q' := by
      rintro p q rfl
      exact hop
    have hproxy : ∀ p, op = .proxy p →
        (k'.px p).prio = (k.px p).prio ∨ ∀ q, .proxy p ∉ k.queue q := by
      rintro p rfl
      exact hop
    obtain ⟨ed, he⟩ := hm.edited h hex hlink hproxy
    exact he.ordered hAB ho

/-! ## The proxies in the queues -/

theorem Edit.mem_proxy {ed : Edit} {prio : Pq → Nat} {Q : Qh → List Pq}
    (h : ed.puts ≠ some (.proxy p)) (hd : ed ≠ .drop (.proxy p)) :
    .proxy p ∈ ed.apply prio Q q ↔ .proxy p ∈ Q q := by
  have hfilter : ∀ x : Pq, x ≠ .proxy p → (.proxy p ∈ (Q q).filter (· ≠ x) ↔ .proxy p ∈ Q q) := by
    intro x hx
    rw [List.mem_filter, decide_eq_true_eq]
    exact ⟨And.left, fun hm => ⟨hm, hx.symm⟩⟩
  cases ed with
  | same => exact Iff.rfl
  | drop x => exact hfilter x fun hx => hd (hx ▸ rfl)
  | behind x q₀ | front x q₀ =>
      have hx : x ≠ .proxy p := fun hx => h (congrArg some hx)
      rw [Edit.apply]
      split
      · rw [mem_insertBefore, hfilter x hx]
        exact ⟨fun hm => hm.resolve_left hx.symm, .inr⟩
      · exact hfilter x hx

/-- **A proxy is put into a queue, and taken out of it, by moves of its own only.** -/
theorem Move.mem_proxy (hm : Move cfg op (off, k) (off', k')) (h : KernelInv off k)
    (hl : ∀ q, op ≠ .link p q) (hu : op ≠ .unlink p) (hf : op ≠ .fire p) (q : Qh) :
    .proxy p ∈ k'.queue q ↔ .proxy p ∈ k.queue q := by
  by_cases hq : q = .timer
  · subst hq
    have hnot : ∀ {o : Option Tid} {K : Kernel}, KernelInv o K → .proxy p ∉ K.queue .timer := by
      intro o K hK hp
      obtain ⟨t, ht⟩ := hK.timer.threads _ hp
      cases ht
    exact iff_of_false (hnot (h.move hm)) (hnot h)
  by_cases hex : op = .expire
  · subst hex
    cases hm with
    | expire hp hr =>
        obtain ⟨xs, hsub, -, -, hready, hothers⟩ :=
          chxTimerExpired_queues h { k.systick with pending := false }
        by_cases hqr : q = .ready
        · subst hqr
          have hxs : .proxy p ∉ xs := by
            intro hp
            obtain ⟨t, ht⟩ := h.timer.threads _ (hsub.subset hp)
            cases ht
          rw [hready, mem_behinds]
          exact ⟨fun hm => hm.resolve_right hxs, .inl⟩
        · rw [hothers q hq hqr]
  by_cases hlink : ∃ p' q', op = .link p' q'
  · obtain ⟨p', q', rfl⟩ := hlink
    have hne : p ≠ p' := fun h => hl q' (h ▸ rfl)
    cases hm with
    | link hq' =>
        by_cases hqq : q = q'
        · subst hqq
          rw [llPrioEnqueue_queue_perm.mem_iff, List.mem_cons]
          exact ⟨fun hm => hm.resolve_left fun h => hne (Pq.proxy.inj h), .inr⟩
        · rw [llPrioEnqueue_queue_of_ne hqq]
  by_cases hproxy : ∃ p', op = .proxy p'
  · obtain ⟨p', rfl⟩ := hproxy
    cases hm with
    | proxy f => exact Iff.rfl
  · obtain ⟨ed, he⟩ := hm.edited h hex (fun p' q' hp => absurd ⟨p', q', hp⟩ hlink)
      fun p' hp => absurd ⟨p', hp⟩ hproxy
    rw [he.queue q hq]
    refine Edit.mem_proxy (fun hp => ?_) fun hd => ?_
    · obtain ⟨q', hq'⟩ := he.links p hp
      exact hl q' hq'
    · rcases he.drops p hd with ho | ho
      · exact hf ho
      · exact hu ho

end Chopstx
