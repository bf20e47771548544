import Chopstx.Kernel.Place

/-!
# What the operations on `q_timer` do

An operation on `q_timer` writes values `v` of threads in that queue, the queue
itself and the SysTick counter, and nothing else.  `retime` is such a write of
values and counter, and each operation is one `retime` and a change of the queue.

`TimerInv` is what all operations keep, whatever time passes inside a critical
section: the queue holds threads, its last value is not 0, the deadlines fit into
the 24 bits of the counter, and the counter runs while the queue is not empty.

* `chxTimerInsert_deadlines`, `chxTimerDequeue_ok`, `chxTimerExpired_eq` - what the three operations
  do to the queue, the values and the counter.
* `TimerInv.expire` and its siblings - they keep `TimerInv`.
* `place_chxTimerInsert`, `place_dequeued` - and where the thread is afterwards.

The general facts about delta queues are in `Chopstx.Library.DeltaQueue`.
-/

namespace Chopstx

open PrioQueue DeltaQueue

namespace Kernel

variable {cfg : Config} {k k' : Kernel} {t u : Tid} {n : Nat} {q : Qh}

/-! ## Writes of values and of the counter -/

/-- The values of the threads. -/
def vals (k : Kernel) : Tid → Nat := fun u => (k.thread u).v

/-- Another counter. -/
@[simps]
def setSystick (k : Kernel) (s : Systick) : Kernel := { k with systick := s }

/-- Other values and another counter. -/
@[simps running nthread queue mutex px counter ncall ready systick masked pendsv irq mem ghost]
def retime (k : Kernel) (w : Tid → Nat) (s : Systick) : Kernel :=
  { k with thread := fun u => { k.thread u with v := w u }, systick := s }

@[simp] theorem retime_thread (w : Tid → Nat) (s : Systick) :
    (k.retime w s).thread u = { k.thread u with v := w u } := rfl

@[simp] theorem vals_retime (w : Tid → Nat) (s : Systick) : (k.retime w s).vals = w := rfl

@[simp] theorem vals_apply : k.vals t = (k.thread t).v := rfl

theorem setV_thread (n : Nat) :
    k.setV n (.thread t) = k.retime (Function.update k.vals t n) k.systick := by
  have h : Function.update k.thread t { k.thread t with v := n } =
      fun u => { k.thread u with v := Function.update k.vals t n u } := by
    funext u
    by_cases hu : u = t
    · subst hu
      simp
    · simp [hu]
  rw [setV, modThread, h]
  rfl

theorem chxSystickReload_eq_retime :
    k.chxSystickReload n =
      k.retime k.vals { k.systick.elapse with count := n % 16777216 } := rfl

@[simp] theorem retime_retime (w w' : Tid → Nat) (s s' : Systick) :
    (k.retime w s).retime w' s' = k.retime w' s' := rfl

@[simp] theorem vals_setParent : (k.setParent q (.thread t)).vals = k.vals := by
  funext u
  by_cases hu : u = t
  · subst hu
    simp [setParent]
  · simp [setParent, hu]

@[simp] theorem vals_setQueue (l : List Pq) : (k.setQueue q l).vals = k.vals := rfl

@[simp] theorem vals_llDequeue (p : Pq) : (k.llDequeue p).vals = k.vals := rfl

@[simp] theorem vals_noteDue (n : Nat) : (k.noteDue t n).vals = k.vals := rfl

@[simp] theorem vals_noteLateEdit (b : Bool) : (k.noteLateEdit b).vals = k.vals := rfl

theorem setParent_retime (w : Tid → Nat) (s : Systick) :
    (k.setParent q (.thread t)).retime w s = (k.retime w s).setParent q (.thread t) := by
  simp only [setParent, modThread, retime]
  congr 1
  funext u
  by_cases hu : u = t
  · subst hu
    simp
  · simp [hu]

@[simp] theorem noteLateEdit_false : k.noteLateEdit false = k := by
  simp [noteLateEdit]

/-- The value of an entry of a queue of threads, in other values. -/
def entryV (w : Tid → Nat) : Pq → Nat
  | .thread t => w t
  | .proxy _ => 0

theorem pqV_eq_entryV {p : Pq} (h : ∃ t, p = .thread t) : k.pqV p = entryV k.vals p := by
  obtain ⟨t, rfl⟩ := h
  rfl

@[simp] theorem entryV_thread (w : Tid → Nat) : entryV w (.thread t) = w t := rfl

@[simp] theorem pqV_thread : k.pqV (.thread t) = (k.thread t).v := rfl

end Kernel

/-! ## Time -/

namespace Systick

variable {s s' s'' : Systick} {d : Nat}

/-- Time has passed from `s` to `s'`, and nobody has written to the counter. -/
structure Later (s s' : Systick) : Prop where
  sum : s.count + s.now ≤ s'.count + s'.now
  count : s'.count ≤ s.count
  now : s.now ≤ s'.now
  pending : s'.pending = false → s.pending = false
  /-- While the exception is not pending the count has run down by the time passed. -/
  run : s'.pending = false → 0 < s.count → 0 < s'.count ∧ s'.count + s'.now = s.count + s.now
  /-- The exception becomes pending when the count has run down, not before. -/
  fire : s.pending = false → s'.pending = true → s.count + s.now ≤ s'.now
  spent : s.pending = false → s'.pending = true → s'.count = 0

theorem Later.refl (s : Systick) : s.Later s := by
  refine ⟨le_refl _, le_refl _, le_refl _, id, fun _ h => ⟨h, rfl⟩, ?_, ?_⟩ <;>
  · intro h h'
    rw [h] at h'
    cases h'

theorem advance_later (s : Systick) (d : Nat) : s.Later (s.advance d) := by
  refine ⟨?_, Nat.sub_le _ _, Nat.le_add_right _ _, ?_, ?_, ?_, ?_⟩
  · simp only [advance]
    omega
  · intro hp
    exact (Bool.or_eq_false_iff.1 hp).1
  · intro hp hc
    have hd := of_decide_eq_false (Bool.or_eq_false_iff.1 hp).2
    simp only [advance]
    omega
  · intro hp hp'
    rcases Bool.or_eq_true_iff.1 hp' with h | h
    · rw [hp] at h
      cases h
    · have hd := of_decide_eq_true h
      simp only [advance]
      omega
  · intro hp hp'
    rcases Bool.or_eq_true_iff.1 hp' with h | h
    · rw [hp] at h
      cases h
    · have hd := of_decide_eq_true h
      simp only [advance]
      omega

theorem elapse_later (s : Systick) : s.Later s.elapse := by
  rw [elapse]
  split
  · exact .refl s
  · obtain ⟨h₁, h₂, h₃, h₄, h₅, h₆, h₇⟩ := s.advance_later ‹Nat›
    exact ⟨h₁, h₂, h₃, h₄, h₅, h₆, h₇⟩

end Systick

/-! ## The invariant -/

namespace Kernel

variable {cfg : Config} {k k' : Kernel} {t u : Tid} {n usec : Nat} {q : Qh}

/-- What every operation on `q_timer` keeps. -/
structure TimerInv (k : Kernel) : Prop where
  threads : k.HoldsThreads .timer
  nodup : (k.queue .timer).Nodup
  /-- The counter has 24 bits. -/
  bound : k.systick.count + total k.pqV (k.queue .timer) ≤ 16777216
  /-- "Non-zero for the last entry." -/
  lastV : ∀ p, (k.queue .timer).getLast? = some p → k.pqV p ≠ 0
  armed : k.queue .timer ≠ [] → k.systick.pending = false → 0 < k.systick.count

@[simp] theorem pqV_elapse : k.elapse.pqV = k.pqV := by
  funext p
  cases p <;> rfl

/-- Words do not overflow in `q_timer`. -/
theorem TimerInv.lt (h : TimerInv k) : total k.pqV (k.queue .timer) < 4294967296 := by
  have := h.bound
  omega

@[simp] theorem pqV_setSystick {s : Systick} : (k.setSystick s).pqV = k.pqV := by
  funext p
  cases p <;> rfl

/-- The invariant is about the queue, its values and the counter. -/
theorem TimerInv.congr (h : TimerInv k) (hq : k'.queue .timer = k.queue .timer)
    (hv : ∀ p ∈ k.queue .timer, k'.pqV p = k.pqV p) (hc : k'.systick.count = k.systick.count)
    (hp : k'.systick.pending = k.systick.pending) : TimerInv k' := by
  refine ⟨?_, hq ▸ h.nodup, ?_, ?_, ?_⟩
  · intro p hp
    rw [hq] at hp
    exact h.threads p hp
  · rw [hq, hc, total_congr hv]
    exact h.bound
  · intro p hp
    rw [hq] at hp
    rw [hv p (List.mem_of_getLast? hp)]
    exact h.lastV p hp
  · rw [hq, hc, hp]
    exact h.armed

theorem TimerInv.congr_thread (h : TimerInv k) (hq : k'.queue .timer = k.queue .timer)
    (hv : ∀ u, .thread u ∈ k.queue .timer → (k'.thread u).v = (k.thread u).v)
    (hs : k'.systick = k.systick) : TimerInv k' := by
  refine h.congr hq (fun p hp => ?_) (by rw [hs]) (by rw [hs])
  obtain ⟨u, rfl⟩ := h.threads p hp
  exact hv u hp

/-! ## Insertion -/

/-- The values after a write to the last thread of `front`, if there is one. -/
def writeLast (w : Tid → Nat) (front : List Pq) (f : Nat → Nat) : Tid → Nat :=
  match front.getLast? with
  | some (.thread p) => Function.update w p (f (w p))
  | _ => w

theorem writeLast_of_getLast {w : Tid → Nat} {front : List Pq} {f : Nat → Nat}
    (h : front.getLast? = some (.thread u)) : writeLast w front f u = f (w u) := by
  simp [writeLast, h]

theorem writeLast_of_ne {w : Tid → Nat} {front : List Pq} {f : Nat → Nat}
    (h : front.getLast? ≠ some (.thread u)) : writeLast w front f u = w u := by
  unfold writeLast
  cases hl : front.getLast? with
  | none => rfl
  | some p =>
      cases p with
      | proxy p => rfl
      | thread p =>
          refine Function.update_of_ne ?_ _ _
          rintro rfl
          exact h hl

/-- The values after an insertion of `t` behind `front`. -/
def insertVals (k : Kernel) (t : Tid) (front : List Pq) (ticks : Nat) (next : Option Nat) :
    Tid → Nat :=
  Function.update (writeLast k.vals front fun _ => ticks) t
    (next.elim 1 fun n => n - ticks)

/-- The counter after an insertion behind `front`. -/
def insertSystick (k : Kernel) (front : List Pq) (ticks : Nat) : Systick :=
  if front = [] then { k.systick.elapse.elapse with count := ticks % 16777216 }
  else k.systick.elapse

/-- What `chx_timer_insert` writes. -/
theorem chxTimerInsert_eq (hq : k.HoldsThreads .timer) :
    k.chxTimerInsert cfg t usec =
      let r := locate k.pqV (k.queue .timer) (usecToTicks cfg usec) k.systick.elapse.count
      ((((k.retime (k.insertVals t r.1 r.2.2.1 r.2.2.2) (k.insertSystick r.1 r.2.2.1)).setParent
        .timer (.thread t)).setQueue .timer (r.1 ++ .thread t :: r.2.1)).noteDue t
          (k.systick.elapse.now + usecToTicks cfg usec)).noteLateEdit
            (r.1.isEmpty && k.systick.elapse.elapse.pending) := by
  have hlast : ∀ p, (locate k.pqV (k.queue .timer) (usecToTicks cfg usec)
      k.systick.elapse.count).1.getLast? = some p → ∃ u, p = .thread u := by
    intro p hp
    refine hq p ?_
    rw [← locate_append k.pqV (k.queue .timer) (usecToTicks cfg usec) k.systick.elapse.count]
    exact List.mem_append_left _ (List.mem_of_getLast? hp)
  have hv : ∀ (K : Kernel) (l : List Pq) (n : Nat) (b : Bool),
      ((((K.noteDue t n).noteLateEdit b).setParent .timer (.thread t)).setQueue .timer l).vals =
        K.vals := by
    intro K l n b
    exact vals_setParent
  have hr : ∀ (K : Kernel) (l : List Pq) (n : Nat) (b : Bool) (w : Tid → Nat) (s : Systick),
      ((((K.noteDue t n).noteLateEdit b).setParent .timer (.thread t)).setQueue .timer l).retime
        w s = ((((K.retime w s).noteDue t n).noteLateEdit b).setParent .timer (.thread t)).setQueue
          .timer l := by
    intro K l n b w s
    exact congrArg (fun K : Kernel => K.setQueue .timer l)
      (setParent_retime (k := (K.noteDue t n).noteLateEdit b) w s)
  simp only [chxTimerInsert, elapse_queue, pqV_elapse, elapse_systick]
  generalize locate k.pqV (k.queue .timer) (usecToTicks cfg usec) k.systick.elapse.count = r
    at hlast ⊢
  obtain ⟨front, back, ticks, next⟩ := r
  simp only at hlast ⊢
  cases hl : front.getLast? with
  | none =>
      have hf : front = [] := List.getLast?_eq_none_iff.1 hl
      subst hf
      cases next <;>
      · simp only [chxSetTimer, setV_thread, insertVals, writeLast, insertSystick,
          chxSystickReload_eq_retime, retime_retime, vals_retime, hv, hr]
        rfl
  | some p =>
      have hf : front ≠ [] := by
        rintro rfl
        cases hl
      obtain ⟨u, rfl⟩ := hlast p hl
      cases next <;>
      · simp only [chxSetTimer, setV_thread, insertVals, writeLast, insertSystick, hl, if_neg hf,
          retime_retime, vals_retime, hv, hr]
        rfl

theorem insertVals_self (front : List Pq) (ticks : Nat) (next : Option Nat) :
    k.insertVals t front ticks next t = next.elim 1 fun n => n - ticks := by
  simp [insertVals]

/-- A thread that is neither inserted nor in the queue keeps its value. -/
theorem insertVals_of_notMem {front : List Pq} {ticks : Nat} {next : Option Nat} (hu : u ≠ t)
    (hf : .thread u ∉ front) : k.insertVals t front ticks next u = k.vals u := by
  rw [insertVals, Function.update_of_ne hu]
  exact writeLast_of_ne fun h => hf (List.mem_of_getLast? h)

/-- The last entry of a queue is not among those before it. -/
theorem getLast?_ne_of_mem_dropLast {l : List Pq} {p : Pq} (hnd : l.Nodup)
    (hp : p ∈ l.dropLast) : l.getLast? ≠ some p := by
  intro hl
  have hne : l ≠ [] := List.ne_nil_of_mem (List.mem_of_mem_dropLast hp)
  rw [List.getLast?_eq_some_getLast hne] at hl
  rw [← List.dropLast_append_getLast hne, Option.some.inj hl] at hnd
  exact (List.nodup_append.1 hnd).2.2 _ hp _ (List.mem_singleton.2 rfl) rfl

/-- The values written by an insertion are those of a delta queue. -/
theorem inserted_insertVals (hT : TimerInv k) (ht : .thread t ∉ k.queue .timer) (ticks c : Nat) :
    let r := locate k.pqV (k.queue .timer) ticks c
    Inserted k.pqV (entryV (k.insertVals t r.1 r.2.2.1 r.2.2.2)) (k.queue .timer) ticks c
      (.thread t) := by
  intro r
  have happ : r.1 ++ r.2.1 = k.queue .timer := locate_append ..
  have hnd : (r.1 ++ r.2.1).Nodup := happ ▸ hT.nodup
  have hthr : ∀ p ∈ r.1 ++ r.2.1, ∃ u, p = .thread u ∧ u ≠ t := by
    intro p hp
    rw [happ] at hp
    obtain ⟨u, rfl⟩ := hT.threads p hp
    refine ⟨u, rfl, ?_⟩
    rintro rfl
    exact ht hp
  refine ⟨?_, ?_, ?_, ?_⟩
  · intro p hp
    obtain ⟨u, rfl, hut⟩ := hthr p (List.mem_append_left _ (List.mem_of_mem_dropLast hp))
    rw [entryV_thread, insertVals, Function.update_of_ne hut]
    exact writeLast_of_ne (getLast?_ne_of_mem_dropLast (List.nodup_append.1 hnd).1 hp)
  · intro p hp
    obtain ⟨u, rfl, hut⟩ := hthr p (List.mem_append_left _ (List.mem_of_getLast? hp))
    rw [entryV_thread, insertVals, Function.update_of_ne hut]
    exact writeLast_of_getLast hp
  · intro n hn
    rw [entryV_thread, insertVals_self, show r.2.2.2 = some n from hn, Option.elim_some]
  · intro p hp
    obtain ⟨u, rfl, hut⟩ := hthr p (List.mem_append_right _ hp)
    refine insertVals_of_notMem hut ?_
    intro hf
    exact (List.nodup_append.1 hnd).2.2 _ hf _ hp rfl

/-! ## Removal -/

/-- The values after the removal of `t` from behind `front`. -/
def dequeueVals (k : Kernel) (t : Tid) (front : List Pq) : Tid → Nat :=
  Function.update (writeLast k.vals front fun n => n + k.vals t) t 0

/-- The counter after the removal of `t` from between `front` and `back`. -/
def dequeueSystick (k : Kernel) (t : Tid) (front back : List Pq) : Systick :=
  if front = [] then
    { k.systick.elapse.elapse with
      count := if back = [] then 0 else k.systick.elapse.count + k.vals t }
  else k.systick.elapse

/-- What `chx_timer_dequeue` makes of a queue with `t` between `front` and `back`. -/
def dequeued (k : Kernel) (t : Tid) (front back : List Pq) : Kernel :=
  ((k.retime (k.dequeueVals t front) (k.dequeueSystick t front back)).llDequeue
    (.thread t)).noteLateEdit (front.isEmpty &&
      (decide (back ≠ [] ∧ k.systick.elapse.count + (k.thread t).v ≠ 0) &&
        k.systick.elapse.elapse.pending))

theorem foldl_add32 {l : List Pq} {c : Nat} (h : c + total k.pqV l < 4294967296) :
    l.foldl (fun n p => add32 n (k.pqV p)) c = c + total k.pqV l := by
  induction l generalizing c with
  | nil => rfl
  | cons p ps ih =>
      rw [total_cons] at h
      have hc : add32 c (k.pqV p) = c + k.pqV p := add32_of_lt (by omega)
      rw [List.foldl_cons, hc, ih (by omega), total_cons, Nat.add_assoc]

theorem takeWhile_ne_append {α : Type} [DecidableEq α] {a : α} {l l' : List α} (h : a ∉ l) :
    (l ++ a :: l').takeWhile (fun x => decide (x ≠ a)) = l := by
  induction l with
  | nil => simp
  | cons b l ih =>
      rw [List.mem_cons, not_or] at h
      rw [List.cons_append, List.takeWhile_cons_of_pos (by simpa using Ne.symm h.1), ih h.2]

/-- The last value is part of the total. -/
theorem TimerInv.total_pos {l : List Pq} (h : TimerInv k) (hl : l <:+ k.queue .timer)
    (hne : l ≠ []) : 0 < total k.pqV l := by
  have hlast : (k.queue .timer).getLast? = some (l.getLast hne) := by
    obtain ⟨l', hl'⟩ := hl
    rw [← hl', List.getLast?_append_of_ne_nil _ hne, List.getLast?_eq_some_getLast hne]
  exact (Nat.pos_of_ne_zero (h.lastV _ hlast)).trans_le (le_total_of_mem (List.getLast_mem hne))

/-- `chx_timer_dequeue` of the head. -/
theorem chxTimerDequeue_head {back : List Pq} (hT : TimerInv k)
    (hq : k.queue .timer = .thread t :: back) :
    k.chxTimerDequeue t = .ok (k.dequeued t [] back, k.systick.elapse.count) := by
  have hb := hT.bound
  have hc := k.systick.elapse_later.count
  rw [hq, total_cons, pqV_thread] at hb
  simp only [chxTimerDequeue, elapse_queue, hq, if_true, elapse_systick, elapse_thread, setV_thread,
    dequeued, dequeueVals, dequeueSystick, writeLast, List.getLast?_nil]
  cases back with
  | nil => rfl
  | cons p ps =>
      have hpos := hT.total_pos (hq ▸ List.suffix_cons ..) (List.cons_ne_nil p ps)
      have hadd : add32 k.systick.elapse.count (k.thread t).v =
          k.systick.elapse.count + (k.thread t).v := add32_of_lt (by omega)
      have hmod : (k.systick.elapse.count + (k.thread t).v) % 16777216 =
          k.systick.elapse.count + (k.thread t).v := Nat.mod_eq_of_lt (by omega)
      simp only [noteLateEdit_thread, elapse_thread, hadd, chxSystickReload_eq_retime, hmod,
        if_neg (List.cons_ne_nil p ps)]
      rfl

/-- `chx_timer_dequeue` of a thread behind others. -/
theorem chxTimerDequeue_behind {front back : List Pq} (hT : TimerInv k) (hne : front ≠ [])
    (hq : k.queue .timer = front ++ .thread t :: back) :
    k.chxTimerDequeue t =
      .ok (k.dequeued t front back, k.systick.elapse.count + total k.pqV front) := by
  have hb := hT.bound
  have hc := k.systick.elapse_later.count
  have hnd := hT.nodup
  rw [hq, total_append, total_cons, pqV_thread] at hb
  rw [hq] at hnd
  have ht : .thread t ∉ front := fun h =>
    (List.nodup_append.1 hnd).2.2 _ h _ (List.mem_cons_self ..) rfl
  obtain ⟨p, ps, rfl⟩ := List.exists_cons_of_ne_nil hne
  rw [List.mem_cons, not_or] at ht
  obtain ⟨u, hu⟩ := hT.threads ((p :: ps).getLast hne)
    (hq ▸ List.mem_append_left _ (List.getLast_mem hne))
  have huv : (k.thread u).v ≤ total k.pqV (p :: ps) := by
    have := le_total_of_mem (v := k.pqV) (List.getLast_mem hne)
    rwa [hu] at this
  have hadd : add32 (k.thread u).v (k.thread t).v = (k.thread u).v + (k.thread t).v :=
    add32_of_lt (by omega)
  simp only [chxTimerDequeue, elapse_queue, hq, List.cons_append, if_neg (Ne.symm ht.1),
    List.mem_append, List.mem_cons_self, or_true, if_true, takeWhile_ne_append ht.2, hu,
    elapse_thread, elapse_systick, pqV_elapse, pqV_thread, setV_thread]
  rw [foldl_add32 (by omega)]
  simp only [dequeued, dequeueVals, dequeueSystick, writeLast, List.getLast?_eq_some_getLast hne,
    hu, if_neg (List.cons_ne_nil p ps), hadd, vals_apply, List.isEmpty_cons, Bool.false_and,
    noteLateEdit_false]
  rfl

/-- The search for a thread that is not in the queue has no end. -/
theorem chxTimerDequeue_of_notMem (ht : .thread t ∉ k.queue .timer) :
    k.chxTimerDequeue t = .error .endlessSearch := by
  simp only [chxTimerDequeue, elapse_queue]
  cases hq : k.queue .timer with
  | nil => rfl
  | cons p ps =>
      rw [hq, List.mem_cons, not_or] at ht
      simp only
      rw [if_neg (Ne.symm ht.1), if_neg ht.2]

theorem chxTimerDequeue_of_append {front back : List Pq} (hT : TimerInv k)
    (hq : k.queue .timer = front ++ .thread t :: back) :
    k.chxTimerDequeue t =
      .ok (k.dequeued t front back, k.systick.elapse.count + total k.pqV front) := by
  by_cases hne : front = []
  · subst hne
    exact chxTimerDequeue_head hT hq
  · exact chxTimerDequeue_behind hT hne hq

/-- **The specification of `chx_timer_dequeue`.**  It returns if the thread is in the
queue, and only then. -/
theorem chxTimerDequeue_ok (hT : TimerInv k) (h : k.chxTimerDequeue t = .ok (k', n)) :
    ∃ front back, k.queue .timer = front ++ .thread t :: back ∧
      k' = k.dequeued t front back ∧ n = k.systick.elapse.count + total k.pqV front := by
  by_cases ht : .thread t ∈ k.queue .timer
  · obtain ⟨front, back, hq⟩ := List.append_of_mem ht
    rw [chxTimerDequeue_of_append hT hq, Except.ok.injEq, Prod.mk.injEq] at h
    exact ⟨front, back, hq, h.1.symm, h.2.symm⟩
  · rw [chxTimerDequeue_of_notMem ht] at h
    cases h

/-! ## The invariant is kept -/

theorem total_eq_entryV {l : List Pq} (h : ∀ p ∈ l, ∃ t, p = .thread t) :
    total k.pqV l = total (entryV k.vals) l :=
  total_congr fun p hp => pqV_eq_entryV (h p hp)

theorem deadlines_eq_entryV {l : List Pq} {c : Nat} (h : ∀ p ∈ l, ∃ t, p = .thread t) :
    deadlines k.pqV c l = deadlines (entryV k.vals) c l :=
  deadlines_congr_of_mem fun p hp => pqV_eq_entryV (h p hp)

/-- Time passes. -/
theorem TimerInv.later {s : Systick} (hT : TimerInv k) (hs : k.systick.Later s) :
    TimerInv (k.setSystick s) := by
  refine ⟨hT.threads, hT.nodup, ?_, ?_, ?_⟩
  · have := hT.bound
    have := hs.count
    rw [pqV_setSystick, setSystick_systick, setSystick_queue]
    omega
  · intro p hp
    have := hT.lastV p hp
    cases p <;> exact this
  · intro hne hp
    exact (hs.run hp (hT.armed hne (hs.pending hp))).1

section Insert

variable (hT : TimerInv k) (ht : .thread t ∉ k.queue .timer)
  (hpos : 0 < usecToTicks cfg usec) (hle : usecToTicks cfg usec ≤ 16777215)

include hT

theorem chxTimerInsert_queue_timer :
    (k.chxTimerInsert cfg t usec).queue .timer =
      let r := locate k.pqV (k.queue .timer) (usecToTicks cfg usec) k.systick.elapse.count
      r.1 ++ .thread t :: r.2.1 := by
  rw [chxTimerInsert_eq hT.threads]
  simp

theorem chxTimerInsert_queue_of_ne (hq : q ≠ .timer) :
    (k.chxTimerInsert cfg t usec).queue q = k.queue q := by
  rw [chxTimerInsert_eq hT.threads]
  simp [hq, setParent]

theorem chxTimerInsert_vals :
    (k.chxTimerInsert cfg t usec).vals =
      let r := locate k.pqV (k.queue .timer) (usecToTicks cfg usec) k.systick.elapse.count
      k.insertVals t r.1 r.2.2.1 r.2.2.2 := by
  rw [chxTimerInsert_eq hT.threads]
  simp

theorem chxTimerInsert_systick :
    (k.chxTimerInsert cfg t usec).systick =
      let r := locate k.pqV (k.queue .timer) (usecToTicks cfg usec) k.systick.elapse.count
      k.insertSystick r.1 r.2.2.1 := by
  rw [chxTimerInsert_eq hT.threads]
  simp [setParent]

theorem chxTimerInsert_perm :
    ((k.chxTimerInsert cfg t usec).queue .timer).Perm (.thread t :: k.queue .timer) := by
  rw [chxTimerInsert_queue_timer hT]
  have := locate_append k.pqV (k.queue .timer) (usecToTicks cfg usec) k.systick.elapse.count
  refine List.perm_middle.trans ?_
  rw [this]

theorem chxTimerInsert_threads : (k.chxTimerInsert cfg t usec).HoldsThreads .timer := by
  intro p hp
  rcases List.mem_cons.1 ((chxTimerInsert_perm hT).mem_iff.1 hp) with rfl | hp
  · exact ⟨t, rfl⟩
  · exact hT.threads p hp

include hle

theorem chxTimerInsert_count :
    (k.chxTimerInsert cfg t usec).systick.count =
      insertCount k.pqV (k.queue .timer) (usecToTicks cfg usec) k.systick.elapse.count := by
  rw [chxTimerInsert_systick hT]
  simp only [insertSystick, insertCount]
  split
  · rename_i hf
    rw [locate_ticks_of_nil hf]
    exact Nat.mod_eq_of_lt (by omega)
  · rfl

include ht

/-- **`chx_timer_insert` inserts the thread into the list of deadlines**, behind those
that are not later. -/
theorem chxTimerInsert_deadlines :
    let k' := k.chxTimerInsert cfg t usec
    deadlines k'.pqV k'.systick.count (k'.queue .timer) =
      insertBefore (fun e => decide (usecToTicks cfg usec < e.2))
        (.thread t, usecToTicks cfg usec)
        (deadlines k.pqV k.systick.elapse.count (k.queue .timer)) := by
  intro k'
  rw [deadlines_eq_entryV (chxTimerInsert_threads hT), chxTimerInsert_count hT hle,
    chxTimerInsert_vals hT, chxTimerInsert_queue_timer hT]
  exact deadlines_insert (inserted_insertVals hT ht _ _)

include hpos

theorem TimerInv.insert : TimerInv (k.chxTimerInsert cfg t usec) := by
  have hins := inserted_insertVals hT ht (usecToTicks cfg usec) k.systick.elapse.count
  have hthr : (k.chxTimerInsert cfg t usec).HoldsThreads .timer := chxTimerInsert_threads hT
  have hlater := k.systick.elapse_later
  have hb := hT.bound
  refine ⟨hthr, ?_, ?_, ?_, ?_⟩
  · rw [(chxTimerInsert_perm hT).nodup_iff, List.nodup_cons]
    exact ⟨ht, hT.nodup⟩
  · rw [total_eq_entryV hthr, chxTimerInsert_count hT hle, chxTimerInsert_vals hT,
      chxTimerInsert_queue_timer hT]
    simp only
    have hc := hlater.count
    by_cases hn : (locate k.pqV (k.queue .timer) (usecToTicks cfg usec)
        k.systick.elapse.count).2.2.2 = none
    · rw [total_insert_of_none hins hn, entryV_thread, insertVals_self, hn, Option.elim_none]
      omega
    · rw [total_insert_of_some hins hn]
      omega
  · intro p hp
    rw [pqV_eq_entryV (hthr p (List.mem_of_getLast? hp)), chxTimerInsert_vals hT]
    rw [chxTimerInsert_queue_timer hT] at hp
    simp only at hp ⊢
    by_cases hback : (locate k.pqV (k.queue .timer) (usecToTicks cfg usec)
        k.systick.elapse.count).2.1 = []
    · have hn := locate_none_iff.2 hback
      rw [hback, List.getLast?_append_cons, List.getLast?_singleton, Option.some.injEq] at hp
      rw [← hp, entryV_thread, insertVals_self, hn, Option.elim_none]
      exact one_ne_zero
    · rw [List.getLast?_append_cons, List.getLast?_cons_of_ne_nil hback] at hp
      rw [hins.tail p (List.mem_of_getLast? hp)]
      refine hT.lastV p ?_
      rw [← locate_append k.pqV (k.queue .timer) (usecToTicks cfg usec) k.systick.elapse.count,
        List.getLast?_append_of_ne_nil _ hback]
      exact hp
  · intro _ hp
    rw [chxTimerInsert_count hT hle, insertCount]
    rw [chxTimerInsert_systick hT, insertSystick] at hp
    split
    · exact hpos
    · rename_i hf
      rw [if_neg hf] at hp
      have hne : k.queue .timer ≠ [] := by
        intro h
        rw [h] at hf
        exact hf rfl
      exact (hlater.run hp (hT.armed hne (hlater.pending hp))).1

end Insert

section Dequeue

variable {front back : List Pq} (hT : TimerInv k) (hq : k.queue .timer = front ++ .thread t :: back)

include hT hq

theorem dequeued_queue_timer : (k.dequeued t front back).queue .timer = front ++ back := by
  have hnd := hT.nodup
  rw [hq] at hnd
  simp only [dequeued, noteLateEdit_queue, llDequeue_queue, retime_queue, hq, List.filter_append]
  rw [List.nodup_append, List.nodup_cons] at hnd
  obtain ⟨-, ⟨hb, -⟩, hfb⟩ := hnd
  rw [List.filter_cons_of_neg (by simp), List.filter_eq_self.2, List.filter_eq_self.2]
  · intro p hp
    rw [decide_eq_true_eq]
    rintro rfl
    exact hb hp
  · intro p hp
    rw [decide_eq_true_eq]
    rintro rfl
    exact hfb _ hp _ (List.mem_cons_self ..) rfl

theorem dequeued_threads : (k.dequeued t front back).HoldsThreads .timer := by
  intro p hp
  rw [dequeued_queue_timer hT hq] at hp
  refine hT.threads p ?_
  rw [hq]
  rcases List.mem_append.1 hp with h | h
  · exact List.mem_append_left _ h
  · exact List.mem_append_right _ (List.mem_cons_of_mem _ h)

/-- The values after a removal are those of a delta queue. -/
theorem dequeueVals_init {p : Pq} (hp : p ∈ front.dropLast) :
    entryV (k.dequeueVals t front) p = k.pqV p := by
  have hnd := hT.nodup
  rw [hq, List.nodup_append] at hnd
  obtain ⟨u, rfl⟩ := hT.threads p (hq ▸ List.mem_append_left _ (List.mem_of_mem_dropLast hp))
  have hut : u ≠ t := by
    rintro rfl
    exact hnd.2.2 _ (List.mem_of_mem_dropLast hp) _ (List.mem_cons_self ..) rfl
  rw [entryV_thread, dequeueVals, Function.update_of_ne hut]
  exact writeLast_of_ne (getLast?_ne_of_mem_dropLast hnd.1 hp)

theorem dequeueVals_last {p : Pq} (hp : front.getLast? = some p) :
    entryV (k.dequeueVals t front) p = k.pqV p + k.pqV (.thread t) := by
  have hnd := hT.nodup
  rw [hq, List.nodup_append] at hnd
  obtain ⟨u, rfl⟩ := hT.threads p (hq ▸ List.mem_append_left _ (List.mem_of_getLast? hp))
  have hut : u ≠ t := by
    rintro rfl
    exact hnd.2.2 _ (List.mem_of_getLast? hp) _ (List.mem_cons_self ..) rfl
  rw [entryV_thread, dequeueVals, Function.update_of_ne hut]
  exact writeLast_of_getLast hp

theorem dequeueVals_tail {p : Pq} (hp : p ∈ back) :
    entryV (k.dequeueVals t front) p = k.pqV p := by
  have hnd := hT.nodup
  rw [hq, List.nodup_append, List.nodup_cons] at hnd
  obtain ⟨u, rfl⟩ := hT.threads p
    (hq ▸ List.mem_append_right _ (List.mem_cons_of_mem _ hp))
  have hut : u ≠ t := by
    rintro rfl
    exact hnd.2.1.1 hp
  rw [entryV_thread, dequeueVals, Function.update_of_ne hut]
  refine writeLast_of_ne fun h => ?_
  exact hnd.2.2 _ (List.mem_of_getLast? h) _ (List.mem_cons_of_mem _ hp) rfl

theorem TimerInv.dequeue : TimerInv (k.dequeued t front back) := by
  have hthr := dequeued_threads hT hq
  have hque := dequeued_queue_timer hT hq
  have hlater := k.systick.elapse_later
  have hlater' := k.systick.elapse.elapse_later
  have hb := hT.bound
  have hc := hlater.count
  have hnd := hT.nodup
  have hvals : (k.dequeued t front back).vals = k.dequeueVals t front := by
    simp [dequeued]
  have hsys : (k.dequeued t front back).systick = k.dequeueSystick t front back := by
    simp [dequeued]
  rw [hq] at hnd hb
  refine ⟨hthr, ?_, ?_, ?_, ?_⟩
  · rw [hque]
    rw [List.nodup_middle] at hnd
    exact (List.nodup_cons.1 hnd).2
  · rw [total_eq_entryV hthr, hvals, hsys, hque, dequeueSystick]
    by_cases hf : front = []
    · subst hf
      rw [if_pos rfl, List.nil_append,
        total_congr (w := k.pqV) fun p hp => dequeueVals_tail hT hq hp]
      rw [List.nil_append, total_cons, pqV_thread] at hb
      by_cases hback : back = []
      · subst hback
        simp
      · simp only [if_neg hback, vals_apply]
        omega
    · rw [if_neg hf, total_remove (v := k.pqV) hf (fun p hp => dequeueVals_init hT hq hp)
        (fun p hp => dequeueVals_last hT hq hp) (fun p hp => dequeueVals_tail hT hq hp)]
      omega
  · intro p hp
    rw [pqV_eq_entryV (hthr p (List.mem_of_getLast? hp)), hvals]
    rw [hque] at hp
    by_cases hback : back = []
    · subst hback
      rw [List.append_nil] at hp
      rw [dequeueVals_last hT hq hp]
      have := hT.lastV (.thread t) (by rw [hq, List.getLast?_append_cons]; rfl)
      omega
    · rw [List.getLast?_append_of_ne_nil _ hback] at hp
      rw [dequeueVals_tail hT hq (List.mem_of_getLast? hp)]
      refine hT.lastV p ?_
      rw [hq, List.getLast?_append_cons, List.getLast?_cons_of_ne_nil hback]
      exact hp
  · intro hne hp
    have hne' : k.queue .timer ≠ [] := by simp [hq]
    rw [hque] at hne
    rw [hsys, dequeueSystick] at hp ⊢
    by_cases hf : front = []
    · subst hf
      rw [if_pos rfl] at hp ⊢
      rw [List.nil_append] at hne
      have hp' := hlater'.pending hp
      have := (hlater.run hp' (hT.armed hne' (hlater.pending hp'))).1
      simp only [if_neg hne]
      omega
    · rw [if_neg hf] at hp ⊢
      exact (hlater.run hp (hT.armed hne' (hlater.pending hp))).1

end Dequeue

/-! ## Expiry -/

section Expire

/-- The body of the loop of `chx_timer_expired`, for an entry of the queue. -/
def expireEntry (k : Kernel) : Pq → Kernel
  | .thread t => k.expireOne t
  | .proxy _ => k

theorem expireOne_thread :
    (k.expireOne t).thread = Function.update k.thread t
      { k.thread t with v := 0, state := .ready, parent := some .ready } := by
  rw [expireOne, chxReadyEnqueue, llPrioEnqueue, setV_thread]
  split <;>
  · funext u
    by_cases hu : u = t
    · subst hu
      simp [setParent]
    · simp [setParent, hu]

theorem expireOne_queue_of_ne (hq : q ≠ .ready) :
    (k.expireOne t).queue q = (k.queue q).filter (· ≠ .thread t) := by
  rw [expireOne, chxReadyEnqueue, llPrioEnqueue, setV_thread]
  split <;> simp [setParent, hq]

theorem expireOne_queue_ready :
    ((k.expireOne t).queue .ready).Perm (.thread t :: (k.queue .ready).filter (· ≠ .thread t)) := by
  rw [expireOne, chxReadyEnqueue, llPrioEnqueue, setV_thread, setQueue_queue, Function.update_self]
  split <;> exact insertBefore_perm ..

theorem expireOne_systick : (k.expireOne t).systick = k.systick := by
  rw [expireOne, chxReadyEnqueue, llPrioEnqueue, setV_thread]
  split <;> rfl

theorem expireOne_running : (k.expireOne t).running = k.running := by
  rw [expireOne, chxReadyEnqueue, llPrioEnqueue, setV_thread]
  split <;> rfl

theorem expireOne_pqV_of_ne {p : Pq} (hp : p ≠ .thread t) : (k.expireOne t).pqV p = k.pqV p := by
  cases p with
  | thread u =>
      have hu : u ≠ t := fun h => hp (h ▸ rfl)
      rw [pqV_thread, expireOne_thread, Function.update_of_ne hu, pqV_thread]
  | proxy p =>
      have h : (k.expireOne t).px = k.px := by
        rw [expireOne, chxReadyEnqueue, llPrioEnqueue, setV_thread]
        split <;> rfl
      simp only [pqV, h]

theorem expireOne_prio : ((k.expireOne t).thread u).prio = (k.thread u).prio := by
  rw [expireOne_thread]
  by_cases hu : u = t
  · subst hu
    simp
  · simp [hu]

/-- The values behind the head are not touched by its expiry. -/
theorem popDue_expireOne {l : List Pq} (ht : .thread t ∉ l) (n : Nat) :
    popDue (k.expireOne t).pqV n l = popDue k.pqV n l := by
  refine popDue_congr (fun p hp => expireOne_pqV_of_ne ?_) _
  rintro rfl
  exact ht hp

/-- The loop of `chx_timer_expired` splits off the threads that are due. -/
theorem expireLoop_eq {l : List Pq} (next prio : Nat) (hl : ∀ p ∈ l, ∃ t, p = .thread t)
    (hnd : l.Nodup) :
    (expireLoop k next prio l).1 = (popDue k.pqV next l).1.foldl expireEntry k ∧
      (expireLoop k next prio l).2.1 = (popDue k.pqV next l).2.2 := by
  induction l generalizing k next prio with
  | nil => exact ⟨rfl, rfl⟩
  | cons p l ih =>
      obtain ⟨t, rfl⟩ := hl p (List.mem_cons_self ..)
      rw [List.nodup_cons] at hnd
      rw [expireLoop, popDue]
      split
      · have := ih (k := k.expireOne t) (k.thread t).v (k.expirePrio t prio)
          (fun p hp => hl p (List.mem_cons_of_mem _ hp)) hnd.2
        rw [popDue_expireOne hnd.1] at this
        exact this
      · exact ⟨rfl, rfl⟩

theorem expirePrio_le {prio : Nat} (h : prio ≤ 256) (ht : (k.thread t).prio ≤ 256) :
    prio ≤ k.expirePrio t prio ∧ k.expirePrio t prio ≤ 256 := by
  unfold expirePrio
  split
  · exact ⟨h, le_refl _⟩
  · split <;> omega

/-- The end of a slice asks for preemption. -/
theorem expireLoop_prio {l : List Pq} (next prio : Nat) (hl : ∀ p ∈ l, ∃ t, p = .thread t)
    (hnd : l.Nodup) (h : prio ≤ 256) (hprio : ∀ t, (k.thread t).prio ≤ 256) :
    prio ≤ (expireLoop k next prio l).2.2 ∧
      ∀ t, k.running = some t → .thread t ∈ (popDue k.pqV next l).1 →
        256 ≤ (expireLoop k next prio l).2.2 := by
  induction l generalizing k next prio with
  | nil =>
      refine ⟨le_refl _, ?_⟩
      intro t _ ht
      cases ht
  | cons p l ih =>
      obtain ⟨t, rfl⟩ := hl p (List.mem_cons_self ..)
      rw [List.nodup_cons] at hnd
      rw [expireLoop, popDue]
      split
      · obtain ⟨hle, hle'⟩ := expirePrio_le h (hprio t)
        obtain ⟨ih₁, ih₂⟩ := ih (k := k.expireOne t) (k.thread t).v _
          (fun p hp => hl p (List.mem_cons_of_mem _ hp)) hnd.2 hle'
          (fun u => expireOne_prio.le.trans (hprio u))
        refine ⟨hle.trans ih₁, ?_⟩
        intro u hu hmem
        rcases List.mem_cons.1 hmem with heq | hmem
        · -- its own slice is over
          cases heq
          rw [expirePrio, if_pos hu] at ih₁ ⊢
          exact ih₁
        · rw [popDue_expireOne hnd.1] at ih₂
          exact ih₂ u (expireOne_running.trans hu) hmem
      · refine ⟨le_refl _, ?_⟩
        intro u _ hmem
        cases hmem

/-- The entries that `chx_timer_expired` takes out of `q_timer`. -/
def expired (k : Kernel) : List Pq :=
  match k.queue .timer with
  | [] => []
  | p :: rest => p :: (popDue k.pqV (k.pqV p) rest).1

/-- The entries that `chx_timer_expired` leaves, and when the first of them is due. -/
def remaining (k : Kernel) : List Pq × Nat :=
  match k.queue .timer with
  | [] => ([], 0)
  | p :: rest => (popDue k.pqV (k.pqV p) rest).2

theorem expired_append_remaining : k.expired ++ k.remaining.1 = k.queue .timer := by
  unfold expired remaining
  split
  · rename_i h
    rw [h]
    rfl
  · rename_i h
    rw [h, List.cons_append, popDue_append]

theorem remaining_pos (h : k.remaining.1 ≠ []) : 0 < k.remaining.2 := by
  unfold remaining at h ⊢
  split at h
  · exact absurd rfl h
  · exact popDue_pos h

theorem remaining_total :
    k.remaining.2 + total k.pqV k.remaining.1 = total k.pqV (k.queue .timer) := by
  unfold remaining
  split
  · rename_i h
    rw [h]
    rfl
  · rename_i h
    rw [h, total_popDue, total_cons]

/-- The re-armed counter. -/
def rearm (k : Kernel) : Systick :=
  if k.remaining.1 = [] then k.systick
  else { k.systick.elapse with count := k.remaining.2 % 16777216 }

/-- What the expiry of a thread keeps, the expiry of several keeps. -/
theorem foldl_expireEntry_keeps {P : Kernel → Prop} {ps : List Pq}
    (hstep : ∀ k t, .thread t ∈ ps → P k → P (k.expireOne t)) (h : P k) :
    P (ps.foldl expireEntry k) := by
  induction ps generalizing k with
  | nil => exact h
  | cons p ps ih =>
      refine ih (fun k t ht => hstep k t (List.mem_cons_of_mem _ ht)) ?_
      cases p with
      | thread t => exact hstep k t (List.mem_cons_self ..) h
      | proxy p => exact h

theorem foldl_expireEntry_systick {ps : List Pq} :
    (ps.foldl expireEntry k).systick = k.systick :=
  foldl_expireEntry_keeps (P := fun k' => k'.systick = k.systick)
    (fun _ _ _ h => expireOne_systick.trans h) rfl

theorem foldl_expireEntry_queue {ps : List Pq} (hps : ∀ p ∈ ps, ∃ t, p = .thread t)
    (hq : q ≠ .ready) :
    (ps.foldl expireEntry k).queue q = (k.queue q).filter (· ∉ ps) := by
  induction ps generalizing k with
  | nil => simp
  | cons p ps ih =>
      obtain ⟨t, rfl⟩ := hps p (List.mem_cons_self ..)
      rw [List.foldl_cons, ih fun p hp => hps p (List.mem_cons_of_mem _ hp)]
      simp only [expireEntry, expireOne_queue_of_ne hq, List.filter_filter, List.mem_cons, not_or]
      congr 1
      funext p
      simp only [ne_eq, decide_not, Bool.decide_and, Bool.and_comm]

theorem expired_threads (hthr : k.HoldsThreads .timer) :
    ∀ p ∈ k.expired, ∃ t, p = .thread t := fun p hp =>
  hthr p (expired_append_remaining (k := k) ▸ List.mem_append_left _ hp)

theorem foldl_expired_queue_timer (hthr : k.HoldsThreads .timer)
    (hnd : (k.queue .timer).Nodup) :
    (k.expired.foldl expireEntry k).queue .timer = k.remaining.1 := by
  have happ := expired_append_remaining (k := k)
  rw [← happ, List.nodup_append] at hnd
  rw [foldl_expireEntry_queue (expired_threads hthr) (by simp), ← happ, List.filter_append,
    List.filter_eq_nil_iff.2, List.filter_eq_self.2, List.nil_append]
  · intro p hp
    rw [decide_eq_true_eq]
    intro hp'
    exact hnd.2.2 _ hp' _ hp rfl
  · intro p hp
    simpa using hp

/-- **What `chx_timer_expired` does.** -/
theorem chxTimerExpired_eq (hthr : k.HoldsThreads .timer) (hnd : (k.queue .timer).Nodup) :
    ∃ prio, k.chxTimerExpired =
        ((k.expired.foldl expireEntry k).setSystick k.rearm).chxRequestPreemption prio ∧
      ((∀ t, (k.thread t).prio ≤ 256) → ∀ t, k.running = some t → .thread t ∈ k.expired →
        256 ≤ prio) := by
  have hque := foldl_expired_queue_timer hthr hnd
  have hsys : (k.expired.foldl expireEntry k).systick = k.systick := foldl_expireEntry_systick
  cases hq : k.queue .timer with
  | nil =>
      refine ⟨0, ?_, ?_⟩
      · simp only [chxTimerExpired, expired, rearm, remaining, hq, if_true]
        rfl
      · intro _ t _ ht
        simp [expired, hq] at ht
  | cons p rest =>
      simp only [HoldsThreads, hq] at hthr
      rw [hq, List.nodup_cons] at hnd
      obtain ⟨t, rfl⟩ := hthr p (List.mem_cons_self ..)
      have hrest : ∀ p ∈ rest, ∃ t, p = .thread t := fun p hp => hthr p (List.mem_cons_of_mem _ hp)
      obtain ⟨h₁, h₂⟩ := expireLoop_eq (k := k.expireOne t) (k.thread t).v (k.expirePrio t 0)
        hrest hnd.2
      rw [popDue_expireOne hnd.1] at h₁ h₂
      have hexp : k.expired = .thread t :: (popDue k.pqV (k.thread t).v rest).1 := by
        simp [expired, hq]
      have hrem : k.remaining = (popDue k.pqV (k.thread t).v rest).2 := by
        simp [remaining, hq]
      rw [hexp] at hque hsys
      rw [List.foldl_cons, expireEntry, ← h₁] at hque hsys
      refine ⟨(expireLoop (k.expireOne t) (k.thread t).v (k.expirePrio t 0) rest).2.2, ?_, ?_⟩
      · simp only [chxTimerExpired, hq, hque]
        rw [hexp, List.foldl_cons, expireEntry, ← h₁, rearm]
        congr 1
        split
        · rw [← hsys]
          rfl
        · rw [chxSetTimer, h₂, hrem, chxSystickReload, hsys]
          rfl
      · intro hprio u hu hmem
        have hp := expireLoop_prio (k := k.expireOne t) (k.thread t).v (k.expirePrio t 0) hrest
          hnd.2 (expirePrio_le (Nat.zero_le _) (hprio t)).2
          (fun u => expireOne_prio.le.trans (hprio u))
        rw [popDue_expireOne hnd.1] at hp
        rw [hexp, List.mem_cons] at hmem
        rcases hmem with heq | hmem
        · cases heq
          have := hp.1
          rw [expirePrio, if_pos hu] at this ⊢
          exact this
        · exact hp.2 u (expireOne_running.trans hu) hmem

theorem expireEntry_pqV_of_notMem {ps : List Pq} {p : Pq} (hp : p ∉ ps) :
    (ps.foldl expireEntry k).pqV p = k.pqV p := by
  refine foldl_expireEntry_keeps (P := fun k' => k'.pqV p = k.pqV p) ?_ rfl
  intro k' t ht h
  rw [expireOne_pqV_of_ne, h]
  rintro rfl
  exact hp ht

theorem chxRequestPreemption_eq (prio : Nat) :
    ∃ b, k.chxRequestPreemption prio = { k with pendsv := b } ∧ (k.pendsv = true → b = true) ∧
      ∀ r, k.running = some r → (k.thread r).prio < prio → b = true := by
  unfold chxRequestPreemption
  split
  · exact ⟨true, rfl, fun _ => rfl, fun _ _ _ => rfl⟩
  · rename_i r hr
    split
    · exact ⟨true, rfl, fun _ => rfl, fun _ _ _ => rfl⟩
    · rename_i h
      refine ⟨k.pendsv, rfl, id, ?_⟩
      intro r' hr' hlt
      rw [hr] at hr'
      cases hr'
      exact absurd hlt h

/-- The exception is taken, and `chx_timer_expired` re-arms the counter. -/
theorem TimerInv.expire (hT : TimerInv k) :
    TimerInv ((k.setSystick { k.systick with pending := false }).chxTimerExpired) := by
  set k₀ := k.setSystick { k.systick with pending := false } with hk₀
  have hthr : k₀.HoldsThreads .timer := hT.threads
  have hnd : (k₀.queue .timer).Nodup := hT.nodup
  have hsplit := expired_append_remaining (k := k₀)
  have hque := foldl_expired_queue_timer hthr hnd
  obtain ⟨prio, heq, -⟩ := chxTimerExpired_eq hthr hnd
  obtain ⟨b, hb, -⟩ := chxRequestPreemption_eq
    (k := (k₀.expired.foldl expireEntry k₀).setSystick k₀.rearm) prio
  rw [heq, hb]
  refine TimerInv.congr (k := (k₀.expired.foldl expireEntry k₀).setSystick k₀.rearm) ?_ rfl
    (fun p _ => by cases p <;> rfl) rfl rfl
  have hrem : ∀ p ∈ k₀.remaining.1, (k₀.expired.foldl expireEntry k₀).pqV p = k₀.pqV p := by
    intro p hp
    refine expireEntry_pqV_of_notMem fun hp' => ?_
    rw [← hsplit, List.nodup_append] at hnd
    exact hnd.2.2 _ hp' _ hp rfl
  have hbound := hT.bound
  have hsuf : k₀.remaining.1 <:+ k.queue .timer := ⟨_, hsplit⟩
  have hv₀ : k₀.pqV = k.pqV := pqV_setSystick
  have htotal : k₀.remaining.2 + total k.pqV k₀.remaining.1 = total k.pqV (k.queue .timer) :=
    hv₀ ▸ remaining_total (k := k₀)
  have hmod : k₀.remaining.1 ≠ [] → k₀.remaining.2 % 16777216 = k₀.remaining.2 := fun hne =>
    Nat.mod_eq_of_lt (by have := hT.total_pos hsuf hne; omega)
  refine ⟨?_, ?_, ?_, ?_, ?_⟩
  · intro p hp
    rw [setSystick_queue, hque] at hp
    exact hT.threads p (hsuf.mem hp)
  · rw [setSystick_queue, hque]
    exact hnd.sublist hsuf.sublist
  · rw [setSystick_queue, hque, pqV_setSystick, setSystick_systick, total_congr hrem, hv₀, rearm]
    by_cases hne : k₀.remaining.1 = []
    · rw [if_pos hne, hne, total_nil]
      have : k₀.systick.count = k.systick.count := rfl
      omega
    · rw [if_neg hne]
      simp only [hmod hne]
      omega
  · intro p hp
    rw [setSystick_queue, hque] at hp
    rw [pqV_setSystick, hrem p (List.mem_of_getLast? hp)]
    refine hT.lastV p ?_
    rw [← show _ = k.queue .timer from hsplit,
      List.getLast?_append_of_ne_nil _ (fun h => by rw [h] at hp; cases hp)]
    exact hp
  · intro hne _
    rw [setSystick_queue, hque] at hne
    rw [setSystick_systick, rearm, if_neg hne]
    simp only [hmod hne]
    exact remaining_pos hne

end Expire

/-! ## Places -/

@[simp] theorem place_retime (w : Tid → Nat) (s : Systick) : (k.retime w s).place = k.place := rfl

@[simp] theorem place_setSystick (s : Systick) : (k.setSystick s).place = k.place := rfl

theorem place_dequeued {front back : List Pq} :
    (k.dequeued t front back).place = Function.update k.place t (k.place t).unlinked := by
  rw [dequeued, place_noteLateEdit, place_llDequeue_thread, place_retime]

theorem chxTimerInsert_running (hq : k.HoldsThreads .timer) :
    (k.chxTimerInsert cfg t usec).running = k.running := by
  rw [chxTimerInsert_eq hq]
  rfl

theorem chxTimerInsert_thread (hT : TimerInv k) :
    (k.chxTimerInsert cfg t usec).thread u =
      { k.thread u with
        v := (k.chxTimerInsert cfg t usec).vals u
        parent := if u = t then some .timer else (k.thread u).parent } := by
  rw [chxTimerInsert_vals hT, chxTimerInsert_eq hT.threads]
  by_cases hu : u = t
  · subst hu
    simp [setParent]
  · simp [setParent, hu]

/-- Only the thread inserted and threads of `q_timer` get other values. -/
theorem chxTimerInsert_v_of_notMem (hT : TimerInv k) (hu : .thread u ∉ k.queue .timer)
    (hut : u ≠ t) : ((k.chxTimerInsert cfg t usec).thread u).v = (k.thread u).v := by
  rw [← vals_apply, chxTimerInsert_vals hT]
  refine insertVals_of_notMem hut fun hm => hu ?_
  rw [← locate_append k.pqV (k.queue .timer) (usecToTicks cfg usec) k.systick.elapse.count]
  exact List.mem_append_left _ hm

theorem place_chxTimerInsert (hT : TimerInv k) :
    (k.chxTimerInsert cfg t usec).place = Function.update k.place t
      { k.place t with
        parent := some .timer
        links := (k.place t).links + Pi.single .timer 1 } := by
  funext u
  have hlinks : ∀ q, ((k.chxTimerInsert cfg t usec).queue q).count (.thread u) =
      (k.queue q).count (.thread u) + if u = t ∧ q = .timer then 1 else 0 := by
    intro q
    by_cases hq : q = .timer
    · subst hq
      rw [(chxTimerInsert_perm hT).count_eq, List.count_cons]
      by_cases hu : u = t
      · simp [hu]
      · have hne : ¬ t = u := fun h => hu h.symm
        simp [hu, hne]
    · rw [chxTimerInsert_queue_of_ne hT hq]
      simp [hq]
  by_cases hu : u = t
  · subst hu
    simp only [place, chxTimerInsert_thread hT, Function.update_self, hlinks, if_true, true_and,
      Place.mk.injEq]
    funext q
    by_cases hq : q = .timer
    · simp [hq]
    · simp [hq]
  · simp only [place, chxTimerInsert_thread hT, hlinks, hu, if_false, false_and, add_zero,
      Function.update_of_ne hu]

end Kernel

end Chopstx
