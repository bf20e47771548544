import Chopstx.Section.Value
import Chopstx.Section.Api

/-!
# Deadlines across moves

`q_timer` says in how many ticks each of its threads is due.  No move but the insertion of the
thread itself makes this number grow; and unless the counter is loaded anew while its exception
is pending, no move brings a deadline nearer than the time that has passed (`Ages`).  So a thread
that `chx_timer_expired` makes ready is due (`DueInv`).

* `dues`, `DueIn` - the entries of `q_timer` with the ticks until they are due.
* `dequeued_dues`, `Move.passes` - the removal of one thread, and time in every move (`Passes`).
* `DueInv`, `Move.dueInv`, `DueInv.expired` - the invariant of the deadlines, and what it says of
  the threads that the expiry makes ready.
* `WakesWithin` - the thread is due within some ticks or has been woken up with what was left of
  them; a thread that does nothing itself stays within its time (`WakesWithin.move`).
-/

namespace Chopstx

open Kernel DeltaQueue PrioQueue

namespace Kernel

/-! ## Deadlines from now -/

/-- The entries of `q_timer` with the ticks until they are due. -/
def dues (k : Kernel) : List (Pq × Nat) :=
  deadlines k.pqV k.systick.count (k.queue .timer)

/-- The thread is due in `d` ticks. -/
def DueIn (k : Kernel) (u : Tid) (d : Nat) : Prop := (Pq.thread u, d) ∈ k.dues

/-- While the exception is pending, the count stays where it has come to. -/
def Spent (k : Kernel) : Prop :=
  k.systick.pending = true → k.queue .timer ≠ [] → k.systick.count = 0

/-- What time and the operations on `q_timer` do to the clock. -/
structure Clock (k k' : Kernel) : Prop where
  now : k.systick.now ≤ k'.systick.now
  late : k'.ghost.lateEdit = false → k.ghost.lateEdit = false
  spent : k'.ghost.lateEdit = false → k.Spent → k'.Spent

/-- Time passes for the thread `u`, which nobody puts into `q_timer`. -/
structure Ages (k k' : Kernel) (u : Tid) : Prop where
  due : k'.ghost.due u = k.ghost.due u
  left : ∀ d', k'.DueIn u d' → ∃ d, k.DueIn u d ∧ d' ≤ d ∧
    (k'.ghost.lateEdit = false → k.Spent → k.systick.now + d ≤ k'.systick.now + d')

variable {cfg : Config} {k k₁ k' : Kernel} {t u : Tid} {d n usec : Nat} {q : Qh}

theorem DueIn.mem (h : k.DueIn u d) : .thread u ∈ k.queue .timer :=
  fst_mem_of_mem_deadlines h

theorem exists_dueIn (h : .thread u ∈ k.queue .timer) : ∃ d, k.DueIn u d :=
  exists_deadline h

theorem Clock.trans (h : Clock k k₁) (h' : Clock k₁ k') : Clock k k' :=
  ⟨h.now.trans h'.now, fun hl => h.late (h'.late hl),
    fun hl hs => h'.spent hl (h.spent (h'.late hl) hs)⟩

theorem Ages.trans (h : Ages k k₁ u) (h' : Ages k₁ k' u) (hc : Clock k k₁) (hc' : Clock k₁ k') :
    Ages k k' u := by
  refine ⟨h'.due.trans h.due, fun d' hd' => ?_⟩
  obtain ⟨d₁, hd₁, hle₁, hnow₁⟩ := h'.left d' hd'
  obtain ⟨d, hd, hle, hnow⟩ := h.left d₁ hd₁
  refine ⟨d, hd, hle₁.trans hle, fun hl hs => ?_⟩
  exact (hnow (hc'.late hl) hs).trans (hnow₁ hl (hc.spent (hc'.late hl) hs))

/-! ## Operations that leave the timer alone -/

/-- The timer is as before. -/
structure SameTimer (k k' : Kernel) : Prop where
  queue : k'.queue .timer = k.queue .timer
  value : ∀ p ∈ k.queue .timer, k'.pqV p = k.pqV p
  systick : k'.systick = k.systick
  due : k'.ghost.due = k.ghost.due
  late : k'.ghost.lateEdit = k.ghost.lateEdit

namespace SameTimer

theorem refl : SameTimer k k := ⟨rfl, fun _ _ => rfl, rfl, rfl, rfl⟩

theorem dues (h : SameTimer k k') : k'.dues = k.dues := by
  rw [Kernel.dues, h.queue, h.systick]
  exact deadlines_congr_of_mem h.value

theorem spent (h : SameTimer k k') (hs : k.Spent) : k'.Spent := by
  intro hp hq
  rw [h.systick] at hp ⊢
  rw [h.queue] at hq
  exact hs hp hq

theorem clock (h : SameTimer k k') : Clock k k' :=
  ⟨by rw [h.systick], fun hl => h.late ▸ hl, fun _ hs => h.spent hs⟩

theorem dueIn (h : SameTimer k k') : k'.DueIn u d ↔ k.DueIn u d := by
  rw [DueIn, h.dues]
  rfl

theorem ages (h : SameTimer k k') : Ages k k' u := by
  refine ⟨by rw [h.due], fun d' hd' => ⟨d', h.dueIn.1 hd', le_rfl, fun _ _ => ?_⟩⟩
  rw [h.systick]

/-- Only threads that are not in `q_timer` have changed. -/
theorem of_thread (hT : TimerInv k) (hq : k'.queue .timer = k.queue .timer)
    (hv : ∀ u, .thread u ∈ k.queue .timer → (k'.thread u).v = (k.thread u).v)
    (hs : k'.systick = k.systick) (hd : k'.ghost.due = k.ghost.due)
    (hl : k'.ghost.lateEdit = k.ghost.lateEdit) : SameTimer k k' := by
  refine ⟨hq, fun p hp => ?_, hs, hd, hl⟩
  obtain ⟨u, rfl⟩ := hT.threads p hp
  exact hv u hp

/-- Only the thread `t`, which is not in `q_timer`, has changed. -/
theorem of_update (hT : TimerInv k) (ht : .thread t ∉ k.queue .timer) {th : Thread}
    (hth : k'.thread = Function.update k.thread t th) (hq : k'.queue .timer = k.queue .timer)
    (hs : k'.systick = k.systick) (hd : k'.ghost.due = k.ghost.due)
    (hl : k'.ghost.lateEdit = k.ghost.lateEdit) : SameTimer k k' := by
  refine .of_thread hT hq (fun u hu => ?_) hs hd hl
  have hut : u ≠ t := by
    rintro rfl
    exact ht hu
  rw [hth, Function.update_of_ne hut]

/-- Only values of proxies and the queues of proxies have changed. -/
theorem of_proxy (hT : TimerInv k) (hth : k'.thread = k.thread)
    (hq : k'.queue .timer = k.queue .timer) (hs : k'.systick = k.systick)
    (hg : k'.ghost.due = k.ghost.due) (hl : k'.ghost.lateEdit = k.ghost.lateEdit) :
    SameTimer k k' :=
  .of_thread hT hq (fun _ _ => by rw [hth]) hs hg hl

end SameTimer

/-! ## Time -/

section Pass

variable {s : Systick} (hs : k.systick.Later s)

include hs

theorem clock_setSystick : Clock k (k.setSystick s) := by
  refine ⟨hs.now, id, fun _ hspent hp hq => ?_⟩
  cases hpend : k.systick.pending with
  | true => exact Nat.le_zero.1 (hs.count.trans (hspent hpend hq).le)
  | false => exact hs.spent hpend hp

/-- Every thread is due so much sooner as the count has run down. -/
theorem dueIn_setSystick (hd : (k.setSystick s).DueIn u d) :
    ∃ d₀, k.DueIn u d₀ ∧ d ≤ d₀ ∧ k.systick.now + d₀ ≤ s.now + d := by
  obtain ⟨n, hn⟩ := Nat.exists_eq_add_of_le hs.count
  have hsum := hs.sum
  refine ⟨d + n, ?_, Nat.le_add_right _ _, by omega⟩
  rw [DueIn, dues, hn, deadlines_shift]
  refine List.mem_map.2 ⟨(.thread u, d), ?_, rfl⟩
  rw [DueIn, dues, pqV_setSystick] at hd
  exact hd

theorem ages_setSystick : Ages k (k.setSystick s) u := by
  refine ⟨rfl, fun d' hd' => ?_⟩
  obtain ⟨d, hd, hle, hnow⟩ := dueIn_setSystick hs hd'
  exact ⟨d, hd, hle, fun _ _ => hnow⟩

end Pass

/-! ## Insertion -/

section Insert

variable (hT : TimerInv k)

include hT

theorem chxTimerInsert_due : (k.chxTimerInsert cfg t usec).ghost.due =
    Function.update k.ghost.due t (k.systick.elapse.now + usecToTicks cfg usec) := by
  rw [chxTimerInsert_eq hT.threads]
  rfl

theorem chxTimerInsert_now :
    k.systick.elapse.now ≤ (k.chxTimerInsert cfg t usec).systick.now := by
  rw [chxTimerInsert_systick hT]
  simp only [insertSystick]
  split
  · exact k.systick.elapse.elapse_later.now
  · exact le_rfl

/-- The insertion at the head of the queue is late if the exception is pending by then. -/
theorem chxTimerInsert_late (hl : (k.chxTimerInsert cfg t usec).ghost.lateEdit = false) :
    k.ghost.lateEdit = false ∧ ((locate k.pqV (k.queue .timer) (usecToTicks cfg usec)
      k.systick.elapse.count).1 = [] → k.systick.elapse.elapse.pending = false) := by
  rw [chxTimerInsert_eq hT.threads] at hl
  obtain ⟨hold, hnew⟩ := Bool.or_eq_false_iff.1 hl
  refine ⟨hold, fun hf => ?_⟩
  rw [hf] at hnew
  exact hnew

theorem chxTimerInsert_clock : Clock k (k.chxTimerInsert cfg t usec) := by
  have hlater := k.systick.elapse_later
  refine ⟨hlater.now.trans (chxTimerInsert_now hT), fun hl => (chxTimerInsert_late hT hl).1,
    fun hl hspent hp hq => ?_⟩
  obtain ⟨hold, hfirst⟩ := chxTimerInsert_late hT hl
  rw [chxTimerInsert_systick hT] at hp ⊢
  simp only [insertSystick] at hp ⊢
  split at hp
  · rename_i hf
    rw [hfirst hf] at hp
    cases hp
  · rename_i hf
    rw [if_neg hf]
    have hne : k.queue .timer ≠ [] := by
      intro hnil
      rw [hnil] at hf
      exact hf rfl
    exact (clock_setSystick hlater).spent hold hspent hp hne

variable (ht : .thread t ∉ k.queue .timer) (hle : usecToTicks cfg usec ≤ 16777215)

include ht hle

theorem dueIn_insert : (k.chxTimerInsert cfg t usec).DueIn u d ↔
    (u = t ∧ d = usecToTicks cfg usec) ∨ (k.setSystick k.systick.elapse).DueIn u d := by
  rw [DueIn, dues, chxTimerInsert_deadlines hT ht hle, mem_insertBefore, Prod.mk.injEq,
    Pq.thread.injEq, DueIn, dues, pqV_setSystick]
  rfl

theorem dueIn_insert_self : (k.chxTimerInsert cfg t usec).DueIn t d ↔ d = usecToTicks cfg usec := by
  rw [dueIn_insert hT ht hle]
  constructor
  · rintro (⟨-, hd⟩ | hd)
    · exact hd
    · exact absurd hd.mem ht
  · exact fun hd => .inl ⟨rfl, hd⟩

theorem chxTimerInsert_ages (hut : u ≠ t) : Ages k (k.chxTimerInsert cfg t usec) u := by
  have hnow : k.systick.elapse.now ≤ (k.chxTimerInsert cfg t usec).systick.now :=
    chxTimerInsert_now hT
  refine ⟨by rw [chxTimerInsert_due hT, Function.update_of_ne hut], fun d' hd' => ?_⟩
  rcases (dueIn_insert hT ht hle).1 hd' with ⟨rfl, -⟩ | hd'
  · exact absurd rfl hut
  · obtain ⟨d, hd, hled, hsum⟩ := dueIn_setSystick k.systick.elapse_later hd'
    exact ⟨d, hd, hled, fun _ _ => by omega⟩

end Insert

/-! ## Removal -/

section Dequeue

variable {front back : List Pq} (hT : TimerInv k)
  (hq : k.queue .timer = front ++ .thread t :: back)

include hT hq

/-- **The removal of a thread from the list of deadlines.** -/
theorem dequeued_dues : (k.dequeued t front back).dues =
    (k.setSystick k.systick.elapse).dues.filter fun e => decide (e.1 ≠ .thread t) := by
  have hvals : (k.dequeued t front back).vals = k.dequeueVals t front := by
    simp [dequeued]
  have hsys : (k.dequeued t front back).systick = k.dequeueSystick t front back := by
    simp [dequeued]
  have hnd := hT.nodup
  rw [hq] at hnd
  rw [dues, deadlines_eq_entryV (dequeued_threads hT hq), hvals, hsys,
    dequeued_queue_timer hT hq, dequeueSystick, dues, pqV_setSystick, setSystick_systick,
    setSystick_queue, hq]
  by_cases hf : front = []
  · subst hf
    have hback : .thread t ∉ back := (List.nodup_cons.1 hnd).1
    rw [if_pos rfl, List.nil_append, List.nil_append,
      deadlines_congr_of_mem (w := k.pqV) fun p hp => dequeueVals_tail hT hq hp, deadlines_cons,
      List.filter_cons_of_neg (by simp), deadlines_filter_of_notMem hback]
    by_cases hb : back = []
    · rw [hb]
      rfl
    · simp only [if_neg hb]
      rfl
  · rw [if_neg hf, deadlines_remove (v := k.pqV) hf hnd
      (fun p hp => dequeueVals_init hT hq hp) (fun p hp => dequeueVals_last hT hq hp)
      (fun p hp => dequeueVals_tail hT hq hp)]

/-- The others are due when they were due. -/
theorem dueIn_dequeued (hd : (k.dequeued t front back).DueIn u d) :
    (k.setSystick k.systick.elapse).DueIn u d := by
  rw [DueIn, dequeued_dues hT hq] at hd
  exact List.mem_of_mem_filter hd

theorem dueIn_dequeued_self : ¬ (k.dequeued t front back).DueIn t d := by
  intro hd
  have hm := hd.mem
  rw [dequeued_queue_timer hT hq] at hm
  have hnd := hT.nodup
  rw [hq, List.nodup_middle, List.nodup_cons] at hnd
  exact hnd.1 hm

omit hT in
/-- The ticks that remain are those until the thread is due. -/
theorem dueIn_left :
    (k.setSystick k.systick.elapse).DueIn t (k.systick.elapse.count + total k.pqV front) := by
  rw [DueIn, dues, pqV_setSystick, setSystick_systick, setSystick_queue, hq, deadlines_append,
    deadlines_cons]
  exact List.mem_append_right _ (List.mem_cons_self ..)

omit hT in
theorem dequeued_clock : Clock k (k.dequeued t front back) := by
  have hlater := k.systick.elapse_later
  have hlater' := k.systick.elapse.elapse_later
  have hsys : (k.dequeued t front back).systick = k.dequeueSystick t front back := by
    simp [dequeued]
  have hne : k.queue .timer ≠ [] := by simp [hq]
  have hlate : (k.dequeued t front back).ghost.lateEdit = false → k.ghost.lateEdit = false ∧
      (front = [] → back ≠ [] → k.systick.elapse.elapse.pending = true →
        k.systick.elapse.count + (k.thread t).v = 0) := by
    intro hl
    obtain ⟨hold, hnew⟩ := Bool.or_eq_false_iff.1 hl
    refine ⟨hold, fun hf hb hp => ?_⟩
    subst hf
    rw [hp, List.isEmpty_nil, Bool.true_and, Bool.and_true, decide_eq_false_iff_not] at hnew
    by_contra hv
    exact hnew ⟨hb, hv⟩
  refine ⟨?_, fun hl => (hlate hl).1, fun hl hspent hp hq' => ?_⟩
  · rw [hsys, dequeueSystick]
    split
    · exact hlater.now.trans hlater'.now
    · exact hlater.now
  · obtain ⟨hold, hfirst⟩ := hlate hl
    rw [hsys, dequeueSystick] at hp ⊢
    by_cases hf : front = []
    · rw [if_pos hf] at hp ⊢
      simp only
      split
      · rfl
      · rename_i hb
        exact hfirst hf hb hp
    · rw [if_neg hf] at hp ⊢
      exact (clock_setSystick hlater).spent hold hspent hp hne

theorem dequeued_ages : Ages k (k.dequeued t front back) u := by
  refine ⟨rfl, fun d' hd' => ?_⟩
  obtain ⟨d, hd, hle, hsum⟩ := dueIn_setSystick k.systick.elapse_later (dueIn_dequeued hT hq hd')
  refine ⟨d, hd, hle, fun _ _ => ?_⟩
  have hnow : k.systick.elapse.now ≤ (k.dequeued t front back).systick.now := by
    have hsys : (k.dequeued t front back).systick = k.dequeueSystick t front back := by
      simp [dequeued]
    rw [hsys, dequeueSystick]
    split
    · exact k.systick.elapse.elapse_later.now
    · exact le_rfl
  omega

end Dequeue

/-! ## Expiry -/

section Expire

/-- A count that has come to 0 does not make the exception pending again. -/
theorem elapse_not_pending {s : Systick} (hp : s.pending = false) (hc : s.count = 0) :
    s.elapse.pending = false := by
  rw [Systick.elapse]
  split
  · exact hp
  · simp [Systick.advance, hp, hc]

/-- The threads made ready were all due at the same time. -/
theorem dueIn_of_expired (hu : .thread u ∈ k.expired) : k.DueIn u k.systick.count := by
  rw [expired] at hu
  rw [DueIn, dues]
  split at hu
  · cases hu
  · rename_i p rest hq
    rw [hq, deadlines_cons]
    rcases List.mem_cons.1 hu with rfl | hu
    · exact List.mem_cons_self ..
    · refine List.mem_cons_of_mem _ ?_
      rw [Nat.add_comm, deadlines_shift, popDue_spec, List.map_append, List.map_map]
      exact List.mem_append_left _ (List.mem_map.2 ⟨_, hu, by simp⟩)

/-- The others are due when they were, counted from the expiry. -/
theorem dueIn_remaining (hd : (Pq.thread u, d) ∈ deadlines k.pqV k.remaining.2 k.remaining.1) :
    k.DueIn u (d + k.systick.count) := by
  rw [remaining] at hd
  rw [DueIn, dues]
  split at hd
  · cases hd
  · rename_i p rest hq
    rw [hq, deadlines_cons]
    refine List.mem_cons_of_mem _ ?_
    rw [Nat.add_comm k.systick.count, deadlines_shift]
    refine List.mem_map.2 ⟨(.thread u, d), ?_, rfl⟩
    rw [popDue_spec]
    exact List.mem_append_right _ hd

section

variable (hthr : k.HoldsThreads .timer) (hnd : (k.queue .timer).Nodup)

include hthr hnd

theorem chxTimerExpired_ghost : k.chxTimerExpired.ghost.due = k.ghost.due ∧
    k.chxTimerExpired.ghost.lateEdit = k.ghost.lateEdit := by
  obtain ⟨prio, heq, -⟩ := chxTimerExpired_eq (k := k) hthr hnd
  obtain ⟨b, hb, -⟩ := chxRequestPreemption_eq
    (k := (k.expired.foldl expireEntry k).setSystick k.rearm) prio
  rw [heq, hb]
  refine foldl_expireEntry_keeps (P := fun K => K.ghost.due = k.ghost.due ∧
    K.ghost.lateEdit = k.ghost.lateEdit) (fun K t _ hK => ?_) ⟨rfl, rfl⟩
  rw [expireOne]
  split <;> exact hK

theorem chxTimerExpired_dues : k.chxTimerExpired.systick = k.rearm ∧
    k.chxTimerExpired.queue .timer = k.remaining.1 ∧
    k.chxTimerExpired.dues = deadlines k.pqV k.rearm.count k.remaining.1 := by
  obtain ⟨prio, heq, -⟩ := chxTimerExpired_eq (k := k) hthr hnd
  obtain ⟨b, hb, -⟩ := chxRequestPreemption_eq
    (k := (k.expired.foldl expireEntry k).setSystick k.rearm) prio
  have hq := foldl_expired_queue_timer hthr hnd
  rw [heq, hb]
  refine ⟨rfl, hq, ?_⟩
  rw [dues]
  simp only [setSystick_queue, setSystick_systick, hq]
  refine deadlines_congr_of_mem fun p hp => ?_
  have hnot : p ∉ k.expired := by
    intro hp'
    rw [← expired_append_remaining (k := k), List.nodup_append] at hnd
    exact hnd.2.2 _ hp' _ hp rfl
  have hv := expireEntry_pqV_of_notMem (k := k) hnot
  cases p <;> exact hv

end

/-- The deadlines that remain fit into the counter. -/
theorem remaining_mod (hT : TimerInv k) (hne : k.remaining.1 ≠ []) :
    k.remaining.2 % 16777216 = k.remaining.2 := by
  have hb := hT.bound
  have hpos := hT.total_pos ⟨_, expired_append_remaining⟩ hne
  have htot := remaining_total (k := k)
  exact Nat.mod_eq_of_lt (by omega)

end Expire

/-! ## Every move -/

/-- What is said of the timer over a move, for the threads that it does not put there. -/
def Passes (k k' : Kernel) (ok : Tid → Prop) : Prop :=
  Clock k k' ∧ ∀ u, ok u → Ages k k' u

theorem SameTimer.passes {ok : Tid → Prop} (h : SameTimer k k') : Passes k k' ok :=
  ⟨h.clock, fun _ _ => h.ages⟩

theorem Passes.trans {ok ok' : Tid → Prop} (h : Passes k k₁ ok) (h' : Passes k₁ k' ok')
    (hle : ∀ u, ok u → ok' u) : Passes k k' ok :=
  ⟨h.1.trans h'.1, fun u hu => (h.2 u hu).trans (h'.2 u (hle u hu)) h.1 h'.1⟩

theorem dequeued_passes {front back : List Pq} (hT : TimerInv k)
    (hq : k.queue .timer = front ++ .thread t :: back) {ok : Tid → Prop} :
    Passes k (k.dequeued t front back) ok :=
  ⟨dequeued_clock hq, fun _ _ => dequeued_ages hT hq⟩

theorem expire_passes (hT : TimerInv k) (hp : k.systick.pending = true) {ok : Tid → Prop} :
    Passes k (k.setSystick { k.systick with pending := false }).chxTimerExpired ok := by
  set k₀ := k.setSystick { k.systick with pending := false } with hk₀
  have hv : k₀.pqV = k.pqV := pqV_setSystick
  have hrem : k₀.remaining = k.remaining := by
    simp only [remaining, hv]
    rfl
  obtain ⟨hdue, hlate⟩ := chxTimerExpired_ghost (k := k₀) hT.threads hT.nodup
  obtain ⟨hsys, hque, hdues⟩ := chxTimerExpired_dues (k := k₀) hT.threads hT.nodup
  rw [hrem] at hque hdues
  rw [hv] at hdues
  have hnow : k.systick.now ≤ k₀.rearm.now := by
    rw [rearm]
    split
    · exact le_rfl
    · exact k₀.systick.elapse_later.now
  have hspent : k.Spent → k.remaining.1 ≠ [] → k.systick.count = 0 := by
    intro hs hne
    refine hs hp fun hnil => hne ?_
    have happ := expired_append_remaining (k := k)
    rw [hnil] at happ
    exact (List.append_eq_nil_iff.1 happ).2
  refine ⟨⟨?_, fun hl => hlate ▸ hl, fun _ hs hpend hne => ?_⟩, fun u _ => ⟨?_, fun d' hd' => ?_⟩⟩
  · rw [hsys]
    exact hnow
  · rw [hque] at hne
    rw [hsys, rearm, hrem, if_neg hne] at hpend
    have hoff : k₀.systick.elapse.pending = false := elapse_not_pending rfl (hspent hs hne)
    exact absurd hpend (by simp [hoff])
  · rw [hdue]
    rfl
  · rw [DueIn, hdues] at hd'
    have hne : k.remaining.1 ≠ [] := by
      intro hnil
      rw [hnil] at hd'
      cases hd'
    have hcount : k₀.rearm.count = k.remaining.2 := by
      rw [rearm, hrem, if_neg hne]
      exact remaining_mod hT hne
    rw [hcount] at hd'
    refine ⟨_, dueIn_remaining hd', Nat.le_add_right _ _, fun _ hs => ?_⟩
    rw [hspent hs hne, hsys]
    omega

end Kernel

variable {cfg : Config} {k k' : Kernel} {t u : Tid} {off off' : Option Tid} {op : Op}
  {P : Op → Prop}

/-- **Time passes in every move**, for the threads that it does not put into `q_timer`. -/
theorem Move.passes (hm : Move cfg op (off, k) (off', k')) (h : KernelInv off k) :
    Passes k k' fun u => (∀ st, op ≠ .sleep u st) ∧
      (op = .switch → (k.thread u).state ≠ .ready) := by
  have hT := h.timer
  have hproxy : ∀ p : PxId, (k.llDequeue (.proxy p)).queue .timer = k.queue .timer := by
    intro p
    refine llDequeue_queue_of_notMem fun hmem => ?_
    obtain ⟨t, ht⟩ := hT.threads _ hmem
    cases ht
  have hfield : ∀ (t : Tid) (f : Thread → Thread), (f (k.thread t)).v = (k.thread t).v →
      SameTimer k (k.modThread t f) := by
    intro t f hf
    refine .of_thread hT rfl (fun u _ => ?_) rfl rfl rfl
    by_cases hut : u = t
    · subst hut
      rw [modThread_thread, Function.update_self]
      exact hf
    · rw [modThread_thread, Function.update_of_ne hut]
  cases hm with
  | aux | count | pend | norun | proxy | ready | enable | disable =>
      exact SameTimer.passes (.of_proxy hT rfl rfl rfl rfl rfl)
  | fire | unlink => exact SameTimer.passes (.of_proxy hT rfl (hproxy _) rfl rfl rfl)
  | link hq =>
      refine SameTimer.passes (.of_proxy hT rfl (llPrioEnqueue_queue_of_ne ?_) rfl rfl rfl)
      rintro rfl
      rcases hq with hq | hq | ⟨c, hq⟩ <;> cases hq
  | pass hs => exact ⟨clock_setSystick hs, fun _ _ => ages_setSystick hs⟩
  | flags w => exact (hfield _ _ (Flag.set_v ..)).passes
  | prio => exact SameTimer.passes (hfield _ _ rfl)
  | finish => exact SameTimer.passes (hfield _ _ rfl)
  | acquire =>
      rename_i t m hr hs ho
      have hf := hfield t (fun th => { th with mutexList := some m }) rfl
      exact SameTimer.passes ⟨hf.queue, hf.value, rfl, rfl, rfl⟩
  | drop =>
      rename_i t m hr hs
      have hf := hfield t (fun th => { th with mutexList := (k.mutex m).list }) rfl
      exact SameTimer.passes ⟨hf.queue, hf.value, rfl, rfl, rfl⟩
  | raise hp hlt hq hst =>
      rename_i t q p
      have hnot : .thread t ∉ k.queue .timer := by
        intro hm
        rcases h.holds_of_mem hm with hs | hs | hs <;>
        rcases hst with hst | hst | hst <;> (rw [hs] at hst; cases hst)
      have hqt : q ≠ .timer := by
        rintro rfl
        exact hnot (mem_of_isIn hq)
      refine SameTimer.passes (.of_thread hT ?_ (fun u hu => ?_) rfl rfl rfl)
      · rw [llPrioEnqueue_queue_of_ne hqt.symm]
        exact llDequeue_queue_of_notMem hnot
      · have hut : u ≠ t := by
          rintro rfl
          exact hnot hu
        rw [llPrioEnqueue_thread, Function.update_of_ne hut, llDequeue_thread, setPrio_thread,
          Function.update_of_ne hut]
  | wakeTimed hs hd hw =>
      obtain ⟨front, back, hq, rfl, -⟩ := chxTimerDequeue_ok hT hd
      refine (dequeued_passes hT hq).trans (SameTimer.passes ?_) fun _ hu => hu
      refine .of_update (hT.dequeue hq) ?_ resume_thread (resume_queue_of_ne (by simp)) rfl rfl rfl
      exact fun hm => (exists_dueIn hm).elim fun d hd => dueIn_dequeued_self hT hq hd
  | wakeQueued hq hw =>
      rename_i t q w v
      have hqt : q ≠ .timer := by
        rintro rfl
        cases hw
      have hnot := KernelInv.notMem_timer_of_isIn hq hqt
      refine SameTimer.passes (.of_update hT hnot resume_thread ?_ rfl rfl rfl)
      rw [resume_queue_of_ne (by simp)]
      exact llDequeue_queue_of_notMem hnot
  | wakeLoose hs hp hw =>
      exact SameTimer.passes (.of_update hT (notMem_of_isOut (h.isOut_of_parent hs hp))
        resume_thread (resume_queue_of_ne (by simp)) rfl rfl rfl)
  | slice hr hs he =>
      rcases endSlice_ok hT he with rfl | ⟨front, back, -, hq, rfl⟩
      · exact SameTimer.refl.passes
      · exact dequeued_passes hT hq
  | block hs hq =>
      rename_i t q st v
      refine SameTimer.passes (.of_thread hT (llPrioEnqueue_queue_of_ne ?_) (fun u hu => ?_)
        rfl rfl rfl)
      · rintro rfl
        cases hq
      · have hut : u ≠ t := by
          rintro rfl
          exact h.notMem_of_out hu
        rw [modThread_thread, Function.update_of_ne hut, llPrioEnqueue_thread,
          Function.update_of_ne hut]
  | pollSleep | die =>
      exact SameTimer.passes (.of_update hT h.notMem_of_out rfl rfl rfl rfl rfl)
  | yield hs =>
      rename_i t
      exact SameTimer.passes (.of_update hT h.notMem_of_out chxReadyEnqueue_thread
        (chxReadyEnqueue_queue_of_ne (k := k) (t := t) (q := .timer) (by simp)) rfl rfl rfl)
  | push hr hs hf =>
      rename_i t
      exact SameTimer.passes (.of_update hT (h.notMem_timer (.inr hs) hf) chxReadyPush_thread
        (chxReadyPush_queue_of_ne (k := k) (t := t) (q := .timer) (by simp)) rfl rfl rfl)
  | create fp =>
      refine SameTimer.passes (.of_thread hT (chxReadyEnqueue_queue_of_ne (by simp))
        (fun u hu => ?_) rfl rfl rfl)
      have hlt := h.lt_of_isIn (h.isIn_of_mem hu)
      have hne : u ≠ k.nthread := hlt.ne
      rw [chxReadyEnqueue_thread, Function.update_of_ne hne]
      simp only [Function.update_of_ne hne]
  | sleep hs hst hpos hle =>
      rename_i t st usec
      have hsame : SameTimer k (k.modThread t fun th => { th with state := st }) :=
        .of_update hT h.notMem_of_out rfl rfl rfl rfl rfl
      have hT' : TimerInv (k.modThread t fun th => { th with state := st }) := h.timer_modThread
      have hclock : Clock _ ((k.modThread t fun th => { th with state := st }).chxTimerInsert
        cfg t usec) := chxTimerInsert_clock hT'
      have hins : Passes _ _ (· ≠ t) :=
        ⟨hclock, fun u hu => chxTimerInsert_ages hT' h.notMem_of_out hle hu⟩
      refine hsame.passes.trans hins fun u hu hut => ?_
      exact hu.1 st (by rw [hut])
  | switch hs =>
      rcases switchThread_cases cfg h.readyThreads with ⟨-, heq⟩ | ⟨t, rest, hq, heq⟩
      · rw [heq]
        exact SameTimer.passes (.of_proxy hT rfl rfl rfl rfl rfl)
      · rw [heq]
        have hm : .thread t ∈ k.queue .ready := by
          rw [hq]
          exact List.mem_cons_self ..
        have hnot : .thread t ∉ k.queue .timer :=
          KernelInv.notMem_timer_of_isIn (h.isIn_of_mem hm) (by simp)
        have hpop : SameTimer k (k.popped t) :=
          .of_update hT hnot popped_thread (llDequeue_queue_of_notMem hnot) rfl rfl rfl
        have hT' := h.popped_timer hm
        have hlast : ∀ k₁ : Kernel, SameTimer k₁ { k₁ with
            running := some t
            masked := if prioInhibitPreemption ≤ (k₁.thread t).prio then k₁.masked else false } :=
          fun k₁ => ⟨rfl, fun p _ => by cases p <;> rfl, rfl, rfl, rfl⟩
        have hslice : Passes (k.popped t) ((k.popped t).sliced cfg t) (· ≠ t) := by
          rw [sliced]
          split
          · exact ⟨chxTimerInsert_clock hT', fun u hu => chxTimerInsert_ages hT'
              (fun hm' => hnot (List.mem_of_mem_filter hm')) (slice_ticks cfg).2 hu⟩
          · exact SameTimer.refl.passes
        refine (hpop.passes.trans hslice fun u hu hut => ?_).trans (hlast _).passes fun _ hu => hu
        exact hu.2 rfl (hut ▸ h.state_of_mem_ready hm)
  | expire hp hr => exact expire_passes hT hp

/-! ## No thread is made ready early -/

/-- As long as the counter was not loaded anew while its exception was pending, no thread of
`q_timer` is due before the time that it has asked for. -/
def Kernel.DueInv (k : Kernel) : Prop :=
  k.ghost.lateEdit = false →
    k.Spent ∧ ∀ u d, k.DueIn u d → k.ghost.due u ≤ k.systick.now + d

namespace Kernel

/-- A deadline that time passes for stays where it is, or becomes later. -/
theorem Ages.due_le {d : Nat} (h : Ages k k' u) (hi : k.DueInv) (hl : k.ghost.lateEdit = false)
    (hl' : k'.ghost.lateEdit = false) (hd : k'.DueIn u d) :
    k'.ghost.due u ≤ k'.systick.now + d := by
  obtain ⟨hspent, hdue⟩ := hi hl
  obtain ⟨d₀, hd₀, -, hnow⟩ := h.left d hd
  rw [h.due]
  exact (hdue u d₀ hd₀).trans (hnow hl' hspent)

theorem insert_due_le {usec d : Nat} (hT : TimerInv k) (ht : .thread t ∉ k.queue .timer)
    (hle : usecToTicks cfg usec ≤ 16777215) (hd : (k.chxTimerInsert cfg t usec).DueIn t d) :
    (k.chxTimerInsert cfg t usec).ghost.due t ≤
      (k.chxTimerInsert cfg t usec).systick.now + d := by
  have hnow : k.systick.elapse.now ≤ (k.chxTimerInsert cfg t usec).systick.now :=
    chxTimerInsert_now hT
  rw [(dueIn_insert_self hT ht hle).1 hd, chxTimerInsert_due hT, Function.update_self]
  omega

end Kernel

/-- The thread that gets a slice in a context switch is due at its end. -/
theorem switchThread_due_le {d : Nat} (h : KernelInv none k)
    (hready : (k.thread u).state = .ready) (hd : (k.switchThread cfg).DueIn u d) :
    (k.switchThread cfg).ghost.due u ≤ (k.switchThread cfg).systick.now + d := by
  rcases switchThread_cases cfg h.readyThreads with ⟨-, heq⟩ | ⟨t, rest, hq, heq⟩
  · rw [heq] at hd
    have hm : .thread u ∈ k.queue .timer := hd.mem
    rcases h.holds_of_mem hm with hs | hs | hs <;> (rw [hready] at hs; cases hs)
  · have hm : .thread t ∈ k.queue .ready := by
      rw [hq]
      exact List.mem_cons_self ..
    have hnot : .thread t ∉ (k.popped t).queue .timer := fun hm' =>
      KernelInv.notMem_timer_of_isIn (h.isIn_of_mem hm) (by simp) (List.mem_of_mem_filter hm')
    have hT := h.popped_timer hm
    have hu : .thread u ∉ (k.popped t).queue .timer := by
      intro hm'
      rcases h.holds_of_mem (List.mem_of_mem_filter hm') with hs | hs | hs <;>
      (rw [hready] at hs; cases hs)
    rw [heq] at hd ⊢
    have hd' : ((k.popped t).sliced cfg t).DueIn u d := hd
    rw [sliced] at hd' ⊢
    split at hd'
    · rename_i hrr
      rcases (dueIn_insert hT hnot (slice_ticks cfg).2).1 hd' with ⟨rfl, -⟩ | hd'
      · rw [if_pos hrr]
        exact insert_due_le hT hnot (slice_ticks cfg).2 ‹_›
      · exact absurd hd'.mem hu
    · exact absurd hd'.mem hu

/-- **Every move keeps the invariant of the deadlines.** -/
theorem Move.dueInv (hm : Move cfg op (off, k) (off', k')) (h : KernelInv off k)
    (hi : k.DueInv) : k'.DueInv := by
  intro hl'
  obtain ⟨hclock, hages⟩ := hm.passes h
  have hl := hclock.late hl'
  refine ⟨hclock.spent hl' (hi hl).1, fun u d hd => ?_⟩
  by_cases hsl : ∃ st, op = .sleep u st
  · obtain ⟨st, rfl⟩ := hsl
    cases hm with
    | sleep hs hst hpos hle =>
        exact insert_due_le h.timer_modThread h.notMem_of_out hle hd
  · by_cases hsw : op = .switch ∧ (k.thread u).state = .ready
    · obtain ⟨rfl, hready⟩ := hsw
      cases hm with
      | switch hs => exact switchThread_due_le h hready hd
    · exact (hages u ⟨fun st he => hsl ⟨st, he⟩, fun he hr => hsw ⟨he, hr⟩⟩).due_le hi hl hl' hd

theorem Path.dueInv (hp : Path cfg P (off, k) (off', k')) (h : KernelInv off k) (hi : k.DueInv) :
    k'.DueInv := by
  have key := hp.keeps (I := fun a => KernelInv a.1 a.2 ∧ a.2.DueInv) ?_ ⟨h, hi⟩
  · exact key.2
  · rintro op ⟨off, k⟩ ⟨off', k'⟩ - hm ⟨hk, hi⟩
    exact ⟨hk.move hm, hm.dueInv hk hi⟩

/-- **The threads that `chx_timer_expired` makes ready are due.** -/
theorem Kernel.DueInv.expired (hi : k.DueInv) (hl : k.ghost.lateEdit = false)
    (hp : k.systick.pending = true) (hu : .thread u ∈ k.expired) :
    k.ghost.due u ≤ k.systick.now := by
  obtain ⟨hspent, hdue⟩ := hi hl
  have hd := dueIn_of_expired hu
  have hne : k.queue .timer ≠ [] := List.ne_nil_of_mem hd.mem
  have hle := hdue u _ hd
  rw [hspent hp hne] at hle
  exact hle

/-! ## A thread that sleeps -/

/-- A thread that waits goes on waiting, unless it is woken up. -/
theorem Move.stays (hm : Move cfg op (off, k) (off', k')) (h : KernelInv off k)
    (hc : ¬ op.Connects u) (hw : ∀ w, op ≠ .wake u w) (hex : op ≠ .expire)
    (ha : ¬ (k.thread u).state.Active) (he : ¬ (k.thread u).state.Ended) :
    (k'.thread u).state = (k.thread u).state := by
  by_cases hsw : op = .switch
  · subst hsw
    cases hm with
    | switch hs =>
        rcases switchThread_switched cfg h with ⟨-, heq⟩ | ⟨t, hsw⟩
        · rw [heq]
        · have hut : u ≠ t := by
            rintro rfl
            exact ha (.inl hsw.ready)
          rw [hsw.others u hut]
  by_cases ht : op.target = some u
  · cases hm with
    | flags | prio | acquire | drop =>
        cases ht
        simp [acquire_thread, dropMutex_thread]
    | raise hp hlt hq hst =>
        cases ht
        simp [llPrioEnqueue_thread, setPrio]
    | wakeTimed | wakeQueued | wakeLoose => cases ht; exact absurd rfl (hw _)
    | slice hr hs he' => cases ht; exact absurd (.inr hs) ha
    | yield hs => cases ht; exact absurd (.inr hs) ha
    | push hr hs hf => cases ht; exact absurd (.inr hs) ha
    | norun hr hs => cases ht; exact absurd (.inl hs) ha
    | finish hlt hs => cases ht; exact absurd hs he
    | create fp => cases ht; exact absurd (.inl (h.unborn _ le_rfl).1) he
    | block | sleep | pollSleep | die => cases ht; exact absurd rfl hc
    | _ => cases ht
  · exact (hm.untouched h ht hsw hex).state

/-- The thread is due within `n` ticks; or it was woken up, and its waker has stored no more
than `n`, or it was canceled. -/
structure WakesWithin (k : Kernel) (u : Tid) (n : Nat) : Prop where
  alive : ¬ (k.thread u).state.Ended
  asleep : ¬ (k.thread u).state.Active → ∀ d, k.DueIn u d → d ≤ n
  woken : (k.thread u).state.Active →
    ∃ w v, k.ghost.wake u = some (w, v) ∧ (v ≤ n ∨ w = .cancel)

theorem WakesUntimed.within {w : Waker} {v n : Nat} (h : WakesUntimed w v) (hn : 1 ≤ n) :
    v ≤ n ∨ w = .cancel := by
  cases h
  · exact .inl hn
  · exact .inr rfl

namespace WakesWithin

variable {n v : Nat} {w : Waker}

theorem of_woken (ha : (k'.thread u).state.Active) (hw : k'.ghost.wake u = some (w, v))
    (hv : v ≤ n ∨ w = .cancel) : WakesWithin k' u n :=
  ⟨fun he => he.not_active ha, fun hn => absurd ha hn, fun _ => ⟨w, v, hw, hv⟩⟩

/-- A wake-up stores no more than the ticks that were left. -/
theorem of_resume (hv : v ≤ n ∨ w = .cancel) : WakesWithin (k.resume u w v) u n := by
  refine .of_woken ?_ (Function.update_self ..) hv
  rw [resume_thread, Function.update_self]
  exact .inl rfl

/-- **A thread that does nothing itself stays within its time.** -/
theorem move (hm : Move cfg op (off, k) (off', k')) (h : KernelInv off k)
    (hc : ¬ op.Connects u) (hn : 1 ≤ n) (hi : WakesWithin k u n) : WakesWithin k' u n := by
  have hages : ¬ (k.thread u).state.Active → Ages k k' u := by
    refine fun ha => (hm.passes h).2 u ⟨?_, fun _ hr => ha (.inl hr)⟩
    rintro st rfl
    exact hc rfl
  have hlater : ¬ (k.thread u).state.Active → (k'.thread u).state = (k.thread u).state →
      WakesWithin k' u n := by
    intro ha hs
    refine ⟨hs ▸ hi.alive, fun _ d' hd' => ?_, fun ha' => absurd (hs ▸ ha') ha⟩
    obtain ⟨d, hd, hle, -⟩ := (hages ha).left d' hd'
    exact hle.trans (hi.asleep ha d hd)
  by_cases hex : op = .expire
  · subst hex
    cases hm with
    | expire hp hr =>
        have he := chxTimerExpired_expired h
        have hw := he.wake u
        by_cases hmem : .thread u ∈ k.expired
        · have ha' : (((k.setSystick { k.systick with pending := false }).chxTimerExpired).thread
              u).state.Active := by
            rw [he.self u hmem]
            exact .inl rfl
          by_cases hrun : k.running = some u
          · rw [if_neg (by simp [hrun])] at hw
            have ha : (k.thread u).state.Active := (hr u hrun).symm
            obtain ⟨w, v, hwv, hv⟩ := hi.woken ha
            exact .of_woken ha' (hw.trans hwv) hv
          · rw [if_pos ⟨hmem, hrun⟩] at hw
            exact .of_woken ha' hw (.inl (Nat.zero_le n))
        · rw [if_neg (by simp [hmem])] at hw
          have hth := he.others u hmem
          by_cases ha : (k.thread u).state.Active
          · obtain ⟨w, v, hwv, hv⟩ := hi.woken ha
            exact .of_woken (by rw [hth]; exact ha) (hw.trans hwv) hv
          · exact hlater ha (by rw [hth])
  by_cases hwake : ∃ w, op = .wake u w
  · obtain ⟨w, rfl⟩ := hwake
    cases hm with
    | wakeTimed hs hd hw =>
        obtain ⟨front, back, hq, rfl, rfl⟩ := chxTimerDequeue_ok h.timer hd
        refine .of_resume ?_
        cases hw with
        | cancel => exact .inr rfl
        | others =>
            obtain ⟨d, hd, hle, -⟩ := dueIn_setSystick k.systick.elapse_later (dueIn_left hq)
            refine .inl (hle.trans (hi.asleep ?_ d hd))
            rcases hs with hs | hs <;> (rw [hs]; simp [ThreadState.Active])
    | wakeQueued hq hw =>
        refine .of_resume ?_
        cases hw with
        | handOver m => exact .inl (Nat.zero_le n)
        | cnd c hw => exact hw.within hn
        | join hw => exact hw.within hn
    | wakeLoose hs hp hw => exact .of_resume (hw.within hn)
  · by_cases ha : (k.thread u).state.Active
    · have hlt : u < k.nthread := by
        refine h.lt_of_state ?_
        intro hs
        rw [hs] at ha
        simp [ThreadState.Active] at ha
      obtain ⟨w, v, hwv, hv⟩ := hi.woken ha
      exact .of_woken ((hm.drift h hc hlt).active_of ha)
        ((hm.wake_eq h (fun w hw => hwake ⟨w, hw⟩) hex).trans hwv) hv
    · exact hlater ha (hm.stays h hc (fun w hw => hwake ⟨w, hw⟩) hex ha hi.alive)

theorem path (hp : Path cfg P (off, k) (off', k')) (h : KernelInv off k)
    (hc : ∀ op, P op → ¬ op.Connects u) (hn : 1 ≤ n) (hi : WakesWithin k u n) :
    WakesWithin k' u n := by
  have key := hp.keeps (I := fun a => KernelInv a.1 a.2 ∧ WakesWithin a.2 u n) ?_ ⟨h, hi⟩
  · exact key.2
  · rintro op ⟨off, k⟩ ⟨off', k'⟩ hop hm ⟨hk, hi⟩
    exact ⟨hk.move hm, hi.move hm hk (hc op hop) hn⟩

/-- The context switch of a thread that has gone to sleep. -/
theorem switch (hi : WakesWithin k u n) (h : KernelInv none k)
    (hr : ∀ t, k.running = some t → (k.thread t).state ≠ .running) (hn : 1 ≤ n) :
    WakesWithin (k.switchThread cfg) u n :=
  hi.move (.switch (h.notRunning hr)) h id hn

end WakesWithin

/-- `chx_snooze` puts the thread to sleep for as long as the counter allows. -/
theorem chxSnooze_within {st : ThreadState} {usec usec0 : Nat} (h : KernelInv none k)
    (hr : Runs k t) (hst : st = .waitTime ∨ st = .waitPoll)
    (hz : k.chxSnooze cfg t st usec = .ok (k', some usec0)) :
    0 < usec ∧ usec0 = min usec (maxUsecForTimer cfg) ∧
      WakesWithin k' t (usec0 * cfg.mhz) := by
  rw [chxSnooze] at hz
  split at hz
  · cases hz
  rename_i hpos
  obtain ⟨k₁, he, hk⟩ := res_bind_eq_ok.1 hz
  obtain ⟨-, hk₁, hr₁⟩ := slice_move cfg h hr he
  have hmin : (if maxUsecForTimer cfg < usec then maxUsecForTimer cfg else usec) =
      min usec (maxUsecForTimer cfg) := by
    split <;> omega
  rw [hmin] at hk
  clear hz
  cases hk
  have hmax : 0 < maxUsecForTimer cfg := maxUsecForTimer_pos
  have hle : min usec (maxUsecForTimer cfg) ≤ maxUsecForTimer cfg := Nat.min_le_right ..
  have hpos' : 0 < min usec (maxUsecForTimer cfg) := by omega
  obtain ⟨hticks, hticks'⟩ := usecToTicks_le hpos' hle
  have hm : Move cfg (.sleep t st) (some t, k₁) (none, _) := .sleep hr₁.2 hst hticks hticks'
  have hstate := hm.sleep_state hk₁
  obtain ⟨hrun, hnot⟩ := hm.connected rfl hk₁ hr₁
  refine ⟨Nat.pos_of_ne_zero hpos, rfl, WakesWithin.switch ?_ (hk₁.move hm) (fun u hu => ?_)
    (Nat.mul_pos hpos' cfg.mhz_pos)⟩
  · refine ⟨?_, fun _ d hd => ?_, fun ha => ?_⟩
    · rw [hstate]
      rcases hst with rfl | rfl <;> simp [ThreadState.Ended]
    · rw [(dueIn_insert_self hk₁.timer_modThread hk₁.notMem_of_out hticks').1 hd,
        usecToTicks_eq hle]
    · rw [hstate] at ha
      rcases hst with rfl | rfl <;> simp [ThreadState.Active] at ha
  · rw [hrun] at hu
    cases hu
    exact hnot

end Chopstx
