import Mathlib.Tactic
import Chopstx.Library.InsertBefore

/-!
# Delta queues

A delta queue keeps entries in the order of their deadlines, and for each of them
only the difference to its successor: the head is due `c` ticks from now, and
entry `a` is followed, `v a` ticks later, by the next one.  So an entry is inserted
or removed without touching any but its neighbours, and the passing of time changes
one number only.  The difference of the last entry means nothing.

`deadlines v c l` spells the deadlines out.  In these terms the insertion is the
stable insertion into an ordered list (`deadlines_insert`), the removal a removal
(`deadlines_remove`), and the expiry splits off the entries that are due
(`popDue_spec`).

* `locate`, `Inserted`, `insertCount` - the loop of an insertion, and what it writes.
* `popDue` - the entries that are due with the head.
* `total` - the sum of the differences, which bounds every deadline (`total_remove`,
  `total_popDue`).
-/

namespace DeltaQueue

open PrioQueue

variable {α : Type*}

/-! ## Deadlines -/

/-- The entries with their deadlines, counted from now. -/
def deadlines (v : α → Nat) : Nat → List α → List (α × Nat)
  | _, [] => []
  | c, a :: l => (a, c) :: deadlines v (c + v a) l

/-- The sum of the differences. -/
def total (v : α → Nat) (l : List α) : Nat := (l.map v).sum

variable {v w : α → Nat} {c d : Nat} {l l₁ l₂ : List α} {a : α}

@[simp] theorem total_nil : total v [] = 0 := rfl

@[simp] theorem total_cons : total v (a :: l) = v a + total v l := by
  simp [total]

@[simp] theorem total_append : total v (l₁ ++ l₂) = total v l₁ + total v l₂ := by
  simp [total]

theorem total_congr (h : ∀ a ∈ l, v a = w a) : total v l = total w l := by
  rw [total, total, List.map_congr_left h]

@[simp] theorem deadlines_nil : deadlines v c [] = [] := rfl

@[simp] theorem deadlines_cons : deadlines v c (a :: l) = (a, c) :: deadlines v (c + v a) l := rfl

theorem deadlines_append :
    deadlines v c (l₁ ++ l₂) = deadlines v c l₁ ++ deadlines v (c + total v l₁) l₂ := by
  induction l₁ generalizing c with
  | nil => rfl
  | cons a l₁ ih => simp [ih, Nat.add_assoc]

@[simp] theorem deadlines_map_fst : (deadlines v c l).map Prod.fst = l := by
  induction l generalizing c with
  | nil => rfl
  | cons a l ih => simp [ih]

theorem fst_mem_of_mem_deadlines {e : α × Nat} (h : e ∈ deadlines v c l) : e.1 ∈ l := by
  rw [← deadlines_map_fst (v := v) (c := c) (l := l)]
  exact List.mem_map_of_mem h

theorem exists_deadline (h : a ∈ l) : ∃ d, (a, d) ∈ deadlines v c l := by
  rw [← deadlines_map_fst (v := v) (c := c) (l := l)] at h
  obtain ⟨⟨a, d⟩, hmem, rfl⟩ := List.mem_map.1 h
  exact ⟨d, hmem⟩

theorem deadline_unique {d' : Nat} (hnd : l.Nodup) (h : (a, d) ∈ deadlines v c l)
    (h' : (a, d') ∈ deadlines v c l) : d = d' := by
  rw [← deadlines_map_fst (v := v) (c := c) (l := l)] at hnd
  exact (Prod.ext_iff.1 (List.inj_on_of_nodup_map hnd h h' rfl)).2

/-- The difference of the last entry does not matter. -/
theorem deadlines_congr (h : ∀ a ∈ l.dropLast, v a = w a) :
    deadlines v c l = deadlines w c l := by
  induction l generalizing c with
  | nil => rfl
  | cons a l ih =>
      cases l with
      | nil => rfl
      | cons b l =>
          rw [List.dropLast_cons_cons] at h
          rw [deadlines_cons, deadlines_cons (v := w), h a (List.mem_cons_self ..),
            ih fun x hx => h x (List.mem_cons_of_mem _ hx)]

theorem deadlines_congr_of_mem (h : ∀ a ∈ l, v a = w a) : deadlines v c l = deadlines w c l :=
  deadlines_congr fun a ha => h a (List.mem_of_mem_dropLast ha)

/-- A later start of the count makes every deadline later. -/
theorem deadlines_shift :
    deadlines v (c + d) l = (deadlines v c l).map fun e => (e.1, e.2 + d) := by
  induction l generalizing c with
  | nil => rfl
  | cons a l ih =>
      rw [deadlines_cons, deadlines_cons, List.map_cons, ← ih]
      simp only [Nat.add_right_comm]

theorem le_of_mem_deadlines {e : α × Nat} (h : e ∈ deadlines v c l) : c ≤ e.2 := by
  induction l generalizing c with
  | nil => cases h
  | cons a l ih =>
      rcases List.mem_cons.1 h with rfl | h
      · exact le_refl _
      · exact (Nat.le_add_right c _).trans (ih h)

theorem deadlines_sorted : (deadlines v c l).Pairwise fun e e' => e.2 ≤ e'.2 := by
  induction l generalizing c with
  | nil => exact List.Pairwise.nil
  | cons a l ih =>
      exact List.pairwise_cons.2
        ⟨fun e he => (Nat.le_add_right c _).trans (le_of_mem_deadlines he), ih⟩

/-- A deadline and the difference behind it are within the total. -/
theorem add_le_of_mem_deadlines {e : α × Nat} (h : e ∈ deadlines v c l) :
    e.2 + v e.1 ≤ c + total v l := by
  induction l generalizing c with
  | nil => cases h
  | cons a l ih =>
      rw [total_cons]
      rcases List.mem_cons.1 h with rfl | h
      · exact Nat.add_le_add_left (Nat.le_add_right _ _) _
      · exact (ih h).trans (Nat.add_assoc _ _ _).le

theorem le_total_of_mem (h : a ∈ l) : v a ≤ total v l := by
  obtain ⟨d, hd⟩ := exists_deadline (v := v) (c := 0) h
  have hle : d + v a ≤ 0 + total v l := add_le_of_mem_deadlines hd
  omega

/-! ## Insertion -/

/-- The place for a new entry due in `ticks`: the entries that stay in front of it,
those behind it, the ticks from the former to it, and, if there is an entry behind
it, the ticks from the former to that. -/
def locate (v : α → Nat) : List α → Nat → Nat → List α × List α × Nat × Option Nat
  | [], ticks, _ => ([], [], ticks, none)
  | p :: ps, ticks, nextTicks =>
      if ticks < nextTicks then ([], p :: ps, ticks, some nextTicks)
      else
        let r := locate v ps (ticks - nextTicks) (v p)
        (p :: r.1, r.2)

variable {ticks : Nat}

theorem locate_append (v : α → Nat) (l : List α) (ticks c : Nat) :
    (locate v l ticks c).1 ++ (locate v l ticks c).2.1 = l := by
  induction l generalizing ticks c with
  | nil => rfl
  | cons p ps ih =>
      rw [locate]
      split
      · rfl
      · rw [List.cons_append, ih]

theorem locate_none_iff :
    (locate v l ticks c).2.2.2 = none ↔ (locate v l ticks c).2.1 = [] := by
  induction l generalizing ticks c with
  | nil => simp [locate]
  | cons p ps ih =>
      rw [locate]
      split
      · simp
      · exact ih

theorem locate_lt {n : Nat} (h : (locate v l ticks c).2.2.2 = some n) :
    (locate v l ticks c).2.2.1 < n := by
  induction l generalizing ticks c with
  | nil => simp [locate] at h
  | cons p ps ih =>
      rw [locate] at h ⊢
      split at h
      · rename_i hlt
        rw [if_pos hlt]
        simpa using (Option.some.inj h) ▸ hlt
      · rename_i hge
        rw [if_neg hge]
        exact ih h

/-- An entry goes to the front only before an empty queue or a later deadline. -/
theorem locate_ticks_of_nil (h : (locate v l ticks c).1 = []) :
    (locate v l ticks c).2.2.1 = ticks := by
  cases l with
  | nil => rfl
  | cons p ps =>
      rw [locate] at h ⊢
      split at h
      · rename_i hlt
        rw [if_pos hlt]
      · cases h

/-- What an insertion writes: the ticks before and after the new entry `a`. -/
structure Inserted (v w : α → Nat) (l : List α) (ticks c : Nat) (a : α) : Prop where
  init : ∀ p ∈ (locate v l ticks c).1.dropLast, w p = v p
  last : ∀ p, (locate v l ticks c).1.getLast? = some p → w p = (locate v l ticks c).2.2.1
  new : ∀ n, (locate v l ticks c).2.2.2 = some n → w a = n - (locate v l ticks c).2.2.1
  tail : ∀ p ∈ (locate v l ticks c).2.1, w p = v p

/-- The count after an insertion. -/
def insertCount (v : α → Nat) (l : List α) (ticks c : Nat) : Nat :=
  if (locate v l ticks c).1 = [] then ticks else c

variable {p : α} {ps : List α}

/-- The insertion behind the head is an insertion into the tail. -/
theorem Inserted.of_cons (h : Inserted v w (p :: ps) ticks c a) (hge : ¬ ticks < c) :
    Inserted v w ps (ticks - c) (v p) a ∧ w p = insertCount v ps (ticks - c) (v p) := by
  have hloc : locate v (p :: ps) ticks c =
      (p :: (locate v ps (ticks - c) (v p)).1, (locate v ps (ticks - c) (v p)).2) := by
    rw [locate, if_neg hge]
  obtain ⟨hinit, hlast, hnew, htail⟩ := h
  rw [hloc] at hinit hlast hnew htail
  cases hfront : (locate v ps (ticks - c) (v p)).1 with
  | nil =>
      refine ⟨⟨?_, ?_, hnew, htail⟩, ?_⟩
      · simp [hfront]
      · simp [hfront]
      · rw [insertCount, if_pos hfront, ← locate_ticks_of_nil hfront]
        exact hlast p (by simp [hfront])
  | cons b bs =>
      refine ⟨⟨fun x hx => hinit x ?_, fun x hx => hlast x ?_, hnew, htail⟩, ?_⟩
      · rw [hfront] at hx ⊢
        exact List.mem_cons_of_mem _ hx
      · rw [hfront] at hx ⊢
        simpa using hx
      · rw [insertCount, if_neg (by simp [hfront])]
        exact hinit p (by simp [hfront])

/-- **The insertion is the stable insertion into the list of deadlines.** -/
theorem deadlines_insert (h : Inserted v w l ticks c a) :
    deadlines w (insertCount v l ticks c)
        ((locate v l ticks c).1 ++ a :: (locate v l ticks c).2.1) =
      insertBefore (fun e => decide (ticks < e.2)) (a, ticks) (deadlines v c l) := by
  induction l generalizing ticks c with
  | nil => simp [insertCount, locate, insertBefore]
  | cons p ps ih =>
      by_cases hlt : ticks < c
      · have hloc : locate v (p :: ps) ticks c = ([], p :: ps, ticks, some c) := by
          rw [locate, if_pos hlt]
        have hnew := h.new c (by rw [hloc])
        have htail := h.tail
        rw [hloc] at hnew htail
        have hc : ticks + (c - ticks) = c := by omega
        rw [insertCount, hloc, if_pos rfl, List.nil_append, deadlines_cons, hnew, hc,
          deadlines_congr_of_mem htail, deadlines_cons, insertBefore,
          if_pos (decide_eq_true hlt)]
      · obtain ⟨h', hp⟩ := h.of_cons hlt
        have hloc : locate v (p :: ps) ticks c =
            (p :: (locate v ps (ticks - c) (v p)).1, (locate v ps (ticks - c) (v p)).2) := by
          rw [locate, if_neg hlt]
        have hmap := insertBefore_map (fun e : α × Nat => (e.1, e.2 + c))
          (fun e => decide (ticks < e.2)) (a, ticks - c) (deadlines v (v p) ps)
        have htest : (fun e : α × Nat => decide (ticks < e.2 + c)) =
            fun e => decide (ticks - c < e.2) := by
          funext e
          rw [decide_eq_decide]
          omega
        have hticks : ticks - c + c = ticks := by omega
        simp only [hticks, htest] at hmap
        rw [insertCount, hloc, if_neg (List.cons_ne_nil _ _), List.cons_append, deadlines_cons,
          hp, Nat.add_comm c, deadlines_shift, ih h', deadlines_cons, insertBefore,
          if_neg (by simpa using hlt), Nat.add_comm c, deadlines_shift, hmap]

/-- An insertion in front of another entry keeps the total. -/
theorem total_insert_of_some (h : Inserted v w l ticks c a)
    (hn : (locate v l ticks c).2.2.2 ≠ none) :
    insertCount v l ticks c + total w ((locate v l ticks c).1 ++ a :: (locate v l ticks c).2.1) =
      c + total v l := by
  induction l generalizing ticks c with
  | nil => simp [locate] at hn
  | cons p ps ih =>
      by_cases hlt : ticks < c
      · have hloc : locate v (p :: ps) ticks c = ([], p :: ps, ticks, some c) := by
          rw [locate, if_pos hlt]
        have hnew := h.new c (by rw [hloc])
        have htail := h.tail
        rw [hloc] at hnew htail
        rw [insertCount, hloc, if_pos rfl, List.nil_append, total_cons, hnew, total_congr htail]
        simp only
        omega
      · obtain ⟨h', hp⟩ := h.of_cons hlt
        have hloc : locate v (p :: ps) ticks c =
            (p :: (locate v ps (ticks - c) (v p)).1, (locate v ps (ticks - c) (v p)).2) := by
          rw [locate, if_neg hlt]
        have := ih h' (by rw [hloc] at hn; exact hn)
        rw [insertCount, hloc, if_neg (List.cons_ne_nil _ _), List.cons_append, total_cons, hp,
          total_cons]
        dsimp only
        omega

/-- After an insertion at the end the total is the new deadline and what follows it. -/
theorem total_insert_of_none (h : Inserted v w l ticks c a)
    (hn : (locate v l ticks c).2.2.2 = none) :
    insertCount v l ticks c + total w ((locate v l ticks c).1 ++ a :: (locate v l ticks c).2.1) =
      ticks + w a := by
  induction l generalizing ticks c with
  | nil => simp [insertCount, locate]
  | cons p ps ih =>
      by_cases hlt : ticks < c
      · rw [locate, if_pos hlt] at hn
        cases hn
      · obtain ⟨h', hp⟩ := h.of_cons hlt
        have hloc : locate v (p :: ps) ticks c =
            (p :: (locate v ps (ticks - c) (v p)).1, (locate v ps (ticks - c) (v p)).2) := by
          rw [locate, if_neg hlt]
        have := ih h' (by rw [hloc] at hn; exact hn)
        rw [insertCount, hloc, if_neg (List.cons_ne_nil _ _), List.cons_append, total_cons, hp]
        dsimp only
        omega

/-! ## Removal -/

theorem deadlines_filter_of_notMem [DecidableEq α] (h : a ∉ l) :
    (deadlines v c l).filter (fun e => decide (e.1 ≠ a)) = deadlines v c l := by
  refine List.filter_eq_self.2 fun e he => ?_
  rw [decide_eq_true_eq]
  rintro rfl
  exact h (fst_mem_of_mem_deadlines he)

/-- **The removal behind another entry**: the predecessor takes over the difference. -/
theorem deadlines_remove [DecidableEq α] (hne : l₁ ≠ []) (hnd : (l₁ ++ a :: l₂).Nodup)
    (hinit : ∀ p ∈ l₁.dropLast, w p = v p)
    (hlast : ∀ p, l₁.getLast? = some p → w p = v p + v a) (htail : ∀ p ∈ l₂, w p = v p) :
    deadlines w c (l₁ ++ l₂) =
      (deadlines v c (l₁ ++ a :: l₂)).filter fun e => decide (e.1 ≠ a) := by
  induction l₁ generalizing c with
  | nil => exact absurd rfl hne
  | cons p ps ih =>
      obtain ⟨hp, hps⟩ := List.nodup_cons.1 hnd
      have hpa : p ≠ a := by
        rintro rfl
        exact hp (by simp)
      rw [List.cons_append, List.cons_append, deadlines_cons, deadlines_cons,
        List.filter_cons_of_pos (by simpa using hpa)]
      cases ps with
      | nil =>
          have ha : a ∉ l₂ := (List.nodup_cons.1 hps).1
          rw [hlast p rfl, List.nil_append, List.nil_append, deadlines_cons,
            List.filter_cons_of_neg (by simp), deadlines_filter_of_notMem ha,
            deadlines_congr_of_mem htail, Nat.add_assoc]
      | cons b bs =>
          rw [hinit p (by simp), ih (List.cons_ne_nil _ _) hps
            (fun x hx => hinit x (by simpa using Or.inr hx))
            (fun x hx => hlast x (by simpa using hx))]

theorem total_remove (hne : l₁ ≠ []) (hinit : ∀ p ∈ l₁.dropLast, w p = v p)
    (hlast : ∀ p, l₁.getLast? = some p → w p = v p + v a) (htail : ∀ p ∈ l₂, w p = v p) :
    total w (l₁ ++ l₂) = total v (l₁ ++ a :: l₂) := by
  induction l₁ with
  | nil => exact absurd rfl hne
  | cons p ps ih =>
      rw [List.cons_append, List.cons_append, total_cons, total_cons]
      cases ps with
      | nil =>
          rw [hlast p rfl, List.nil_append, List.nil_append, total_cons, total_congr htail]
          omega
      | cons b bs =>
          rw [hinit p (by simp), ih (List.cons_ne_nil _ _)
            (fun x hx => hinit x (by simpa using Or.inr hx))
            (fun x hx => hlast x (by simpa using hx))]

/-! ## Expiry -/

/-- Split off the entries that are due when the head is due in `next`, and how long
from now the rest starts. -/
def popDue (v : α → Nat) : Nat → List α → List α × List α × Nat
  | next, [] => ([], [], next)
  | next, a :: l =>
      if next = 0 then
        let r := popDue v (v a) l
        (a :: r.1, r.2)
      else ([], a :: l, next)

theorem popDue_congr (h : ∀ a ∈ l, v a = w a) (c : Nat) : popDue v c l = popDue w c l := by
  induction l generalizing c with
  | nil => rfl
  | cons a l ih =>
      rw [popDue, popDue, h a (List.mem_cons_self ..),
        ih (fun x hx => h x (List.mem_cons_of_mem _ hx))]

theorem popDue_append (v : α → Nat) (c : Nat) (l : List α) :
    (popDue v c l).1 ++ (popDue v c l).2.1 = l := by
  induction l generalizing c with
  | nil => rfl
  | cons a l ih =>
      rw [popDue]
      split
      · rw [List.cons_append, ih]
      · rfl

theorem popDue_pos (h : (popDue v c l).2.1 ≠ []) : 0 < (popDue v c l).2.2 := by
  induction l generalizing c with
  | nil => exact absurd rfl h
  | cons a l ih =>
      rw [popDue] at h ⊢
      split at h
      · rename_i hc
        rw [if_pos hc]
        exact ih h
      · rename_i hc
        rw [if_neg hc]
        exact Nat.pos_of_ne_zero hc

/-- **The expiry**: what is split off is due now, and the rest keeps its deadlines. -/
theorem popDue_spec (v : α → Nat) (c : Nat) (l : List α) :
    deadlines v c l = (popDue v c l).1.map (fun a => (a, 0)) ++
      deadlines v (popDue v c l).2.2 (popDue v c l).2.1 := by
  induction l generalizing c with
  | nil => rfl
  | cons a l ih =>
      rw [popDue]
      split
      · rename_i hc
        rw [deadlines_cons, hc, Nat.zero_add, ih (v a)]
        rfl
      · rfl

theorem total_popDue (v : α → Nat) (c : Nat) (l : List α) :
    (popDue v c l).2.2 + total v (popDue v c l).2.1 = c + total v l := by
  induction l generalizing c with
  | nil => rfl
  | cons a l ih =>
      rw [popDue]
      split
      · rename_i hc
        rw [ih, hc, total_cons, Nat.zero_add]
      · rfl

end DeltaQueue
