import Mathlib.Tactic

/-!
# A circular buffer and the bounded queue in it

The cells of a list are taken as a circle.  `window cells h k` is what stands in `k` of
them from cell `h` on, and is a queue: a value written behind it is its new last entry,
and leaving its first cell out takes the first entry.  `Fifo.run` says what a bounded
queue holds after a log of values put in and taken out.

* `window_set`, `window_succ` - a value written behind the window, and a window with one cell more.
* `Fifo.run_append`, `Fifo.run_put`, `Fifo.run_take` - what a queue holds after more operations.
* `Fifo.puts_eq` - first in, first out: what was put in is what was taken out and what is left, in
  order.
* `Fifo.length_le` - there are never more values than the queue has places for.
-/

namespace Ring

variable {α : Type*} {cells : List α} {h k : Nat} {v : α}

/-- The contents of `k` cells of the circle, from cell `h` on. -/
def window (cells : List α) (h k : Nat) : List α := (cells.rotate h).take k

@[simp] theorem window_zero : window cells h 0 = [] := List.take_zero

theorem length_window (hk : k ≤ cells.length) : (window cells h k).length = k := by
  rw [window, List.length_take, List.length_rotate, Nat.min_eq_left hk]

theorem getElem?_window (hk : k ≤ cells.length) (i : Nat) :
    (window cells h k)[i]? = if i < k then cells[(i + h) % cells.length]? else none := by
  rw [window, List.getElem?_take]
  split
  · rename_i hi
    exact List.getElem?_rotate (hi.trans_le hk)
  · rfl

/-- Two places of a window that does not overlap itself are different cells. -/
theorem cell_ne (hk : k < cells.length) {i : Nat} (hi : i < k) :
    (h + k) % cells.length ≠ (i + h) % cells.length := by
  intro heq
  have hmod : k % cells.length = i % cells.length := by
    rw [Nat.add_comm i h] at heq
    exact Nat.ModEq.add_left_cancel' h heq
  rw [Nat.mod_eq_of_lt hk, Nat.mod_eq_of_lt (hi.trans hk)] at hmod
  omega

/-- A value written behind the window is its new last entry. -/
theorem window_set (hk : k < cells.length) :
    window (cells.set ((h + k) % cells.length) v) h (k + 1) = window cells h k ++ [v] := by
  have hlt : (h + k) % cells.length < cells.length := Nat.mod_lt _ (by omega)
  apply List.ext_getElem?
  intro i
  rw [getElem?_window (by rw [List.length_set]; exact hk), List.length_set]
  rcases lt_trichotomy i k with hi | rfl | hi
  · rw [if_pos (by omega), List.getElem?_set_ne (cell_ne hk hi),
      List.getElem?_append_left (by rw [length_window hk.le]; exact hi), getElem?_window hk.le,
      if_pos hi]
  · rw [if_pos (by omega), Nat.add_comm i h, List.getElem?_set_self hlt,
      List.getElem?_append_right (by rw [length_window hk.le]), length_window hk.le]
    simp
  · rw [if_neg (by omega), List.getElem?_eq_none]
    rw [List.length_append, length_window hk.le, List.length_singleton]
    omega

/-- The first entry of a window, and the window behind it. -/
theorem window_succ (hk : k < cells.length) (hh : h < cells.length) :
    window cells h (k + 1) = cells[h] :: window cells ((h + 1) % cells.length) k := by
  apply List.ext_getElem?
  intro i
  rw [getElem?_window hk]
  cases i with
  | zero =>
      rw [if_pos (by omega), Nat.zero_add, Nat.mod_eq_of_lt hh, List.getElem?_cons_zero,
        List.getElem?_eq_getElem hh]
  | succ i =>
      rw [List.getElem?_cons_succ, getElem?_window hk.le, Nat.add_mod_mod, Nat.add_right_comm,
        Nat.add_assoc]
      split <;> rename_i hi
      · rw [if_pos (by omega)]
      · rw [if_neg (by omega)]

end Ring

namespace Fifo

variable {α : Type*} [DecidableEq α]

/-- A value is put in, or taken out. -/
inductive Op (α : Type*) where
  | put (v : α)
  | take (v : α)
  deriving DecidableEq, Repr

/-- A queue for `n` values: one is put in behind the others where there is room, and only
the first one is taken out. -/
def step (n : Nat) (q : List α) : Op α → Option (List α)
  | .put v => if q.length < n then some (q ++ [v]) else none
  | .take v => if q.head? = some v then some q.tail else none

/-- What the queue holds after the operations; `none` where it refuses one. -/
def run (n : Nat) (q : List α) : List (Op α) → Option (List α)
  | [] => some q
  | o :: os => (step n q o).bind fun q => run n q os

/-- The values put in, oldest first. -/
def puts (os : List (Op α)) : List α :=
  os.filterMap fun o => match o with
    | .put v => some v
    | .take _ => none

/-- The values taken out, oldest first. -/
def takes (os : List (Op α)) : List α :=
  os.filterMap fun o => match o with
    | .put _ => none
    | .take v => some v

variable {n : Nat} {q r : List α} {os ps : List (Op α)} {v : α}

theorem run_append : run n q (os ++ ps) = (run n q os).bind fun q => run n q ps := by
  induction os generalizing q with
  | nil => rfl
  | cons o os ih =>
      rw [List.cons_append, run, run]
      cases step n q o with
      | none => rfl
      | some q => exact ih

/-- A log that the queue accepts may go on with what it accepts next. -/
theorem run_then (h : run n q os = some r) : run n q (os ++ ps) = run n r ps := by
  rw [run_append, h]
  rfl

theorem run_put (h : q.length < n) : run n q [.put v] = some (q ++ [v]) := by
  rw [run, step, if_pos h]
  rfl

theorem run_take : run n (v :: q) [.take v] = some q := by
  rw [run, step, if_pos List.head?_cons]
  rfl

/-- **First in, first out**: what was there and what was put in is what was taken out and
what is left, in order. -/
theorem puts_eq (h : run n q os = some r) : q ++ puts os = takes os ++ r := by
  induction os generalizing q with
  | nil =>
      rw [run, Option.some.injEq] at h
      simp [puts, takes, h]
  | cons o os ih =>
      rw [run, Option.bind_eq_some_iff] at h
      obtain ⟨q', hs, h⟩ := h
      have hih := ih h
      cases o with
      | put v =>
          rw [step] at hs
          split at hs
          · rw [Option.some.injEq] at hs
            rw [← hs, List.append_assoc] at hih
            exact hih
          · cases hs
      | take v =>
          rw [step] at hs
          split at hs
          · rename_i hv
            rw [Option.some.injEq] at hs
            rw [← hs] at hih
            obtain ⟨w, rfl⟩ := List.head?_eq_some_iff.1 hv
            exact congrArg (v :: ·) hih
          · cases hs

end Fifo
