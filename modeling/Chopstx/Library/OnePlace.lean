import Mathlib.Tactic

/-!
# A place for one value

Values are put into a place and taken out of it.  The traffic alternates when each value that
is put there is taken out once, and that before the next one is put there.

* `Alternates` - the traffic alternates, and leaves this in the place.
* `Alternates.puts_eq` - what has been put there is what has been taken out, and what is left.
* `Alternates.of_put`, `Alternates.of_take`, `Alternates.of_append` - the traffic before the last
  event, and before the last ones.
* `Alternates.unique` - the traffic says what is left.
-/

namespace OnePlace

/-- A value is put there, or taken out. -/
inductive Traffic (α : Type*) where
  | put (x : α)
  | take (x : α)
  deriving DecidableEq, Repr

/-- The traffic alternates, and leaves this in the place. -/
inductive Alternates {α : Type*} : List (Traffic α) → Option α → Prop
  | empty : Alternates [] none
  | put {l : List (Traffic α)} (x : α) : Alternates l none → Alternates (l ++ [.put x]) (some x)
  | take {l : List (Traffic α)} {x : α} : Alternates l (some x) → Alternates (l ++ [.take x]) none

section

variable {α : Type*} {l l' : List (Traffic α)} {q q' : Option α} {x : α}

/-- The values that are put there, and those that are taken out -/
def puts (l : List (Traffic α)) : List α :=
  l.filterMap fun t => match t with
    | .put x => some x
    | .take _ => none

def takes (l : List (Traffic α)) : List α :=
  l.filterMap fun t => match t with
    | .put _ => none
    | .take x => some x

/-- What is taken out is what has been put there, in this order, up to what is left. -/
theorem Alternates.puts_eq (h : Alternates l q) : puts l = takes l ++ q.toList := by
  induction h with
  | empty => rfl
  | put x _ ih =>
      simp only [puts, takes, List.filterMap_append] at ih ⊢
      rw [ih]
      simp
  | take _ ih =>
      simp only [puts, takes, List.filterMap_append] at ih ⊢
      rw [ih]
      simp

/-- A value is put into an empty place only. -/
theorem Alternates.of_put (h : Alternates (l ++ [.put x]) q) : Alternates l none ∧ q = some x := by
  generalize hl : l ++ [Traffic.put x] = l' at h
  cases h with
  | empty => simp at hl
  | put y h =>
      obtain ⟨rfl, hxy⟩ := List.append_inj' hl rfl
      obtain rfl : x = y := by simpa using hxy
      exact ⟨h, rfl⟩
  | take h =>
      have hxy := (List.append_inj' hl rfl).2
      simp at hxy

/-- What is taken out was there. -/
theorem Alternates.of_take (h : Alternates (l ++ [.take x]) q) :
    Alternates l (some x) ∧ q = none := by
  generalize hl : l ++ [Traffic.take x] = l' at h
  cases h with
  | empty => simp at hl
  | put y h =>
      have hxy := (List.append_inj' hl rfl).2
      simp at hxy
  | @take _ y h =>
      obtain ⟨rfl, hxy⟩ := List.append_inj' hl rfl
      obtain rfl : x = y := by simpa using hxy
      exact ⟨h, rfl⟩

/-- The traffic says what is left. -/
theorem Alternates.unique (h : Alternates l q) (h' : Alternates l q') : q = q' := by
  cases h with
  | empty =>
      generalize hl : ([] : List (Traffic α)) = l' at h'
      cases h' with
      | empty => rfl
      | put => simp at hl
      | take => simp at hl
  | put x h => exact h'.of_put.2.symm
  | take h => exact h'.of_take.2.symm

/-- The traffic alternated from the beginning. -/
theorem Alternates.of_append (h : Alternates (l ++ l') q) : ∃ q', Alternates l q' := by
  induction l' using List.reverseRecOn generalizing q with
  | nil => exact ⟨q, by simpa using h⟩
  | append_singleton l' t ih =>
      rw [← List.append_assoc] at h
      cases t with
      | put x => exact ih h.of_put.1
      | take x => exact ih h.of_take.1

end

end OnePlace
