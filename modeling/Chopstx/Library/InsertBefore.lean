import Mathlib.Data.List.Nodup
import Mathlib.Tactic

/-!
# Insertion into a queue by a test

`insertBefore test n l` puts `n` in front of the first entry of `l` that passes
`test`, and at the end if none does.  With the test "has a smaller key" this is
the stable insertion of a priority queue.

* `insertBefore_perm`, `count_insertBefore` - nothing is lost and nothing else comes in.
* `insertBefore_map` - insertion goes together with a map that the test does not notice.
-/

namespace PrioQueue

variable {α : Type*}

/-- Put `n` in front of the first entry that passes the test. -/
def insertBefore (test : α → Bool) (n : α) : List α → List α
  | [] => [n]
  | p :: ps => if test p then n :: p :: ps else p :: insertBefore test n ps

theorem insertBefore_perm (test : α → Bool) (n : α) (l : List α) :
    (insertBefore test n l).Perm (n :: l) := by
  induction l with
  | nil => exact List.Perm.refl _
  | cons p ps ih =>
      rw [insertBefore]
      split
      · exact List.Perm.refl _
      · exact (ih.cons p).trans (List.Perm.swap n p ps)

@[simp] theorem mem_insertBefore {test : α → Bool} {n a : α} {l : List α} :
    a ∈ insertBefore test n l ↔ a = n ∨ a ∈ l := by
  rw [(insertBefore_perm test n l).mem_iff, List.mem_cons]

@[simp] theorem insertBefore_ne_nil {test : α → Bool} {n : α} {l : List α} :
    insertBefore test n l ≠ [] := by
  intro h
  have := (insertBefore_perm test n l).length_eq
  simp [h] at this

theorem count_insertBefore [BEq α] {test : α → Bool} {n a : α} {l : List α} :
    (insertBefore test n l).count a = (n :: l).count a :=
  (insertBefore_perm test n l).count_eq a

/-- Insertion by a test on the image commutes with a map. -/
theorem insertBefore_map {β : Type*} (f : α → β) (test : β → Bool) (n : α) (l : List α) :
    insertBefore test (f n) (l.map f) = (insertBefore (fun a => test (f a)) n l).map f := by
  induction l with
  | nil => rfl
  | cons p ps ih =>
      rw [List.map_cons, insertBefore, insertBefore, ih]
      split <;> rfl

end PrioQueue
