import Mathlib.Algebra.BigOperators.Group.Finset.Piecewise
import Mathlib.Algebra.Order.BigOperators.Group.Finset
import Mathlib.Tactic

/-!
# Weights of a finite family

Each member of a family has a state, and each state a weight.  When one member changes its
state, the sum of the weights changes by the weights of the two states.

* `total_update` - one member changes.
* `le_total`, `total_eq_zero_iff` - the weight of a member is at most the sum, and the sum is 0
  where all weights are.
-/

open scoped BigOperators

namespace Weight

variable {ι σ : Type*} [Fintype ι] {w : σ → Nat} {f : ι → σ} {i : ι} {x : σ}

/-- The weight of a family. -/
def total (w : σ → Nat) (f : ι → σ) : Nat := ∑ j, w (f j)

/-- **One member changes.** -/
theorem total_update [DecidableEq ι] :
    total w (Function.update f i x) + w (f i) = total w f + w x := by
  have hcomp : (fun j => w (Function.update f i x j)) = Function.update (w ∘ f) i (w x) :=
    funext fun j => congrFun (Function.comp_update w f i x) j
  have hsplit := Finset.add_sum_erase Finset.univ (w ∘ f) (Finset.mem_univ i)
  rw [total, total, hcomp, Finset.sum_update_of_mem (Finset.mem_univ i),
    Finset.sdiff_singleton_eq_erase]
  simp only [Function.comp_apply] at hsplit ⊢
  omega

/-- A member has no more than the whole. -/
theorem le_total (i : ι) : w (f i) ≤ total w f :=
  Finset.single_le_sum (f := fun j => w (f j)) (fun _ _ => Nat.zero_le _) (Finset.mem_univ i)

theorem total_eq_zero_iff : total w f = 0 ↔ ∀ i, w (f i) = 0 := by
  rw [total, Finset.sum_eq_zero_iff]
  exact ⟨fun h i => h i (Finset.mem_univ i), fun h i _ => h i⟩

end Weight
