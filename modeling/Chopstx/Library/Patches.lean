import Mathlib.Tactic

/-!
# Writes to a memory as partial maps

A patch gives new contents to some cells of a memory.  The patches of a list may be applied
in any order if and only if any two of them agree on the cells that both give contents to.

* `Patch.apply`, `applyAll` - a memory with new contents, and with those of a list of patches.
* `Patch.Agree` - two patches give the same contents where both give some.
* `Patch.Agree.apply_comm` - patches that agree may be exchanged.
* `applyAll_perm_iff` - the patches of a list may be applied in any order, on every memory, if and
  only if any two of them agree.
-/

/-- New contents for some cells. -/
abbrev Patch (α β : Type*) := α → Option β

namespace Patch

variable {α β : Type*} {m : α → β} {w v : Patch α β} {ws vs : List (Patch α β)}

/-- The memory `m` with the new contents. -/
def apply (m : α → β) (w : Patch α β) : α → β := fun a => (w a).getD (m a)

/-- Two patches give the same contents where they both give some. -/
def Agree (w v : Patch α β) : Prop := ∀ a x y, w a = some x → v a = some y → x = y

theorem apply_some {a : α} {x : β} (h : w a = some x) : apply m w a = x := by
  rw [apply, h, Option.getD_some]

theorem apply_none {a : α} (h : w a = none) : apply m w a = m a := by
  rw [apply, h, Option.getD_none]

theorem Agree.symm (h : Agree w v) : Agree v w := fun a x y hx hy => (h a y x hy hx).symm

theorem Agree.refl (w : Patch α β) : Agree w w := fun _ _ _ hx hy =>
  Option.some.inj (hx.symm.trans hy)

instance : Std.Symm (Agree : Patch α β → Patch α β → Prop) := ⟨fun _ _ => Agree.symm⟩

/-- Patches that agree commute. -/
theorem Agree.apply_comm (h : Agree w v) (m : α → β) :
    apply (apply m w) v = apply (apply m v) w := by
  funext a
  simp only [apply]
  cases hw : w a with
  | none => simp only [Option.getD_none]
  | some x =>
      cases hv : v a with
      | none => simp only [Option.getD_none]
      | some y => simp only [Option.getD_some, h a x y hw hv]

/-- The patches one after another -/
def applyAll (m : α → β) (ws : List (Patch α β)) : α → β := ws.foldl apply m

@[simp] theorem applyAll_nil : applyAll m ([] : List (Patch α β)) = m := rfl

@[simp] theorem applyAll_cons : applyAll m (w :: ws) = applyAll (apply m w) ws := rfl

theorem applyAll_append : applyAll m (ws ++ vs) = applyAll (applyAll m ws) vs :=
  List.foldl_append

/-- The last patch wins. -/
theorem applyAll_last {a : α} {x : β} (h : w a = some x) : applyAll m (ws ++ [w]) a = x := by
  rw [applyAll_append]
  exact apply_some h

section

variable {γ : Type*} {f : γ → Patch α β} {cs : List γ}

theorem applyAll_perm {ds : List γ} (h : cs.Pairwise fun c d => Agree (f c) (f d))
    (hp : ds.Perm cs) : applyAll m (ds.map f) = applyAll m (cs.map f) := by
  refine ((hp.map f).symm.foldl_eq' ?_ m).symm
  intro x hx y hy z
  have hag : (cs.map f).Pairwise Agree := List.pairwise_map.2 h
  exact (hag.forall_of_forall (fun w _ => Agree.refl w) hx hy).apply_comm z

/-- Patches that may be applied in any order agree. -/
theorem pairwise_agree_of_perm (h : ∀ ds : List γ, ds.Perm cs →
    applyAll m (ds.map f) = applyAll m (cs.map f)) :
    cs.Pairwise fun c d => Agree (f c) (f d) := by
  induction cs generalizing m with
  | nil => exact .nil
  | cons c cs ih =>
      refine List.pairwise_cons.2 ⟨?_, ih fun ds hp => h (c :: ds) (hp.cons c)⟩
      intro d hd a x y hx hy
      obtain ⟨l₁, l₂, rfl⟩ := List.append_of_mem hd
      -- once `d` is the last one, and once `c`
      have hlast := h ((c :: l₁ ++ l₂) ++ [d]) <| by
        simp only [List.cons_append, List.append_assoc]
        exact ((List.perm_append_singleton d l₂).append_left l₁).cons c
      have hfirst := h ((l₁ ++ d :: l₂) ++ [c]) (List.perm_append_singleton c (l₁ ++ d :: l₂))
      rw [List.map_append] at hlast hfirst
      have hy' := congrFun hlast a
      have hx' := congrFun hfirst a
      rw [List.map_singleton, applyAll_last hy] at hy'
      rw [List.map_singleton, applyAll_last hx] at hx'
      rw [hx', hy']

/-- **When the order does not matter**: patches may be applied in any order if and only if any
two of them agree. -/
theorem applyAll_perm_iff : (∀ ds : List γ, ds.Perm cs →
    applyAll m (ds.map f) = applyAll m (cs.map f)) ↔
      cs.Pairwise fun c d => Agree (f c) (f d) :=
  ⟨pairwise_agree_of_perm, fun h _ hp => applyAll_perm h hp⟩

end

end Patch
