import Mathlib.Logic.Relation
import Mathlib.Tactic

/-!
# Priorities that are handed on to whoever is waited for

Every agent has a priority of its own and a current priority, and waits for at most one
other agent.  An agent that starts to wait lends its priority to the one it waits for, and
so on along the chain.  What is asked of the current priorities is that nobody has more than
its own priority unless somebody who waits for it, directly or through others, has as much
(`Caused`).

Everything that happens is one of three things: some agents wait for another agent, or for
nobody any more (`redirect`); an agent that waits for nobody gets new priorities
(`assign`); a priority is handed on along a chain (`Lift`).

* `caused_free_iff` - an agent stops waiting, and all are still accounted for if and only if it
  can be spared (`Spares`): whoever has its priority from it has it from somebody else, too.
* `Caused.assign`, `Caused.redirect`, `Caused.release` - the condition when the others of these
  things happen.
* `Lift.caused`, `Lift.own` - a priority that is handed on along a chain is accounted for by the
  one who hands it on, and nobody gets less than its own.
* `Lent` - the stronger condition that the priority comes from one who waits directly, with
  `Lent.assign`, `Lent.redirect` and `Lift.lent`.
-/

namespace Donation

open Relation

variable {τ π : Type*} [DecidableEq τ] [LinearOrder π]

/-- Who waits for whom, and the priorities. -/
@[ext]
structure Donors (τ π : Type*) where
  waits : τ → Option τ
  prio : τ → π
  orig : τ → π

namespace Donors

variable {D D' : Donors τ π} {A : τ → Bool} {o c : Option τ} {t u x j : τ} {p po : π}

/-- The agent `u` waits for `t`. -/
def Blocked (D : Donors τ π) (u t : τ) : Prop := D.waits u = some t

/-- The agent has no more than its own priority, or somebody else accounts for it. -/
def Caused (D : Donors τ π) (t : τ) : Prop :=
  D.prio t ≤ D.orig t ∨ ∃ u, TransGen D.Blocked u t ∧ D.prio t ≤ D.prio u

/-! ## What happens -/

/-- The agents of `A` wait for `o` from now on. -/
@[simps]
def redirect (D : Donors τ π) (A : τ → Bool) (o : Option τ) : Donors τ π :=
  { D with waits := fun u => if A u then o else D.waits u }

/-- An agent gets a new priority, and a new one of its own. -/
@[simps]
def assign (D : Donors τ π) (t : τ) (p po : π) : Donors τ π :=
  { D with prio := Function.update D.prio t p, orig := Function.update D.orig t po }

/-- An agent gets a new priority. -/
@[simps]
def raise (D : Donors τ π) (t : τ) (p : π) : Donors τ π :=
  { D with prio := Function.update D.prio t p }

/-- An agent waits for nobody any more. -/
def free (D : Donors τ π) (j : τ) : Donors τ π := D.redirect (fun u => decide (u = j)) none

/-- An agent waits for another one. -/
def link (D : Donors τ π) (t x : τ) : Donors τ π := D.redirect (fun u => decide (u = t)) (some x)

/-- The priority `p` is handed on to an agent, to the one that this one waits for, and so
on up to the first that has it already. -/
inductive Lift (p : π) : Donors τ π → Option τ → Donors τ π → Prop
  | nobody {D : Donors τ π} : Lift p D none D
  | enough {D : Donors τ π} {t : τ} (h : p ≤ D.prio t) : Lift p D (some t) D
  | raise {D D' : Donors τ π} {t : τ} (h : D.prio t < p)
      (hl : Lift p (D.raise t p) (D.waits t) D') : Lift p D (some t) D'

/-! ## Agents that wait for nobody -/

omit [DecidableEq τ] [LinearOrder π] in
theorem not_transGen (h : D.waits t = none) : ¬ TransGen D.Blocked t x := by
  intro hc
  obtain ⟨y, hy, -⟩ := TransGen.head'_iff.1 hc
  rw [Blocked, h] at hy
  cases hy

/-- With a new priority of an agent that waits for nobody, the others stay accounted for. -/
theorem Caused.assign (h : D.Caused x) (ht : D.waits t = none) (hx : x ≠ t) :
    (D.assign t p po).Caused x := by
  rcases h with h | ⟨u, hu, hle⟩
  · refine .inl ?_
    simpa [hx] using h
  · have hut : u ≠ t := by
      rintro rfl
      exact not_transGen ht hu
    refine .inr ⟨u, hu, ?_⟩
    simpa [hx, hut] using hle

/-! ## Waiting for somebody else -/

omit [DecidableEq τ] in
/-- Agents that waited for nobody may wait for anybody. -/
theorem Caused.redirect (h : D.Caused x) (hA : ∀ u, A u = true → D.waits u = none) :
    (D.redirect A o).Caused x := by
  refine h.imp id ?_
  rintro ⟨u, hu, hle⟩
  refine ⟨u, TransGen.mono (fun a b hab => ?_) _ _ hu, hle⟩
  have hAa : A a = false := by
    by_contra hA'
    have := hA a (by simpa using hA')
    rw [Blocked, this] at hab
    cases hab
  rw [Blocked, redirect_waits, hAa]
  exact hab

omit [DecidableEq τ] [LinearOrder π] in
/-- If those who waited for `t`, which waits for nobody, do not wait any more, all chains to
others are as before. -/
theorem transGen_release (hA : ∀ u, A u = true → D.waits u = some t) (ht : D.waits t = none)
    (hx : x ≠ t) (hu : TransGen D.Blocked u x) : TransGen (D.redirect A none).Blocked u x := by
  -- a link to `t` is the end of its chain
  have hlink : ∀ a b, D.Blocked a b → b ≠ t → (D.redirect A none).Blocked a b := by
    intro a b hab hb
    rw [Blocked, redirect_waits]
    split
    · rename_i hAa
      rw [Blocked, hA a hAa] at hab
      exact absurd (Option.some.inj hab).symm hb
    · exact hab
  induction hu using TransGen.head_induction_on with
  | single hab => exact .single (hlink _ _ hab hx)
  | head hab hbc ih =>
      refine .head (hlink _ _ hab ?_) ih
      rintro rfl
      exact not_transGen ht hbc

omit [DecidableEq τ] in
theorem Caused.release (h : D.Caused x) (hA : ∀ u, A u = true → D.waits u = some t)
    (ht : D.waits t = none) (hx : x ≠ t) : (D.redirect A none).Caused x :=
  h.imp id fun ⟨u, hu, hle⟩ => ⟨u, transGen_release hA ht hx hu, hle⟩

/-! ## Somebody stops waiting -/

/-- Everybody that `j` waits for, directly or through others, is accounted for without `j`. -/
def Spares (D : Donors τ π) (j : τ) : Prop :=
  ∀ t, TransGen D.Blocked j t →
    D.prio t ≤ D.orig t ∨ ∃ u, TransGen (fun a b => a ≠ j ∧ D.Blocked a b) u t ∧ D.prio t ≤ D.prio u

/-- **One agent stops waiting**: all are still accounted for if and only if it can be spared. -/
theorem caused_free_iff (h : ∀ t, D.Caused t) :
    (∀ t, (D.free j).Caused t) ↔ D.Spares j := by
  have hB : (D.free j).Blocked = fun a b => a ≠ j ∧ D.Blocked a b := by
    funext a b
    rw [Blocked, free, redirect_waits]
    by_cases ha : a = j <;> simp [ha, Blocked]
  simp only [Caused, hB]
  refine ⟨fun hc t _ => hc t, fun hs t => ?_⟩
  by_cases hjt : TransGen D.Blocked j t
  · exact hs t hjt
  · refine (h t).imp id fun ⟨u, hu, hle⟩ => ⟨u, ?_, hle⟩
    -- no chain to `t` goes through `j`
    clear hle
    induction hu using TransGen.head_induction_on with
    | single hab =>
        refine .single ⟨?_, hab⟩
        rintro rfl
        exact hjt (.single hab)
    | head hab hbc ih =>
        refine .head ⟨?_, hab⟩ ih
        rintro rfl
        exact hjt (.head hab hbc)

omit [LinearOrder π] in
theorem free_eq (h : D.waits j = none) : D.free j = D := by
  refine Donors.ext ?_ rfl rfl
  funext u
  rw [free, redirect_waits]
  by_cases hu : u = j
  · simp [hu, h]
  · simp [hu]

/-! ## A priority is handed on -/

namespace Lift

/-- It makes no difference for whom those wait who have the priority already. -/
theorem redirect (h : Lift p D c D') (hA : ∀ u, A u = true → p ≤ D.prio u) :
    Lift p (D.redirect A o) c (D'.redirect A o) := by
  induction h with
  | nobody => exact .nobody
  | enough h => exact .enough h
  | @raise D D' t hlt hl ih =>
      refine .raise hlt ?_
      have hAt : A t = false := by
        by_contra hA'
        exact absurd (hA t (by simpa using hA')) (not_le.2 hlt)
      have hw : (D.redirect A o).waits t = D.waits t := by simp [hAt]
      rw [hw]
      refine ih fun u hu => ?_
      have hut : u ≠ t := by
        rintro rfl
        rw [hAt] at hu
        cases hu
      simpa [hut] using hA u hu

/-- Whoever gets the priority is accounted for by the agent that hands it on. -/
theorem caused (h : Lift p D c D') (hc : ∀ x, D.Caused x) (hp : p ≤ D.prio u)
    (hu : ∀ x, c = some x → TransGen D.Blocked u x) : ∀ x, D'.Caused x := by
  induction h with
  | nobody | enough => exact hc
  | @raise D D' t hlt hl ih =>
      have hut : u ≠ t := by
        rintro rfl
        exact absurd hp (not_le.2 hlt)
      have hchain := hu t rfl
      refine ih (fun x => ?_) (by simpa [hut] using hp) fun x hx => hchain.tail hx
      by_cases hx : x = t
      · subst hx
        refine .inr ⟨u, hchain, ?_⟩
        simpa [hut] using hp
      · refine (hc x).imp (fun h => by simpa [hx] using h) fun ⟨y, hy, hle⟩ => ⟨y, hy, ?_⟩
        have hmono : D.prio y ≤ (D.raise t p).prio y := by
          by_cases hyt : y = t
          · subst hyt
            simpa using hlt.le
          · simp [hyt]
        rw [raise_prio, Function.update_of_ne hx]
        exact hle.trans hmono

/-- Nobody falls below its own priority. -/
theorem own (h : Lift p D c D') (ho : ∀ t, D.orig t ≤ D.prio t) : ∀ t, D'.orig t ≤ D'.prio t := by
  induction h with
  | nobody | enough => exact ho
  | @raise D D' t hlt hl ih =>
      refine ih fun x => ?_
      by_cases hx : x = t
      · subst hx
        simpa using (ho x).trans hlt.le
      · simpa [hx] using ho x

end Lift

/-! ## Priorities lent by those who wait themselves -/

/-- The agent has no more than its own priority, or than that of one who waits for it. -/
def Lent (D : Donors τ π) (t : τ) : Prop :=
  D.prio t ≤ D.orig t ∨ ∃ u, D.waits u = some t ∧ D.prio t ≤ D.prio u

theorem Lent.assign (h : D.Lent x) (ht : D.waits t = none) (hx : x ≠ t) :
    (D.assign t p po).Lent x := by
  refine h.imp (fun h => by simpa [hx] using h) ?_
  rintro ⟨u, hu, hle⟩
  have hut : u ≠ t := by
    rintro rfl
    rw [ht] at hu
    cases hu
  exact ⟨u, hu, by simpa [hx, hut] using hle⟩

omit [DecidableEq τ] in
theorem Lent.redirect (h : D.Lent x) (hA : ∀ u, A u = true → D.waits u ≠ some x) :
    (D.redirect A o).Lent x := by
  refine h.imp id ?_
  rintro ⟨u, hu, hle⟩
  refine ⟨u, ?_, hle⟩
  rw [redirect_waits, if_neg fun hAu => hA u hAu hu]
  exact hu

/-- Whoever gets the priority is lent it by the one before it. -/
theorem Lift.lent (h : Lift p D c D') (hl : ∀ x, D.Lent x) (hp : p ≤ D.prio u)
    (hu : ∀ x, c = some x → D.waits u = some x) : ∀ x, D'.Lent x := by
  induction h generalizing u with
  | nobody | enough => exact hl
  | @raise D D' t hlt _ ih =>
      have hut : u ≠ t := by
        rintro rfl
        exact absurd hp (not_le.2 hlt)
      refine ih (fun x => ?_) (u := t) (by simp) fun x hx => hx
      by_cases hx : x = t
      · subst hx
        exact .inr ⟨u, hu x rfl, by simpa [hut] using hp⟩
      · refine (hl x).imp (fun h => by simpa [hx] using h) fun ⟨y, hy, hle⟩ => ⟨y, hy, ?_⟩
        rw [raise_prio, Function.update_of_ne hx]
        refine hle.trans ?_
        by_cases hyt : y = t
        · subst hyt
          simpa using hlt.le
        · simp [hyt]

end Donors

end Donation
