import Mathlib.Data.Finset.Card
import Mathlib.Tactic

/-!
# Boards of sources that report an event once

Sources are registered on a board one after another, and taken off it in the same order.  While
a source is linked, an event may reach it at any time: it is linked no longer, it is reported
ready, and the counter of the board goes up.  A source that is ready when it is registered is
reported at once.  Whoever owns the board looks at the counter to learn whether anything has
happened.

* `Board` - which of the sources are linked, which are reported ready, and the counter.
* `Ok` - the sources from lo on and below hi are on the board: each is linked or reported, and
  the counter is 0 just when nothing is reported (`Ok.pos_iff`, `Ok.quiet`).
* `Finds` - the next source was found ready, and is going to be reported (`Finds.report`).
* `Ok.link`, `Ok.finds`, `Ok.off` - a source is registered, found ready, and taken off the board.
* `Ok.fires`, `Finds.fires` - events keep all that, whichever linked sources they reach.
-/

namespace EventBoard

/-- The sources are numbered in the order of their registration. -/
structure Board where
  linked : Nat → Prop
  ready : Nat → Bool
  counter : Nat

namespace Board

variable {b b' : Board} {F : Finset Nat} {lo hi i j : Nat}

/-- The sources below `hi` that are reported ready. -/
def reports (b : Board) (hi : Nat) : Finset Nat :=
  (Finset.range hi).filter fun j => b.ready j = true

@[simp] theorem mem_reports : j ∈ b.reports hi ↔ j < hi ∧ b.ready j = true := by
  simp [reports]

/-- The sources from `lo` on and below `hi` are registered, and those below `lo` have been: a
source is linked or reported, and the counter is 0 just when nothing is reported. -/
structure Ok (b : Board) (lo hi : Nat) : Prop where
  linked : ∀ j, b.linked j → lo ≤ j ∧ j < hi ∧ b.ready j = false
  reported : ∀ j, lo ≤ j → j < hi → ¬ b.linked j → b.ready j = true
  le : b.counter ≤ (b.reports hi).card
  pos : (b.reports hi).Nonempty → 0 < b.counter

/-- The source `hi` was found ready, and is going to be reported. -/
structure Finds (b : Board) (hi : Nat) : Prop where
  linked : ∀ j, b.linked j → j < hi ∧ b.ready j = false
  reported : ∀ j, j < hi → ¬ b.linked j → b.ready j = true
  le : b.counter ≤ (b.reports hi).card + 1
  pos : 0 < b.counter

/-- Events have reached the sources in `F`, which were linked. -/
structure Fires (F : Finset Nat) (b b' : Board) : Prop where
  linked : ∀ j ∈ F, b.linked j
  rest : ∀ j, b'.linked j ↔ b.linked j ∧ j ∉ F
  ready : ∀ j, b'.ready j = (b.ready j || decide (j ∈ F))
  counter : b'.counter = b.counter + F.card

theorem ok_empty (hl : ∀ j, ¬ b.linked j) (hc : b.counter = 0) : b.Ok 0 0 :=
  ⟨fun j hj => absurd hj (hl j), fun _ _ hj => absurd hj (Nat.not_lt_zero _), by simp [hc],
    by simp [reports]⟩

/-- The counter is positive just when something is reported. -/
theorem Ok.pos_iff (h : b.Ok lo hi) : 0 < b.counter ↔ ∃ j < hi, b.ready j = true := by
  constructor
  · intro hc
    obtain ⟨j, hj⟩ := Finset.card_pos.1 (hc.trans_le h.le)
    exact ⟨j, (mem_reports.1 hj).1, (mem_reports.1 hj).2⟩
  · rintro ⟨j, hj, hr⟩
    exact h.pos ⟨j, mem_reports.2 ⟨hj, hr⟩⟩

/-! ## Events -/

/-- The sources that events have reached are reported, besides the others. -/
theorem Fires.reports (hf : Fires F b b') (hF : ∀ j ∈ F, j < hi) :
    b'.reports hi = b.reports hi ∪ F := by
  ext j
  rw [mem_reports, hf.ready, Finset.mem_union, mem_reports, Bool.or_eq_true, decide_eq_true_eq]
  refine ⟨fun ⟨hj, h⟩ => h.imp (fun h => ⟨hj, h⟩) id, ?_⟩
  rintro (⟨hj, h⟩ | h)
  · exact ⟨hj, .inl h⟩
  · exact ⟨hF j h, .inr h⟩

theorem Fires.card (hf : Fires F b b') (hl : ∀ j, b.linked j → j < hi ∧ b.ready j = false) :
    (b'.reports hi).card = (b.reports hi).card + F.card := by
  rw [hf.reports fun j hj => (hl j (hf.linked j hj)).1]
  refine Finset.card_union_of_disjoint (Finset.disjoint_left.2 fun j hj hjF => ?_)
  have hready := (mem_reports.1 hj).2
  rw [(hl j (hf.linked j hjF)).2] at hready
  cases hready

theorem Fires.ready_of_linked (hf : Fires F b b') (hl : ∀ j, b.linked j → b.ready j = false)
    (hj : b'.linked j) : b'.ready j = false := by
  obtain ⟨hjb, hjF⟩ := (hf.rest j).1 hj
  simp [hf.ready, hl j hjb, hjF]

theorem Fires.reported (hf : Fires F b b') (h : ¬ b.linked j → b.ready j = true)
    (hj : ¬ b'.linked j) : b'.ready j = true := by
  rw [hf.ready, Bool.or_eq_true, decide_eq_true_eq]
  by_cases hjb : b.linked j
  · exact .inr (not_not.1 fun hjF => hj ((hf.rest j).2 ⟨hjb, hjF⟩))
  · exact .inl (h hjb)

/-- **Events keep the board in order.** -/
theorem Ok.fires (h : b.Ok lo hi) (hf : Fires F b b') : b'.Ok lo hi := by
  have hcard : (b'.reports hi).card = (b.reports hi).card + F.card :=
    hf.card fun j hj => (h.linked j hj).2
  refine ⟨fun j hj => ?_, fun j hlo hj => hf.reported (h.reported j hlo hj), ?_, fun hne => ?_⟩
  · have hjb := ((hf.rest j).1 hj).1
    exact ⟨(h.linked j hjb).1, (h.linked j hjb).2.1,
      hf.ready_of_linked (fun i hi => (h.linked i hi).2.2) hj⟩
  · rw [hf.counter, hcard]
    exact Nat.add_le_add_right h.le _
  · rw [hf.counter]
    rcases F.eq_empty_or_nonempty with rfl | hF
    · rw [hf.reports (by simp), Finset.union_empty] at hne
      exact Nat.add_pos_left (h.pos hne) _
    · exact Nat.add_pos_right _ (Finset.card_pos.2 hF)

theorem Finds.fires (h : b.Finds hi) (hf : Fires F b b') : b'.Finds hi := by
  refine ⟨fun j hj => ?_, fun j hj => hf.reported (h.reported j hj), ?_, ?_⟩
  · have hjb := ((hf.rest j).1 hj).1
    exact ⟨(h.linked j hjb).1, hf.ready_of_linked (fun i hi => (h.linked i hi).2) hj⟩
  · rw [hf.counter, hf.card h.linked, Nat.add_right_comm]
    exact Nat.add_le_add_right h.le _
  · rw [hf.counter]
    exact Nat.add_pos_left h.pos _

/-- An event does not reach a source that is not linked. -/
theorem Fires.ready_eq (hf : Fires F b b') (hj : ¬ b.linked j) : b'.ready j = b.ready j := by
  have hjF : j ∉ F := fun h => hj (hf.linked j h)
  simp [hf.ready, hjF]

/-! ## Registration -/

/-- The reports below `hi + 1`, if those below `hi` are as before. -/
theorem reports_succ (hr : ∀ j < hi, b'.ready j = b.ready j) :
    b'.reports (hi + 1) =
      if b'.ready hi = true then insert hi (b.reports hi) else b.reports hi := by
  ext j
  have hlt : j < hi + 1 ↔ j = hi ∨ j < hi := by omega
  rw [mem_reports, hlt]
  by_cases hj : j = hi
  · subst hj
    split
    · rename_i h
      simp [h]
    · rename_i h
      simp [h]
  · have hins : j ∈ insert hi (b.reports hi) ↔ j ∈ b.reports hi := by simp [hj]
    have hmem : (j = hi ∨ j < hi) ∧ b'.ready j = true ↔ j ∈ b.reports hi := by
      rw [mem_reports]
      constructor
      · rintro ⟨h | h, hjr⟩
        · exact absurd h hj
        · exact ⟨h, hr j h ▸ hjr⟩
      · rintro ⟨h, hjr⟩
        exact ⟨.inr h, (hr j h).symm ▸ hjr⟩
    split
    · rw [hmem, hins]
    · exact hmem

theorem card_reports_succ (hr : ∀ j < hi, b'.ready j = b.ready j) (hh : b'.ready hi = true) :
    (b'.reports (hi + 1)).card = (b.reports hi).card + 1 := by
  rw [reports_succ hr, if_pos hh]
  exact Finset.card_insert_of_notMem (by simp)

/-- The next source is linked. -/
theorem Ok.link (h : b.Ok 0 hi) (hl : ∀ j, b'.linked j ↔ b.linked j ∨ j = hi)
    (hr : ∀ j < hi, b'.ready j = b.ready j) (hh : b'.ready hi = false)
    (hc : b'.counter = b.counter) : b'.Ok 0 (hi + 1) := by
  have hrep : b'.reports (hi + 1) = b.reports hi := by rw [reports_succ hr, if_neg (by simp [hh])]
  refine ⟨fun j hj => ⟨Nat.zero_le _, ?_⟩, fun j _ hj hn => ?_, ?_, ?_⟩
  · rcases (hl j).1 hj with hj | rfl
    · obtain ⟨-, hlt, hready⟩ := h.linked j hj
      exact ⟨hlt.trans (Nat.lt_succ_self _), (hr j hlt).trans hready⟩
    · exact ⟨Nat.lt_succ_self _, hh⟩
  · have hne : ¬ (b.linked j ∨ j = hi) := fun h => hn ((hl j).2 h)
    have hlt : j < hi := by omega
    rw [hr j hlt]
    exact h.reported j (Nat.zero_le _) hlt fun hj => hne (.inl hj)
  · rw [hc, hrep]
    exact h.le
  · rw [hc, hrep]
    exact h.pos

/-- The counter went up for the next source. -/
theorem Ok.finds (h : b.Ok 0 hi) (hl : b'.linked = b.linked) (hr : b'.ready = b.ready) {n : Nat}
    (hn : n ≤ b.counter) (hc : b'.counter = n + 1) : b'.Finds hi := by
  refine ⟨fun j hj => ?_, fun j hj hn => ?_, ?_, by omega⟩
  · rw [hl] at hj
    rw [hr]
    exact (h.linked j hj).2
  · rw [hl] at hn
    rw [hr]
    exact h.reported j (Nat.zero_le _) hj hn
  · have hrep : b'.reports hi = b.reports hi := by rw [reports, hr, reports]
    have := h.le
    rw [hrep]
    omega

/-- The next source is reported. -/
theorem Finds.report (h : b.Finds hi) (hl : b'.linked = b.linked)
    (hr : ∀ j < hi, b'.ready j = b.ready j) (hh : b'.ready hi = true)
    (hc : b'.counter = b.counter) : b'.Ok 0 (hi + 1) := by
  refine ⟨fun j hj => ⟨Nat.zero_le _, ?_⟩, fun j _ hj hn => ?_, ?_, fun _ => hc ▸ h.pos⟩
  · rw [hl] at hj
    obtain ⟨hlt, hready⟩ := h.linked j hj
    exact ⟨hlt.trans (Nat.lt_succ_self _), (hr j hlt).trans hready⟩
  · rw [hl] at hn
    rcases Nat.lt_succ_iff_lt_or_eq.1 hj with hlt | rfl
    · rw [hr j hlt]
      exact h.reported j hlt hn
    · exact hh
  · rw [hc, card_reports_succ hr hh]
    exact h.le

/-- What is ready above the registered sources does not matter. -/
theorem Ok.congr (h : b.Ok lo hi) (hl : ∀ j, b'.linked j ↔ b.linked j)
    (hr : ∀ j < hi, b'.ready j = b.ready j) (hc : b'.counter = b.counter) : b'.Ok lo hi := by
  have hrep : b'.reports hi = b.reports hi := by
    ext j
    simp only [mem_reports]
    exact and_congr_right fun hj => by rw [hr j hj]
  refine ⟨fun j hj => ?_, fun j hlo hj hn => ?_, by rw [hc, hrep]; exact h.le,
    by rw [hc, hrep]; exact h.pos⟩
  · obtain ⟨hlo, hlt, hready⟩ := h.linked j ((hl j).1 hj)
    exact ⟨hlo, hlt, (hr j hlt).trans hready⟩
  · rw [hr j hj]
    exact h.reported j hlo hj fun hjb => hn ((hl j).2 hjb)

/-! ## Removal -/

/-- The first source is taken off the board, if it is linked. -/
theorem Ok.off (h : b.Ok lo hi) (hl : ∀ j, b'.linked j ↔ b.linked j ∧ j ≠ lo)
    (hr : b'.ready = b.ready) (hc : b'.counter = b.counter) : b'.Ok (lo + 1) hi := by
  have hrep : b'.reports hi = b.reports hi := by rw [reports, hr, reports]
  refine ⟨fun j hj => ?_, fun j hj hlt hn => ?_, by rw [hc, hrep]; exact h.le,
    by rw [hc, hrep]; exact h.pos⟩
  · obtain ⟨hjb, hne⟩ := (hl j).1 hj
    obtain ⟨hle, hlt, hready⟩ := h.linked j hjb
    exact ⟨by omega, hlt, hr ▸ hready⟩
  · rw [hr]
    refine h.reported j (by omega) hlt fun hjb => hn ((hl j).2 ⟨hjb, by omega⟩)

end Board

end EventBoard
