import Chopstx.Library.InsertBefore

/-!
# Priority queues and the order of arrival

A family of queues is sorted by non-increasing priority, and entries of the same priority
stand in the order in which they have arrived.  To say so, every entry gets a number when
it is put into a queue: one above all numbers so far, or one below them all where it is
pushed to the front of its equals.  An entry whose priority has changed arrives anew.

* `Before` - one entry has its place before another: a greater priority, or the same one and a
  lower number; `Queues.Ordered` says that a queue stands in this order.
* `Arrives` and `Arrivals.Next` - an entry is put into a queue or to a new place in it, and the
  numbers that the entries get by it.
* `Arrivals.exists_next` - there always are such numbers.
* `stay`, `keep`, `behind`, `behinds`, `front` - the order is kept by what can happen to a queue:
  entries leave it, one or several are put behind their equals, or one in front of them.
-/

namespace PrioQueue

variable {ι α : Type*}

/-- `x` has its place before `y`: it has the greater priority, or has arrived earlier. -/
def Before (prio : α → Nat) (num : α → Int) (x y : α) : Prop :=
  prio y < prio x ∨ prio x = prio y ∧ num x < num y

section

variable {prio : α → Nat} {num : α → Int} {n : α} {l xs : List α}

theorem Before.prio_le {x y : α} (h : Before prio num x y) : prio y ≤ prio x := by
  rcases h with h | h
  · exact h.le
  · exact h.1.ge

/-- An entry with a greater number than all others goes behind its equals. -/
theorem pairwise_behind (h : l.Pairwise (Before prio num)) (hn : ∀ x ∈ l, num x < num n) :
    (insertBefore (fun p => decide (prio p < prio n)) n l).Pairwise (Before prio num) := by
  induction l with
  | nil => simp [insertBefore]
  | cons p ps ih =>
      rw [List.pairwise_cons] at h
      rw [insertBefore]
      split
      · rename_i hlt
        rw [decide_eq_true_eq] at hlt
        refine List.pairwise_cons.2 ⟨?_, List.pairwise_cons.2 h⟩
        intro b hb
        rcases List.mem_cons.1 hb with rfl | hb
        · exact .inl hlt
        · exact .inl ((h.1 b hb).prio_le.trans_lt hlt)
      · rename_i hge
        rw [decide_eq_true_eq, not_lt] at hge
        refine List.pairwise_cons.2 ⟨?_, ih h.2 fun x hx => hn x (List.mem_cons_of_mem _ hx)⟩
        intro b hb
        rcases mem_insertBefore.1 hb with rfl | hb
        · rcases hge.lt_or_eq with hlt | heq
          · exact .inl hlt
          · exact .inr ⟨heq.symm, hn p (List.mem_cons_self ..)⟩
        · exact h.1 b hb

/-- An entry with a smaller number than all others goes in front of its equals. -/
theorem pairwise_front (h : l.Pairwise (Before prio num)) (hn : ∀ x ∈ l, num n < num x) :
    (insertBefore (fun p => decide (prio p ≤ prio n)) n l).Pairwise (Before prio num) := by
  induction l with
  | nil => simp [insertBefore]
  | cons p ps ih =>
      rw [List.pairwise_cons] at h
      rw [insertBefore]
      split
      · rename_i hle
        rw [decide_eq_true_eq] at hle
        refine List.pairwise_cons.2 ⟨?_, List.pairwise_cons.2 h⟩
        intro b hb
        have hb' : prio b ≤ prio n := by
          rcases List.mem_cons.1 hb with rfl | hb
          · exact hle
          · exact (h.1 b hb).prio_le.trans hle
        rcases hb'.lt_or_eq with hlt | heq
        · exact .inl hlt
        · exact .inr ⟨heq.symm, hn b hb⟩
      · rename_i hgt
        rw [decide_eq_true_eq, not_le] at hgt
        refine List.pairwise_cons.2 ⟨?_, ih h.2 fun x hx => hn x (List.mem_cons_of_mem _ hx)⟩
        intro b hb
        rcases mem_insertBefore.1 hb with rfl | hb
        · exact .inl hgt
        · exact h.1 b hb

/-- Put entries behind their equals, one after another. -/
def behinds (prio : α → Nat) (l xs : List α) : List α :=
  xs.foldl (fun l n => insertBefore (fun p => decide (prio p < prio n)) n l) l

theorem mem_behinds {x : α} : x ∈ behinds prio l xs ↔ x ∈ l ∨ x ∈ xs := by
  induction xs generalizing l with
  | nil => simp [behinds]
  | cons n xs ih =>
      have h := ih (l := insertBefore (fun p => decide (prio p < prio n)) n l)
      rw [mem_insertBefore] at h
      rw [behinds, List.foldl_cons, ← behinds, h, List.mem_cons]
      tauto

theorem pairwise_behinds (h : l.Pairwise (Before prio num))
    (hn : ∀ x ∈ l, ∀ n ∈ xs, num x < num n) (hxs : xs.Pairwise fun x y => num x < num y) :
    (behinds prio l xs).Pairwise (Before prio num) := by
  induction xs generalizing l with
  | nil => exact h
  | cons n xs ih =>
      rw [List.pairwise_cons] at hxs
      rw [behinds, List.foldl_cons]
      refine ih (pairwise_behind h fun x hx => hn x hx n (List.mem_cons_self ..)) ?_ hxs.2
      intro x hx m hm
      rcases mem_insertBefore.1 hx with rfl | hx
      · exact hxs.1 m hm
      · exact hn x hx m (List.mem_cons_of_mem _ hm)

end

/-! ## Queues and numbers -/

/-- A family of queues, and the priorities of the entries. -/
structure Queues (ι α : Type*) where
  list : ι → List α
  prio : α → Nat

/-- The numbers of the entries of each queue; all numbers so far are between `-now` and
`now`. -/
structure Arrivals (ι α : Type*) where
  now : Nat
  num : ι → α → Int

/-- The entry is put into the queue, or to a new place in it. -/
def Arrives (Q Q' : Queues ι α) (i : ι) (x : α) : Prop :=
  x ∈ Q'.list i ∧ (x ∈ Q.list i → Q'.prio x ≠ Q.prio x)

/-- The numbers that the entries get in a step from `Q` to `Q'`.  `pushed` are the entries
that go to the front, and entries that arrive in one step do so in the order of the list
`from_`. -/
structure Arrivals.Next (Q Q' : Queues ι α) (pushed : α → Prop) (from_ : List α)
    (A B : Arrivals ι α) : Prop where
  now : A.now ≤ B.now
  stays : ∀ i x, ¬ Arrives Q Q' i x → B.num i x = A.num i x
  behind : ∀ i x, Arrives Q Q' i x → ¬ pushed x → A.now ≤ B.num i x ∧ B.num i x < B.now
  front : ∀ i x, Arrives Q Q' i x → pushed x → -(B.now : Int) < B.num i x ∧ B.num i x ≤ -A.now
  order : ∀ i x y, Arrives Q Q' i x → Arrives Q Q' i y → ¬ pushed x → ¬ pushed y →
    [x, y].Sublist from_ → B.num i x < B.num i y

/-- A queue is sorted by priority and arrival. -/
structure Queues.Ordered (Q : Queues ι α) (A : Arrivals ι α) (i : ι) : Prop where
  sorted : (Q.list i).Pairwise (Before Q.prio (A.num i))
  bound : ∀ x ∈ Q.list i, -(A.now : Int) < A.num i x ∧ A.num i x < A.now

section

variable {Q Q' : Queues ι α} {A B : Arrivals ι α} {i : ι} {pushed : α → Prop} {from_ l xs : List α}
  {n : α}

/-- There are such numbers. -/
theorem Arrivals.exists_next [DecidableEq α] (Q Q' : Queues ι α) (pushed : α → Prop)
    (hnd : from_.Nodup) (A : Arrivals ι α) : ∃ B, A.Next Q Q' pushed from_ B := by
  classical
  refine ⟨⟨A.now + from_.length + 1, fun i x =>
    if Arrives Q Q' i x then if pushed x then -A.now else A.now + from_.idxOf x
    else A.num i x⟩, ?_, ?_, ?_, ?_, ?_⟩
  · dsimp only
    omega
  · intro i x hx
    simp only [if_neg hx]
  · intro i x hx hp
    have hle : from_.idxOf x ≤ from_.length := List.idxOf_le_length
    simp only [if_pos hx, if_neg hp]
    omega
  · intro i x hx hp
    simp only [if_pos hx, if_pos hp]
    omega
  · intro i x y hx hy hpx hpy hxy
    simp only [if_pos hx, if_pos hy, if_neg hpx, if_neg hpy]
    have hlt : from_.idxOf x < from_.idxOf y := by
      induction from_ with
      | nil => cases hxy
      | cons a as ih =>
          rw [List.nodup_cons] at hnd
          cases hxy with
          | cons _ hsub =>
              have hmx : x ∈ as := hsub.subset (by simp)
              have hmy : y ∈ as := hsub.subset (by simp)
              have hax : a ≠ x := by
                rintro rfl
                exact hnd.1 hmx
              have hay : a ≠ y := by
                rintro rfl
                exact hnd.1 hmy
              rw [List.idxOf_cons_ne _ hax, List.idxOf_cons_ne _ hay]
              exact Nat.succ_lt_succ (ih hnd.2 hsub)
          | cons_cons _ hsub =>
              have hmy : y ∈ as := hsub.subset (by simp)
              have hay : x ≠ y := by
                rintro rfl
                exact hnd.1 hmy
              rw [List.idxOf_cons_self, List.idxOf_cons_ne _ hay]
              exact Nat.succ_pos _
    omega

namespace Queues.Ordered

variable (h : Q.Ordered A i) (hAB : A.Next Q Q' pushed from_ B)

include h hAB

/-- The entries that stay keep their numbers. -/
theorem stay (hl : l.Sublist (Q.list i)) (hp : ∀ x ∈ l, Q'.prio x = Q.prio x) :
    l.Pairwise (Before Q'.prio (B.num i)) ∧
      ∀ x ∈ l, -(A.now : Int) < B.num i x ∧ B.num i x < A.now := by
  have hnum : ∀ x ∈ l, B.num i x = A.num i x := fun x hx =>
    hAB.stays i x fun ha => ha.2 (hl.subset hx) (hp x hx)
  refine ⟨?_, fun x hx => ?_⟩
  · refine (h.sorted.sublist hl).imp_of_mem fun {x y} hx hy hxy => ?_
    rw [Before, hnum x hx, hnum y hy, hp x hx, hp y hy]
    exact hxy
  · rw [hnum x hx]
    exact h.bound x (hl.subset hx)

/-- Entries leave the queue. -/
theorem keep (hl : (Q'.list i).Sublist (Q.list i))
    (hp : ∀ x ∈ Q'.list i, Q'.prio x = Q.prio x) : Q'.Ordered B i := by
  obtain ⟨hs, hb⟩ := h.stay hAB hl hp
  refine ⟨hs, fun x hx => ?_⟩
  have hx := hb x hx
  have hnow := hAB.now
  omega

/-- Entries arrive, one after another, and others may leave the queue. -/
theorem behinds (hl : l.Sublist (Q.list i)) (hp : ∀ x ∈ l, Q'.prio x = Q.prio x)
    (hQ : Q'.list i = PrioQueue.behinds Q'.prio l xs)
    (hfresh : ∀ x ∈ xs, x ∈ Q.list i → Q'.prio x ≠ Q.prio x) (hno : ∀ x ∈ xs, ¬ pushed x)
    (hxs : xs.Sublist from_ ∨ ∃ n, xs = [n]) : Q'.Ordered B i := by
  obtain ⟨hs, hb⟩ := h.stay hAB hl hp
  have harr : ∀ x ∈ xs, Arrives Q Q' i x := fun x hx =>
    ⟨hQ ▸ mem_behinds.2 (.inr hx), hfresh x hx⟩
  have hnow := hAB.now
  refine ⟨?_, ?_⟩
  · rw [hQ]
    refine pairwise_behinds hs (fun x hx n hn => ?_) ?_
    · exact (hb x hx).2.trans_le (hAB.behind i n (harr n hn) (hno n hn)).1
    · rcases hxs with hsub | ⟨n, rfl⟩
      · have hself : xs.Pairwise fun x y => [x, y].Sublist xs := List.pairwise_iff_forall_sublist.2
          fun hxy => hxy
        refine hself.imp_of_mem fun {x y} hx hy hxy => ?_
        exact hAB.order i x y (harr x hx) (harr y hy) (hno x hx) (hno y hy) (hxy.trans hsub)
      · exact List.pairwise_singleton ..
  · intro x hx
    rw [hQ] at hx
    rcases mem_behinds.1 hx with hx | hx
    · have hx := hb x hx
      omega
    · have hx := hAB.behind i x (harr x hx) (hno x hx)
      omega

/-- An entry arrives, and others may leave the queue. -/
theorem behind (hl : l.Sublist (Q.list i)) (hp : ∀ x ∈ l, Q'.prio x = Q.prio x)
    (hQ : Q'.list i = insertBefore (fun p => decide (Q'.prio p < Q'.prio n)) n l)
    (hfresh : n ∈ Q.list i → Q'.prio n ≠ Q.prio n) (hno : ¬ pushed n) : Q'.Ordered B i := by
  have hQ' : Q'.list i = PrioQueue.behinds Q'.prio l [n] := hQ
  refine h.behinds hAB hl hp hQ' (fun x hx => ?_) (fun x hx => ?_) (.inr ⟨n, rfl⟩)
  · exact (List.mem_singleton.1 hx) ▸ hfresh
  · exact (List.mem_singleton.1 hx) ▸ hno

/-- An entry is pushed to the front of its equals. -/
theorem front (hl : l.Sublist (Q.list i)) (hp : ∀ x ∈ l, Q'.prio x = Q.prio x)
    (hQ : Q'.list i = insertBefore (fun p => decide (Q'.prio p ≤ Q'.prio n)) n l)
    (hfresh : n ∈ Q.list i → Q'.prio n ≠ Q.prio n) (hpush : pushed n) : Q'.Ordered B i := by
  obtain ⟨hs, hb⟩ := h.stay hAB hl hp
  have harr : Arrives Q Q' i n := ⟨hQ ▸ mem_insertBefore.2 (.inl rfl), hfresh⟩
  have hn := hAB.front i n harr hpush
  have hnow := hAB.now
  refine ⟨?_, ?_⟩
  · rw [hQ]
    exact pairwise_front hs fun x hx => hn.2.trans_lt (hb x hx).1
  · intro x hx
    rw [hQ] at hx
    rcases mem_insertBefore.1 hx with rfl | hx
    · omega
    · have hx := hb x hx
      omega

end Queues.Ordered

end

end PrioQueue
