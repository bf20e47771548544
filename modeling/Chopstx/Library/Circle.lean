import Mathlib.Data.List.Chain
import Mathlib.Logic.Function.Basic
import Mathlib.Tactic

/-!
# Circular lists with links in both directions

Each node has a link to the next one and to the previous one, and the last node is linked to
the first.  `Circle` says that the links make a circle of the nodes of a list; a node is put
in behind the last one, or taken out, by the four or two assignments to its neighbours.  A
loop that goes round in one of the directions finds what `List.find?` does.

* `Links.insert`, `Links.remove` - the assignments, and `Circle.insert`, `Circle.remove` what they
  do to the list of the nodes.
* `Links.findNext`, `Links.findPrev` - the loops, with the number of rounds that they may take.
* `findNext_eq`, `findPrev_eq` - with more rounds than there are nodes, they find the first node
  with the property from a node on, and the last one of a chain.
-/

/-- The links between the nodes. -/
structure Links (α : Type*) where
  next : α → α
  prev : α → α

namespace Links

variable {α : Type*}

/-- The node `b` follows the node `a`. -/
def Adj (L : Links α) (a b : α) : Prop := L.next a = b ∧ L.prev b = a

/-- The nodes of the list, in their order, are a circle. -/
def Circle (L : Links α) : List α → Prop
  | [] => True
  | a :: l => (a :: l).Nodup ∧ (a :: l ++ [a]).IsChain L.Adj

section

variable [DecidableEq α] (L : Links α) (x a : α)

/-- A node is put in front of another one. -/
def insert : Links α :=
  let L₁ : Links α := { L with next := Function.update L.next x a }
  let L₂ : Links α := { L₁ with prev := Function.update L₁.prev x (L₁.prev a) }
  let L₃ : Links α := { L₂ with next := Function.update L₂.next (L₂.prev a) x }
  { L₃ with prev := Function.update L₃.prev a x }

/-- A node is taken out. -/
def remove : Links α :=
  let L₁ : Links α := { L with prev := Function.update L.prev (L.next x) (L.prev x) }
  { L₁ with next := Function.update L₁.next (L₁.prev x) (L₁.next x) }

/-- The loop that goes forward to a node with a property, for at most `n` nodes; it ends before
it comes back to the node `a`. -/
def findNext (p : α → Bool) : Nat → α → Option (Option α)
  | 0, _ => none
  | n + 1, u =>
      if p u then some (some u)
      else if L.next u = a then some none
      else findNext p n (L.next u)

/-- The loop that goes back to a node with a property, for at most `n` nodes; it ends with the
node `e`. -/
def findPrev (e : Option α) (p : α → Bool) : Nat → α → Option (Option α)
  | 0, _ => none
  | n + 1, u =>
      if p u then some (some u)
      else if e = some u then some none
      else findPrev e p n (L.prev u)

/-- The nodes from one on, at most `n` of them, up to the one before the node `a`. -/
def nodes : Nat → α → List α
  | 0, _ => []
  | n + 1, u => u :: if L.next u = a then [] else nodes n (L.next u)

end

/-! ## Chains -/

variable {L L' : Links α} {a b x : α} {l p q : List α}

/-- A chain depends on the links between its nodes only. -/
theorem isChain_congr (hn : ∀ u ∈ l.dropLast, L'.next u = L.next u)
    (hp : ∀ u ∈ l.tail, L'.prev u = L.prev u) (h : l.IsChain L.Adj) : l.IsChain L'.Adj := by
  induction l with
  | nil => exact .nil
  | cons a l ih =>
      cases l with
      | nil => exact .singleton a
      | cons b l =>
          obtain ⟨hab, hl⟩ := List.isChain_cons_cons.mp h
          have hadj : L'.Adj a b :=
            ⟨(hn a (by simp)).trans hab.1, (hp b (by simp)).trans hab.2⟩
          refine List.isChain_cons_cons.mpr ⟨hadj, ih (fun u hu => ?_) (fun u hu => ?_) hl⟩
          · exact hn u (by simp [hu])
          · exact hp u (by simpa using .inr hu)

/-- A chain whose last node is followed by its first one is a circle. -/
theorem Circle.close {z : α} (hd : (a :: l).Nodup) (hl : (a :: l).IsChain L.Adj)
    (hz : (a :: l).getLast? = some z) (ha : L.Adj z a) : L.Circle (a :: l) := by
  refine ⟨hd, List.isChain_append.mpr ⟨hl, .singleton a, ?_⟩⟩
  intro u hu v hv
  rw [hz, Option.mem_some_iff] at hu
  rw [List.head?_cons, Option.mem_some_iff] at hv
  rw [← hu, ← hv]
  exact ha

/-- The last node of a circle is followed by the first one. -/
theorem Circle.adj_last {z : α} (h : L.Circle (a :: l)) (hz : (a :: l).getLast? = some z) :
    L.Adj z a :=
  (List.isChain_append.mp h.2).2.2 z hz a rfl

theorem Circle.chain (h : L.Circle (a :: l)) : (a :: l).IsChain L.Adj :=
  (List.isChain_append.mp h.2).1

theorem Circle.nodup (h : L.Circle l) : l.Nodup := by
  cases l with
  | nil => exact .nil
  | cons a l => exact h.1

/-- A circle may begin at any of its nodes. -/
theorem Circle.rotate (h : L.Circle (p ++ q)) : L.Circle (q ++ p) := by
  cases q with
  | nil => simpa using h
  | cons b q =>
      cases p with
      | nil => simpa using h
      | cons a p =>
          obtain ⟨hd, hc⟩ := h
          refine ⟨?_, ?_⟩
          · have hperm : (a :: p ++ b :: q).Perm (b :: q ++ a :: p) := List.perm_append_comm
            exact hperm.nodup_iff.mp hd
          · have h₁ : ((a :: p) ++ b :: (q ++ [a])).IsChain L.Adj := by simpa using hc
            rw [List.isChain_split] at h₁
            have h₂ : ((b :: q) ++ a :: (p ++ [b])).IsChain L.Adj := by
              rw [List.isChain_split]
              exact ⟨by simpa using h₁.2, by simpa using h₁.1⟩
            simpa using h₂

/-! ## The operations -/

/-- One node is a circle when it is linked to itself. -/
theorem Circle.single (hn : L.next a = a) (hp : L.prev a = a) : L.Circle [a] :=
  ⟨List.nodup_singleton a, List.isChain_pair.mpr ⟨hn, hp⟩⟩

section

variable [DecidableEq α]

theorem insert_next_of_ne {u : α} (hxa : a ≠ x) (hx : u ≠ x) (hz : u ≠ L.prev a) :
    (L.insert x a).next u = L.next u := by
  simp [insert, hx, hz, hxa]

theorem insert_prev_of_ne {u : α} (hx : u ≠ x) (ha : u ≠ a) :
    (L.insert x a).prev u = L.prev u := by
  simp [insert, hx, ha]

/-- **A node put in front of the first one** is the new first one. -/
theorem Circle.insert (h : L.Circle (a :: l)) (hx : x ∉ a :: l) :
    (L.insert x a).Circle (x :: a :: l) := by
  obtain ⟨z, hz⟩ : ∃ z, (a :: l).getLast? = some z := ⟨_, List.getLast?_cons⟩
  have hadj := h.adj_last hz
  have hxa : a ≠ x := by
    rintro rfl
    exact hx (List.mem_cons_self ..)
  have hzmem : z ∈ a :: l := List.mem_of_getLast? hz
  have hxz : x ≠ z := fun he => hx (he ▸ hzmem)
  have hlast : ∀ u ∈ (a :: l).dropLast, u ≠ z := by
    intro u hu he
    subst he
    obtain ⟨m, hm⟩ := List.getLast?_eq_some_iff.mp hz
    rw [hm, List.dropLast_concat] at hu
    have hd := h.1
    rw [hm, List.nodup_append] at hd
    exact hd.2.2 u hu u (List.mem_singleton_self u) rfl
  refine .close (z := z) (List.nodup_cons.mpr ⟨hx, h.1⟩)
    (List.isChain_cons_cons.mpr ⟨⟨?_, ?_⟩, isChain_congr ?_ ?_ h.chain⟩) ?_ ⟨?_, ?_⟩
  · simp [Links.insert, hxa, hadj.2, hxz]
  · simp [Links.insert]
  · intro u hu
    refine insert_next_of_ne hxa ?_ ?_
    · rintro rfl
      exact hx (List.mem_of_mem_dropLast hu)
    · rw [hadj.2]
      exact hlast u hu
  · intro u hu
    refine insert_prev_of_ne ?_ ?_
    · rintro rfl
      exact hx (List.mem_cons_of_mem _ hu)
    · rintro rfl
      exact (List.nodup_cons.mp h.1).1 hu
  · rw [List.getLast?_cons_cons]
    exact hz
  · simp [Links.insert, hxa, hadj.2]
  · simp [Links.insert, hxa.symm, hadj.2]

/-- The first node taken out. -/
theorem Circle.remove_head (h : L.Circle (x :: l)) : (L.remove x).Circle l := by
  cases l with
  | nil => trivial
  | cons b l =>
      obtain ⟨z, hz⟩ : ∃ z, (b :: l).getLast? = some z := ⟨_, List.getLast?_cons⟩
      have hadj : L.Adj z x := h.adj_last (by rwa [List.getLast?_cons_cons])
      obtain ⟨hxb, hbl⟩ := List.isChain_cons_cons.mp h.chain
      obtain ⟨hx, hd⟩ := List.nodup_cons.mp h.1
      have hxb' : x ≠ b := by
        rintro rfl
        exact hx (List.mem_cons_self ..)
      refine .close hd (isChain_congr ?_ ?_ hbl) hz ⟨?_, ?_⟩
      · intro u hu
        have hne : u ≠ z := by
          rintro rfl
          obtain ⟨m, hm⟩ := List.getLast?_eq_some_iff.mp hz
          rw [hm, List.dropLast_concat] at hu
          rw [hm, List.nodup_append] at hd
          exact hd.2.2 u hu u (List.mem_singleton_self u) rfl
        simp [remove, hxb.1, hxb', hadj.2, hne]
      · intro u hu
        have hne : u ≠ b := by
          rintro rfl
          exact (List.nodup_cons.mp hd).1 hu
        simp [remove, hxb.1, hne]
      · simp [remove, hxb.1, hxb', hadj.2]
      · simp [remove, hxb.1, hadj.2]

/-- **A node taken out.** -/
theorem Circle.remove (h : L.Circle (p ++ x :: q)) : (L.remove x).Circle (p ++ q) := by
  have hr : L.Circle (x :: (q ++ p)) := h.rotate
  exact hr.remove_head.rotate

/-! ## The loops -/

/-- **The loop forward** from a node finds the first node with the property from there on. -/
theorem findNext_eq {f : α → Bool} {n : Nat} {u : α} (hn : q.length < n) (ha : a ∉ q)
    (h : (u :: q ++ [a]).IsChain L.Adj) : L.findNext a f n u = some ((u :: q).find? f) := by
  induction q generalizing u n with
  | nil =>
      obtain ⟨m, rfl⟩ : ∃ m, n = m + 1 := ⟨n - 1, by omega⟩
      have hu : L.next u = a := (List.isChain_pair.mp h).1
      by_cases hf : f u = true
      · rw [findNext, if_pos hf, List.find?_cons_of_pos hf]
      · rw [findNext, if_neg hf, if_pos hu, List.find?_cons_of_neg hf, List.find?_nil]
  | cons v q ih =>
      obtain ⟨m, rfl⟩ : ∃ m, n = m + 1 := ⟨n - 1, by omega⟩
      obtain ⟨huv, hq⟩ := List.isChain_cons_cons.mp h
      have hva : v ≠ a := by
        rintro rfl
        exact ha (List.mem_cons_self ..)
      have hlen : q.length < m := by simpa using hn
      by_cases hf : f u = true
      · rw [findNext, if_pos hf, List.find?_cons_of_pos hf]
      · rw [findNext, if_neg hf, huv.1, if_neg hva, List.find?_cons_of_neg hf]
        exact ih hlen (fun hm => ha (List.mem_cons_of_mem _ hm)) hq

theorem nodes_eq {n : Nat} {u : α} (hn : q.length < n) (ha : a ∉ q)
    (h : (u :: q ++ [a]).IsChain L.Adj) : L.nodes a n u = u :: q := by
  induction q generalizing u n with
  | nil =>
      obtain ⟨m, rfl⟩ : ∃ m, n = m + 1 := ⟨n - 1, by omega⟩
      have hu : L.next u = a := (List.isChain_pair.mp h).1
      rw [nodes, if_pos hu]
  | cons v q ih =>
      obtain ⟨m, rfl⟩ : ∃ m, n = m + 1 := ⟨n - 1, by omega⟩
      obtain ⟨huv, hq⟩ := List.isChain_cons_cons.mp h
      have hva : v ≠ a := by
        rintro rfl
        exact ha (List.mem_cons_self ..)
      have hlen : q.length < m := by simpa using hn
      rw [nodes, huv.1, if_neg hva, ih hlen (fun hm => ha (List.mem_cons_of_mem _ hm)) hq]

/-- **The loop back** from the last node of a chain finds the last one with the property. -/
theorem findPrev_eq {f : α → Bool} {n : Nat} {u : α} (hn : q.length < n)
    (hd : (a :: q).Nodup) (h : (a :: q).IsChain L.Adj) (hu : (a :: q).getLast? = some u) :
    L.findPrev (some a) f n u = some ((a :: q).reverse.find? f) := by
  induction q using List.reverseRecOn generalizing u n with
  | nil =>
      obtain ⟨m, rfl⟩ : ∃ m, n = m + 1 := ⟨n - 1, by omega⟩
      have hua : u = a := (Option.some.inj hu).symm
      rw [List.reverse_singleton, hua]
      by_cases hf : f a = true
      · rw [findPrev, if_pos hf, List.find?_cons_of_pos hf]
      · rw [findPrev, if_neg hf, if_pos rfl, List.find?_cons_of_neg hf, List.find?_nil]
  | append_singleton q v ih =>
      obtain ⟨m, rfl⟩ : ∃ m, n = m + 1 := ⟨n - 1, by omega⟩
      have hv : (a :: (q ++ [v])).getLast? = some v := by
        rw [← List.cons_append, List.getLast?_concat]
      rw [hv, Option.some.injEq] at hu
      subst hu
      obtain ⟨w, hw⟩ : ∃ w, (a :: q).getLast? = some w := ⟨_, List.getLast?_cons⟩
      rw [← List.cons_append] at hd h
      have hadj : L.Adj w v := (List.isChain_append.mp h).2.2 w hw v rfl
      obtain ⟨hd', -, hne⟩ := List.nodup_append.mp hd
      have hva : some a ≠ some v := fun he =>
        hne a (List.mem_cons_self ..) v (List.mem_singleton_self v) (Option.some.inj he)
      have hlen : q.length < m := by
        rw [List.length_append, List.length_singleton] at hn
        omega
      rw [← List.cons_append, List.reverse_concat]
      by_cases hf : f v = true
      · rw [findPrev, if_pos hf, List.find?_cons_of_pos hf]
      · rw [findPrev, if_neg hf, if_neg hva, hadj.2, List.find?_cons_of_neg hf]
        exact ih hlen hd' (List.isChain_append.mp h).1 hw

end

end Links
