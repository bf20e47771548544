import Mathlib.Tactic

/-!
# A list cut into packets

`Cut k bs ps` says that the packets `ps` are the list `bs` in order, cut into packets of
length `k`, except for a last one that may be shorter.  There is one such cut only, and
it is found from the front or put together at the end.

* `Cut.single`, `Cut.cons` - a list that is one packet, and a packet of full length in front.
* `Cut.head`, `Cut.unique` - the first packet is what it has to be, and so are all the others.
* `Cut.full_of_concat`, `Cut.full_of_dvd` - which packets are of full length: all before the last
  one, and the last one too where `k` divides the length of the list.
* `Cut.exists_last` - where it does not, the last packet is shorter than the others.
-/

/-- The packets `ps` are `bs` in order, all of length `k` except for a last one of at
most `k`, and none is empty. -/
structure Cut {α : Type*} (k : Nat) (bs : List α) (ps : List (List α)) : Prop where
  flatten : ps.flatten = bs
  full : ∀ p ∈ ps.dropLast, p.length = k
  bound : ∀ p ∈ ps, p ≠ [] ∧ p.length ≤ k

namespace Cut

variable {α : Type*} {k : Nat} {bs cs : List α} {p : List α} {ps qs : List (List α)}

theorem nil : Cut k ([] : List α) [] :=
  ⟨rfl, by simp, by simp⟩

theorem eq_nil (h : Cut k ([] : List α) ps) : ps = [] := by
  cases ps with
  | nil => rfl
  | cons p ps =>
      have hp : p = [] := List.flatten_eq_nil_iff.1 h.flatten p (by simp)
      exact absurd hp (h.bound p (by simp)).1

/-- One packet. -/
theorem single (hp : p ≠ []) (hk : p.length ≤ k) : Cut k p [p] :=
  ⟨by simp, by simp, by simp [hp, hk]⟩

/-- A full packet in front. -/
theorem cons (hk : 0 < k) (hp : p.length = k) (h : Cut k bs ps) : Cut k (p ++ bs) (p :: ps) := by
  have hne : p ≠ [] := by
    rintro rfl
    rw [List.length_nil] at hp
    omega
  refine ⟨by simp [h.flatten], ?_, ?_⟩
  · intro q hq
    cases ps with
    | nil => simp at hq
    | cons r rs =>
        rw [List.dropLast_cons_cons, List.mem_cons] at hq
        rcases hq with rfl | hq
        · exact hp
        · exact h.full q hq
  · intro q hq
    rcases List.mem_cons.1 hq with rfl | hq
    · exact ⟨hne, hp.le⟩
    · exact h.bound q hq

/-- The first packet of a list is as long as it can be. -/
theorem head (h : Cut k bs (p :: ps)) : p = bs.take k ∧ Cut k (bs.drop k) ps := by
  have hfl : p ++ ps.flatten = bs := h.flatten
  have hb := h.bound p (by simp)
  cases ps with
  | nil =>
      rw [List.flatten_nil, List.append_nil] at hfl
      subst hfl
      rw [List.take_of_length_le hb.2, List.drop_of_length_le hb.2]
      exact ⟨rfl, nil⟩
  | cons q qs =>
      have hp : p.length = k := h.full p (by simp)
      subst hfl
      rw [List.take_left' hp, List.drop_left' hp]
      refine ⟨rfl, rfl, fun r hr => h.full r ?_, fun r hr => h.bound r (List.mem_cons_of_mem _ hr)⟩
      rw [List.dropLast_cons_cons]
      exact List.mem_cons_of_mem _ hr

/-- **There is one cut only.** -/
theorem unique (h : Cut k bs ps) (h' : Cut k bs qs) : ps = qs := by
  induction ps generalizing bs qs with
  | nil =>
      have hbs : bs = [] := h.flatten.symm
      subst hbs
      exact h'.eq_nil.symm
  | cons p ps ih =>
      cases qs with
      | nil =>
          have hbs : bs = [] := h'.flatten.symm
          subst hbs
          exact h.eq_nil
      | cons q qs =>
          obtain ⟨hp, hps⟩ := h.head
          obtain ⟨hq, hqs⟩ := h'.head
          rw [hp, hq, ih hps hqs]

/-! ## The last packet -/

theorem length_flatten_of_full (h : ∀ q ∈ qs, q.length = k) :
    qs.flatten.length = k * qs.length := by
  induction qs with
  | nil => simp
  | cons q qs ih =>
      have hq := h q (by simp)
      have hqs := ih fun r hr => h r (List.mem_cons_of_mem _ hr)
      rw [List.flatten_cons, List.length_append, hq, hqs, List.length_cons, Nat.mul_succ]
      omega

/-- The packets before the last one are full. -/
theorem full_of_concat (h : Cut k bs (qs ++ [p])) :
    (∀ q ∈ qs, q.length = k) ∧ bs.length = k * qs.length + p.length := by
  have hfull : ∀ q ∈ qs, q.length = k := by
    intro q hq
    apply h.full
    rwa [List.dropLast_concat]
  refine ⟨hfull, ?_⟩
  rw [← h.flatten, List.flatten_append, List.length_append, length_flatten_of_full hfull]
  simp

/-- A list whose length is a multiple of `k` is cut into full packets. -/
theorem full_of_dvd (h : Cut k bs ps) (hk : k ∣ bs.length) : ∀ q ∈ ps, q.length = k := by
  rcases List.eq_nil_or_concat ps with rfl | ⟨qs, p, rfl⟩
  · simp
  rw [List.concat_eq_append] at h ⊢
  obtain ⟨hfull, hlen⟩ := h.full_of_concat
  obtain ⟨hne, hle⟩ := h.bound p (by simp)
  have hp : k ∣ p.length := (Nat.dvd_add_right (Nat.dvd_mul_right k qs.length)).1 (hlen ▸ hk)
  intro q hq
  rcases List.mem_append.1 hq with hq | hq
  · exact hfull q hq
  · rw [List.mem_singleton.1 hq]
    exact Nat.le_antisymm hle (Nat.le_of_dvd (List.length_pos_of_ne_nil hne) hp)

/-- In any other list the last packet is shorter than the others. -/
theorem exists_last (h : Cut k bs ps) (hk : ¬ k ∣ bs.length) :
    ∃ qs p, ps = qs ++ [p] ∧ (∀ q ∈ qs, q.length = k) ∧ p.length < k := by
  rcases List.eq_nil_or_concat ps with rfl | ⟨qs, p, rfl⟩
  · refine absurd ?_ hk
    rw [← h.flatten]
    exact dvd_zero k
  rw [List.concat_eq_append] at h ⊢
  obtain ⟨hfull, hlen⟩ := h.full_of_concat
  refine ⟨qs, p, rfl, hfull, Nat.lt_of_le_of_ne (h.bound p (by simp)).2 ?_⟩
  rintro hp
  rw [hp, ← Nat.mul_succ] at hlen
  exact hk ⟨_, hlen⟩

end Cut
