import Mathlib.Tactic

/-!
# Locks with an owner, and the list of the locks that an owner holds

A lock names its owner and the next lock in the list of its owner; an owner names the
first lock of its list.  A lock that is acquired becomes the first one, and a release
takes the first one off, whatever lock is released.  The history variable `held` lists
the locks that an owner has acquired and not yet released, the last one first.  As long
as locks are released in the reverse order of their acquisition, the two views agree.

* `Chain` - the list that starts with a lock; an assignment to a lock outside of it leaves it
  alone (`Chain.update`).
* `Owned` - the owner of a lock is the one that has it in its history.
* `Agree` - the list of every owner is its history.
* `Agree.acquire`, `Agree.release` - an acquisition keeps the two views equal, and so does a
  release, provided that the lock is the one acquired last.
-/

/-- The two views of who holds which lock. -/
@[ext]
structure Locks (T M : Type*) where
  owner : M → Option T
  next : M → Option M
  first : T → Option M
  held : T → List M

namespace Locks

variable {T M : Type*} {L : Locks T M} {t u : T} {m : M} {o o' : Option M} {l : List M}
  {next : M → Option M}

/-! ## Linked lists -/

/-- The list that starts with `o` and goes on as `next` says. -/
def Chain (next : M → Option M) : Option M → List M → Prop
  | o, [] => o = none
  | o, m :: l => o = some m ∧ Chain next (next m) l

theorem Chain.head (h : Chain next o l) : o = l.head? := by
  cases l with
  | nil => exact h
  | cons m l => exact h.1

/-! ## Agreement of the two views -/

/-- The owner of a lock is the one that holds it. -/
structure Owned (L : Locks T M) : Prop where
  owner : ∀ m t, L.owner m = some t ↔ m ∈ L.held t
  nodup : ∀ t, (L.held t).Nodup

/-- The lists are the locks held. -/
structure Agree (L : Locks T M) : Prop extends Owned L where
  chain : ∀ t, Chain L.next (L.first t) (L.held t)

theorem Owned.notMem (h : L.Owned) (ho : L.owner m = none) : m ∉ L.held t := fun hm => by
  rw [(h.owner m t).2 hm] at ho
  cases ho

theorem Owned.unique (h : L.Owned) (ht : m ∈ L.held t) (hu : m ∈ L.held u) : t = u := by
  have := ((h.owner m t).2 ht).symm.trans ((h.owner m u).2 hu)
  exact Option.some.inj this

/-! ## Acquisition and release -/

variable [DecidableEq T] [DecidableEq M]

/-- The lock becomes the first one in the list of the new owner. -/
def acquire (L : Locks T M) (t : T) (m : M) : Locks T M where
  owner := Function.update L.owner m (some t)
  next := Function.update L.next m (L.first t)
  first := Function.update L.first t (some m)
  held := Function.update L.held t (m :: L.held t)

/-- The list of the former owner goes on where the lock says. -/
def release (L : Locks T M) (t : T) (m : M) : Locks T M where
  owner := Function.update L.owner m none
  next := Function.update L.next m none
  first := Function.update L.first t (L.next m)
  held := Function.update L.held t ((L.held t).erase m)

omit [DecidableEq T] in
/-- A change of a lock that is not in the list. -/
theorem Chain.update (h : Chain next o l) (hm : m ∉ l) :
    Chain (Function.update next m o') o l := by
  induction l generalizing o with
  | nil => exact h
  | cons m' l ih =>
      rw [List.mem_cons, not_or] at hm
      refine ⟨h.1, ?_⟩
      rw [Function.update_of_ne (Ne.symm hm.1)]
      exact ih h.2 hm.2

theorem Owned.acquire (h : L.Owned) (ho : L.owner m = none) : (L.acquire t m).Owned := by
  refine ⟨fun m' u => ?_, fun u => ?_⟩
  · by_cases hm : m' = m
    · subst hm
      by_cases hu : u = t
      · subst hu
        simp [Locks.acquire]
      · have hne : ¬ t = u := fun he => hu he.symm
        simp [Locks.acquire, hu, hne, h.notMem ho]
    · by_cases hu : u = t
      · subst hu
        simp [Locks.acquire, hm, h.owner]
      · simp [Locks.acquire, hm, hu, h.owner]
  · by_cases hu : u = t
    · subst hu
      simp [Locks.acquire, h.nodup, h.notMem ho]
    · simp [Locks.acquire, hu, h.nodup]

theorem Owned.release (h : L.Owned) (hm : m ∈ L.held t) : (L.release t m).Owned := by
  refine ⟨fun m' u => ?_, fun u => ?_⟩
  · by_cases hm' : m' = m
    · subst hm'
      by_cases hu : u = t
      · subst hu
        simp [Locks.release, (h.nodup u).mem_erase_iff]
      · have hne : m' ∉ L.held u := fun hu' => hu (h.unique hu' hm)
        simp [Locks.release, hu, hne]
    · by_cases hu : u = t
      · subst hu
        simp [Locks.release, hm', h.owner, (h.nodup u).mem_erase_iff]
      · simp [Locks.release, hm', hu, h.owner]
  · by_cases hu : u = t
    · subst hu
      simpa [Locks.release] using (h.nodup u).erase m
    · simp [Locks.release, hu, h.nodup]

/-- **An acquisition keeps the two views equal.** -/
theorem Agree.acquire (h : L.Agree) (ho : L.owner m = none) : (L.acquire t m).Agree := by
  refine ⟨h.toOwned.acquire ho, fun u => ?_⟩
  have hchain : ∀ u, Chain (Function.update L.next m (L.first t)) (L.first u) (L.held u) :=
    fun u => (h.chain u).update (h.notMem ho)
  by_cases hu : u = t
  · subst hu
    simp only [Locks.acquire, Function.update_self]
    refine ⟨rfl, ?_⟩
    rw [Function.update_self]
    exact hchain u
  · simp only [Locks.acquire, Function.update_of_ne hu]
    exact hchain u

/-- **The release of the lock acquired last keeps the two views equal.** -/
theorem Agree.release (h : L.Agree) (hm : (L.held t).head? = some m) : (L.release t m).Agree := by
  obtain ⟨l, hl⟩ := List.head?_eq_some_iff.1 hm
  have hmem : m ∈ L.held t := hl ▸ List.mem_cons_self ..
  refine ⟨h.toOwned.release hmem, fun u => ?_⟩
  by_cases hu : u = t
  · subst hu
    have hnd := h.nodup u
    have hch := h.chain u
    rw [hl] at hnd hch
    simp only [Locks.release, Function.update_self, hl, List.erase_cons_head]
    exact hch.2.update (List.nodup_cons.1 hnd).1
  · simp only [Locks.release, Function.update_of_ne hu]
    exact (h.chain u).update fun hu' => hu (h.unique hu' hmem)

end Locks
