import Mathlib.Tactic

/-!
# Memory of several regions

A memory is a family of regions of cells, and a pointer is a region with an offset in
it.  `read` and `write` move lists of cells; the rules say what is read after a write to
the same place, behind it, and in another region.

* `read_write_same`, `read_write_before`, `read_write_append` - what is read after a write, where
  it was written, in front of it, and over its end.
* `write_write_append` - two writes side by side are one.
* `read_write_read`, `write_write_read` - cells that are copied within the memory.
* `write_outside` - the frame of a write.
-/

/-- A pointer: a region and an offset in it. -/
structure Ptr (ρ : Type*) where
  base : ρ
  off : Nat
  deriving DecidableEq, Repr

namespace Ptr

variable {ρ : Type*} {p : Ptr ρ} {a b : Nat}

/-- The pointer `n` cells further. -/
def add (p : Ptr ρ) (n : Nat) : Ptr ρ := { p with off := p.off + n }

@[simp] theorem add_base : (p.add a).base = p.base := rfl

@[simp] theorem add_off : (p.add a).off = p.off + a := rfl

@[simp] theorem add_zero : p.add 0 = p := rfl

@[simp] theorem add_add : (p.add a).add b = p.add (a + b) := by
  simp [add, Nat.add_assoc]

end Ptr

/-- The contents of all regions. -/
def Memory (ρ β : Type*) := ρ → Nat → β

namespace Memory

variable {ρ β : Type*} {m : Memory ρ β} {p q : Ptr ρ} {n k : Nat} {bs cs : List β}

/-! ## Reading -/

/-- The `n` cells from `p` on. -/
def read (m : Memory ρ β) (p : Ptr ρ) (n : Nat) : List β :=
  (List.range n).map fun i => m p.base (p.off + i)

@[simp] theorem read_zero : m.read p 0 = [] := rfl

@[simp] theorem length_read : (m.read p n).length = n := by
  simp [read]

theorem getElem_read {i : Nat} (h : i < (m.read p n).length) :
    (m.read p n)[i] = m p.base (p.off + i) := by
  simp [read]

/-- Two reads in a row are one. -/
theorem read_add : m.read p (n + k) = m.read p n ++ m.read (p.add n) k := by
  simp [read, List.range_add, Nat.add_assoc, Function.comp_def]

/-- A read depends on the cells that it reads only. -/
theorem read_congr {m' : Memory ρ β}
    (h : ∀ i < n, m' p.base (p.off + i) = m p.base (p.off + i)) : m'.read p n = m.read p n := by
  apply List.map_congr_left
  intro i hi
  exact h i (List.mem_range.1 hi)

/-! ## Writing -/

section

variable [DecidableEq ρ]

/-- Write the cells `bs` from `p` on. -/
def write (m : Memory ρ β) (p : Ptr ρ) (bs : List β) : Memory ρ β := fun r i =>
  if r = p.base ∧ p.off ≤ i then bs.getD (i - p.off) (m r i) else m r i

/-- Copy `n` cells from `q` to `p`. -/
def memcpy (m : Memory ρ β) (p q : Ptr ρ) (n : Nat) : Memory ρ β :=
  m.write p (m.read q n)

@[simp] theorem write_nil : m.write p [] = m := by
  funext r i
  simp [write]

@[simp] theorem memcpy_zero : m.memcpy p q 0 = m := by
  simp [memcpy]

/-- A write leaves the other regions unchanged. -/
theorem write_base_ne {r : ρ} (h : r ≠ p.base) : m.write p bs r = m r := by
  funext i
  simp [write, h]

theorem read_write_base_ne (h : q.base ≠ p.base) : (m.write p bs).read q n = m.read q n := by
  simp only [read, write_base_ne h]

/-- What is read where the write was made is what was written. -/
theorem read_write_same : (m.write p bs).read p bs.length = bs := by
  apply List.ext_getElem (by simp)
  intro i h₁ h₂
  rw [getElem_read]
  simp [write, h₂]

/-- A write leaves what stands before it unchanged. -/
theorem read_write_before : (m.write (p.add n) bs).read p n = m.read p n := by
  apply read_congr
  intro i hi
  rw [write, if_neg]
  rintro ⟨-, h⟩
  rw [Ptr.add_off] at h
  omega

/-- A write behind what has been read adds to it. -/
theorem read_write_append :
    (m.write (p.add n) bs).read p (n + bs.length) = m.read p n ++ bs := by
  rw [read_add, read_write_before, read_write_same]

/-- Two writes in a row are one. -/
theorem write_write_append :
    (m.write p bs).write (p.add bs.length) cs = m.write p (bs ++ cs) := by
  funext r i
  by_cases hr : r = p.base
  · by_cases hi : p.off ≤ i
    · by_cases hb : i - p.off < bs.length
      · have hn : ¬ p.off + bs.length ≤ i := by omega
        simp [write, hr, hi, hb, hn, List.getElem?_append_left hb]
      · have hn : p.off + bs.length ≤ i := by omega
        have hj : i - (p.off + bs.length) = i - p.off - bs.length := by omega
        simp [write, hr, hi, hb, hn, hj, List.getElem?_append_right (Nat.le_of_not_lt hb)]
    · have hn : ¬ p.off + bs.length ≤ i := by omega
      simp [write, hi, hn]
  · simp [write, hr]

/-- What is copied from another memory is what is read there. -/
theorem read_write_read {σ : Type*} {l : Memory σ β} {r : Ptr σ} :
    (m.write p (l.read r n)).read p n = l.read r n := by
  have h : (m.write p (l.read r n)).read p (l.read r n).length = l.read r n := read_write_same
  rwa [length_read] at h

/-- Two copies in a row are one. -/
theorem write_write_read {σ : Type*} {l : Memory σ β} {r : Ptr σ} :
    (m.write p (l.read r n)).write (p.add n) (l.read (r.add n) k) =
      m.write p (l.read r (n + k)) := by
  have h : (m.write p (l.read r n)).write (p.add (l.read r n).length) (l.read (r.add n) k) =
      m.write p (l.read r n ++ l.read (r.add n) k) := write_write_append
  rwa [length_read, ← read_add] at h

/-- A write leaves the cells before and behind it unchanged. -/
theorem write_outside {r : ρ} {i : Nat} (h : i < p.off ∨ p.off + bs.length ≤ i) :
    m.write p bs r i = m r i := by
  rw [write]
  split
  · next hi =>
      have hlen : bs.length ≤ i - p.off := by omega
      rw [List.getD_eq_getElem?_getD, List.getElem?_eq_none hlen]
      rfl
  · rfl

end

end Memory
