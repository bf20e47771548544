import Mathlib.Tactic

/-!
# The flash memory of the emulation on GNU/Linux

The flash memory is a file, mapped at `flash_addr`; the routines seek in it and write to it.
How much of the data `write` takes, and whether `lseek` and `write` fail, is up to
the system.

* `Flash`, `Io` - the file with what has been reported by `perror`, and what the system does.
* `Flash.lseek`, `Flash.write` - the calls to the system.
* `Flash.store` - the part that the three routines have in common: the check of the address, the
  position, and the bytes.
* `Flash.flashProgramHalfword`, `Flash.flashErasePage`, `Flash.flashWrite` - the routines.
* `length_patch`, `write_none`, `write_some` - what a write does to the length of the file.
-/

namespace Chopstx.Sys.GnuLinux

/-- The file, the mapping that `flash_init` has made of it, the offset of `flash_fd` and what
`perror` has said so far.  A file has less than 2 ^ 63 bytes. -/
structure Flash where
  image : List (BitVec 8)
  flashAddr : BitVec 64
  flashSize : Nat
  pos : Nat := 0
  errors : List String := []
  size_lt : flashSize < 2 ^ 63

/-- What the system does in a call: whether `lseek` succeeds, and how many bytes `write` takes
at most, or that it fails. -/
structure Io where
  lseek : Bool
  write : Option Nat

/-- The contents of a file after bytes were written at an offset.  It grows if need be. -/
def patch (image : List (BitVec 8)) (pos : Nat) (bs : List (BitVec 8)) : List (BitVec 8) :=
  image.take pos ++ List.replicate (pos - image.length) 0#8 ++ bs ++ image.drop (pos + bs.length)

namespace Flash

variable (fl : Flash) (io : Io)

def perror (name : String) : Flash := { fl with errors := fl.errors ++ [name] }

/-- `lseek (flash_fd, offset, SEEK_SET)`. -/
def lseek (offset : Int) : Option Flash :=
  if io.lseek then some { fl with pos := offset.toNat } else none

/-- `write (flash_fd, buf, len)`: the number of bytes written, or -1. -/
def write (bs : List (BitVec 8)) : Int × Flash :=
  match io.write with
  | none => (-1, fl)
  | some n =>
      (min n bs.length,
        { fl with
          image := patch fl.image fl.pos (bs.take n)
          pos := fl.pos + min n bs.length })

/-- The part that the routines have in common: the check of the start, `lseek`, and `write` of
all of the bytes, whose number is `len` as a `ssize_t`. -/
def store (name : String) (addr : BitVec 64) (bs : List (BitVec 8)) (len : Int) : Int × Flash :=
  let offset := (addr - fl.flashAddr).toInt
  if offset < 0 ∨ (fl.flashSize : Int) ≤ offset then (1, fl.perror name)
  else
    match fl.lseek io offset with
    | none => (1, fl.perror name)
    | some fl =>
        let r := fl.write io bs
        if r.1 ≠ len then (2, r.2.perror name) else (0, r.2)

/-- `flash_program_halfword`. -/
def flashProgramHalfword (addr : BitVec 64) (data : BitVec 16) : Int × Flash :=
  fl.store io "flash_program_halfword" addr [data.setWidth 8, (data >>> 8).setWidth 8] 2

/-- `erased`. -/
def erased : List (BitVec 8) := List.replicate 1024 0xff#8

/-- `flash_erase_page`. -/
def flashErasePage (addr : BitVec 64) : Int × Flash :=
  fl.store io "flash_erase_page" addr erased 1024

/-- `flash_write`. -/
def flashWrite (dstAddr : BitVec 64) (src : Nat → BitVec 8) (len : BitVec 64) : Int × Flash :=
  fl.store io "flash_write" dstAddr ((List.range len.toNat).map src) len.toInt

end Flash

/-! ## The file -/

variable {io : Io} {image bs : List (BitVec 8)} {pos n : Nat}

theorem length_patch : (patch image pos bs).length = max image.length (pos + bs.length) := by
  simp only [patch, List.length_append, List.length_take, List.length_replicate, List.length_drop]
  omega

/-- A call of `write` that fails. -/
theorem write_none (bs : List (BitVec 8)) (fl : Flash) (h : io.write = none) :
    (fl.write io bs).1 = -1 ∧ (fl.write io bs).2 = fl := by
  rw [Flash.write, h]
  exact ⟨rfl, rfl⟩

/-- A call of `write` that takes bytes. -/
theorem write_some (bs : List (BitVec 8)) (fl : Flash) (h : io.write = some n) :
    (fl.write io bs).1 = min n bs.length ∧
    (fl.write io bs).2.image.length = max fl.image.length (fl.pos + min n bs.length) ∧
    (fl.write io bs).2.errors = fl.errors := by
  rw [Flash.write, h]
  refine ⟨(Nat.cast_min n bs.length).symm, ?_, rfl⟩
  rw [length_patch, List.length_take]

end Chopstx.Sys.GnuLinux
