import Chopstx.Sys.GnuLinux
import Chopstx.Property.FlashWrite

/-!
# The flash memory as a file

The routines of the emulation check where a range starts, not where it ends: what is written
over the end of the image makes the file longer.  And `flash_write` returns 0 when all went
well, where the one of the STM32F103 returns 1.

* `Call`, `Call.run` - the three routines, and the file after one of them.
* `Call.Succeeds`, `Call.Fails` - what the routine of the STM32F103 returns; `Call.Answered` relates
  a call to that routine, and `Call.Answered.succeeds_iff` says that these are its two results.
* `Right` - what a call promises: the result, and the bytes of the image.
* `Stored`, `Call.stored` - what the three routines have in common.
* `Call.Overruns`, `Call.IsWrite`, `flashImage_right_iff` - the result, and when it holds.
* `flashImage_right_last`, `flashImage_wrong` - the last page, and a range that goes beyond it.
-/

namespace Chopstx.Sys.GnuLinux

/-! ## Calls -/

/-- A call of the application. -/
inductive Call where
  | write (dstAddr : BitVec 64) (src : Nat → BitVec 8) (len : BitVec 64)
  | programHalfword (addr : BitVec 64) (data : BitVec 16)
  | erasePage (addr : BitVec 64)

namespace Call

/-- What the emulation does. -/
def run (fl : Flash) (io : Io) : Call → Int × Flash
  | .write dstAddr src len => fl.flashWrite io dstAddr src len
  | .programHalfword addr data => fl.flashProgramHalfword io addr data
  | .erasePage addr => fl.flashErasePage io addr

/-- Where the range of a call starts. -/
def addr : Call → BitVec 64
  | .write addr .. | .programHalfword addr _ | .erasePage addr => addr

/-- How long the range of a call is. -/
def size : Call → Nat
  | .write _ _ len => len.toNat
  | .programHalfword .. => 2
  | .erasePage _ => 1024

/-- The start of the range in the image. -/
def offset (fl : Flash) (c : Call) : Int := (c.addr - fl.flashAddr).toInt

/-- The range is wholly inside the image. -/
def Inside (fl : Flash) (c : Call) : Prop :=
  0 ≤ c.offset fl ∧ c.offset fl + c.size ≤ fl.flashSize

/-- The results by which the routine of the STM32F103 reports success: `flash_write` returns 1,
the others a status of 0.  `Answered.succeeds_iff` finds them in the routines themselves. -/
def Succeeds : Call → Int → Prop
  | .write .., r => r = 1
  | .programHalfword .., r | .erasePage _, r => r = 0

/-- The results by which the routine of the STM32F103 reports failure. -/
def Fails : Call → Int → Prop
  | .write .., r => r = 0
  | .programHalfword .., r | .erasePage _, r => r ≠ 0

/-- The routine of the STM32F103 that a call goes by returned `r`, in some call of it with
arguments, a device and a controller of its own; `done` says whether the controller carried it
out. -/
inductive Answered : Call → Prop → Int → Prop
  | write {a : BitVec 64} {s : Nat → BitVec 8} {l : BitVec 64} {sizeKb : BitVec 16}
      {dstAddr : BitVec 32} {src : Nat → BitVec 8} {len : BitVec 32} {f f' : Stm32f103.Flash}
      {n r : Nat} (h : Stm32f103.written sizeKb dstAddr src len f n = .ret r f') :
      Answered (.write a s l) (Stm32f103.Untroubled sizeKb dstAddr src len f) r
  | programHalfword {a : BitVec 64} {d : BitVec 16} (f : Stm32f103.Flash) (addr : BitVec 32)
      (data : BitVec 16) :
      Answered (.programHalfword a d) (f.Carries Stm32f103.flashProgramTimeout)
        (Stm32f103.flashProgramHalfword f addr data).1.toNat
  | erasePage {a : BitVec 64} (f : Stm32f103.Flash) (addr : BitVec 32) :
      Answered (.erasePage a) (f.Carries Stm32f103.flashEraseTimeout)
        (Stm32f103.flashErasePage f addr).1.toNat

/-- **What a call promises.**  `perror` is called when it fails. -/
structure Right (fl : Flash) (io : Io) (c : Call) : Prop where
  image : (c.run fl io).2.image.length = fl.image.length
  outside : ¬ c.Inside fl → c.Fails (c.run fl io).1
  success : (c.run fl io).2.errors = fl.errors → c.Succeeds (c.run fl io).1
  failure : (c.run fl io).2.errors ≠ fl.errors → c.Fails (c.run fl io).1

/-- The range starts inside the image, and the system takes bytes of it that are outside. -/
def Overruns (fl : Flash) (io : Io) (c : Call) : Prop :=
  0 ≤ c.offset fl ∧ c.offset fl < fl.flashSize ∧ io.lseek = true ∧
    ∃ n ∈ io.write, (fl.flashSize : Int) < c.offset fl + min n c.size

/-- The call is one of `flash_write`. -/
def IsWrite : Call → Prop
  | .write .. => True
  | _ => False

end Call

variable {fl : Flash} {io : Io} {name : String} {addr : BitVec 64} {bs : List (BitVec 8)}
  {len : Int} {k : Nat} {c : Call}

/-! ## The results of the STM32F103 -/

theorem status_eq_zero_iff (status : BitVec 32) : ((status.toNat : Nat) : Int) = 0 ↔
    status = 0#32 := by
  rw [Int.natCast_eq_zero, ← BitVec.toNat_inj, BitVec.toNat_ofNat, Nat.zero_mod]

/-- **The results for success and for failure are those of the STM32F103.** -/
theorem Call.Answered.succeeds_iff {done : Prop} {r : Int} (h : c.Answered done r) :
    (c.Succeeds r ↔ done) ∧ (c.Fails r ↔ ¬ done) := by
  cases h with
  | write h =>
      rcases Stm32f103.written_ret h with ⟨rfl, hdone⟩ | ⟨rfl, hdone⟩
      · exact ⟨iff_of_true rfl hdone, iff_of_false Int.one_ne_zero (not_not_intro hdone)⟩
      · exact ⟨iff_of_false Int.zero_ne_one hdone, iff_of_true rfl hdone⟩
  | programHalfword f addr data =>
      have hiff := (status_eq_zero_iff _).trans
        (Stm32f103.flashProgramHalfword_eq_zero_iff f addr data)
      exact ⟨hiff, not_congr hiff⟩
  | erasePage f addr =>
      have hiff := (status_eq_zero_iff _).trans (Stm32f103.flashErasePage_eq_zero_iff f addr)
      exact ⟨hiff, not_congr hiff⟩

/-! ## What the routines have in common -/

/-- How a call of `store` with `k` bytes ends. -/
inductive Stored (fl : Flash) (io : Io) (name : String) (offset : Int) (k : Nat) :
    Int × Flash → Prop
  | rejected {fl' : Flash} (h : offset < 0 ∨ (fl.flashSize : Int) ≤ offset ∨ io.lseek = false)
      (hi : fl'.image = fl.image) (he : fl'.errors = fl.errors ++ [name]) :
      Stored fl io name offset k (1, fl')
  | failed {fl' : Flash} (hw : io.write = none) (hi : fl'.image = fl.image)
      (he : fl'.errors = fl.errors ++ [name]) : Stored fl io name offset k (2, fl')
  | short {fl' : Flash} {n : Nat} (h₀ : 0 ≤ offset) (h₁ : offset < fl.flashSize)
      (hl : io.lseek = true) (hw : io.write = some n)
      (hi : fl'.image.length = max fl.image.length (offset.toNat + min n k))
      (he : fl'.errors = fl.errors ++ [name]) : Stored fl io name offset k (2, fl')
  | done {fl' : Flash} {n : Nat} (h₀ : 0 ≤ offset) (h₁ : offset < fl.flashSize)
      (hl : io.lseek = true) (hw : io.write = some n) (hn : k ≤ n)
      (hi : fl'.image.length = max fl.image.length (offset.toNat + k))
      (he : fl'.errors = fl.errors) : Stored fl io name offset k (0, fl')

theorem store_stored (hk : bs.length = k) : Stored fl io name (addr - fl.flashAddr).toInt k
    (fl.store io name addr bs k) := by
  subst hk
  rw [Flash.store]
  by_cases hout : (addr - fl.flashAddr).toInt < 0 ∨
      (fl.flashSize : Int) ≤ (addr - fl.flashAddr).toInt
  · rw [if_pos hout]
    exact .rejected (hout.imp_right .inl) rfl rfl
  · rw [if_neg hout]
    rw [not_or, not_lt, not_le] at hout
    cases hl : io.lseek with
    | false =>
        simp only [Flash.lseek, hl]
        exact .rejected (.inr (.inr hl)) rfl rfl
    | true =>
        simp only [Flash.lseek, hl, if_true]
        cases hw : io.write with
        | none =>
            obtain ⟨hr, hfl⟩ := write_none bs { fl with pos := _ } hw
            rw [hr, hfl, if_pos (by omega)]
            exact .failed hw rfl rfl
        | some n =>
            obtain ⟨hr, hi, he⟩ := write_some bs { fl with pos := _ } hw
            rw [hr]
            by_cases hn : bs.length ≤ n
            · rw [if_neg (by omega)]
              refine .done hout.1 hout.2 hl hw hn ?_ he
              rw [hi, Nat.min_eq_right hn]
            · rw [if_pos (by omega)]
              exact .short hout.1 hout.2 hl hw hi (by rw [Flash.perror, he])

/-- Whatever the number of bytes is taken for, 0 stands for success and another result for
failure. -/
theorem store_result (name : String) (addr : BitVec 64) (bs : List (BitVec 8)) (len : Int) :
    ((fl.store io name addr bs len).1 = 0 ∧
      (fl.store io name addr bs len).2.errors = fl.errors) ∨
    ((fl.store io name addr bs len).1 ≠ 0 ∧
      (fl.store io name addr bs len).2.errors ≠ fl.errors) := by
  have hwrite : ∀ fl' : Flash, (fl'.write io bs).2.errors = fl'.errors := by
    intro fl'
    rw [Flash.write]
    split <;> rfl
  simp only [Flash.store, Flash.lseek]
  split
  · exact .inr ⟨Int.one_ne_zero, by simp [Flash.perror]⟩
  · split
    · exact .inr ⟨Int.one_ne_zero, by simp [Flash.perror]⟩
    · rename_i hl
      split at hl
      · cases hl
        split
        · exact .inr ⟨show (2 : Int) ≠ 0 by decide, by simp [Flash.perror, hwrite]⟩
        · exact .inl ⟨rfl, hwrite _⟩
      · cases hl

/-- The other routines know how many bytes they store. -/
theorem Call.stored (fl : Flash) (io : Io) (hc : ¬ c.IsWrite) :
    ∃ name, Stored fl io name (c.offset fl) c.size (c.run fl io) := by
  cases c with
  | write => exact absurd trivial hc
  | programHalfword addr data => exact ⟨_, store_stored (k := 2) rfl⟩
  | erasePage addr =>
      have hk : Flash.erased.length = 1024 := List.length_replicate
      exact ⟨_, store_stored hk⟩

/-- `flash_write` reports success where the STM32F103 reports failure, and the other way round. -/
theorem write_not_right (hc : c.IsWrite) : ¬ c.Right fl io := by
  intro h
  cases c with
  | programHalfword | erasePage => exact hc
  | write dstAddr src len =>
      rcases store_result "flash_write" dstAddr ((List.range len.toNat).map src) len.toInt with
        ⟨hr, he⟩ | ⟨hr, he⟩
      · have hone : _ = (1 : Int) := h.success he
        rw [Call.run, Flash.flashWrite, hr] at hone
        exact absurd hone (by decide)
      · exact hr (h.failure he)

/-- The other routines are right unless bytes outside the image are taken. -/
theorem stored_right_iff (hc : ¬ c.IsWrite) (hlen : fl.image.length = fl.flashSize)
    (hst : Stored fl io name (c.offset fl) c.size (c.run fl io)) :
    c.Right fl io ↔ ¬ c.Overruns fl io := by
  have hsucceeds : ∀ r, c.Succeeds r ↔ r = 0 := by
    intro r
    cases c with
    | write => exact absurd trivial hc
    | programHalfword | erasePage => exact Iff.rfl
  have hfails : ∀ r, c.Fails r ↔ r ≠ 0 := by
    intro r
    cases c with
    | write => exact absurd trivial hc
    | programHalfword | erasePage => exact Iff.rfl
  have hright : c.Right fl io ↔ (c.run fl io).2.image.length = fl.image.length ∧
      (¬ c.Inside fl → (c.run fl io).1 ≠ 0) ∧
      ((c.run fl io).2.errors = fl.errors ↔ (c.run fl io).1 = 0) := by
    constructor
    · intro h
      refine ⟨h.image, fun hi => (hfails _).1 (h.outside hi), ?_⟩
      refine ⟨fun he => (hsucceeds _).1 (h.success he), fun hr => ?_⟩
      by_contra he
      exact (hfails _).1 (h.failure he) hr
    · rintro ⟨hi, ho, he⟩
      exact ⟨hi, fun hin => (hfails _).2 (ho hin), fun h => (hsucceeds _).2 (he.1 h),
        fun h => (hfails _).2 fun hr => h (he.2 hr)⟩
  rw [hright]
  generalize c.run fl io = r at hst
  cases hst with
  | rejected h hi he =>
      refine iff_of_true ⟨by rw [hi], fun _ => Int.one_ne_zero, by simp [he]⟩ ?_
      rintro ⟨h₀, h₁, hl, -⟩
      rcases h with h | h | h
      · exact absurd h (not_lt.2 h₀)
      · exact absurd h (not_le.2 h₁)
      · rw [hl] at h
        cases h
  | failed hw hi he =>
      refine iff_of_true ⟨by rw [hi], fun _ => (by decide : (2 : Int) ≠ 0), by simp [he]⟩ ?_
      rintro ⟨-, -, -, n, hn, -⟩
      rw [hw] at hn
      cases hn
  | short h₀ h₁ hl hw hi he =>
      rename_i fl' n
      have hover : c.Overruns fl io ↔ (fl.flashSize : Int) < c.offset fl + min n c.size := by
        refine ⟨?_, fun h => ⟨h₀, h₁, hl, n, hw, h⟩⟩
        rintro ⟨-, -, -, m, hm, h⟩
        rw [hw] at hm
        cases hm
        exact h
      rw [hover, hi, hlen, he]
      simp
      omega
  | done h₀ h₁ hl hw hn hi he =>
      rename_i fl' n
      have hover : c.Overruns fl io ↔ (fl.flashSize : Int) < c.offset fl + c.size := by
        refine ⟨?_, fun h => ⟨h₀, h₁, hl, n, hw, by omega⟩⟩
        rintro ⟨-, -, -, m, hm, h⟩
        rw [hw] at hm
        cases hm
        omega
      rw [hover, hi, hlen, he, Call.Inside]
      simp
      omega

/-- **A call does what the routine of the STM32F103 does if and only if it is not one of
`flash_write`, and no bytes outside the image are taken.** -/
theorem flashImage_right_iff (fl : Flash) (io : Io) (c : Call)
    (hlen : fl.image.length = fl.flashSize) :
    c.Right fl io ↔ ¬ c.IsWrite ∧ ¬ c.Overruns fl io := by
  constructor
  · intro h
    have hc : ¬ c.IsWrite := fun hc => write_not_right hc h
    obtain ⟨name, hst⟩ := Call.stored fl io hc
    exact ⟨hc, (stored_right_iff hc hlen hst).1 h⟩
  · rintro ⟨hc, hover⟩
    obtain ⟨name, hst⟩ := Call.stored fl io hc
    exact (stored_right_iff hc hlen hst).2 hover

/-- An image of one page at the address 0x10000. -/
def onePage : Flash where
  image := List.replicate 1024 0xff#8
  flashAddr := 0x10000#64
  flashSize := 1024
  size_lt := by decide

theorem onePage_length : onePage.image.length = onePage.flashSize := List.length_replicate

/-- A halfword at the end of the page is stored as it should be, by a system that does all that
it is asked for. -/
theorem flashImage_right_last : (Call.programHalfword 0x103fe#64 0x1234#16).Right onePage
    { lseek := true, write := some 2 } := by
  refine (flashImage_right_iff onePage _ _ onePage_length).2 ⟨not_false, ?_⟩
  rintro ⟨-, -, -, n, hn, h⟩
  cases hn
  exact absurd h (by decide)

/-- Two bytes inside the page are written, with the result for failure; and a page is erased
that starts at the second halfword, which makes the file longer. -/
theorem flashImage_wrong :
    ¬ (Call.write 0x10000#64 (fun _ => 0#8) 2#64).Right onePage
        { lseek := true, write := some 2 } ∧
      ¬ (Call.erasePage 0x10002#64).Right onePage { lseek := true, write := some 1024 } := by
  refine ⟨write_not_right trivial, fun h => ?_⟩
  have hc : ¬ (Call.erasePage 0x10002#64).IsWrite := not_false
  obtain ⟨name, hst⟩ := Call.stored onePage { lseek := true, write := some 1024 } hc
  refine (stored_right_iff hc onePage_length hst).1 h ⟨?_, ?_, rfl, 1024, rfl, ?_⟩
  · decide
  · decide
  · decide

end Chopstx.Sys.GnuLinux
