import Mathlib.Tactic

/-!
# The flash memory of the STM32F103

`flash_program_halfword` waits for the controller, stores a halfword and waits again;
`flash_write` does this in a loop that counts an unsigned length down by two.  Addresses and
lengths are words of 32 bits.

* `flashWaitForLastOperation`, `flashProgramHalfword`, `flashErasePage` - the operations, each with
  its status; what the controller answers is the sequence of the values read from `SR`.
* `Write`, `flashWrite`, `Write.next` - `flash_write` up to its loop, and one round of the loop.
* `flashProgramHalfword_stored`, `Flash.Quiet.program` - what is stored, in general and on a
  controller that is never busy and reports no error.
-/

namespace Chopstx.Sys.Stm32f103

/-! ## The controller -/

def flashSrBsy : BitVec 32 := 0x01#32
def flashSrPgerr : BitVec 32 := 0x04#32
def flashSrWrprterr : BitVec 32 := 0x10#32

def flashCrPg : BitVec 32 := 0x0001#32
def flashCrPer : BitVec 32 := 0x0002#32
def flashCrStrt : BitVec 32 := 0x0040#32

/-- The controller: what the accesses to `FLASH->SR` read one after the other, the control and
address registers, and what was stored to addresses of the flash memory so far. -/
structure Flash where
  sr : Nat → BitVec 32
  reads : Nat := 0
  cr : BitVec 32 := 0#32
  ar : BitVec 32 := 0#32
  stored : List (BitVec 32 × BitVec 16) := []

/-- `flash_wait_for_last_operation`.  It is never called with 0. -/
def flashWaitForLastOperation : Nat → Flash → BitVec 32 × Flash
  | 0, f => (0#32, f)
  | timeout + 1, f =>
      let status := f.sr f.reads
      let f := { f with reads := f.reads + 1 }
      if timeout = 0 ∨ status &&& flashSrBsy = 0#32 then
        (status &&& (flashSrBsy ||| flashSrPgerr ||| flashSrWrprterr), f)
      else flashWaitForLastOperation timeout f

/-- `FLASH_PROGRAM_TIMEOUT`. -/
def flashProgramTimeout : Nat := 0x00010000

/-- `FLASH_ERASE_TIMEOUT`. -/
def flashEraseTimeout : Nat := 0x01000000

/-- `flash_program_halfword`: 0 unless the controller reports an error or a timeout. -/
def flashProgramHalfword (f : Flash) (addr : BitVec 32) (data : BitVec 16) : BitVec 32 × Flash :=
  let r := flashWaitForLastOperation flashProgramTimeout f
  if r.1 = 0#32 then
    let f := { r.2 with cr := r.2.cr ||| flashCrPg, stored := r.2.stored ++ [(addr, data)] }
    let r := flashWaitForLastOperation flashProgramTimeout f
    (r.1, { r.2 with cr := r.2.cr &&& ~~~flashCrPg })
  else r

/-- `flash_erase_page`: 0 unless the controller reports an error or a timeout. -/
def flashErasePage (f : Flash) (addr : BitVec 32) : BitVec 32 × Flash :=
  let r := flashWaitForLastOperation flashEraseTimeout f
  if r.1 = 0#32 then
    let f := { r.2 with cr := (r.2.cr ||| flashCrPer) ||| flashCrStrt, ar := addr }
    let r := flashWaitForLastOperation flashEraseTimeout f
    (r.1, { r.2 with cr := r.2.cr &&& ~~~flashCrPer })
  else r

/-! ## Writing -/

/-- `FLASH_START`. -/
def flashStart : BitVec 32 := 0x08000000#32 + 0x1000#32

/-- `flash_end`, from the size of the memory in units of 1024 bytes. -/
def flashEnd (sizeKb : BitVec 16) : BitVec 32 :=
  0x08000000#32 + sizeKb.setWidth 32 * 1024#32

/-- A call of `flash_write`: at the head of its loop, with `src` bytes of the buffer behind it,
or returned. -/
inductive Write where
  | loop (dstAddr : BitVec 32) (src : Nat) (len : BitVec 32) (f : Flash)
  | ret (r : Nat) (f : Flash)

/-- The controller. -/
def Write.flash : Write → Flash
  | .loop _ _ _ f | .ret _ f => f

/-- `flash_write` up to its loop. -/
def flashWrite (sizeKb : BitVec 16) (dstAddr len : BitVec 32) (f : Flash) : Write :=
  if dstAddr < flashStart ∨ flashEnd sizeKb < dstAddr + len then .ret 0 f
  else .loop dstAddr 0 len f

/-- The halfword at this place of the buffer. -/
def halfword (src : Nat → BitVec 8) (i : Nat) : BitVec 16 :=
  (src i).setWidth 16 ||| (src (i + 1)).setWidth 16 <<< 8

/-- A round of the loop of `flash_write`. -/
def Write.next (src : Nat → BitVec 8) : Write → Write
  | .loop dstAddr i len f =>
      if len = 0#32 then .ret 1 f
      else
        let r := flashProgramHalfword f dstAddr (halfword src i)
        if r.1 ≠ 0#32 then .ret 0 r.2 -- error return
        else .loop (dstAddr + 2#32) (i + 2) (len - 2#32) r.2
  | .ret r f => .ret r f

/-! ## What `flash_program_halfword` stores -/

variable {f : Flash} {addr : BitVec 32} {data : BitVec 16} {n : Nat}

theorem flashWait_stored (timeout : Nat) (f : Flash) :
    (flashWaitForLastOperation timeout f).2.stored = f.stored ∧
      (flashWaitForLastOperation timeout f).2.sr = f.sr := by
  induction timeout generalizing f with
  | zero => exact ⟨rfl, rfl⟩
  | succ timeout ih =>
      rw [flashWaitForLastOperation]
      split
      · exact ⟨rfl, rfl⟩
      · exact ih _

/-- The halfword is stored, unless the controller was not ready for it. -/
theorem flashProgramHalfword_stored (f : Flash) (addr : BitVec 32) (data : BitVec 16) :
    (flashProgramHalfword f addr data).2.stored = f.stored ++ [(addr, data)] ∨
      (flashProgramHalfword f addr data).2.stored = f.stored ∧
        (flashProgramHalfword f addr data).1 ≠ 0#32 := by
  have hwait := flashWait_stored flashProgramTimeout f
  rw [flashProgramHalfword]
  split
  · left
    exact (flashWait_stored _ _).1.trans (by rw [hwait.1])
  · rename_i hne
    exact .inr ⟨hwait.1, hne⟩

/-- A controller that is never busy and reports no error. -/
def Flash.Quiet (f : Flash) : Prop := ∀ n, f.sr n = 0#32

theorem Flash.Quiet.wait (h : f.Quiet) (timeout : Nat) :
    (flashWaitForLastOperation timeout f).1 = 0#32 := by
  cases timeout with
  | zero => rfl
  | succ timeout =>
      rw [flashWaitForLastOperation, if_pos (.inr (by rw [h]; rfl)), h]
      rfl

theorem Flash.Quiet.program (h : f.Quiet) (addr : BitVec 32) (data : BitVec 16) :
    (flashProgramHalfword f addr data).1 = 0#32 ∧
      (flashProgramHalfword f addr data).2.stored = f.stored ++ [(addr, data)] ∧
      (flashProgramHalfword f addr data).2.Quiet := by
  have hwait := flashWait_stored flashProgramTimeout f
  rw [flashProgramHalfword, if_pos (h.wait _)]
  set f₁ : Flash := { (flashWaitForLastOperation flashProgramTimeout f).2 with
    cr := _, stored := _ } with hf₁
  have hq : f₁.Quiet := by
    intro n
    exact (congrFun hwait.2 n).trans (h n)
  have hwait₁ := flashWait_stored flashProgramTimeout f₁
  refine ⟨hq.wait _, ?_, fun n => ?_⟩
  · rw [show f.stored ++ [(addr, data)] = f₁.stored by rw [hf₁, ← hwait.1]]
    exact hwait₁.1
  · exact (congrFun hwait₁.2 n).trans (hq n)

end Chopstx.Sys.Stm32f103
