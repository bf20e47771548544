import Chopstx.Library.Transition
import Chopstx.Usart.Driver

/-!
# A configuration of the USART that is rejected

`usart_config` disables the device before it looks at what it is asked for.  A size of a
character that there is not is found out next, and a baud rate that there is not only after CR2
has been written; neither of the two returns puts back what has been written.

* `configured` - the registers after a call, written down in one piece.
* `SizeOk`, `BaudOk`, `usartConfig_accepted` - what is asked for, and when it is accepted.
* `KeepsOnReject` - what is promised of a call that is not.
* `configured_size`, `configured_baud` - what the two kinds of it have written.
* `usartConfig_keeps_iff` - the result, and `usartConfig_disables` a call that does not keep it.
* `cfg_steps`, `config_alone` - the call in the driver of `Chopstx.Usart.Driver`, step by step.
-/

namespace Chopstx.Usart

open Transition

/-! ## The registers after the call -/

/-- The registers of a device after an assignment -/
def RegOp.apply (reg : Reg → BitVec 32) : RegOp → Reg → BitVec 32
  | .set r v => Function.update reg r v
  | .and r m => Function.update reg r (reg r &&& m)
  | .or r m => Function.update reg r (reg r ||| m)

/-- The registers after `usart_config`, and its result -/
def configured (bits : BitVec 32) (reg : Reg → BitVec 32) : (Reg → BitVec 32) × Int :=
  ((usartConfig bits).1.foldl RegOp.apply reg, (usartConfig bits).2)

/-- The size of a character that is asked for is CS8, or CS7 with PARENB. -/
def SizeOk (bits : BitVec 32) : Prop :=
  bits &&& maskCs = cs8 ∨ bits &&& maskCs = cs7 ∧ has parenb bits = true

/-- The baud rate that is asked for is in `brr_table`. -/
def BaudOk (bits : BitVec 32) : Prop := ∃ b ∈ brrTable, b.1 = bits &&& maskBaud

section

variable {bits : BitVec 32} {reg : Reg → BitVec 32}

instance : Decidable (SizeOk bits) :=
  inferInstanceAs (Decidable (_ ∨ _ ∧ _))

theorem configM_eq_none : configM bits = none ↔ ¬ SizeOk bits := by
  have hne : ¬ cs8 = cs7 := by decide
  rw [configM, SizeOk]
  by_cases h₈ : bits &&& maskCs = cs8
  · rw [h₈]
    cases has parenb bits <;> simp [hne]
  · by_cases h₇ : bits &&& maskCs = cs7
    · rw [h₇]
      cases has parenb bits <;> simp [Ne.symm hne]
    · simp [h₇, h₈]

theorem find?_eq_none : (brrTable.find? fun b => b.1 = bits &&& maskBaud) = none ↔
    ¬ BaudOk bits := by
  rw [List.find?_eq_none, BaudOk]
  push Not
  exact forall₂_congr fun b _ => not_congr decide_eq_true_iff

/-- A call that is accepted -/
theorem usartConfig_accepted (hb : BaudOk bits) (hs : SizeOk bits) : (usartConfig bits).2 = 0 := by
  cases hm : configM bits with
  | none => exact absurd hs (configM_eq_none.1 hm)
  | some m =>
      cases hf : brrTable.find? fun b => b.1 = bits &&& maskBaud with
      | none => exact absurd hb (find?_eq_none.1 hf)
      | some b => simp only [usartConfig, hm, hf]

/-- A call that is rejected for the size of a character -/
theorem configured_size (hs : ¬ SizeOk bits) : configured bits reg =
    (Function.update reg .cr1 (reg .cr1 &&& ~~~cr1Ue), -1) := by
  simp only [configured, usartConfig, configM_eq_none.2 hs]
  rfl

/-- A call that is rejected for the baud rate -/
theorem configured_baud (hs : SizeOk bits) (hb : ¬ BaudOk bits) : configured bits reg =
    (Function.update (Function.update reg .cr1 (reg .cr1 &&& ~~~cr1Ue)) .cr2 (configCr2 bits),
      -1) := by
  cases hm : configM bits with
  | none => exact absurd hs (configM_eq_none.1 hm)
  | some m =>
      simp only [configured, usartConfig, hm, find?_eq_none.2 hb]
      rfl

/-- A register is as it was after flags are cleared that were not set. -/
theorem and_not_eq_self {m r : BitVec 32} : r &&& ~~~m = r ↔ has m r = false := by
  rw [has, decide_eq_false_iff_not, not_not]
  constructor
  · intro h
    rw [← h, BitVec.and_assoc, BitVec.and_comm (~~~m), BitVec.and_not_self]
    exact BitVec.and_zero
  · intro h
    apply BitVec.eq_of_getLsbD_eq
    intro i hi
    have hbit := congrArg (fun x : BitVec 32 => x.getLsbD i) h
    rw [BitVec.getLsbD_and, show (0 : BitVec 32).getLsbD i = false from BitVec.getLsbD_zero] at hbit
    simp only [BitVec.getLsbD_and, BitVec.getLsbD_not, hi, decide_true, Bool.true_and]
    cases hr : r.getLsbD i with
    | false => rfl
    | true =>
        rw [hr, Bool.true_and] at hbit
        rw [hbit]
        rfl

end

/-- A call that is rejected leaves the registers as they were, and a call is accepted if and only
if it asks for a baud rate and a size of a character that there are. -/
def KeepsOnReject (bits : BitVec 32) (reg : Reg → BitVec 32) : Prop :=
  ((configured bits reg).2 = -1 → (configured bits reg).1 = reg) ∧
    ((configured bits reg).2 = 0 ↔ BaudOk bits ∧ SizeOk bits)

/-- **When a rejected `usart_config` leaves the device as it was**: the device was disabled
before, and CR2 has not been written or had that value.  What is accepted is as it should be. -/
theorem usartConfig_keeps_iff (bits : BitVec 32) (reg : Reg → BitVec 32) :
    KeepsOnReject bits reg ↔ BaudOk bits ∧ SizeOk bits ∨
      has cr1Ue (reg .cr1) = false ∧ (SizeOk bits → reg .cr2 = configCr2 bits) := by
  rw [KeepsOnReject]
  by_cases hs : SizeOk bits
  · by_cases hb : BaudOk bits
    · have hzero : (configured bits reg).2 = 0 := usartConfig_accepted hb hs
      simp [hzero, hb, hs]
    · rw [configured_baud hs hb]
      have hkeep : Function.update (Function.update reg .cr1 (reg .cr1 &&& ~~~cr1Ue)) .cr2
          (configCr2 bits) = reg ↔ has cr1Ue (reg .cr1) = false ∧ reg .cr2 = configCr2 bits := by
        constructor
        · intro h
          exact ⟨and_not_eq_self.1 (congrFun h .cr1), (congrFun h .cr2).symm⟩
        · rintro ⟨h₁, h₂⟩
          rw [and_not_eq_self.2 h₁, Function.update_eq_self, ← h₂, Function.update_eq_self]
      simp [hkeep, hb, hs]
  · rw [configured_size hs]
    have hkeep : Function.update reg .cr1 (reg .cr1 &&& ~~~cr1Ue) = reg ↔
        has cr1Ue (reg .cr1) = false := by
      rw [Function.update_eq_self_iff, and_not_eq_self]
    simp [hkeep, hs]

/-- The registers of a device that has been configured, with CR1 as it is then -/
def enabledRegs : Reg → BitVec 32 := fun r => if r = .cr1 then 0x202c else 0

/-- Five bits to a character: the call is rejected, and the device is disabled. -/
theorem usartConfig_disables :
    (configured 25 enabledRegs).2 = -1 ∧ has cr1Ue (enabledRegs .cr1) = true ∧
      has cr1Ue ((configured 25 enabledRegs).1 .cr1) = false ∧ ¬ KeepsOnReject 25 enabledRegs := by
  refine ⟨by decide, by decide, by decide, ?_⟩
  rintro ⟨hkeep, -⟩
  have h := congrFun (hkeep (by decide)) .cr1
  revert h
  decide

/-! ## The call in the driver -/

theorem reg_setReg (s : Driver) (d : Dev) (r : Reg) (v : BitVec 32) :
    ((s.setReg d r v).dev d).reg = Function.update (s.dev d).reg r v := by
  simp [Driver.setReg, Driver.upd]

/-- A thread that goes on in `usart_config` with no step of another one in between comes to the
end of it, with the registers of `configured`. -/
theorem cfg_steps {t : Nat} {d : Dev} {s : Driver} {ops : List RegOp}
    (h : s.cfg t = some ⟨d, ops, none⟩) :
    ∃ s', Steps Driver.step (fun _ e => e = .cfg t) s s' ∧ s'.cfg t = none ∧
      (s'.dev d).reg = ops.foldl RegOp.apply (s.dev d).reg := by
  induction ops generalizing s with
  | nil =>
      refine ⟨{ s with cfg := Function.update s.cfg t none }, ?_, Function.update_self .., rfl⟩
      refine (Steps.refl s).tail (.cfg t) rfl ?_
      simp only [Driver.step, Driver.cfgStep, h]
  | cons op ops ih =>
      -- the state behind the assignment, and the steps to it
      obtain ⟨s₁, hsteps, hcfg, hreg⟩ : ∃ s₁,
          Steps Driver.step (fun _ e => e = .cfg t) s s₁ ∧ s₁.cfg t = some ⟨d, ops, none⟩ ∧
            (s₁.dev d).reg = RegOp.apply (s.dev d).reg op := by
        cases op with
        | set r v =>
            refine ⟨{ s.setReg d r v with cfg := Function.update s.cfg t (some ⟨d, ops, none⟩) },
              ?_, Function.update_self .., reg_setReg s d r v⟩
            refine (Steps.refl s).tail (.cfg t) rfl ?_
            simp only [Driver.step, Driver.cfgStep, h]
            rfl
        | and r m =>
            -- the register is read first
            let c : Cfg := ⟨d, .and r m :: ops, some ((s.dev d).reg r)⟩
            let s₀ : Driver := { s with cfg := Function.update s.cfg t (some c) }
            have hread : s.step (.cfg t) = .ok s₀ := by
              simp only [Driver.step, Driver.cfgStep, h]
              rfl
            have hc : s₀.cfg t = some c := Function.update_self ..
            refine ⟨{ s₀.setReg d r ((s.dev d).reg r &&& m) with
              cfg := Function.update s₀.cfg t (some ⟨d, ops, none⟩) },
              ((Steps.refl s).tail (.cfg t) rfl hread).tail (.cfg t) rfl ?_,
              Function.update_self .., reg_setReg s₀ d r _⟩
            simp only [Driver.step, Driver.cfgStep, hc]
            rfl
        | or r m =>
            -- the register is read first
            let c : Cfg := ⟨d, .or r m :: ops, some ((s.dev d).reg r)⟩
            let s₀ : Driver := { s with cfg := Function.update s.cfg t (some c) }
            have hread : s.step (.cfg t) = .ok s₀ := by
              simp only [Driver.step, Driver.cfgStep, h]
              rfl
            have hc : s₀.cfg t = some c := Function.update_self ..
            refine ⟨{ s₀.setReg d r ((s.dev d).reg r ||| m) with
              cfg := Function.update s₀.cfg t (some ⟨d, ops, none⟩) },
              ((Steps.refl s).tail (.cfg t) rfl hread).tail (.cfg t) rfl ?_,
              Function.update_self .., reg_setReg s₀ d r _⟩
            simp only [Driver.step, Driver.cfgStep, hc]
            rfl
      obtain ⟨s', hrun, hend, hfinal⟩ := ih hcfg
      exact ⟨s', hsteps.trans hrun, hend, by rw [hfinal, hreg, List.foldl_cons]⟩

/-- A whole call by a thread that runs alone -/
theorem config_alone {t : Nat} {s : Driver} (h : s.cfg t = none) (d : Dev) (bits : BitVec 32) :
    ∃ s', Steps Driver.step (fun _ e => e = .config t d bits ∨ e = .cfg t) s s' ∧
      s'.cfg t = none ∧ (s'.dev d).reg = (configured bits (s.dev d).reg).1 := by
  let c : Cfg := ⟨d, (usartConfig bits).1, none⟩
  have hcall : s.step (.config t d bits) =
      .ok { s with cfg := Function.update s.cfg t (some c) } := if_pos h
  obtain ⟨s', hrun, hend, hreg⟩ :=
    cfg_steps (s := { s with cfg := Function.update s.cfg t (some c) }) (Function.update_self ..)
  exact ⟨s', ((Steps.refl s).tail _ (.inl rfl) hcall).trans (hrun.mono fun _ _ he => .inr he),
    hend, hreg⟩

end Chopstx.Usart
