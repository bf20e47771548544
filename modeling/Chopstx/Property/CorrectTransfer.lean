import Chopstx.Usb.EpReg

/-!
# Completed transfers are not lost

A transfer that the hardware has completed has its bit `CTR_RX` or `CTR_TX` set until it is
reported, as long as the hardware completes no transfer of one direction while the driver is
about to write what clears the bit of the other direction.  The values that all other calls
write leave both bits as they are.

* `hasCtr_setEpreg`, `hasCtr_clearCtrValue` - what becomes of one bit where the driver writes.
* `Undisturbed` - the condition on the hardware, and `AllKept` what is to be shown.
* `RegInv`, `RegInv.effect` - the invariant of every run, and what one access can do.
* `Fresh`, `kept_step` - the step lemma, and `lost_in_window` the transfer that is lost elsewhere.
* `transfers_kept` - the result about runs, with the step that ends the condition.
* `transfers_kept_both` - a run with a transfer of either direction; `transfer_lost` is one that
  loses a transfer.
-/

namespace Chopstx.Usb.Stm32f103

open Transition

/-! ## One bit of a register -/

@[simp] theorem other_other (d : Dir) : d.other.other = d := by
  cases d <;> rfl

theorem eq_other_of_ne {d c : Dir} (h : c ≠ d) : c = d.other := by
  cases c <;> cases d <;> simp_all [Dir.other]

section

variable (d : Dir) (r v : BitVec 16)

/-- A write keeps a `CTR` bit where the value has it. -/
theorem hasCtr_setEpreg : hasCtr d (st103SetEpreg r v) = (hasCtr d r && hasCtr d v) := by
  rw [hasCtr_eq, hasCtr_eq, hasCtr_eq]
  cases d <;>
    simp [Dir.bit, st103SetEpreg, toggleBits, plainBits, epCtrRx, epCtrTx, epSetup]

theorem hasCtr_clearCtrValue : hasCtr d (clearCtrValue d r) = false := by
  rw [hasCtr_eq]
  cases d <;> simp [Dir.bit, clearCtrValue, Dir.ctr, epCtrRx, epCtrTx, epregMask]

/-- The bit of the other direction is written as it has been read. -/
theorem hasCtr_clearCtrValue_other :
    hasCtr d.other (clearCtrValue d r) = hasCtr d.other r := by
  rw [hasCtr_eq, hasCtr_eq]
  cases d <;> simp [Dir.bit, Dir.other, clearCtrValue, Dir.ctr, epCtrRx, epCtrTx, epregMask]

end

/-- All other functions write 1 to both bits. -/
theorem EpOp.hasCtr_value {op : EpOp} {r v : BitVec 16} (h : op.value r = some v) (d : Dir) :
    hasCtr d v = true := by
  rw [hasCtr_eq]
  cases op with
  | setRxtxStatus stRx stTx | setRxStatus stRx | setTxStatus stTx =>
      simp only [EpOp.value, Option.some.injEq] at h
      subst h
      cases d <;> simp [Dir.bit, epCtrRx, epCtrTx]
  | clearDtog c =>
      rw [EpOp.value] at h
      split at h
      · rw [Option.some.injEq] at h
        subst h
        cases d <;> simp [Dir.bit, epCtrRx, epCtrTx]
      · cases h

/-- The hardware leaves a set bit set. -/
theorem hasCtr_of_kept {r r' : BitVec 16} (h : r &&& (epCtrRx ||| epCtrTx) &&& ~~~r' = 0) {d : Dir}
    (hd : hasCtr d r = true) : hasCtr d r' = true := by
  have hbit : (r &&& (epCtrRx ||| epCtrTx) &&& ~~~r').getLsbD d.bit = false := by
    rw [h]
    exact BitVec.getLsbD_zero
  rw [hasCtr_eq] at hd ⊢
  cases d <;> simp [Dir.bit, epCtrRx, epCtrTx] at hbit hd ⊢ <;> exact hbit hd

/-! ## The window -/

/-- The hardware does not complete a transfer of one direction while the driver is between the
read and the write that clears the bit of the other direction of that endpoint. -/
def Undisturbed (s : RegState) : Access → Prop
  | .hardware n r =>
      ∀ d v, s.transfer = .clear n d v → hasCtr d.other r = hasCtr d.other (s.epreg n)
  | _ => True

/-- Every transfer that is not reported has its bit set. -/
def AllKept (s : RegState) : Prop :=
  ∀ n d, s.unreported n d = true → hasCtr d (s.epreg n) = true

/-- What every run keeps: the other calls write 1 to both bits, and what is about to be written
by `st103_ep_clear_ctr_rx` or `st103_ep_clear_ctr_tx` has a 0 for its own direction and no 1 for
the other one that the register has not. -/
structure RegInv (s : RegState) : Prop where
  calls : ∀ t n v, s.calls t = some (n, v) → ∀ d, hasCtr d v = true
  own : ∀ n d v, s.transfer = .clear n d v → hasCtr d v = false
  stale : ∀ n d v, s.transfer = .clear n d v → hasCtr d.other v = true →
    hasCtr d.other (s.epreg n) = true

/-- What is about to be written is not stale. -/
def Fresh (s : RegState) : Prop :=
  ∀ n d v, s.transfer = .clear n d v → hasCtr d.other v = hasCtr d.other (s.epreg n)

/-- What an access can do to the registers, to `usb_handle_transfer` and to what is not yet
reported. -/
inductive Effect (s : RegState) (a : Access) (s' : RegState) : Prop
  /-- The hardware changes a register. -/
  | hardware (n : Nat) (r : BitVec 16) (hact : a = .hardware n r)
      (hkept : s.epreg n &&& (epCtrRx ||| epCtrTx) &&& ~~~r = 0)
      (hreg : s'.epreg = Function.update s.epreg n r) (htransfer : s'.transfer = s.transfer)
      (hnew : ∀ m d, s'.unreported m d = true → s.unreported m d = true ∨ m = n ∧ hasCtr d r = true)
  /-- A value with both bits is written, or nothing. -/
  | quiet (hreg : ∀ n d, hasCtr d (s'.epreg n) = hasCtr d (s.epreg n))
      (htransfer : s'.transfer = s.transfer ∨ ∀ n d v, s'.transfer ≠ .clear n d v)
      (hnew : s'.unreported = s.unreported)
  /-- `usb_handle_transfer` reads the register that it is about to write. -/
  | read (n : Nat) (d : Dir) (hreg : s'.epreg = s.epreg)
      (htransfer : s'.transfer = .clear n d (clearCtrValue d (s.epreg n)))
      (hnew : s'.unreported = s.unreported)
  /-- It writes it, and reports the transfer. -/
  | report (n : Nat) (d : Dir) (v : BitVec 16) (hwin : s.transfer = .clear n d v)
      (hreg : s'.epreg = Function.update s.epreg n (st103SetEpreg (s.epreg n) v))
      (htransfer : s'.transfer = .idle)
      (hnew : s'.unreported = fun m c => s.unreported m c && !(m = n && c = d))

variable {s s' : RegState} {a : Access}

/-- **What one access does.** -/
theorem RegInv.effect (hi : RegInv s) (h : s.step a = .ok s') : Effect s a s' := by
  cases a with
  | hardware n r =>
      rw [RegState.step] at h
      split at h
      · rename_i hkept
        cases h
        refine .hardware n r rfl hkept rfl rfl ?_
        intro m d hnew
        rcases Bool.or_eq_true_iff.1 hnew with hold | hrise
        · exact .inl hold
        · simp only [Bool.and_eq_true, decide_eq_true_eq] at hrise
          exact .inr hrise.1
      · cases h
  | transfer n =>
      rw [RegState.step] at h
      split at h
      · cases h
        exact .quiet (fun _ _ => rfl) (.inr (by simp)) rfl
      · cases h
  | transferNext =>
      rw [RegState.step] at h
      split at h
      · cases h
      · rename_i n epValue _
        split at h
        · rename_i d _
          cases h
          exact .read n d rfl rfl rfl
        · cases h
          exact .quiet (fun _ _ => rfl) (.inr (by simp)) rfl
      · rename_i n d v hwin
        cases h
        exact .report n d v hwin rfl rfl rfl
  | call t n op =>
      rw [RegState.step] at h
      split at h
      · cases h
      · cases h
        exact .quiet (fun _ _ => rfl) (.inl rfl) rfl
  | callWrite t =>
      rw [RegState.step] at h
      split at h
      · cases h
      · rename_i n v hcall
        cases h
        refine .quiet ?_ (.inl rfl) rfl
        intro m d
        show hasCtr d (Function.update s.epreg n _ m) = _
        rcases eq_or_ne m n with rfl | hne
        · rw [Function.update_self, hasCtr_setEpreg, hi.calls t m v hcall d, Bool.and_true]
        · rw [Function.update_of_ne hne]

/-- The calls under way always write 1 to both bits. -/
theorem RegInv.calls_step (hi : RegInv s) (h : s.step a = .ok s') :
    ∀ t n v, s'.calls t = some (n, v) → ∀ d, hasCtr d v = true := by
  intro t n v ht d
  cases a with
  | call u m op =>
      rw [RegState.step] at h
      split at h
      · cases h
      · cases h
        rcases eq_or_ne t u with rfl | hne
        · have hval : (op.value (s.epreg m)).map (fun v => (m, v)) = some (n, v) := by
            simpa using ht
          obtain ⟨w, hw, heq⟩ := Option.map_eq_some_iff.1 hval
          cases heq
          exact EpOp.hasCtr_value hw d
        · exact hi.calls t n v (by simpa [Function.update_of_ne hne] using ht) d
  | callWrite u =>
      rw [RegState.step] at h
      split at h
      · cases h
      · cases h
        rcases eq_or_ne t u with rfl | hne
        · simp at ht
        · exact hi.calls t n v (by simpa [Function.update_of_ne hne] using ht) d
  | hardware m r | transfer m | transferNext =>
      rw [RegState.step] at h
      have hsame : s'.calls = s.calls := by
        repeat' split at h
        all_goals cases h
        all_goals rfl
      exact hi.calls t n v (hsame ▸ ht) d

theorem RegInv.step (hi : RegInv s) (h : s.step a = .ok s') : RegInv s' := by
  refine ⟨hi.calls_step h, ?_, ?_⟩
  · intro n d v hwin
    rcases hi.effect h with ⟨m, r, -, -, -, ht, -⟩ | ⟨-, ht | ht, -⟩ | ⟨m, c, -, ht, -⟩ |
      ⟨m, c, w, -, -, ht, -⟩
    · exact hi.own n d v (ht ▸ hwin)
    · exact hi.own n d v (ht ▸ hwin)
    · exact absurd hwin (ht n d v)
    · rw [ht] at hwin
      cases hwin
      exact hasCtr_clearCtrValue ..
    · rw [ht] at hwin
      cases hwin
  · intro n d v hwin hv
    rcases hi.effect h with ⟨m, r, -, hkept, hreg, ht, -⟩ | ⟨hreg, ht | ht, -⟩ |
      ⟨m, c, hreg, ht, -⟩ | ⟨m, c, w, -, -, ht, -⟩
    · have hold := hi.stale n d v (ht ▸ hwin) hv
      rw [hreg]
      rcases eq_or_ne n m with rfl | hne
      · rw [Function.update_self]
        exact hasCtr_of_kept hkept hold
      · rw [Function.update_of_ne hne]
        exact hold
    · rw [hreg]
      exact hi.stale n d v (ht ▸ hwin) hv
    · exact absurd hwin (ht n d v)
    · rw [ht] at hwin
      cases hwin
      rw [hreg]
      rwa [hasCtr_clearCtrValue_other] at hv
    · rw [ht] at hwin
      cases hwin

/-- **The step lemma.**  Where the hardware does not disturb the window, what is about to be
written stays fresh, and every transfer that is not reported keeps its bit. -/
theorem kept_step (hi : RegInv s) (hf : Fresh s) (hk : AllKept s) (hok : Undisturbed s a)
    (h : s.step a = .ok s') : Fresh s' ∧ AllKept s' := by
  rcases hi.effect h with ⟨n, r, rfl, hkept, hreg, ht, hnew⟩ | ⟨hreg, ht, hnew⟩ |
    ⟨n, d, hreg, ht, hnew⟩ | ⟨n, d, v, hwin, hreg, ht, hnew⟩
  · constructor
    · intro m c v hwin
      rw [ht] at hwin
      rw [hreg, hf m c v hwin]
      rcases eq_or_ne m n with rfl | hne
      · rw [Function.update_self, hok c v hwin]
      · rw [Function.update_of_ne hne]
    · intro m c hun
      rw [hreg]
      rcases eq_or_ne m n with rfl | hne
      · rw [Function.update_self]
        rcases hnew m c hun with hold | hrise
        · exact hasCtr_of_kept hkept (hk m c hold)
        · exact hrise.2
      · rw [Function.update_of_ne hne]
        exact hk m c ((hnew m c hun).resolve_right fun hrise => hne hrise.1)
  · constructor
    · intro m c v hwin
      rcases ht with ht | ht
      · rw [hreg]
        exact hf m c v (ht ▸ hwin)
      · exact absurd hwin (ht m c v)
    · intro m c hun
      rw [hreg]
      exact hk m c (hnew ▸ hun)
  · constructor
    · intro m c v hwin
      rw [ht] at hwin
      cases hwin
      rw [hreg]
      exact hasCtr_clearCtrValue_other ..
    · intro m c hun
      rw [hreg]
      exact hk m c (hnew ▸ hun)
  · constructor
    · intro m c w hwin'
      rw [ht] at hwin'
      cases hwin'
    · intro m c hun
      rw [hnew, Bool.and_eq_true] at hun
      have hbit := hk m c hun.1
      rw [hreg]
      rcases eq_or_ne m n with rfl | hne
      · -- what is reported now is not this direction, and the value has the bit of the other one
        have hc : c = d.other := eq_other_of_ne fun heq => by simp [heq] at hun
        subst hc
        rw [Function.update_self, hasCtr_setEpreg, hbit, hf m d v hwin, hbit]
        rfl
      · rw [Function.update_of_ne hne]
        exact hbit

/-- What the hardware completes in the window is lost: the write clears its bit, and it is not
reported. -/
theorem lost_in_window (hi : RegInv s) (hok : ¬ Undisturbed s a) (h : s.step a = .ok s') :
    ∃ s'', s'.step .transferNext = .ok s'' ∧ ¬ AllKept s'' := by
  cases a with
  | hardware n r =>
      rw [Undisturbed] at hok
      push Not at hok
      obtain ⟨d, v, hwin, hne⟩ := hok
      rw [RegState.step] at h
      split at h
      · rename_i hkept
        cases h
        have hbefore : hasCtr d.other (s.epreg n) = false := by
          cases hbit : hasCtr d.other (s.epreg n) with
          | false => rfl
          | true => exact absurd ((hasCtr_of_kept hkept hbit).trans hbit.symm) hne
        have hafter : hasCtr d.other r = true := by
          rw [hbefore] at hne
          exact Bool.ne_false_iff.1 hne
        have hstale : hasCtr d.other v = false := by
          cases hv : hasCtr d.other v with
          | false => rfl
          | true => exact absurd (hi.stale n d v hwin hv) (by simp [hbefore])
        have hother : d.other ≠ d := by cases d <;> decide
        refine ⟨_, by rw [RegState.step, hwin], fun hkeep => ?_⟩
        have hlost := hkeep n d.other (by simp [hafter, hbefore, hother])
        simp [hasCtr_setEpreg, hstale] at hlost
      · cases h
  | transfer n | transferNext | call t n op | callWrite t => exact absurd trivial hok

/-! ## The runs -/

theorem regInv_start (epreg : Nat → BitVec 16) : RegInv (.start epreg) := by
  refine ⟨?_, ?_, ?_⟩ <;> intro _ _ _ h <;> cases h

theorem regInv_of_reach {epreg : Nat → BitVec 16}
    (h : Reach RegState.step anyEvent (.start epreg) s) : RegInv s :=
  h.invariant (regInv_start epreg) fun _ _ _ hi _ hs => hi.step hs

/-- **No completed transfer is lost unless the hardware completes one in the window.**  In every
run in which the hardware completes no transfer of one direction of an endpoint between the read
and the write with which the driver clears the bit of the other direction, every transfer that
is not yet reported has its bit set.  And no such step may be added: the next write of
`usb_handle_transfer` loses the transfer. -/
theorem transfers_kept (epreg : Nat → BitVec 16) :
    (∀ s, Reach RegState.step Undisturbed (.start epreg) s → AllKept s) ∧
    ∀ s a s₁, Reach RegState.step anyEvent (.start epreg) s → ¬ Undisturbed s a →
      s.step a = .ok s₁ → ∃ s₂, s₁.step .transferNext = .ok s₂ ∧ ¬ AllKept s₂ := by
  constructor
  · intro s h
    have key : RegInv s ∧ Fresh s ∧ AllKept s := by
      refine h.invariant (P := fun s => RegInv s ∧ Fresh s ∧ AllKept s)
        ⟨regInv_start epreg, ?_, fun _ _ hun => hun⟩ ?_
      · intro n d v hwin
        cases hwin
      · rintro s a s' ⟨hi, hf, hk⟩ hok hs
        exact ⟨hi.step hs, kept_step hi hf hk hok hs⟩
    exact key.2.2
  · intro s a s₁ h hok hs
    exact lost_in_window (regInv_of_reach h) hok hs

/-- The test of `Undisturbed`. -/
def undisturbedTest (s : RegState) : Access → Bool
  | .hardware n r =>
      match s.transfer with
      | .clear m d _ => decide (m ≠ n) || hasCtr d.other r == hasCtr d.other (s.epreg n)
      | _ => true
  | _ => true

theorem undisturbed_of_test (h : undisturbedTest s a = true) : Undisturbed s a := by
  cases a with
  | hardware n r =>
      intro d v hwin
      simpa [undisturbedTest, hwin] using h
  | _ => trivial

/-- A transfer to the host is completed when `usb_handle_transfer` has begun with one from the
host, before it reads the register again: the first one is reported, and the bit of the second
one is kept.  Where the hardware completes it behind that read it is lost. -/
theorem transfers_kept_both :
    (∃ s : RegState, s.unreported 1 .rx = false ∧ s.unreported 1 .tx = true ∧ AllKept s) ∧
      ∃ s s₁ s₂ : RegState, s.step (.hardware 1 0xE0E1) = .ok s₁ ∧
        s₁.step .transferNext = .ok s₂ ∧ ¬ AllKept s₂ := by
  have hkeep : runTest RegState.step undisturbedTest
      (fun s => !s.unreported 1 .rx && s.unreported 1 .tx) (.start fun _ => 0x3031)
      [.hardware 1 0xE031, .transfer 1, .hardware 1 0xE0E1, .transferNext, .transferNext] =
        true := by
    decide +kernel
  have hlose : runTest RegState.step (fun _ _ => true)
      (fun s => decide (s.transfer = .clear 1 .rx 0x0001) && !hasCtr .tx (s.epreg 1) &&
        stepTest RegState.step (fun _ => true) s (.hardware 1 0xE0E1)) (.start fun _ => 0x3031)
      [.hardware 1 0xE031, .transfer 1, .transferNext] = true := by
    decide +kernel
  constructor
  · obtain ⟨s, hs, hp⟩ := reach_of_runTest hkeep
    rw [Bool.and_eq_true, Bool.not_eq_true'] at hp
    have hr := hs.mono fun _ _ => undisturbed_of_test
    exact ⟨s, hp.1, hp.2, (transfers_kept _).1 s hr⟩
  · obtain ⟨s, hs, hp⟩ := reach_any_of_runTest hlose
    rw [Bool.and_eq_true, Bool.and_eq_true, decide_eq_true_eq, Bool.not_eq_true'] at hp
    obtain ⟨⟨hwin, hclear⟩, hstep⟩ := hp
    obtain ⟨s₁, hs₁, -⟩ := of_stepTest hstep
    have hdisturbed : ¬ Undisturbed s (.hardware 1 0xE0E1) := fun hok => by
      have hsame := hok .rx _ hwin
      rw [show Dir.rx.other = .tx from rfl, hclear] at hsame
      exact absurd hsame (by decide)
    obtain ⟨s₂, hs₂, hlost⟩ := (transfers_kept _).2 s _ s₁ hs hdisturbed hs₁
    exact ⟨s, s₁, s₂, hs₁, hs₂, hlost⟩

/-- A transfer of endpoint 1 from the host is being handled when one to the host is completed:
the bit of the second one is cleared, and it is never reported. -/
theorem transfer_lost : ∃ s : RegState, Reach RegState.step anyEvent (.start fun _ => 0x3031) s ∧
    s.unreported 1 .tx = true ∧ hasCtr .tx (s.epreg 1) = false := by
  have hrun : runTest RegState.step (fun _ _ => true)
      (fun s => s.unreported 1 .tx && !hasCtr .tx (s.epreg 1)) (.start fun _ => 0x3031)
      [.hardware 1 0xE031, .transfer 1, .transferNext, .hardware 1 0xE0E1, .transferNext] =
        true := by
    decide +kernel
  obtain ⟨s, hs, hp⟩ := reach_any_of_runTest hrun
  rw [Bool.and_eq_true, Bool.not_eq_true'] at hp
  exact ⟨s, hs, hp⟩

end Chopstx.Usb.Stm32f103
