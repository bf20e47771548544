import Chopstx.Sys.Stm32f103

/-!
# Writing to the flash memory

The loop of `flash_write` stores the halfwords of the buffer one after the other, and ends with
the buffer, if its length is even and the end of the range is no more than 32 bits.  An odd
length counts down past 0 and never ends; a range that wraps around passes the test, and
the loop walks over everything that follows.

* `halfwords`, `WriteRight` - the halfwords of a buffer, and what the function promises.
* `LoopAt`, `LoopAt.next`, `LoopAt.iterate` - the state of the loop after some rounds, by induction.
* `LoopAt.stored` - what the loop has stored by then.
* `writeRight_of_fits` - the promise is kept in the ranges that fit (`Fits`).
* `flashProgramHalfword_eq_zero_iff`, `flashErasePage_eq_zero_iff` - what the routines of the
  controller return.
* `written_ret` - `flash_write` returns 1 if and only if nothing troubled it (`Untroubled`).
* `odd_not_ends`, `wrap_stored` - an odd length, and a range that wraps around.
* `flashWrite_right_iff` - the result, and `flashWrite_wrong` two ranges that do not fit.
-/

namespace Chopstx.Sys.Stm32f103

variable {sizeKb : BitVec 16} {dstAddr len : BitVec 32} {src : Nat → BitVec 8} {f : Flash}
  {n : Nat} {w : Write}

/-! ## What is asked for -/

/-- The first `n` halfwords of the buffer, and where they belong. -/
def halfwords (dstAddr : BitVec 32) (src : Nat → BitVec 8) (n : Nat) :
    List (BitVec 32 × BitVec 16) :=
  (List.range n).map fun i => (dstAddr + BitVec.ofNat 32 (2 * i), halfword src (2 * i))

/-- The call of `flash_write` after `n` rounds of its loop; nothing was stored before. -/
def written (sizeKb : BitVec 16) (dstAddr : BitVec 32) (src : Nat → BitVec 8) (len : BitVec 32)
    (f : Flash) (n : Nat) : Write :=
  (Write.next src)^[n] (flashWrite sizeKb dstAddr len { f with stored := [] })

/-- **What `flash_write` promises.** -/
structure WriteRight (sizeKb : BitVec 16) (dstAddr : BitVec 32) (src : Nat → BitVec 8)
    (len : BitVec 32) (f : Flash) : Prop where
  ends : ∃ n r f', written sizeKb dstAddr src len f n = .ret r f'
  inFlash : ∀ n, ∀ e ∈ (written sizeKb dstAddr src len f n).flash.stored,
    flashStart.toNat ≤ e.1.toNat ∧ e.1.toNat + 2 ≤ (flashEnd sizeKb).toNat
  /-- The length is rounded up to a whole halfword. -/
  inBuffer : ∀ n, ∀ e ∈ (written sizeKb dstAddr src len f n).flash.stored,
    dstAddr.toNat ≤ e.1.toNat ∧ e.1.toNat + 2 ≤ dstAddr.toNat + (len.toNat + 1) / 2 * 2
  programmed : ∀ n f', written sizeKb dstAddr src len f n = .ret 1 f' →
    f'.stored = halfwords dstAddr src ((len.toNat + 1) / 2)

/-- The range is rejected, or it is made of whole halfwords and does not wrap around. -/
def Fits (sizeKb : BitVec 16) (dstAddr len : BitVec 32) : Prop :=
  dstAddr < flashStart ∨ flashEnd sizeKb < dstAddr + len ∨
    len.toNat % 2 = 0 ∧ dstAddr.toNat + len.toNat < 2 ^ 32

instance : Decidable (Fits sizeKb dstAddr len) :=
  inferInstanceAs (Decidable (_ ∨ _ ∨ _ ∧ _))

/-! ## The loop -/

theorem halfwords_succ : halfwords dstAddr src (n + 1) = halfwords dstAddr src n ++
    [(dstAddr + BitVec.ofNat 32 (2 * n), halfword src (2 * n))] := by
  rw [halfwords, List.range_succ, List.map_append]
  rfl

/-- The loop after `n` halfwords of a buffer of whole halfwords. -/
inductive LoopAt (dstAddr : BitVec 32) (src : Nat → BitVec 8) (len : BitVec 32) : Write → Prop
  | loop {n : Nat} {f : Flash} (hn : 2 * n ≤ len.toNat) (hs : f.stored = halfwords dstAddr src n) :
      LoopAt dstAddr src len (.loop (dstAddr + BitVec.ofNat 32 (2 * n)) (2 * n)
        (len - BitVec.ofNat 32 (2 * n)) f)
  | done {f : Flash} (hs : f.stored = halfwords dstAddr src (len.toNat / 2)) :
      LoopAt dstAddr src len (.ret 1 f)
  | failed {n : Nat} {f : Flash} (hn : 2 * n ≤ len.toNat)
      (hs : f.stored = halfwords dstAddr src n) : LoopAt dstAddr src len (.ret 0 f)

theorem left_toNat (hn : 2 * n ≤ len.toNat) :
    (len - BitVec.ofNat 32 (2 * n)).toNat = len.toNat - 2 * n := by
  have hlt := len.isLt
  rw [BitVec.toNat_sub, BitVec.toNat_ofNat]
  omega

/-- One round of the loop. -/
theorem LoopAt.next (heven : len.toNat % 2 = 0) (h : LoopAt dstAddr src len w) :
    LoopAt dstAddr src len (w.next src) := by
  cases h with
  | done hs => exact .done hs
  | failed hn hs => exact .failed hn hs
  | loop hn hs =>
      rename_i n f
      have hleft := left_toNat hn
      rw [Write.next]
      split
      · rename_i hz
        rw [hz] at hleft
        have hlen : len.toNat / 2 = n := by
          simp only [BitVec.toNat_ofNat, Nat.zero_mod] at hleft
          omega
        exact .done (hlen ▸ hs)
      · rename_i hz
        have hpos : 2 * n ≠ len.toNat := by
          intro heq
          refine hz (BitVec.eq_of_toNat_eq ?_)
          rw [hleft, heq, Nat.sub_self]
          rfl
        have hn' : 2 * (n + 1) ≤ len.toNat := by omega
        have hst := flashProgramHalfword_stored f (dstAddr + BitVec.ofNat 32 (2 * n))
          (halfword src (2 * n))
        rw [hs, ← halfwords_succ] at hst
        dsimp only
        split
        · rcases hst with hst | ⟨hst, -⟩
          · exact .failed hn' hst
          · exact .failed hn hst
        · rename_i hok
          rw [not_not] at hok
          have hst := hst.resolve_right fun h => h.2 hok
          have hadd : BitVec.ofNat 32 (2 * (n + 1)) = BitVec.ofNat 32 (2 * n) + 2#32 := by
            rw [Nat.mul_succ, BitVec.ofNat_add]
          have hsub : len - (BitVec.ofNat 32 (2 * n) + 2#32) =
              len - BitVec.ofNat 32 (2 * n) - 2#32 := by bv_omega
          have hloop := LoopAt.loop hn' hst
          rw [hadd, Nat.mul_succ, ← BitVec.add_assoc, hsub] at hloop
          exact hloop

theorem LoopAt.iterate (heven : len.toNat % 2 = 0) (h : LoopAt dstAddr src len w) (n : Nat) :
    LoopAt dstAddr src len ((Write.next src)^[n] w) := by
  induction n with
  | zero => exact h
  | succ n ih =>
      rw [Function.iterate_succ_apply']
      exact ih.next heven

/-- A length of whole halfwords comes down to 0. -/
theorem ends_of_even (src : Nat → BitVec 8) (dstAddr : BitVec 32) (i : Nat) (f : Flash) {k : Nat}
    (hk : len.toNat = 2 * k) :
    ∃ n r f', (Write.next src)^[n] (.loop dstAddr i len f) = .ret r f' := by
  induction k generalizing dstAddr i len f with
  | zero =>
      have hz : len = 0#32 := BitVec.eq_of_toNat_eq hk
      exact ⟨1, 1, f, by simp [Write.next, hz]⟩
  | succ k ih =>
      have hz : len ≠ 0#32 := by
        rintro rfl
        simp at hk
      by_cases hst : (flashProgramHalfword f dstAddr (halfword src i)).1 = 0#32
      · have hlen : (len - 2#32).toNat = 2 * k := by
          have hleft : (len - 2#32).toNat = len.toNat - 2 * 1 := left_toNat (n := 1) (by omega)
          omega
        obtain ⟨n, r, f', hn⟩ := ih (dstAddr + 2#32) (i + 2)
          (flashProgramHalfword f dstAddr (halfword src i)).2 hlen
        refine ⟨n + 1, r, f', ?_⟩
        rw [Function.iterate_succ_apply, Write.next, if_neg hz]
        simp only [hst, ne_eq, not_true, if_false]
        exact hn
      · refine ⟨1, 0, (flashProgramHalfword f dstAddr (halfword src i)).2, ?_⟩
        simp [Write.next, hz, hst]

theorem mem_halfwords {e : BitVec 32 × BitVec 16} (h : e ∈ halfwords dstAddr src n) :
    ∃ i, i < n ∧ e.1 = dstAddr + BitVec.ofNat 32 (2 * i) := by
  obtain ⟨i, hi, rfl⟩ := List.mem_map.1 h
  exact ⟨i, List.mem_range.1 hi, rfl⟩

/-- What was stored is part of the buffer. -/
theorem LoopAt.stored (h : LoopAt dstAddr src len w) :
    ∃ n, 2 * n ≤ len.toNat ∧ w.flash.stored = halfwords dstAddr src n := by
  cases h with
  | loop hn hs => exact ⟨_, hn, hs⟩
  | done hs => exact ⟨_, by omega, hs⟩
  | failed hn hs => exact ⟨_, hn, hs⟩

/-- A range that is rejected. -/
theorem written_of_rejected (src : Nat → BitVec 8) (f : Flash) (n : Nat)
    (h : dstAddr < flashStart ∨ flashEnd sizeKb < dstAddr + len) :
    written sizeKb dstAddr src len f n = .ret 0 { f with stored := [] } := by
  rw [written, flashWrite, if_pos h]
  induction n with
  | zero => rfl
  | succ n ih => rw [Function.iterate_succ_apply', ih, Write.next]

/-- A range of whole halfwords that is not rejected. -/
theorem written_loopAt (src : Nat → BitVec 8) (f : Flash) (n : Nat)
    (h : ¬ (dstAddr < flashStart ∨ flashEnd sizeKb < dstAddr + len))
    (heven : len.toNat % 2 = 0) :
    LoopAt dstAddr src len (written sizeKb dstAddr src len f n) := by
  rw [written, flashWrite, if_neg h]
  refine LoopAt.iterate heven ?_ n
  have hloop : LoopAt dstAddr src len (.loop (dstAddr + BitVec.ofNat 32 (2 * 0)) (2 * 0)
      (len - BitVec.ofNat 32 (2 * 0)) { f with stored := [] }) := .loop (Nat.zero_le _) rfl
  simpa using hloop

/-- **`flash_write` keeps its promise** in the ranges that fit. -/
theorem writeRight_of_fits (h : Fits sizeKb dstAddr len) :
    WriteRight sizeKb dstAddr src len f := by
  by_cases hrej : dstAddr < flashStart ∨ flashEnd sizeKb < dstAddr + len
  · have hw := fun n => written_of_rejected src f n hrej
    refine ⟨⟨0, _, _, hw 0⟩, fun n e he => ?_, fun n e he => ?_, fun n f' hn => ?_⟩
    · rw [hw n] at he
      cases he
    · rw [hw n] at he
      cases he
    · rw [hw n] at hn
      cases hn
  · obtain ⟨heven, hwrap⟩ : len.toNat % 2 = 0 ∧ dstAddr.toNat + len.toNat < 2 ^ 32 := by
      rcases h with h | h | h
      · exact absurd (.inl h) hrej
      · exact absurd (.inr h) hrej
      · exact h
    have hat := fun n => written_loopAt src f n hrej heven
    have hends : ∃ n r f', written sizeKb dstAddr src len f n = .ret r f' := by
      obtain ⟨n, r, f', hn⟩ := ends_of_even src dstAddr 0 { f with stored := [] }
        (show len.toNat = 2 * (len.toNat / 2) by omega)
      exact ⟨n, r, f', by rw [written, flashWrite, if_neg hrej, hn]⟩
    rw [not_or, BitVec.not_lt, BitVec.not_lt, BitVec.le_def, BitVec.le_def, BitVec.toNat_add,
      Nat.mod_eq_of_lt hwrap] at hrej
    have hmem : ∀ n, ∀ e ∈ (written sizeKb dstAddr src len f n).flash.stored,
        ∃ i, 2 * i + 2 ≤ len.toNat ∧ e.1.toNat = dstAddr.toNat + 2 * i := by
      intro n e he
      obtain ⟨m, hm, hs⟩ := (hat n).stored
      rw [hs] at he
      obtain ⟨i, hi, he⟩ := mem_halfwords he
      refine ⟨i, by omega, ?_⟩
      rw [he, BitVec.toNat_add, BitVec.toNat_ofNat]
      omega
    refine ⟨hends, fun n e he => ?_, fun n e he => ?_, fun n f' hn => ?_⟩
    · obtain ⟨i, hi, he⟩ := hmem n e he
      omega
    · obtain ⟨i, hi, he⟩ := hmem n e he
      omega
    · have hdone := hat n
      rw [hn] at hdone
      cases hdone with
      | done hs => rw [hs, show (len.toNat + 1) / 2 = len.toNat / 2 by omega]

/-! ## What is returned -/

/-- Within this many reads the controller is found not to be busy, and it reports no error then. -/
def Flash.Settles (timeout : Nat) (f : Flash) : Prop :=
  ∃ k, k < timeout ∧ (∀ j, j < k → f.sr (f.reads + j) &&& flashSrBsy ≠ 0#32) ∧
    f.sr (f.reads + k) &&& (flashSrBsy ||| flashSrPgerr ||| flashSrWrprterr) = 0#32

/-- The controller settles before an operation, and again after it. -/
def Flash.Carries (timeout : Nat) (f : Flash) : Prop :=
  f.Settles timeout ∧ (flashWaitForLastOperation timeout f).2.Settles timeout

/-- The range is accepted, and the controller carries out every operation that it is given. -/
def Untroubled (sizeKb : BitVec 16) (dstAddr : BitVec 32) (src : Nat → BitVec 8)
    (len : BitVec 32) (f : Flash) : Prop :=
  ¬ (dstAddr < flashStart ∨ flashEnd sizeKb < dstAddr + len) ∧
    ∀ n addr i left g, written sizeKb dstAddr src len f n = .loop addr i left g → left ≠ 0#32 →
      g.Carries flashProgramTimeout

theorem not_busy_of_status {status : BitVec 32}
    (h : status &&& (flashSrBsy ||| flashSrPgerr ||| flashSrWrprterr) = 0#32) :
    status &&& flashSrBsy = 0#32 := by
  have hmask : flashSrBsy = (flashSrBsy ||| flashSrPgerr ||| flashSrWrprterr) &&& flashSrBsy := by
    decide
  rw [hmask, ← BitVec.and_assoc, h, BitVec.zero_and]

/-- `flash_wait_for_last_operation` gives 0 when the controller settles. -/
theorem flashWait_eq_zero_iff {timeout : Nat} (ht : timeout ≠ 0) (f : Flash) :
    (flashWaitForLastOperation timeout f).1 = 0#32 ↔ f.Settles timeout := by
  induction timeout generalizing f with
  | zero => exact absurd rfl ht
  | succ timeout ih =>
      rw [flashWaitForLastOperation]
      by_cases hlast : timeout = 0 ∨ f.sr f.reads &&& flashSrBsy = 0#32
      · rw [if_pos hlast]
        constructor
        · intro h
          exact ⟨0, Nat.succ_pos _, fun j hj => absurd hj j.not_lt_zero, h⟩
        · rintro ⟨k, hlt, hk, h⟩
          cases k with
          | zero => exact h
          | succ k =>
              rcases hlast with rfl | hbusy
              · omega
              · exact absurd hbusy (hk 0 k.succ_pos)
      · rw [if_neg hlast]
        obtain ⟨hne, hbusy⟩ := not_or.1 hlast
        rw [ih hne]
        constructor
        · rintro ⟨k, hlt, hk, h⟩
          refine ⟨k + 1, Nat.succ_lt_succ hlt, fun j hj => ?_, ?_⟩
          · cases j with
            | zero => exact hbusy
            | succ j =>
                have hj' := hk j (Nat.lt_of_succ_lt_succ hj)
                rwa [Nat.add_assoc, Nat.add_comm 1] at hj'
          · rwa [Nat.add_assoc, Nat.add_comm 1] at h
        · rintro ⟨k, hlt, hk, h⟩
          cases k with
          | zero => exact absurd (not_busy_of_status h) hbusy
          | succ k =>
              refine ⟨k, Nat.lt_of_succ_lt_succ hlt, fun j hj => ?_, ?_⟩
              · have hj' := hk (j + 1) (Nat.succ_lt_succ hj)
                rwa [Nat.add_comm j, ← Nat.add_assoc] at hj'
              · rwa [Nat.add_comm k, ← Nat.add_assoc] at h

/-- `flash_program_halfword` returns 0 when the operation is carried out. -/
theorem flashProgramHalfword_eq_zero_iff (f : Flash) (addr : BitVec 32) (data : BitVec 16) :
    (flashProgramHalfword f addr data).1 = 0#32 ↔ f.Carries flashProgramTimeout := by
  have hwait := @flashWait_eq_zero_iff flashProgramTimeout (by decide)
  rw [flashProgramHalfword, Flash.Carries, ← hwait f]
  split
  · rename_i h
    exact (hwait _).trans (and_iff_right h).symm
  · rename_i h
    exact iff_of_false h fun hc => h hc.1

/-- `flash_erase_page` returns 0 when the operation is carried out. -/
theorem flashErasePage_eq_zero_iff (f : Flash) (addr : BitVec 32) :
    (flashErasePage f addr).1 = 0#32 ↔ f.Carries flashEraseTimeout := by
  have hwait := @flashWait_eq_zero_iff flashEraseTimeout (by decide)
  rw [flashErasePage, Flash.Carries, ← hwait f]
  split
  · rename_i h
    exact (hwait _).trans (and_iff_right h).symm
  · rename_i h
    exact iff_of_false h fun hc => h hc.1

theorem written_succ (n : Nat) : written sizeKb dstAddr src len f (n + 1) =
    (written sizeKb dstAddr src len f n).next src :=
  Function.iterate_succ_apply' _ _ _

/-- A call that has returned stays so. -/
theorem written_ret_le {m r : Nat} {f' : Flash} (hmn : n ≤ m)
    (h : written sizeKb dstAddr src len f n = .ret r f') :
    written sizeKb dstAddr src len f m = .ret r f' := by
  induction hmn with
  | refl => exact h
  | step _ ih => rw [written_succ, ih, Write.next]

/-- A round does not come after the call has returned. -/
theorem loop_before_ret {m r i : Nat} {f' g : Flash} {addr left : BitVec 32}
    (h : written sizeKb dstAddr src len f n = .ret r f')
    (hm : written sizeKb dstAddr src len f m = .loop addr i left g) : m < n := by
  by_contra hnm
  rw [written_ret_le (not_lt.1 hnm) h] at hm
  cases hm

/-- The call returns on an error. -/
theorem written_error {i : Nat} {g : Flash} {addr left : BitVec 32}
    (hn : written sizeKb dstAddr src len f n = .loop addr i left g) (hleft : left ≠ 0#32)
    (herr : (flashProgramHalfword g addr (halfword src i)).1 ≠ 0#32) :
    written sizeKb dstAddr src len f (n + 1) =
      .ret 0 (flashProgramHalfword g addr (halfword src i)).2 := by
  rw [written_succ, hn, Write.next, if_neg hleft]
  exact if_pos herr

/-- **`flash_write` returns 1 when nothing troubled it, and 0 otherwise.** -/
theorem written_ret {r : Nat} {f' : Flash} (h : written sizeKb dstAddr src len f n = .ret r f') :
    (r = 1 ∧ Untroubled sizeKb dstAddr src len f) ∨
      (r = 0 ∧ ¬ Untroubled sizeKb dstAddr src len f) := by
  induction n with
  | zero =>
      rw [written, Function.iterate_zero, id, flashWrite] at h
      split at h
      · rename_i hrej
        cases h
        exact .inr ⟨rfl, fun hu => hu.1 hrej⟩
      · cases h
  | succ n ih =>
      have hstep := h
      rw [written_succ] at hstep
      cases hn : written sizeKb dstAddr src len f n with
      | ret r₁ f₁ =>
          rw [hn, Write.next] at hstep
          exact ih (hn.trans hstep)
      | loop addr i left g =>
          rw [hn, Write.next] at hstep
          split at hstep
          · -- the end of the buffer: all rounds before this one went on
            rename_i hleft
            cases hstep
            refine .inl ⟨rfl, fun hrej => ?_, fun m addr' i' left' g' hm hne => ?_⟩
            · have hzero : written sizeKb dstAddr src len f 0 = .ret 0 { f with stored := [] } :=
                if_pos hrej
              rw [written_ret_le n.zero_le hzero] at hn
              cases hn
            · rw [← flashProgramHalfword_eq_zero_iff g' addr' (halfword src i')]
              by_contra herr
              have hlt := loop_before_ret (written_error hm hne herr) hn
              have hle : m ≤ n := Nat.le_of_lt_succ (loop_before_ret h hm)
              obtain rfl : m = n := by omega
              rw [hn] at hm
              cases hm
              exact hne hleft
          · rename_i hleft
            simp only at hstep
            split at hstep
            · rename_i herr
              cases hstep
              refine .inr ⟨rfl, fun hu => herr ?_⟩
              rw [flashProgramHalfword_eq_zero_iff]
              exact hu.2 n addr i left g hn hleft
            · cases hstep

/-! ## Where the promise is broken -/

/-- A controller that never fails stores halfword after halfword, as long as the length does not
come to 0. -/
theorem quiet_loop (dstAddr : BitVec 32) (src : Nat → BitVec 8) (n : Nat) (hq : f.Quiet)
    (h : ∀ i, i < n → len - BitVec.ofNat 32 (2 * i) ≠ 0#32) :
    ∃ f', f'.Quiet ∧ f'.stored = f.stored ++ halfwords dstAddr src n ∧
      (Write.next src)^[n] (.loop dstAddr 0 len f) = .loop (dstAddr + BitVec.ofNat 32 (2 * n))
        (2 * n) (len - BitVec.ofNat 32 (2 * n)) f' := by
  induction n with
  | zero => exact ⟨f, hq, by simp [halfwords], by simp⟩
  | succ n ih =>
      obtain ⟨f', hq', hs, hn⟩ := ih fun i hi => h i (Nat.lt_succ_of_lt hi)
      obtain ⟨hok, hst, hq''⟩ := hq'.program (dstAddr + BitVec.ofNat 32 (2 * n))
        (halfword src (2 * n))
      refine ⟨_, hq'', ?_, ?_⟩
      · rw [hst, hs, halfwords_succ, List.append_assoc]
      · have hadd : BitVec.ofNat 32 (2 * (n + 1)) = BitVec.ofNat 32 (2 * n) + 2#32 := by
          rw [Nat.mul_succ, BitVec.ofNat_add]
        have hsub : len - (BitVec.ofNat 32 (2 * n) + 2#32) =
            len - BitVec.ofNat 32 (2 * n) - 2#32 := by bv_omega
        rw [Function.iterate_succ_apply', hn, Write.next, if_neg (h n n.lt_succ_self)]
        simp only [hok, ne_eq, not_true, if_false]
        rw [hadd, hsub, Nat.mul_succ, ← BitVec.add_assoc]

/-- An odd length never comes down to 0. -/
theorem odd_ne_zero (hodd : len.toNat % 2 = 1) (i : Nat) :
    len - BitVec.ofNat 32 (2 * i) ≠ 0#32 := by
  intro hz
  have hnat := congrArg BitVec.toNat hz
  rw [BitVec.toNat_sub, BitVec.toNat_ofNat, BitVec.toNat_ofNat] at hnat
  have hlt := len.isLt
  omega

/-- With an odd length the loop does not end. -/
theorem odd_not_ends (hrej : ¬ (dstAddr < flashStart ∨ flashEnd sizeKb < dstAddr + len))
    (hodd : len.toNat % 2 = 1) (hq : f.Quiet) :
    ¬ ∃ n r f', written sizeKb dstAddr src len f n = .ret r f' := by
  rintro ⟨n, r, f', hn⟩
  obtain ⟨f₁, -, -, hn'⟩ := quiet_loop dstAddr src n (f := { f with stored := [] }) hq
    fun i _ => odd_ne_zero hodd i
  rw [written, flashWrite, if_neg hrej, hn'] at hn
  cases hn

/-- In a range that wraps around the last halfword of the address space is stored. -/
theorem wrap_stored (src : Nat → BitVec 8)
    (hrej : ¬ (dstAddr < flashStart ∨ flashEnd sizeKb < dstAddr + len))
    (heven : len.toNat % 2 = 0) (hwrap : 2 ^ 32 ≤ dstAddr.toNat + len.toNat) (hq : f.Quiet) :
    ∃ n, ∃ e ∈ (written sizeKb dstAddr src len f n).flash.stored, 2 ^ 32 ≤ e.1.toNat + 2 := by
  have hdst := dstAddr.isLt
  set i := (2 ^ 32 - 1 - dstAddr.toNat) / 2 with hi
  have hne : ∀ j, j < i + 1 → len - BitVec.ofNat 32 (2 * j) ≠ 0#32 := by
    intro j hj hz
    have hleft : _ = len.toNat - 2 * j := left_toNat (by omega)
    rw [hz] at hleft
    simp at hleft
    omega
  obtain ⟨f₁, -, hs, hn⟩ := quiet_loop dstAddr src (i + 1) (f := { f with stored := [] }) hq hne
  refine ⟨i + 1, (dstAddr + BitVec.ofNat 32 (2 * i), halfword src (2 * i)), ?_, ?_⟩
  · rw [written, flashWrite, if_neg hrej, hn, Write.flash, hs, halfwords_succ]
    simp
  · rw [BitVec.toNat_add, BitVec.toNat_ofNat]
    omega

/-- **`flash_write` keeps its promise, whatever the controller does, if and only if the range
fits.** -/
theorem flashWrite_right_iff (sizeKb : BitVec 16) (dstAddr len : BitVec 32)
    (src : Nat → BitVec 8) :
    (∀ f, WriteRight sizeKb dstAddr src len f) ↔ Fits sizeKb dstAddr len := by
  refine ⟨fun h => ?_, fun h f => writeRight_of_fits h⟩
  by_contra hfits
  rw [Fits, not_or, not_or] at hfits
  obtain ⟨hstart, hend, hfit⟩ := hfits
  have hrej : ¬ (dstAddr < flashStart ∨ flashEnd sizeKb < dstAddr + len) := by
    rintro (h' | h')
    · exact hstart h'
    · exact hend h'
  have hright := h { sr := fun _ => 0#32 }
  rcases Nat.mod_two_eq_zero_or_one len.toNat with heven | hodd
  · have hwrap : 2 ^ 32 ≤ dstAddr.toNat + len.toNat := by
      by_contra hwrap
      exact hfit ⟨heven, by omega⟩
    obtain ⟨n, e, he, hlast⟩ := wrap_stored src hrej heven hwrap
      (f := { sr := fun _ => 0#32 }) fun _ => rfl
    have hin := (hright.inFlash n e he).2
    have hlt := (flashEnd sizeKb).isLt
    omega
  · exact odd_not_ends hrej hodd (fun _ => rfl) hright.ends

/-- A single byte at the start of a memory of 128 KiB is written without end, and two bytes at
the end of the address space are accepted. -/
theorem flashWrite_wrong :
    ¬ WriteRight 128#16 0x08001000#32 (fun _ => 0#8) 1#32 { sr := fun _ => 0#32 } ∧
      ¬ WriteRight 128#16 0xfffffffe#32 (fun _ => 0#8) 2#32 { sr := fun _ => 0#32 } := by
  constructor
  · intro h
    exact odd_not_ends (by decide) (by decide) (fun _ => rfl) h.ends
  · intro h
    have hrej : ¬ (0xfffffffe#32 < flashStart ∨ flashEnd 128#16 < 0xfffffffe#32 + 2#32) := by
      decide
    obtain ⟨n, e, he, hlast⟩ := wrap_stored (fun _ => 0#8) hrej (by decide) (by decide)
      (f := { sr := fun _ => 0#32 }) fun _ => rfl
    have hin := (h.inFlash n e he).2
    have hend : (flashEnd 128#16).toNat = 134348800 := by decide
    omega

end Chopstx.Sys.Stm32f103
