import Chopstx.Sync.Eventflag

/-!
# Wake-ups of an eventflag

`chopstx_cond_signal` wakes one thread, whatever number of flags there is.  As long as there
are not more flags than threads that are about to take one, no wake-up is lost: the threads in
the calls have weights, and the number of visible flags is at most their sum.

* `State.acting`, `State.waking`, `State.blocked` - the threads that are about to take a flag or to
  wake one that does, and those that sleep.
* `Lost`, `Kept` - a wake-up that is lost, and the condition under which none is.
* `Inv`, `Inv.exec`, `Inv.step` - the flags are at most as many as the threads that act.
* `eventflag_wakes` - the result about runs, and `eventflag_wakes_two` one with two threads.
* `wakeup_lost` - a run that sets two flags at once.
-/

namespace Chopstx.Eventflag

open Transition

/-! ## The law -/

/-- The number of flags in a mask. -/
def count (x : BitVec 32) : Nat :=
  Weight.total (fun b : Bool => b.toNat) fun i : Fin 32 => x.getLsbD i

/-- Threads that take a flag or wake another thread, if they find one: 1 for each thread in a
call which is not blocked, until it has done so. -/
def Point.acts : Point → Nat
  | .setMask _ | .signal _ | .test | .condSignal | .waitTest | .take => 1
  | .unlock _ => 0

def Pc.acts : Pc → Nat
  | .idle | .blocked => 0
  | .lock p | .inside p => p.acts

/-- Among them the threads that wake another one. -/
def Point.wakes : Point → Nat
  | .setMask _ | .signal _ | .test | .condSignal => 1
  | .waitTest | .take | .unlock _ => 0

def Pc.wakes : Pc → Nat
  | .idle | .blocked => 0
  | .lock p | .inside p => p.wakes

/-- Blocked threads. -/
def Pc.blocks : Pc → Nat
  | .blocked => 1
  | _ => 0

variable {n : Nat}

/-- The number of threads about to take a flag or to wake another thread, of those about to
wake another thread, and of those that are blocked. -/
def State.acting (s : State n) : Nat := Weight.total Pc.acts s.pc
def State.waking (s : State n) : Nat := Weight.total Pc.wakes s.pc
def State.blocked (s : State n) : Nat := Weight.total Pc.blocks s.pc

/-- A wake-up is lost: the mutex is free, no thread is in a call but those that are blocked, and
one is blocked while there is a flag that is not masked. -/
def Lost (s : State n) : Prop :=
  s.owner = none ∧ (∀ t, s.pc t = .idle ∨ s.pc t = .blocked) ∧ s.visible ≠ 0 ∧
    ∃ t, s.pc t = .blocked

/-- There are no more flags in `x` than threads about to take one or to wake a thread, or no
more threads are blocked than will be woken. -/
def State.Enough (s : State n) (x : BitVec 32) : Prop :=
  count x ≤ s.acting ∨ s.blocked ≤ s.waking

/-- The flags that are visible after `ev->mask = m` and after `ev->flags |= m`. -/
def State.changed (s : State n) : Pc → Option (BitVec 32)
  | .inside (.setMask m) => some (s.flags &&& m)
  | .inside (.signal m) => some ((s.flags ||| m) &&& s.mask)
  | _ => none

/-- The steps that lose no wake-up: where `eventflag_signal` or `eventflag_set_mask` changes
the flags or the mask, there are enough threads for the flags that are visible then. -/
def Kept (s : State n) : Action n → Prop
  | .run t _ => ∀ x ∈ s.changed (s.pc t), s.Enough x
  | .call _ _ => True

/-! ## Flags -/

section

variable {x y : BitVec 32}

theorem count_eq_zero_iff : count x = 0 ↔ x = 0 := by
  rw [count, Weight.total_eq_zero_iff]
  constructor
  · intro h
    apply BitVec.eq_of_getLsbD_eq
    intro i hi
    have hbit := h ⟨i, hi⟩
    rw [Bool.toNat_eq_zero] at hbit
    exact hbit.trans BitVec.getLsbD_zero.symm
  · rintro rfl i
    exact congrArg Bool.toNat BitVec.getLsbD_zero

/-- One flag is cleared. -/
theorem count_clear {i : Fin 32} (hi : x.getLsbD i = true) :
    count (x &&& ~~~(1#32 <<< (i : Nat))) + 1 = count x := by
  have hbits : (fun j : Fin 32 => (x &&& ~~~(1#32 <<< (i : Nat))).getLsbD j) =
      Function.update (fun j : Fin 32 => x.getLsbD j) i false := by
    funext j
    have hone : 1#32 <<< (i : Nat) = BitVec.twoPow 32 i := (BitVec.twoPow_eq ..).symm
    rw [Function.update_apply, BitVec.getLsbD_and, BitVec.getLsbD_not, hone,
      BitVec.getLsbD_twoPow, decide_eq_true j.isLt, Bool.true_and]
    by_cases hj : j = i
    · subst hj
      simp
    · have hne : ¬ (i : Nat) = j := fun he => hj (Fin.ext he.symm)
      simp [hj, hne]
  have hsum := Weight.total_update (w := fun b : Bool => b.toNat)
    (f := fun j : Fin 32 => x.getLsbD j) (i := i) (x := false)
  rw [hi, Bool.toNat_true, Bool.toNat_false, add_zero] at hsum
  rw [count, count, hbits, hsum]

/-- `__builtin_ffs` gives a flag, if there is one. -/
theorem ffs_spec (hx : x ≠ 0) : ∃ i : Fin 32, ffs x = i + 1 ∧ x.getLsbD i = true := by
  rw [ffs]
  cases hf : (List.finRange 32).find? fun i : Fin 32 => x.getLsbD i with
  | some i =>
      have hi := List.find?_some hf
      exact ⟨i, rfl, hi⟩
  | none =>
      refine absurd (BitVec.eq_of_getLsbD_eq fun i hi => ?_) hx
      have hno := List.find?_eq_none.mp hf ⟨i, hi⟩ (List.mem_finRange _)
      exact (Bool.eq_false_iff.mpr hno).trans BitVec.getLsbD_zero.symm

end

/-! ## The invariant -/

/-- There are enough threads for the flags that are visible. -/
def Inv (s : State n) : Prop := s.Enough s.visible

section

variable {s s' : State n} {t w : Fin n} {p : Point}

theorem Inv.of_zero (h : s.visible = 0) : Inv s := by
  refine .inl ?_
  rw [count_eq_zero_iff.mpr h]
  exact Nat.zero_le _

theorem acting_goto {x : Pc} : (s.goto t x).acting + (s.pc t).acts = s.acting + x.acts :=
  Weight.total_update

theorem waking_goto {x : Pc} : (s.goto t x).waking + (s.pc t).wakes = s.waking + x.wakes :=
  Weight.total_update

theorem blocked_goto {x : Pc} : (s.goto t x).blocked + (s.pc t).blocks = s.blocked + x.blocks :=
  Weight.total_update

theorem pc_goto {x : Pc} (h : t ≠ w) : (s.goto w x).pc t = s.pc t :=
  Function.update_of_ne h ..

/-- A thread goes on, where the weights say that there are still enough. -/
theorem Inv.goto {x : Pc} (h : Inv s) (hacts : (s.pc t).acts ≤ x.acts)
    (hwakes : (s.pc t).wakes ≤ x.wakes) (hblocks : x.blocks ≤ (s.pc t).blocks) :
    Inv (s.goto t x) := by
  have ha := acting_goto (s := s) (t := t) (x := x)
  have hw := waking_goto (s := s) (t := t) (x := x)
  have hb := blocked_goto (s := s) (t := t) (x := x)
  rcases h with h | h
  · refine .inl ?_
    change count s.visible ≤ _
    omega
  · refine .inr ?_
    omega

/-- The weights do not depend on the flags, the mask, the owner and what was returned. -/
theorem Inv.congr (h : Inv s) (hpc : s'.pc = s.pc) (hv : s'.visible = s.visible) : Inv s' := by
  rw [Inv, State.Enough, State.acting, State.waking, State.blocked, hpc, hv]
  exact h

/-- **One statement keeps the invariant.** -/
theorem Inv.exec (h : Inv s) (hp : s.pc t = .inside p) (hk : Kept s (.run t w))
    (hs : s.exec t w p = .ok s') : Inv s' := by
  have hacts : (s.pc t).acts = p.acts := by rw [hp]; rfl
  have hwakes : (s.pc t).wakes = p.wakes := by rw [hp]; rfl
  have hblocks : (s.pc t).blocks = 0 := by rw [hp]; rfl
  rw [Kept, hp] at hk
  cases p with
  | setMask m =>
      cases hs
      have hnew : Inv { s with mask := m } := hk _ rfl
      exact hnew.goto hacts.le hwakes.le (Nat.zero_le _)
  | signal m =>
      cases hs
      have hnew : Inv { s with flags := s.flags ||| m } := hk _ rfl
      exact hnew.goto hacts.le hwakes.le (Nat.zero_le _)
  | test =>
      cases hs
      split
      · exact h.goto hacts.le hwakes.le (Nat.zero_le _)
      · rename_i hv
        exact .of_zero (not_not.mp hv)
  | condSignal =>
      rw [State.exec] at hs
      split at hs
      · rename_i hw
        cases hs
        have hwt : t ≠ w := by
          rintro rfl
          rw [hp] at hw
          cases hw
        -- The thread woken is about to take a flag; there is one blocked thread less, and one
        -- less that wakes.
        have ha := acting_goto (s := s) (t := w) (x := .lock .waitTest)
        have hk := waking_goto (s := s) (t := w) (x := .lock .waitTest)
        have hb := blocked_goto (s := s) (t := w) (x := .lock .waitTest)
        have ha' := acting_goto (s := s.goto w (.lock .waitTest)) (t := t)
          (x := .inside (.unlock 0))
        have hk' := waking_goto (s := s.goto w (.lock .waitTest)) (t := t)
          (x := .inside (.unlock 0))
        have hb' := blocked_goto (s := s.goto w (.lock .waitTest)) (t := t)
          (x := .inside (.unlock 0))
        rw [hw] at ha hk hb
        rw [pc_goto hwt, hp] at ha' hk' hb'
        simp only [Pc.acts, Pc.wakes, Pc.blocks, Point.acts, Point.wakes] at ha hk hb ha' hk' hb'
        rcases h with h | h
        · refine .inl ?_
          change count s.visible ≤ _
          omega
        · refine .inr ?_
          omega
      · split at hs
        · rename_i hnone
          cases hs
          refine .inr ?_
          have hzero : (s.goto t (.inside (.unlock 0))).blocked = 0 := by
            refine Weight.total_eq_zero_iff.mpr fun u => ?_
            by_cases hu : u = t
            · subst hu
              show (Function.update s.pc u _ u).blocks = 0
              rw [Function.update_self]
              rfl
            · rw [pc_goto hu]
              have hnot := hnone u
              cases hpc : s.pc u with
              | blocked => exact absurd hpc hnot
              | _ => rfl
          rw [hzero]
          exact Nat.zero_le _
        · cases hs
  | waitTest =>
      rw [State.exec] at hs
      split at hs
      · rename_i hv
        cases hs
        exact .of_zero hv
      · cases hs
        exact h.goto hacts.le hwakes.le (Nat.zero_le _)
  | take =>
      by_cases hv : s.visible = 0
      · cases hs
        refine .of_zero ?_
        show (s.flags &&& ~~~_) &&& s.mask = 0
        rw [BitVec.and_assoc, BitVec.and_comm _ s.mask, ← BitVec.and_assoc]
        change s.visible &&& _ = 0
        rw [hv]
        exact BitVec.zero_and
      · obtain ⟨i, hi, hbit⟩ := ffs_spec hv
        have hm : (if ffs s.visible ≠ 0 then 1#32 <<< (ffs s.visible - 1) else 0) =
            1#32 <<< (i : Nat) := by
          rw [hi, if_pos (Nat.succ_ne_zero _), Nat.add_sub_cancel]
        rw [State.exec, hm] at hs
        cases hs
        have hc := count_clear hbit
        have ha := acting_goto (s := s) (t := t) (x := .inside (.unlock (1#32 <<< (i : Nat))))
        have hw := waking_goto (s := s) (t := t) (x := .inside (.unlock (1#32 <<< (i : Nat))))
        have hb := blocked_goto (s := s) (t := t) (x := .inside (.unlock (1#32 <<< (i : Nat))))
        rw [hp] at ha hw hb
        simp only [Pc.acts, Pc.wakes, Pc.blocks, Point.acts, Point.wakes] at ha hw hb
        have hvis : (s.flags &&& ~~~(1#32 <<< (i : Nat))) &&& s.mask =
            s.visible &&& ~~~(1#32 <<< (i : Nat)) := by
          rw [BitVec.and_assoc, BitVec.and_comm _ s.mask, ← BitVec.and_assoc]
          rfl
        rcases h with h | h
        · refine .inl ?_
          change count ((s.flags &&& ~~~(1#32 <<< (i : Nat))) &&& s.mask) ≤
            (s.goto t (.inside (.unlock (1#32 <<< (i : Nat))))).acting
          rw [hvis]
          omega
        · refine .inr ?_
          change (s.goto t (.inside (.unlock (1#32 <<< (i : Nat))))).blocked ≤
            (s.goto t (.inside (.unlock (1#32 <<< (i : Nat))))).waking
          omega
  | unlock m =>
      cases hs
      have hnew : Inv { s with owner := none, taken := s.taken ++ [(t, m)] } := h.congr rfl rfl
      exact hnew.goto hacts.le hwakes.le (Nat.zero_le _)

/-- **Step lemma.** -/
theorem Inv.step {a : Action n} (h : Inv s) (hk : Kept s a) (hs : s.step a = .ok s') :
    Inv s' := by
  cases a with
  | call t c =>
      rw [State.step] at hs
      split at hs
      · rename_i ht
        cases hs
        refine h.goto ?_ ?_ (Nat.zero_le _)
        · rw [ht]
          exact Nat.zero_le _
        · rw [ht]
          exact Nat.zero_le _
      · cases hs
  | run t w =>
      rw [State.step] at hs
      split at hs
      · cases hs
      · cases hs
      · rename_i p hp
        split at hs
        · cases hs
          have hnew : Inv { s with owner := some t } := h.congr rfl rfl
          refine hnew.goto (le_of_eq ?_) (le_of_eq ?_) (Nat.zero_le _)
          · show (s.pc t).acts = _
            rw [hp]
            rfl
          · show (s.pc t).wakes = _
            rw [hp]
            rfl
        · cases hs
      · rename_i p hp
        exact h.exec hp hk hs

theorem inv_of_reach (h : Reach State.step Kept (.init n) s) : Inv s := by
  refine h.invariant (.of_zero ?_) fun _ _ _ hi hk hs => hi.step hk hs
  exact BitVec.zero_and

/-- Where there are enough threads, none waits for nothing. -/
theorem Inv.not_lost (h : Inv s) : ¬ Lost s := by
  rintro ⟨-, hpc, hv, t, ht⟩
  have hacts : s.acting = 0 := by
    refine Weight.total_eq_zero_iff.mpr fun u => ?_
    rcases hpc u with hu | hu
    · rw [hu]
      rfl
    · rw [hu]
      rfl
  have hwakes : s.waking = 0 := by
    refine Weight.total_eq_zero_iff.mpr fun u => ?_
    rcases hpc u with hu | hu
    · rw [hu]
      rfl
    · rw [hu]
      rfl
  rcases h with h | h
  · rw [hacts] at h
    exact hv (count_eq_zero_iff.mp (Nat.le_zero.mp h))
  · rw [hwakes] at h
    have hle : (s.pc t).blocks ≤ s.blocked := Weight.le_total t
    rw [ht] at hle
    exact absurd (hle.trans h) (by decide)

/-- **No wake-up of an eventflag is lost**, in every run of any threads in which
`eventflag_signal` and `eventflag_set_mask` never leave more flags visible than there are threads
to take them, or to be woken for the rest. -/
theorem eventflag_wakes (h : Reach State.step Kept (.init n) s) : ¬ Lost s :=
  (inv_of_reach h).not_lost

end

/-! ## Where one is lost -/

section

variable {n : Nat} {s : State n}

instance {x : BitVec 32} : Decidable (s.Enough x) := inferInstanceAs (Decidable (_ ∨ _))

instance : Decidable (Lost s) := inferInstanceAs (Decidable (_ ∧ _ ∧ _ ∧ _))

instance : DecidablePred (Kept s)
  | .call _ _ => .isTrue trivial
  | .run t _ => Option.decidableForallMem (s.changed (s.pc t))

end

/-- Thread `t` makes a call and does the given number of its statements; `chopstx_cond_signal`
wakes `w`. -/
def calls {n : Nat} (t : Fin n) (c : Call) (statements : Nat) (w : Fin n) : List (Action n) :=
  .call t c :: List.replicate statements (.run t w)

/-- **Two threads wait, and two flags are set at once**: one thread is woken, takes one flag, and
the other one stays blocked with the other flag. -/
theorem wakeup_lost : ∃ s : State 3, Reach State.step anyEvent (.init 3) s ∧ Lost s := by
  have hrun : runTest State.step (fun _ _ => true) (fun s => decide (Lost s)) (.init 3)
      (calls 0 .wait 2 0 ++ calls 1 .wait 2 0 ++ calls 2 (.signal 3) 5 0 ++
        List.replicate 4 (.run 0 0)) = true := by
    decide +kernel
  obtain ⟨s, hs, hp⟩ := reach_any_of_runTest hrun
  exact ⟨s, hs, of_decide_eq_true hp⟩

/-- Two threads wait, and two flags are set one after the other. -/
theorem eventflag_wakes_two : ∃ s : State 3, s.taken = [(2, 0), (0, 1), (2, 0), (1, 2)] ∧
    ¬ Lost s := by
  have hrun : runTest State.step (fun s a => decide (Kept s a))
      (fun s => decide (s.taken = [(2, 0), (0, 1), (2, 0), (1, 2)])) (.init 3)
      (calls 0 .wait 2 0 ++ calls 1 .wait 2 0 ++ calls 2 (.signal 1) 5 0 ++
        List.replicate 4 (.run 0 0) ++ calls 2 (.signal 2) 5 1 ++
        List.replicate 4 (.run 1 1)) = true := by
    decide +kernel
  obtain ⟨s, hs, hp⟩ := reach_of_runTest hrun
  exact ⟨s, of_decide_eq_true hp, eventflag_wakes (hs.mono fun _ _ => of_decide_eq_true)⟩

end Chopstx.Eventflag
