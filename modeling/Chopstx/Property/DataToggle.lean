import Chopstx.Usb.Mkl27zEndp

/-!
# Data toggles of the MKL27Z

The packets of a direction of an endpoint alternate between DATA0 and DATA1, and begin with
DATA0 after `usb_lld_setup_endp` and after `CLEAR_FEATURE (ENDPOINT_HALT)`, where a buffer is
armed when the request arrives.  `Agree` says where the toggle of the next packet stands: in
the descriptor that is armed, or, turned round, in the one used before.

* `armed_ctrl`, `done_ctrl`, `clearDtog_armed`, `clearDtog_free` - the bits of the control words.
* `expect`, `Alternate` - the toggles that the packets of a run have to have.
* `ClearsArmed` - the condition: a buffer is armed at each accepted request.
* `Agree` - the descriptors agree with the packets so far; `arm`, `complete`, `handle`, `clear` and
  `setup` say what each event does to that.
* `BusInv`, `BusInv.step` - the invariant and its step lemma.
* `toggles_alternate` - the result about runs, and `toggles_restart` a run with a request.
* `toggle_after_clear_wrong` - a request that finds no buffer armed.
-/

namespace Chopstx.Usb.Mkl27z

open Transition

/-! ## Frames -/

section

variable {e : Endps} {n m : Nat} {d c : Dir} {o : Bool} {b : BdEntry}

/-- A table by endpoint and direction, elsewhere than where it is changed. -/
theorem update_frame {β : Type*} {f : Nat → Dir → β} {v : β} (h : ¬ (m = n ∧ c = d)) :
    Function.update f n (Function.update (f n) d v) m c = f m c := by
  rcases eq_or_ne m n with rfl | hm
  · have hc : c ≠ d := fun hc => h ⟨rfl, hc⟩
    simp [Function.update_of_ne hc]
  · simp [Function.update_of_ne hm]

theorem setBd_self : (e.setBd n d o b).bd n d o = b := by
  simp [Endps.setBd]

theorem setBd_other : (e.setBd n d o b).bd n d (!o) = e.bd n d (!o) := by
  simp [Endps.setBd]

theorem setBd_other' : (e.setBd n d (!o) b).bd n d o = e.bd n d o := by
  have h := setBd_other (e := e) (n := n) (d := d) (o := !o) (b := b)
  rwa [Bool.not_not] at h

theorem setBd_frame (h : ¬ (m = n ∧ c = d)) : (e.setBd n d o b).bd m c = e.bd m c :=
  update_frame h

theorem ctrl_setCtrl_self {x : BitVec 32} : ((e.setCtrl n d o x).bd n d o).ctrl = x := by
  rw [Endps.setCtrl, setBd_self]

theorem setCtrl_other {x : BitVec 32} : (e.setCtrl n d o x).bd n d (!o) = e.bd n d (!o) := by
  rw [Endps.setCtrl, setBd_other]

theorem setCtrl_other' {x : BitVec 32} : (e.setCtrl n d (!o) x).bd n d o = e.bd n d o := by
  rw [Endps.setCtrl, setBd_other']

/-- The descriptors of a direction and which of them is next stay. -/
def Same (e e' : Endps) (n : Nat) (d : Dir) : Prop :=
  e'.bd n d = e.bd n d ∧ e'.odd n d = e.odd n d

theorem Same.trans {e' e'' : Endps} (h : Same e e' n d) (h' : Same e' e'' n d) :
    Same e e'' n d :=
  ⟨h'.1.trans h.1, h'.2.trans h.2⟩

theorem same_setBd (h : ¬ (m = n ∧ c = d)) : Same e (e.setBd n d o b) m c :=
  ⟨setBd_frame h, rfl⟩

theorem same_setEp {v : Byte} : Same e (e.setEp n v) m c := ⟨rfl, rfl⟩

theorem same_handle (h : ¬ (m = n ∧ c = d)) : Same e (e.handleTransaction n d) m c := by
  exact ⟨rfl, update_frame h⟩

theorem same_clearData01 (h : ¬ (m = n ∧ c = d)) : Same e (e.clearData01 n d) m c := by
  rw [Endps.clearData01]
  split
  · exact ((same_setBd h).trans (same_setBd h)).trans (same_setBd h)
  · exact same_setBd h

theorem clearData01_stall :
    (e.kl27zEpStall n).clearData01 n d = (e.clearData01 n d).kl27zEpStall n := by
  rw [Endps.clearData01, Endps.clearData01]
  have hcond : ((e.kl27zEpStall n).bd n d ((e.kl27zEpStall n).odd n d)).ctrl &&& bdOwn ≠ 0 ↔
      (e.bd n d (e.odd n d)).ctrl &&& bdOwn ≠ 0 := Iff.rfl
  by_cases h : (e.bd n d (e.odd n d)).ctrl &&& bdOwn ≠ 0
  · rw [if_pos h, if_pos (hcond.2 h)]
    rfl
  · rw [if_neg h, if_neg fun h' => h (hcond.1 h')]
    rfl

/-- The stall bits of `kl27z_ep_clear_dtog` leave the descriptors alone. -/
theorem same_clearDtog_clearData01 :
    Same (e.clearData01 n d) (e.kl27zEpClearDtog n d) m c := by
  rw [Endps.kl27zEpClearDtog]
  split
  · exact same_setEp
  · rw [clearData01_stall]
    exact same_setEp.trans same_setEp

theorem same_clearDtog (h : ¬ (m = n ∧ c = d)) : Same e (e.kl27zEpClearDtog n d) m c :=
  (same_clearData01 h).trans same_clearDtog_clearData01

/-! ## Control words -/

theorem own_eq (b : BdEntry) : b.own = b.ctrl.getLsbD 7 := by
  have hmask : bdOwn = BitVec.twoPow 32 7 := by decide
  rw [BdEntry.own, hmask, BitVec.and_twoPow]
  cases h : b.ctrl.getLsbD 7 with
  | false => simp
  | true => simp; decide

theorem data01_eq (b : BdEntry) : b.data01 = b.ctrl.getLsbD 6 := by
  have hmask : bdData01 = BitVec.twoPow 32 6 := by decide
  rw [BdEntry.data01, hmask, BitVec.and_twoPow]
  cases h : b.ctrl.getLsbD 6 with
  | false => simp
  | true => simp; decide

/-- The control word that arms a descriptor. -/
theorem armed_ctrl (len : Nat) (x : Bool) (buf : Ptr Region) :
    BdEntry.own ⟨(BitVec.ofNat 32 len <<< 16) ||| 0x0088 ||| (if x then bdData01 else 0), buf⟩ =
        true ∧
      BdEntry.data01 ⟨(BitVec.ofNat 32 len <<< 16) ||| 0x0088 ||| (if x then bdData01 else 0),
        buf⟩ = x := by
  rw [own_eq, data01_eq]
  cases x <;> simp [bdData01]

/-- What the controller writes back. -/
theorem done_ctrl {b : BdEntry} {ctrl : BitVec 32} (h0 : ctrl &&& bdOwn = 0)
    (h1 : ctrl &&& bdData01 = b.ctrl &&& bdData01) :
    BdEntry.own { b with ctrl } = false ∧ BdEntry.data01 { b with ctrl } = b.data01 := by
  simp [BdEntry.own, BdEntry.data01, h0, h1]

/-! ## Clearing the toggles -/

/-- Where a buffer is armed, it gets DATA0. -/
theorem clearDtog_armed (h : (e.bd n d (e.odd n d)).own = true) :
    (e.kl27zEpClearDtog n d).odd n d = e.odd n d ∧
      ((e.kl27zEpClearDtog n d).bd n d (e.odd n d)).own = true ∧
      ((e.kl27zEpClearDtog n d).bd n d (e.odd n d)).data01 = false ∧
      ((e.kl27zEpClearDtog n d).bd n d (!e.odd n d)).own = (e.bd n d (!e.odd n d)).own := by
  have hsame : Same (e.clearData01 n d) (e.kl27zEpClearDtog n d) n d := same_clearDtog_clearData01
  have hown : (e.bd n d (e.odd n d)).ctrl &&& bdOwn ≠ 0 := by simpa [BdEntry.own] using h
  rw [hsame.1, hsame.2, Endps.clearData01, if_pos hown]
  rw [own_eq] at h
  refine ⟨rfl, ?_, ?_, ?_⟩
  · rw [own_eq, ctrl_setCtrl_self]
    simpa [bdData01] using h
  · rw [data01_eq, ctrl_setCtrl_self]
    simp [bdData01]
  · rw [own_eq, own_eq, setCtrl_other, setCtrl_other, ctrl_setCtrl_self]
    simp [bdData01]

/-- Where none is, the next one will get DATA1. -/
theorem clearDtog_free (h : (e.bd n d (e.odd n d)).own = false) :
    (e.kl27zEpClearDtog n d).odd n d = e.odd n d ∧
      ((e.kl27zEpClearDtog n d).bd n d (e.odd n d)).own = false ∧
      ((e.kl27zEpClearDtog n d).bd n d (!e.odd n d)).data01 = false := by
  have hsame : Same (e.clearData01 n d) (e.kl27zEpClearDtog n d) n d := same_clearDtog_clearData01
  have hown : ¬ ((e.bd n d (e.odd n d)).ctrl &&& bdOwn ≠ 0) := by simpa [BdEntry.own] using h
  rw [hsame.1, hsame.2, Endps.clearData01, if_neg hown]
  refine ⟨rfl, ?_, ?_⟩
  · rw [setCtrl_other']
    exact h
  · rw [data01_eq, ctrl_setCtrl_self]
    simp [bdData01]

end

/-! ## The toggles of a run -/

/-- The toggle of the next packet, after one more event: the packets alternate, and an accepted
`CLEAR_FEATURE` sets it to DATA0. -/
def expect (n : Nat) (d : Dir) (x : Bool) : Toggled → Bool
  | .packet m c _ => if m = n ∧ c = d then !x else x
  | .cleared m c => if m = n ∧ c = d then false else x

/-- The toggle that the next packet has to have after the log. -/
def expected (n : Nat) (d : Dir) (log : List Toggled) : Bool := log.foldl (expect n d) false

/-- The packets of the direction `d` of the endpoint `n` carry DATA0, DATA1, DATA0, … and begin
again with DATA0 after each accepted `CLEAR_FEATURE`. -/
def Alternate (n : Nat) (d : Dir) (log : List Toggled) : Prop :=
  ∀ pre x, pre ++ [.packet n d x] <+: log → x = expected n d pre

section

variable {n : Nat} {d : Dir} {log : List Toggled} {t : Toggled}

theorem expected_concat : expected n d (log ++ [t]) = expect n d (expected n d log) t := by
  rw [expected, List.foldl_concat]
  rfl

/-- What happens elsewhere leaves the toggle as it is. -/
theorem expected_frame {m : Nat} {c : Dir} (h : ¬ (n = m ∧ d = c)) {x : Bool}
    (ht : t = .packet m c x ∨ t = .cleared m c) : expected n d (log ++ [t]) = expected n d log := by
  have hne : ¬ (m = n ∧ c = d) := fun hmc => h ⟨hmc.1.symm, hmc.2.symm⟩
  rw [expected_concat]
  rcases ht with rfl | rfl
  · exact if_neg hne
  · exact if_neg hne

theorem Alternate.nil : Alternate n d [] := by
  intro pre x hpre
  have hnil := List.prefix_nil.1 hpre
  simp at hnil

/-- One more event, which is not a packet of the direction or has the toggle expected. -/
theorem Alternate.concat (h : Alternate n d log)
    (ht : ∀ x, t = .packet n d x → x = expected n d log) : Alternate n d (log ++ [t]) := by
  intro pre x hpre
  rcases List.prefix_concat_iff.1 hpre with heq | hle
  · obtain ⟨rfl, hlast⟩ := List.append_inj' heq rfl
    exact ht x (List.head_eq_of_cons_eq hlast).symm
  · exact h pre x hle

end

/-- The descriptors of a direction agree with the packets so far: where the next toggle is, and
which descriptors belong to the controller. -/
structure Agree (n : Nat) (d : Dir) (e : Endps) (next unhandled x : Bool) : Prop where
  next : next = if unhandled then !e.odd n d else e.odd n d
  free : (e.bd n d (!e.odd n d)).own = false
  done : unhandled = true → (e.bd n d (e.odd n d)).own = false ∧
    (e.bd n d (e.odd n d)).data01 = !x
  armed : unhandled = false → (e.bd n d (e.odd n d)).own = true →
    (e.bd n d (e.odd n d)).data01 = x
  idle : unhandled = false → (e.bd n d (e.odd n d)).own = false →
    (e.bd n d (!e.odd n d)).data01 = !x

namespace Agree

variable {n : Nat} {d : Dir} {e e' : Endps} {next unhandled x : Bool}

theorem same (h : Agree n d e next unhandled x) (hs : Same e e' n d) :
    Agree n d e' next unhandled x := by
  obtain ⟨h1, h2, h3, h4, h5⟩ := h
  rw [← hs.2] at h1 h2 h3 h4 h5
  rw [← hs.1] at h2 h3 h4 h5
  exact ⟨h1, h2, h3, h4, h5⟩

theorem startData0 : Agree n d (e.startData0 n d) (e.odd n d) false false := by
  have hnext : (e.startData0 n d).bd n d (e.odd n d) = ⟨0x0000, Region.null.ptr⟩ := by
    rw [Endps.startData0, setBd_other', setBd_self]
  have hother : (e.startData0 n d).bd n d (!e.odd n d) = ⟨0x0040, Region.null.ptr⟩ := by
    rw [Endps.startData0, setBd_self]
  constructor
  case next => rfl
  case free =>
    show ((e.startData0 n d).bd n d (!e.odd n d)).own = false
    rw [hother]
    rfl
  case done => exact fun h => by cases h
  case armed =>
    intro _ ho
    have ho' : ((e.startData0 n d).bd n d (e.odd n d)).own = true := ho
    rw [hnext] at ho'
    cases ho'
  case idle =>
    intro _ _
    show ((e.startData0 n d).bd n d (!e.odd n d)).data01 = !false
    rw [hother]
    rfl

/-- `usb_lld_setup_endp` -/
theorem setup (rxEn txEn : Bool) :
    Agree n d (e.usbLldSetupEndp n rxEn txEn) (e.odd n d) false false := by
  rw [Endps.usbLldSetupEndp]
  cases d with
  | rx =>
      refine startData0.same ?_
      exact (same_setBd (by simp)).trans (same_setBd (by simp))
  | tx => exact startData0

/-- A buffer is armed. -/
theorem arm (h : Agree n d e next false x) (ho : (e.bd n d (e.odd n d)).own = false)
    (buf : Ptr Region) (len : Nat) : Agree n d (e.enableBuf n d buf len) next false x := by
  have harmed := armed_ctrl len (!(e.bd n d !e.odd n d).data01) buf
  have hbd : (e.enableBuf n d buf len).bd n d (e.odd n d) = _ := setBd_self
  have hfree : (e.enableBuf n d buf len).bd n d (!e.odd n d) = _ := setBd_other
  have hx := h.idle rfl ho
  constructor
  case next => exact h.next
  case free => exact (congrArg BdEntry.own hfree).trans h.free
  case done => exact fun h => by cases h
  case armed =>
    intro _ _
    refine (congrArg BdEntry.data01 hbd).trans (harmed.2.trans ?_)
    rw [hx, Bool.not_not]
  case idle =>
    intro _ hown
    have hown' := (congrArg BdEntry.own hbd).symm.trans hown
    rw [harmed.1] at hown'
    cases hown'

/-- The controller has moved the packet that was armed: it has the toggle expected. -/
theorem complete (h : Agree n d e next unhandled x) {ctrl : BitVec 32}
    (ho : (e.bd n d next).own = true) (h0 : ctrl &&& bdOwn = 0)
    (h1 : ctrl &&& bdData01 = (e.bd n d next).ctrl &&& bdData01) :
    unhandled = false ∧ (e.bd n d next).data01 = x ∧
      Agree n d (e.setCtrl n d next ctrl) (!next) true (!x) := by
  have hdone := done_ctrl h0 h1
  cases hu : unhandled with
  | true =>
      have hn := h.next
      rw [hu, if_pos rfl] at hn
      rw [hn, h.free] at ho
      cases ho
  | false =>
      have hn : next = e.odd n d := by
        have hn := h.next
        rwa [hu, if_neg (by decide)] at hn
      subst hn
      have hx := h.armed hu ho
      have hbd : (e.setCtrl n d (e.odd n d) ctrl).bd n d (e.odd n d) = _ := setBd_self
      refine ⟨rfl, hx, ?_⟩
      constructor
      case next => rfl
      case free => exact (congrArg BdEntry.own setCtrl_other).trans h.free
      case done =>
        intro _
        refine ⟨(congrArg BdEntry.own hbd).trans hdone.1, ?_⟩
        refine (congrArg BdEntry.data01 hbd).trans (hdone.2.trans ?_)
        rw [hx, Bool.not_not]
      case armed => exact fun h => by cases h
      case idle => exact fun h => by cases h

/-- The driver goes on to the other descriptor. -/
theorem handle (h : Agree n d e next true x) :
    Agree n d (e.handleTransaction n d) next false x := by
  have hodd : (e.handleTransaction n d).odd n d = !e.odd n d := by simp [Endps.handleTransaction]
  have hbd : (e.handleTransaction n d).bd = e.bd := rfl
  obtain ⟨hown, hx⟩ := h.done rfl
  constructor
  case next => rw [hodd, if_neg (by decide), h.next, if_pos rfl]
  case free => rw [hbd, hodd, Bool.not_not, hown]
  case done => exact fun h => by cases h
  case armed =>
    intro _ ho
    rw [hbd, hodd, h.free] at ho
    cases ho
  case idle =>
    intro _ _
    rw [hbd, hodd, Bool.not_not, hx]

/-- `kl27z_ep_clear_dtog`, where a buffer is armed -/
theorem clear (h : Agree n d e next false x) (ho : (e.bd n d (e.odd n d)).own = true) :
    Agree n d (e.kl27zEpClearDtog n d) next false false := by
  obtain ⟨hodd, hown, hdata, hfree⟩ := clearDtog_armed ho
  constructor
  case next => rw [hodd]; exact h.next
  case free => rw [hodd, hfree]; exact h.free
  case done => exact fun h => by cases h
  case armed => intro _ _; rw [hodd, hdata]
  case idle =>
    intro _ hno
    rw [hodd, hown] at hno
    cases hno

end Agree

/-! ## The runs -/

/-- Each accepted `CLEAR_FEATURE (ENDPOINT_HALT)` for the direction `d` of the endpoint `n`
finds a buffer armed. -/
def ClearsArmed (n : Nat) (d : Dir) (s : Bus) : BusEvent → Prop
  | .request arg =>
      clears s.std arg = true → arg.endpoint = n → Dir.ofIn arg.isIn = d →
        (s.std.eps.bd n d (s.std.eps.odd n d)).own = true
  | _ => True

/-- The invariant of the runs, for one direction of one endpoint. -/
structure BusInv (n : Nat) (d : Dir) (s : Bus) : Prop where
  agree : Agree n d s.std.eps (s.next n d) (s.unhandled n d) (expected n d s.log)
  alternate : Alternate n d s.log

section

variable {n : Nat} {d : Dir} {s s' : Bus}

theorem BusInv.step (h : BusInv n d s) {a : BusEvent} (hok : ClearsArmed n d s a)
    (hs : s.step a = .ok s') : BusInv n d s' := by
  cases a with
  | arm m c buf len =>
      rw [Bus.step] at hs
      split at hs
      · rename_i hfree
        cases hs
        refine ⟨?_, h.alternate⟩
        by_cases hmc : n = m ∧ d = c
        · obtain ⟨rfl, rfl⟩ := hmc
          have hagree := h.agree
          rw [hfree.2] at hagree
          show Agree n d _ _ (s.unhandled n d) _
          rw [hfree.2]
          exact hagree.arm hfree.1 buf len
        · exact h.agree.same (same_setBd hmc)
      · cases hs
  | complete m c ctrl =>
      rw [Bus.step] at hs
      simp only at hs
      split at hs
      · rename_i hctrl
        cases hs
        by_cases hmc : n = m ∧ d = c
        · obtain ⟨rfl, rfl⟩ := hmc
          obtain ⟨-, hx, hagree⟩ := h.agree.complete hctrl.1 hctrl.2.1 hctrl.2.2
          refine ⟨?_, h.alternate.concat ?_⟩
          · simpa [expected_concat, expect] using hagree
          · intro x heq
            cases heq
            exact hx
        · refine ⟨?_, h.alternate.concat ?_⟩
          · show Agree n d _ (Function.update s.next m (Function.update (s.next m) c _) n d)
              (Function.update s.unhandled m (Function.update (s.unhandled m) c _) n d) _
            rw [update_frame hmc, update_frame hmc, expected_frame hmc (.inl rfl)]
            exact h.agree.same (same_setBd hmc)
          · rintro x heq
            cases heq
            exact absurd ⟨rfl, rfl⟩ hmc
      · cases hs
  | handle m c =>
      rw [Bus.step] at hs
      split at hs
      · rename_i hu
        cases hs
        refine ⟨?_, h.alternate⟩
        by_cases hmc : n = m ∧ d = c
        · obtain ⟨rfl, rfl⟩ := hmc
          have hagree := h.agree
          rw [hu] at hagree
          simpa using hagree.handle
        · show Agree n d _ _
            (Function.update s.unhandled m (Function.update (s.unhandled m) c _) n d) _
          rw [update_frame hmc]
          exact h.agree.same (same_handle hmc)
      · cases hs
  | request arg =>
      rw [Bus.step] at hs
      split at hs
      · cases hs
      · rename_i hu
        rw [Bool.not_eq_true] at hu
        cases hs
        rcases @setupRequest_eps _ stdPort s.std arg with
          ⟨hout, heps⟩ | hkept
        · have hclear : clears s.std arg = true := decide_eq_true hout
          simp only [hclear, if_true]
          by_cases hmc : n = arg.endpoint ∧ d = .ofIn arg.isIn
          · obtain ⟨hn, hd⟩ := hmc
            have harmed := hok hclear hn.symm hd.symm
            have hagree := h.agree
            rw [← hn, ← hd] at hu
            rw [hu] at hagree
            refine ⟨?_, h.alternate.concat ?_⟩
            · show Agree n d _ _ (s.unhandled n d) _
              rw [hu, expected_concat, heps]
              rw [expect, if_pos ⟨hn.symm, hd.symm⟩]
              show Agree n d (s.std.eps.kl27zEpClearDtog arg.endpoint (.ofIn arg.isIn)) _ _ _
              rw [← hn, ← hd]
              exact hagree.clear harmed
            · rintro x heq
              cases heq
          · refine ⟨?_, h.alternate.concat ?_⟩
            · show Agree n d _ _ _ _
              rw [expected_frame hmc (x := false) (.inr rfl), heps]
              exact h.agree.same (same_clearDtog hmc)
            · rintro x heq
              cases heq
        · have hclear : clears s.std arg = false := by
            refine decide_eq_false ?_
            rcases hkept with ⟨hout, -⟩ | ⟨hout, -⟩
            · rw [hout]
              simp
            · exact hout
          simp only [hclear, Bool.false_eq_true, if_false, List.append_nil]
          refine ⟨?_, h.alternate⟩
          show Agree n d _ _ _ _
          rcases hkept with ⟨-, heps⟩ | ⟨-, -, heps⟩
          · rw [heps]
            exact h.agree.same same_setEp
          · rw [heps]
            exact h.agree

/-- **The data toggles of an endpoint alternate.**  After `usb_lld_setup_endp (n)`, in every run
in which each accepted `CLEAR_FEATURE (ENDPOINT_HALT)` for a direction of the endpoint finds a
buffer armed, the packets of that direction carry DATA0, DATA1, DATA0, … and begin again with
DATA0 after each of these requests. -/
theorem toggles_alternate (std : StdDev Endps) (n : Nat) (d : Dir) (rxEn txEn : Bool)
    (h : Reach Bus.step (ClearsArmed n d) (.start std n rxEn txEn) s) : Alternate n d s.log := by
  have hinv : BusInv n d s := by
    refine h.invariant (P := BusInv n d) ⟨?_, Alternate.nil⟩
      fun _ _ _ hi hok hs => hi.step hok hs
    exact Agree.setup rxEn txEn
  exact hinv.alternate

end

/-- A configured device whose endpoints are not yet set up. -/
def configured : StdDev Endps :=
  ⟨1, 0, 0, ⟨fun _ => 0, fun _ _ _ => ⟨0, Region.null.ptr⟩, fun _ _ => false⟩⟩

/-- `CLEAR_FEATURE (ENDPOINT_HALT)` for the direction IN of endpoint 1. -/
def clearHaltIn1 : DeviceReq := ⟨0x02, 1, 0, 0x81, 0⟩

/-- Where no buffer is armed when the request arrives, the next packet carries DATA1. -/
theorem toggle_after_clear_wrong : ∃ s : Bus,
    Reach Bus.step anyEvent (.start configured 1 false true) s ∧ ¬ Alternate 1 .tx s.log := by
  have hrun : runTest Bus.step (fun _ _ => true)
      (fun s => decide (s.log = [.cleared 1 .tx, .packet 1 .tx true]))
      (.start configured 1 false true)
      [.request clearHaltIn1, .arm 1 .tx ⟨.app, 0⟩ 8, .complete 1 .tx 0x00080064] = true := by
    decide +kernel
  obtain ⟨s, hs, hp⟩ := reach_any_of_runTest hrun
  rw [decide_eq_true_eq] at hp
  refine ⟨s, hs, fun h => ?_⟩
  have hx := h [.cleared 1 .tx] true (by rw [hp]; exact List.prefix_refl _)
  exact absurd hx (by decide)

/-- A packet, and a request that finds the next buffer armed: DATA0 twice. -/
theorem toggles_restart : ∃ s : Bus,
    s.log = [.packet 1 .tx false, .cleared 1 .tx, .packet 1 .tx false] ∧
      Alternate 1 .tx s.log := by
  have hrun : runTest Bus.step
      (fun s a => match a with
        | .request _ => (s.std.eps.bd 1 .tx (s.std.eps.odd 1 .tx)).own
        | _ => true)
      (fun s => decide (s.log = [.packet 1 .tx false, .cleared 1 .tx, .packet 1 .tx false]))
      (.start configured 1 false true)
      [.arm 1 .tx ⟨.app, 0⟩ 8, .complete 1 .tx 0x00080024, .handle 1 .tx,
        .arm 1 .tx ⟨.app, 0⟩ 8, .request clearHaltIn1, .complete 1 .tx 0x00080024] = true := by
    decide +kernel
  obtain ⟨s, hs, hp⟩ := reach_of_runTest hrun
  rw [decide_eq_true_eq] at hp
  refine ⟨s, hp, toggles_alternate configured 1 .tx false true (hs.mono ?_)⟩
  intro s a hok
  cases a with
  | request arg => exact fun _ _ _ => hok
  | _ => trivial

end Chopstx.Usb.Mkl27z
