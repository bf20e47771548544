import Chopstx.Usb.Mkl27zCtrl
import Chopstx.Property.DataToggle

/-!
# Endpoint 0 of the MKL27Z moves one packet at a time

At any time at most one of the four descriptors of endpoint 0 belongs to the controller, and it is
the next one of the direction in which the state of the control pipe goes on.  What has been
completed is one transaction, and nothing belongs to the controller until the driver has handled
it.  `Phase` says where the pipe stands: the packet is armed, or done, or the application has to
answer a request, or the endpoint is stalled.

* `Idle`, `Armed`, `SameEp0` - none of the four descriptors belongs to the controller, or one does;
  `setBd_cases` says what an update of one of them does.
* `dirOf` - the direction of the state, if it has one.
* `Phase`, `Lockstep` - the invariant.
* `arm`, `ctrlSend`, `out0`, `setup0`, `in0`, `complete`, `recover` - what each function does to it.
* `step`, `lockstep_of_reach` - the step lemma and the run lemma.
* `OneAtATime`, `one_packet_at_a_time` - what it comes to, and `one_packet_descriptor` one run.
-/

namespace Chopstx.Usb.Mkl27z

open Transition

/-! ## Control words -/

section

variable {n : Nat} {x : Bool} {buf : Ptr Region} {b : BdEntry} {token : BitVec 32}

theorem own_armWord : BdEntry.own ⟨armWord n x, buf⟩ = true :=
  (armed_ctrl (n % 256) x buf).1

theorem data01_armWord : BdEntry.data01 ⟨armWord n x, buf⟩ = x :=
  (armed_ctrl (n % 256) x buf).2

/-- A byte count is read back, whatever the low half of the word is. -/
theorem bc_of_low {low : BitVec 32} (hn : n < 1024) (hlow : low >>> 16 = 0) :
    BdEntry.bc ⟨(BitVec.ofNat 32 n <<< 16) ||| low, buf⟩ = n := by
  have hmask : (0x3ff : BitVec 32).toNat = 2 ^ 10 - 1 := by decide
  have hshift : ((BitVec.ofNat 32 n <<< 16) >>> 16).toNat = n := by
    rw [BitVec.toNat_ushiftRight, BitVec.toNat_shiftLeft, BitVec.toNat_ofNat, Nat.shiftLeft_eq,
      Nat.shiftRight_eq_div_pow]
    omega
  have hword : ((BitVec.ofNat 32 n <<< 16 ||| low) >>> 16).toNat = n := by
    rw [BitVec.ushiftRight_or_distrib, hlow]
    simpa using hshift
  rw [BdEntry.bc, BitVec.toNat_and, hword, hmask, Nat.and_two_pow_sub_one_eq_mod]
  exact Nat.mod_eq_of_lt hn

/-- The byte count is the argument of type `uint8_t`. -/
theorem bc_armWord : BdEntry.bc ⟨armWord n x, buf⟩ = n % 256 := by
  have hlt : n % 256 < 1024 := (Nat.mod_lt _ (by decide)).trans (by decide)
  rw [armWord, BitVec.or_assoc]
  refine bc_of_low hlt ?_
  cases x <;> decide

/-- A token is a number of four bits. -/
theorem token_bit (ht : token.toNat < 16) {i : Nat} (hi : 4 ≤ i) : token.getLsbD i = false :=
  Nat.testBit_lt_two_pow (ht.trans_le (Nat.pow_le_pow_right (by decide) hi : 2 ^ 4 ≤ 2 ^ i))

theorem own_doneWord (ht : token.toNat < 16) :
    BdEntry.own ⟨doneWord b.ctrl token n, buf⟩ = false := by
  have hbit := token_bit ht (i := 5) (by decide)
  rw [own_eq, doneWord]
  simpa [bdData01] using hbit

theorem data01_doneWord (ht : token.toNat < 16) :
    BdEntry.data01 ⟨doneWord b.ctrl token n, buf⟩ = b.data01 := by
  have hbit : token[4] = false := token_bit ht (le_refl 4)
  rw [data01_eq, data01_eq, doneWord]
  simp [bdData01, hbit]

theorem bc_doneWord (ht : token.toNat < 16) (hn : n < 1024) :
    BdEntry.bc ⟨doneWord b.ctrl token n, buf⟩ = n := by
  rw [doneWord, BitVec.or_assoc]
  refine bc_of_low hn (BitVec.eq_of_toNat_eq ?_)
  have htoken : (token <<< 2).toNat < 2 ^ 16 := by
    rw [BitVec.toNat_shiftLeft, Nat.shiftLeft_eq]
    omega
  have hdata : (b.ctrl &&& bdData01).toNat < 2 ^ 16 := by
    rw [BitVec.toNat_and]
    exact Nat.and_le_right.trans_lt (by decide)
  rw [BitVec.toNat_ushiftRight, BitVec.toNat_or, Nat.shiftRight_eq_div_pow]
  exact Nat.div_eq_of_lt (Nat.or_lt_two_pow htoken hdata)

theorem tokPid_doneWord (ht : token.toNat < 16) :
    BdEntry.tokPid ⟨doneWord b.ctrl token n, buf⟩ = token := by
  apply BitVec.eq_of_getLsbD_eq
  intro i hi
  rw [BdEntry.tokPid, doneWord]
  rcases Nat.lt_or_ge i 4 with hlt | hge
  · interval_cases i <;> simp [bdData01]
  · have hmask : (0x0f : BitVec 32).getLsbD i = false := token_bit (by decide) hge
    rw [token_bit ht hge, BitVec.getLsbD_and, hmask, Bool.and_false]

end

/-! ## The descriptors of endpoint 0 -/

namespace Endps

/-- No descriptor of endpoint 0 belongs to the controller. -/
def Idle (e : Endps) : Prop := ∀ d o, (e.bd 0 d o).own = false

/-- The next one of the direction belongs to it, and no other. -/
structure Armed (e : Endps) (d : Dir) : Prop where
  own : (e.nextBd d).own = true
  alone : ∀ c o, (e.bd 0 c o).own = true → c = d ∧ o = e.odd 0 d

/-- Endpoint 0 is the same. -/
structure SameEp0 (e e' : Endps) : Prop where
  ep : e'.ep 0 = e.ep 0
  bd : e'.bd 0 = e.bd 0
  odd : e'.odd 0 = e.odd 0

variable {e e' : Endps} {d : Dir} {o : Bool} {b : BdEntry} {n : Nat} {x : Bool} {buf : Ptr Region}
  {token : BitVec 32}

theorem SameEp0.refl : SameEp0 e e := ⟨rfl, rfl, rfl⟩

theorem SameEp0.idle (h : SameEp0 e e') (hi : e.Idle) : e'.Idle := by
  intro d o
  rw [h.bd]
  exact hi d o

theorem SameEp0.nextBd (h : SameEp0 e e') (d : Dir) : e'.nextBd d = e.nextBd d := by
  rw [Endps.nextBd, h.bd, h.odd, ← Endps.nextBd]

theorem SameEp0.armed (h : SameEp0 e e') (ha : e.Armed d) : e'.Armed d := by
  refine ⟨?_, fun c o ho => ?_⟩
  · rw [h.nextBd]
    exact ha.own
  · rw [h.bd] at ho
    rw [h.odd]
    exact ha.alone c o ho

theorem SameEp0.stall (h : SameEp0 e e') : e'.kl27zEpIsStall 0 = e.kl27zEpIsStall 0 := by
  rw [kl27zEpIsStall, h.ep, kl27zEpIsStall]

theorem sameEp0_withEp0 : SameEp0 e (e.withEp0 e') := ⟨rfl, rfl, rfl⟩

/-- The entry that is written, or another one -/
theorem setBd_cases (c : Dir) (o' : Bool) :
    (c = d ∧ o' = o ∧ (e.setBd 0 d o b).bd 0 c o' = b) ∨
      (¬ (c = d ∧ o' = o) ∧ (e.setBd 0 d o b).bd 0 c o' = e.bd 0 c o') := by
  by_cases hc : c = d
  · subst hc
    by_cases ho : o' = o
    · subst ho
      exact .inl ⟨rfl, rfl, setBd_self⟩
    · refine .inr ⟨fun h => ho h.2, ?_⟩
      rw [Bool.eq_not.2 ho, setBd_other]
  · exact .inr ⟨fun h => hc h.1, congrFun (setBd_frame fun h => hc h.2) o'⟩

/-- An idle endpoint with one descriptor more -/
theorem Idle.arm (h : e.Idle) (hb : b.own = true) : (e.setBd 0 d (e.odd 0 d) b).Armed d := by
  refine ⟨?_, fun c o ho => ?_⟩
  · show ((e.setBd 0 d (e.odd 0 d) b).bd 0 d (e.odd 0 d)).own = true
    rw [setBd_self]
    exact hb
  · rcases setBd_cases (e := e) (d := d) (o := e.odd 0 d) (b := b) c o with
      ⟨hc, ho, -⟩ | ⟨-, hold⟩
    · exact ⟨hc, ho⟩
    · rw [hold, h] at ho
      cases ho

theorem Idle.prepareEp0 (h : e.Idle) : (e.prepareEp0 d buf n x).Armed d := h.arm own_armWord

theorem Idle.prepareSetup (h : e.Idle) : e.kl27zPrepareEp0Setup.Armed .rx := by
  have harm : (e.setBd 0 .rx (e.odd 0 .rx) ⟨0x00080088, Region.devReq.ptr⟩).Armed .rx :=
    h.arm (by decide)
  refine ⟨?_, fun c o ho => ?_⟩
  · have hnext : e.kl27zPrepareEp0Setup.nextBd .rx = ⟨0x00080088, Region.devReq.ptr⟩ := by
      show e.kl27zPrepareEp0Setup.bd 0 .rx (e.odd 0 .rx) = _
      rw [kl27zPrepareEp0Setup, setBd_other', setBd_self]
    rw [hnext]
    decide
  · rw [kl27zPrepareEp0Setup] at ho
    rcases setBd_cases (o := !e.odd 0 .rx) (b := ⟨0x0000, Region.null.ptr⟩) c o with
      ⟨-, -, hnew⟩ | ⟨-, hold⟩
    · rw [hnew] at ho
      cases ho
    · rw [hold] at ho
      exact harm.alone c o ho

/-- The controller moves the packet, and nothing belongs to it any more. -/
theorem Armed.complete (h : e.Armed d) (ht : token.toNat < 16) : (e.complete d token n).Idle := by
  intro c o
  rcases setBd_cases (e := e) (d := d) (o := e.odd 0 d)
    (b := ⟨doneWord (e.nextBd d).ctrl token n, (e.nextBd d).buf⟩) c o with
    ⟨-, -, hnew⟩ | ⟨hne, hold⟩
  · exact (congrArg BdEntry.own hnew).trans (own_doneWord ht)
  · cases ho : (e.bd 0 c o).own with
    | false => exact (congrArg BdEntry.own hold).trans ho
    | true => exact absurd (h.alone c o ho) hne

theorem isStall_stall : (e.kl27zEpStall 0).kl27zEpIsStall 0 = true := by
  have hne : ∀ v : Byte, (v ||| 0x02) &&& 0x02 ≠ 0 := by decide
  simpa [kl27zEpIsStall, kl27zEpStall, setEp] using hne (e.ep 0)

theorem isStall_clearStall : (e.kl27zEpClearStall 0).kl27zEpIsStall 0 = false := by
  have heq : ∀ v : Byte, (v &&& ~~~0x02) &&& 0x02 = 0 := by decide
  simpa [kl27zEpIsStall, kl27zEpClearStall, setEp] using heq (e.ep 0)

theorem ep_clearData01 {m : Nat} : (e.clearData01 m d).ep = e.ep := by
  rw [clearData01]
  split
  · rfl
  · rfl

/-- What is done to the other endpoints leaves endpoint 0 alone. -/
theorem sameEp0_clearDtog {m : Nat} (h : m ≠ 0) (c : Dir) : SameEp0 e (e.kl27zEpClearDtog m c) where
  ep := by
    have hne : (0 : Nat) ≠ m := h.symm
    have hclear : ∀ e' : Endps, ((e'.clearData01 m c).kl27zEpClearStall m).ep 0 = e'.ep 0 := by
      intro e'
      exact (Function.update_of_ne hne _ _).trans (congrFun ep_clearData01 0)
    rw [kl27zEpClearDtog]
    split
    · exact hclear e
    · exact (hclear _).trans (Function.update_of_ne hne _ _)
  bd := by
    funext d
    exact (same_clearDtog fun hc => h hc.1.symm).1
  odd := by
    funext d
    exact (same_clearDtog fun hc => h hc.1.symm).2

theorem sameEp0_stall {m : Nat} (h : m ≠ 0) : SameEp0 e (e.kl27zEpStall m) :=
  ⟨Function.update_of_ne h.symm _ _, rfl, rfl⟩

end Endps

/-! ## The standard requests -/

/-- A request for an endpoint is one for a data endpoint. -/
theorem stdFeature_keeps {σ : Type} {P : StdPort σ} {d : StdDev σ} {arg : DeviceReq}
    {dev ep : Outcome × StdDev σ} {Q : Outcome × StdDev σ → Prop} (hd : ∀ o, Q (o, d))
    (hdev : Q dev) (hep : arg.endpoint ≠ 0 → Q ep) : Q (stdFeature P d arg dev ep) := by
  rw [stdFeature]
  repeat' split
  any_goals exact hd _
  · exact hdev
  · rename_i h _
    exact hep fun h0 => h (.inr (.inr (.inr h0)))

theorem setupRequest_sameEp0 (d : StdDev Endps) (arg : DeviceReq) :
    Endps.SameEp0 d.eps (setupRequest stdPort d arg).2.eps := by
  have hclear : Endps.SameEp0 d.eps (stdClearFeature d arg).2.eps :=
    stdFeature_keeps (Q := fun r => Endps.SameEp0 d.eps r.2.eps) (fun _ => .refl) .refl
      fun h => Endps.sameEp0_clearDtog h _
  have hset : Endps.SameEp0 d.eps (stdSetFeature d arg).2.eps :=
    stdFeature_keeps (Q := fun r => Endps.SameEp0 d.eps r.2.eps) (fun _ => .refl) .refl
      fun h => Endps.sameEp0_stall h
  rw [setupRequest]
  split
  · split
    case h_1 =>
      rw [stdGetStatus_eps]
      exact .refl
    case h_2 => exact hclear
    case h_3 => exact hset
    all_goals exact .refl
  · exact .refl

/-! ## The phases -/

/-- The direction in which the next packet of a state goes -/
def dirOf : ControlState → Option Dir
  | .inData => some .tx
  | .lastInData => some .tx
  | .waitStatusIn => some .tx
  | .waitSetup => some .rx
  | .outData => some .rx
  | .waitStatusOut => some .rx
  | .stalled => none

theorem dirOf_ctrlSend {s : Pipe} (buf : Ptr Region) (n : Nat) :
    dirOf (s.usbLldCtrlSend buf n).dev.state = some .tx := by
  show dirOf (ctrlSend (ctrlPort false) s.mem s.dev s.eps buf n).1.state = some .tx
  rw [ctrlSend]
  dsimp only
  repeat' split
  all_goals rfl

/-- Where the control pipe stands. -/
inductive Phase (s : Pipe) : Prop
  /-- The next packet of the state is armed. -/
  | armed (d : Dir) (hdir : dirOf s.dev.state = some d) (hp : s.pending ≠ .answer)
      (hst : s.stat = []) (hbd : s.eps.Armed d)
  /-- It has been moved, and the driver has not handled it. -/
  | done (d : Dir) (hdir : dirOf s.dev.state = some d) (hp : s.pending ≠ .answer)
      (hst : s.stat = [(d, s.eps.odd 0 d)]) (hbd : s.eps.Idle)
  /-- The application has to answer a request. -/
  | answering (hdir : s.dev.state ≠ .stalled) (hp : s.pending = .answer) (hst : s.stat = [])
      (hbd : s.eps.Idle)
  /-- The endpoint is stalled. -/
  | stalled (hdir : s.dev.state = .stalled) (hp : s.pending ≠ .answer) (hst : s.stat = [])
      (hbd : s.eps.Idle)

/-- The phase, and the stall bit of the endpoint. -/
structure Lockstep (s : Pipe) : Prop where
  phase : Phase s
  stall : s.eps.kl27zEpIsStall 0 = true ↔ s.dev.state = .stalled

/-- The driver, or the application, has to say what comes next. -/
structure Pipe.Free (s : Pipe) : Prop where
  pending : s.pending ≠ .answer
  stat : s.stat = []
  idle : s.eps.Idle
  stall : s.eps.kl27zEpIsStall 0 = false

namespace Pipe.Free

variable {s : Pipe}

/-- It arms the packet of the next state. -/
theorem arm {s' : Pipe} {d : Dir} (h : s.Free) (hdir : dirOf s'.dev.state = some d)
    (hp : s'.pending = s.pending) (hst : s'.stat = s.stat) (hbd : s'.eps.Armed d)
    (hep : s'.eps.ep 0 = s.eps.ep 0) : Lockstep s' where
  phase := .armed d hdir (hp ▸ h.pending) (hst.trans h.stat) hbd
  stall := by
    have hno : s'.eps.kl27zEpIsStall 0 = false := by
      rw [Endps.kl27zEpIsStall, hep, ← Endps.kl27zEpIsStall]
      exact h.stall
    rw [hno]
    refine ⟨fun h => absurd h Bool.false_ne_true, fun h => ?_⟩
    rw [h] at hdir
    cases hdir

theorem ctrlSend (h : s.Free) (buf : Ptr Region) (n : Nat) : Lockstep (s.usbLldCtrlSend buf n) :=
  h.arm (d := .tx) (dirOf_ctrlSend buf n) rfl rfl h.idle.prepareEp0 rfl

theorem ctrlRecv (h : s.Free) (p : Ptr Region) (n : Nat) : Lockstep (s.usbLldCtrlRecv p n) :=
  h.arm (d := .rx) rfl rfl rfl h.idle.prepareEp0 rfl

theorem ctrlAck (h : s.Free) : Lockstep s.usbLldCtrlAck :=
  h.arm (d := .tx) rfl rfl rfl h.idle.prepareEp0 rfl

theorem ctrlError (h : s.Free) : Lockstep s.usbLldCtrlError where
  phase := .stalled rfl h.pending h.stat h.idle
  stall := ⟨fun _ => rfl, fun _ => Endps.isStall_stall⟩

theorem datastageOut (h : s.Free) (o : Bool) : Lockstep (s.handleDatastageOut o) := by
  rw [handleDatastageOut]
  dsimp only
  split
  · exact h.arm (d := .tx) rfl rfl rfl h.idle.prepareEp0 rfl
  · exact h.arm (d := .rx) rfl rfl rfl h.idle.prepareEp0 rfl

theorem out0 (h : s.Free) (o : Bool) : Lockstep (s.handleOut0 o) := by
  rw [handleOut0]
  split
  · exact h.datastageOut o
  · split
    · exact h.arm (d := .rx) rfl rfl rfl h.idle.prepareSetup rfl
    · exact h.ctrlError

theorem setup0 (h : s.Free) (hst : s.dev.state ≠ .stalled) : Lockstep s.handleSetup0 := by
  have hsame := setupRequest_sameEp0 s.std s.dev.devReq
  have hfree : ∀ m, Free { s with
      dev := s.dev.beginSetup s.dev.devReq
      std := (setupRequest stdPort s.std s.dev.devReq).2
      mem := m } := fun m =>
    ⟨h.pending, h.stat, hsame.idle h.idle, hsame.stall.trans h.stall⟩
  rw [handleSetup0]
  dsimp only
  split
  · exact (hfree s.mem).ctrlError
  · exact (hfree _).ctrlSend _ _
  · exact (hfree s.mem).ctrlAck
  · refine ⟨.answering hst rfl h.stat (hsame.idle h.idle), ?_⟩
    have hno := (hfree s.mem).stall
    exact ⟨fun h => absurd (hno.symm.trans h) Bool.false_ne_true, fun h => absurd h hst⟩

theorem datastageIn (h : s.Free) (o : Bool) {s' : Pipe} (hp : s'.pending = s.pending)
    (hst : s'.stat = s.stat)
    (hr : (s'.dev, s'.eps) = Usb.handleDatastageIn (ctrlPort o) s.mem s.dev s.eps) :
    Lockstep s' := by
  rw [Usb.handleDatastageIn] at hr
  split at hr
  · rename_i hlast
    split at hr
    · obtain ⟨hdev, heps⟩ := Prod.mk.inj hr
      refine h.arm (d := .tx) ?_ hp hst (heps ▸ h.idle.prepareEp0) (heps ▸ rfl)
      rw [hdev]
      exact congrArg dirOf hlast.2
    · obtain ⟨hdev, heps⟩ := Prod.mk.inj hr
      exact h.arm (d := .rx) (hdev ▸ rfl) hp hst (heps ▸ h.idle.prepareEp0) (heps ▸ rfl)
  · obtain ⟨hdev, heps⟩ := Prod.mk.inj hr
    refine h.arm (d := .tx) ?_ hp hst (heps ▸ h.idle.prepareEp0) (heps ▸ rfl)
    rw [hdev]
    dsimp only
    split
    · rfl
    · rfl

theorem in0 (h : s.Free) (o : Bool) : Lockstep (s.handleIn0 o) := by
  have hdev : ((s.handleIn0 o).dev, (s.handleIn0 o).eps) =
      (Usb.handleIn0 (ctrlPort o) s.mem s.dev s.eps).1 := rfl
  rw [Usb.handleIn0] at hdev
  split at hdev
  · exact h.datastageIn o rfl rfl hdev
  · split at hdev
    · obtain ⟨hst, heps⟩ := Prod.mk.inj hdev
      refine h.arm (d := .rx) (hst ▸ rfl) rfl rfl ?_ ?_
      · rw [heps]
        dsimp only [ctrlPort]
        split
        · exact Endps.Idle.prepareSetup h.idle
        · exact h.idle.prepareSetup
      · rw [heps]
        dsimp only [ctrlPort]
        split
        · rfl
        · rfl
    · obtain ⟨hst, heps⟩ := Prod.mk.inj hdev
      refine ⟨.stalled (hst ▸ rfl) h.pending h.stat (heps ▸ h.idle), ?_⟩
      rw [heps]
      exact ⟨fun _ => hst ▸ rfl, fun _ => Endps.isStall_stall⟩

/-- The transaction is taken from the FIFO and handled. -/
theorem transaction (h : s.Free) (hst : s.dev.state ≠ .stalled) (d : Dir) (o : Bool) :
    Lockstep (s.handleTransaction d o) := by
  have hnext : (s.setEps (s.eps.handleTransaction 0 d)).Free := ⟨h.pending, h.stat, h.idle, h.stall⟩
  cases d with
  | rx =>
      rw [handleTransaction]
      split
      · obtain ⟨hphase, hstall⟩ := hnext.setup0 hst
        refine ⟨?_, hstall⟩
        cases hphase with
        | armed d hdir hp hst hbd => exact .armed d hdir hp hst hbd
        | done d hdir hp hst hbd => exact .done d hdir hp hst hbd
        | answering hdir hp hst hbd => exact .answering hdir hp hst hbd
        | stalled hdir hp hst hbd => exact .stalled hdir hp hst hbd
      · exact hnext.out0 o
  | tx => exact hnext.in0 o

end Pipe.Free

namespace Lockstep

variable {s s' : Pipe} {d : Dir}

/-- What the phase does not look at may change. -/
theorem same (h : Lockstep s) (hdev : s'.dev.state = s.dev.state)
    (hp : s'.pending = .answer ↔ s.pending = .answer) (hst : s'.stat = s.stat)
    (hbd : Endps.SameEp0 s.eps s'.eps) : Lockstep s' := by
  obtain ⟨hphase, hstall⟩ := h
  refine ⟨?_, ?_⟩
  · cases hphase with
    | armed d hdir hpend hs ha =>
        exact .armed d (hdev ▸ hdir) (hpend ∘ hp.1) (hst.trans hs) (hbd.armed ha)
    | done d hdir hpend hs hi =>
        refine .done d (hdev ▸ hdir) (hpend ∘ hp.1) ?_ (hbd.idle hi)
        rw [hst, hs, hbd.odd]
    | answering hdir hpend hs hi =>
        exact .answering (hdev ▸ hdir) (hp.2 hpend) (hst.trans hs) (hbd.idle hi)
    | stalled hdir hpend hs hi =>
        exact .stalled (hdev.trans hdir) (hpend ∘ hp.1) (hst.trans hs) (hbd.idle hi)
  · rw [hbd.stall, hdev]
    exact hstall

/-- A descriptor that belongs to the controller is the packet of the state. -/
theorem armed_of_own (h : Lockstep s) {o : Bool} (ho : (s.eps.bd 0 d o).own = true) :
    dirOf s.dev.state = some d ∧ o = s.eps.odd 0 d ∧ s.pending ≠ .answer ∧ s.stat = [] ∧
      s.eps.Armed d := by
  cases h.phase with
  | armed c hdir hp hst hbd =>
      obtain ⟨rfl, rfl⟩ := hbd.alone d o ho
      exact ⟨hdir, rfl, hp, hst, hbd⟩
  | done c hdir hp hst hbd | answering hdir hp hst hbd | stalled hdir hp hst hbd =>
      rw [hbd] at ho
      cases ho

/-- The controller moves the packet. -/
theorem complete (h : Lockstep s) (ho : (s.eps.nextBd d).own = true) {token : BitVec 32}
    (ht : token.toNat < 16) {n : Nat} (hdev : s'.dev.state = s.dev.state)
    (hp : s'.pending = s.pending) (hst : s'.stat = (s.complete d token n).stat)
    (hbd : s'.eps = (s.complete d token n).eps) : Lockstep s' := by
  obtain ⟨hdir, -, hpend, hs, ha⟩ := h.armed_of_own ho
  refine ⟨.done d (hdev ▸ hdir) (hp ▸ hpend) ?_ ?_, ?_⟩
  · rw [hst, hbd]
    show s.stat ++ [(d, s.eps.odd 0 d)] = [(d, s.eps.odd 0 d)]
    rw [hs, List.nil_append]
  · rw [hbd]
    exact ha.complete ht
  · rw [hbd, hdev]
    exact h.stall

/-- The driver is at a completed transaction. -/
theorem free (h : Lockstep s) {x : Dir × Bool} {l : List (Dir × Bool)} (hst : s.stat = x :: l) :
    Pipe.Free { s with stat := l } ∧ s.dev.state ≠ .stalled ∧ x = (x.1, s.eps.odd 0 x.1) ∧
      dirOf s.dev.state = some x.1 := by
  cases h.phase with
  | done d hdir hp hs hbd =>
      obtain ⟨rfl, rfl⟩ := List.cons.inj (hst.symm.trans hs)
      have hne : s.dev.state ≠ .stalled := fun h => by
        rw [h] at hdir
        cases hdir
      refine ⟨⟨hp, rfl, hbd, ?_⟩, hne, rfl, hdir⟩
      cases hstall : s.eps.kl27zEpIsStall 0 with
      | false => exact hstall
      | true => exact absurd (h.stall.1 hstall) hne
  | armed d hdir hp hs hbd | answering hdir hp hs hbd | stalled hdir hp hs hbd =>
      cases hst.symm.trans hs

/-- A token has been answered with STALL, and the endpoint can be used again. -/
theorem recover (h : Lockstep s) (hp : s.pending = .nothing) (hst : s.stat = [])
    (hstall : s.eps.kl27zEpIsStall 0 = true)
    (heps : s'.eps = (s.eps.kl27zEpClearStall 0).kl27zPrepareEp0Setup)
    (hdev : s'.dev.state = .waitSetup) (hp' : s'.pending = s.pending) (hst' : s'.stat = s.stat) :
    Lockstep s' := by
  have hidle : s.eps.Idle := by
    cases h.phase with
    | armed d hdir hpend hs hbd =>
        rw [h.stall.1 hstall] at hdir
        cases hdir
    | done d hdir hpend hs hbd => exact hbd
    | answering hdir hpend hs hbd => exact hbd
    | stalled hdir hpend hs hbd => exact hbd
  refine ⟨.armed .rx (hdev ▸ rfl) ?_ (hst'.trans hst) (heps ▸ Endps.Idle.prepareSetup hidle), ?_⟩
  · rw [hp', hp]
    decide
  · have hno : s'.eps.kl27zEpIsStall 0 = false := heps ▸ Endps.isStall_clearStall
    rw [hno, hdev]
    decide

theorem eventHandler (h : Lockstep s) (hp : s.pending = .nothing) :
    Lockstep s.usbLldEventHandler := by
  rw [Pipe.usbLldEventHandler]
  split
  · refine h.same rfl ?_ rfl .refl
    rw [hp]
    exact iff_of_false Pending.noConfusion Pending.noConfusion
  · split
    · rename_i d odd rest hst
      obtain ⟨hfree, hne, -⟩ := h.free hst
      exact hfree.transaction hne d odd
    · rename_i hst
      split
      · exact h.same rfl Iff.rfl rfl .refl
      · split
        · dsimp only
          split
          · rename_i hstall
            exact h.recover hp hst hstall rfl rfl rfl rfl
          · exact h.same rfl Iff.rfl rfl .refl
        · exact h

/-- The application answers the request. -/
theorem answer (h : Lockstep s) (hp : s.pending = .answer) :
    Pipe.Free { s with pending := .nothing } := by
  cases h.phase with
  | answering hdir _ hst hbd =>
      refine ⟨Pending.noConfusion, hst, hbd, ?_⟩
      cases hstall : s.eps.kl27zEpIsStall 0 with
      | false => exact hstall
      | true => exact absurd (h.stall.1 hstall) hdir
  | armed d hdir hpend hst hbd | done d hdir hpend hst hbd | stalled hdir hpend hst hbd =>
      exact absurd hp hpend

theorem followReset (s : Pipe) (feature : Byte) : Lockstep (s.followReset feature) := by
  have hidle : (Endps.kl27zUsbInit.setEp 0 0x0d).Idle := by
    intro d o
    show BdEntry.own ⟨0, Region.null.ptr⟩ = false
    decide
  refine ⟨.armed .rx rfl (by simp [Pipe.followReset]) rfl hidle.prepareSetup, ?_⟩
  have hno : ((Endps.kl27zUsbInit.setEp 0 0x0d).kl27zPrepareEp0Setup).kl27zEpIsStall 0 = false := by
    decide
  exact iff_of_false (by rw [Pipe.eps, Pipe.followReset, hno]; decide) (by simp [Pipe.followReset])

/-- **One step** of the controller, of the driver or of the application keeps the phases. -/
theorem step {feature : Byte} {a : Happening} (h : Lockstep s)
    (hs : Pipe.step feature s a = .ok s') : Lockstep s' := by
  cases a with
  | setup req =>
      rw [Pipe.step] at hs
      split at hs
      · rename_i hok
        cases hs
        rw [Bool.and_eq_true] at hok
        exact h.complete hok.2 (by decide) rfl rfl rfl rfl
      · cases hs
  | inDone =>
      rw [Pipe.step] at hs
      split at hs
      · rename_i hok
        cases hs
        rw [Pipe.moves, Bool.and_eq_true, Bool.and_eq_true] at hok
        exact h.complete hok.1.2 (by decide) rfl rfl rfl rfl
      · cases hs
  | outDone bs =>
      rw [Pipe.step] at hs
      split at hs
      · rename_i hok
        cases hs
        rw [Pipe.moves, Bool.and_eq_true, Bool.and_eq_true] at hok
        exact h.complete hok.1.2 (by decide) rfl rfl rfl rfl
      · cases hs
  | stallSent | busError | busReset =>
      cases hs
      exact h.same rfl Iff.rfl rfl .refl
  | handle =>
      rw [Pipe.step] at hs
      split at hs
      · rename_i hp
        cases hs
        exact h.eventHandler hp
      · cases hs
  | answer r =>
      rw [Pipe.step] at hs
      split at hs
      · rename_i hp
        cases hs
        have hfree := h.answer hp
        cases r with
        | send buf n => exact hfree.ctrlSend buf n
        | recv p n => exact hfree.ctrlRecv p n
        | ack => exact hfree.ctrlAck
        | error => exact hfree.ctrlError
      · cases hs
  | followReset =>
      rw [Pipe.step] at hs
      split at hs
      · cases hs
        exact followReset s feature
      · cases hs
  | other std =>
      cases hs
      exact h.same rfl Iff.rfl rfl Endps.sameEp0_withEp0

end Lockstep

theorem lockstep_of_reach {s : Pipe} {feature : Byte} {mem : Mem}
    (h : Reach (Pipe.step feature) anyEvent (.start feature mem) s) : Lockstep s :=
  h.invariant (Lockstep.followReset _ feature) fun _ _ _ hl _ hs => hl.step hs

/-! ## One packet at a time -/

/-- What the phases come to: one packet, which is armed, done or neither, and always the one that
the state of the control pipe waits for: in the state STALLED, which waits for none, nothing belongs
to the controller. -/
structure OneAtATime (s : Pipe) : Prop where
  one : ∀ d o d' o', (s.eps.bd 0 d o).own = true → (s.eps.bd 0 d' o').own = true → d = d' ∧ o = o'
  next : ∀ d o, (s.eps.bd 0 d o).own = true → dirOf s.dev.state = some d ∧ o = s.eps.odd 0 d
  fifo : s.stat.length ≤ 1
  either : ∀ d o, (s.eps.bd 0 d o).own = true → s.stat = [] ∧ s.pending ≠ .answer
  listens : s.stat = [] → s.pending ≠ .answer → s.dev.state ≠ .stalled →
    ∃ d, dirOf s.dev.state = some d ∧ (s.eps.nextBd d).own = true
  handled : ∀ d o l, s.stat = (d, o) :: l → dirOf s.dev.state = some d ∧ o = s.eps.odd 0 d
  stall : s.eps.kl27zEpIsStall 0 = true ↔ s.dev.state = .stalled

theorem Lockstep.oneAtATime {s : Pipe} (h : Lockstep s) : OneAtATime s where
  one d o d' o' ho ho' := by
    obtain ⟨hdir, hodd, -⟩ := h.armed_of_own ho
    obtain ⟨hdir', hodd', -⟩ := h.armed_of_own ho'
    obtain rfl : d = d' := Option.some.inj (hdir.symm.trans hdir')
    exact ⟨rfl, hodd.trans hodd'.symm⟩
  next d o ho := by
    obtain ⟨hdir, hodd, -⟩ := h.armed_of_own ho
    exact ⟨hdir, hodd⟩
  fifo := by
    cases h.phase with
    | armed d hdir hp hst hbd | answering hdir hp hst hbd | stalled hdir hp hst hbd =>
        rw [hst]
        exact Nat.zero_le 1
    | done d hdir hp hst hbd => rw [hst, List.length_singleton]
  either d o ho := by
    obtain ⟨-, -, hp, hst, -⟩ := h.armed_of_own ho
    exact ⟨hst, hp⟩
  listens hst hp hne := by
    cases h.phase with
    | armed d hdir _ _ hbd => exact ⟨d, hdir, hbd.own⟩
    | done d hdir hp hs hbd => cases hst.symm.trans hs
    | answering hdir hpend hs hbd => exact absurd hpend hp
    | stalled hdir hp hs hbd => exact absurd hdir hne
  handled d o l hst := by
    obtain ⟨-, -, hx, hdir⟩ := h.free hst
    exact ⟨hdir, congrArg Prod.snd hx⟩
  stall := h.stall

/-- **One packet at a time**: in every run of the controller, the driver and the application, at
most one descriptor of endpoint 0 belongs to the controller, and it is the next one of the
direction that the state of the control pipe says; what is completed is one transaction, it is
handled in a state that waits for it, and the endpoint is never deaf but while the application has
to answer or the endpoint is stalled. -/
theorem one_packet_at_a_time {s : Pipe} {feature : Byte} {mem : Mem}
    (h : Reach (Pipe.step feature) anyEvent (.start feature mem) s) : OneAtATime s :=
  (lockstep_of_reach h).oneAtATime

/-- A request for the descriptor of the device -/
def getDescriptor : DeviceReq := ⟨0x80, 6, 0x0100, 0, 18⟩

/-- The first packet of the answer has been taken. -/
theorem one_packet_descriptor : ∃ s : Pipe, s.stat = [(.tx, false)] ∧ OneAtATime s := by
  have htest : runTest (Pipe.step 0x80) (fun _ _ => true)
      (fun s => decide (s.stat = [(.tx, false)])) (.start 0x80 fun _ _ => 0)
      [.setup getDescriptor, .handle, .answer (.send ⟨.app, 0⟩ 18), .inDone] = true := by
    decide +kernel
  obtain ⟨s, hs, hp⟩ := reach_any_of_runTest htest
  exact ⟨s, of_decide_eq_true hp, one_packet_at_a_time hs⟩

end Chopstx.Usb.Mkl27z
