import Chopstx.Property.Lockstep

/-!
# Data toggles of the control pipe of the MKL27Z

After a SETUP packet the packets of each direction of endpoint 0 carry DATA1, DATA0, DATA1, …: the
data stage begins with DATA1, and so does the status packet, which goes the other way.  The driver
computes the toggle of a packet from the control word of the one before, and `Toggles` ties what it
finds there to the packets so far.

* `Moved`, `InTurn` - the packets of a run, and that each has the toggle that it has to have.
* `Pipe.orderly` - the host sends no data where a SETUP packet has to come.
* `turns_setup0`, `turns_in0`, `turns_out0` - the toggle that each function of the driver hands the
  next packet over with.
* `Toggles`, `step` - the invariant of a run and its step lemma.
* `control_packets_in_turn` - the result about runs; `control_packets_write` is one with data of a
  control write transfer.

The invariant of the table itself is that of `Chopstx.Property.Lockstep`.
-/

namespace Chopstx.Usb.Mkl27z

open Transition

/-! ## The packets of a run -/

/-- What the log of a run keeps: the SETUP packets, and the other packets with their toggle. -/
inductive Moved where
  | setup
  | packet (d : Dir) (data1 : Bool)
  deriving DecidableEq, Repr

/-- What one step moves. -/
def Pipe.moved (s : Pipe) : Happening → List Moved
  | .setup _ => [.setup]
  | .inDone => [.packet .tx (s.eps.nextBd .tx).data01]
  | .outDone _ => [.packet .rx (s.eps.nextBd .rx).data01]
  | _ => []

namespace Moved

/-- The toggles that the next packets of the two directions have to have, after one more packet. -/
def expect (y : Dir → Bool) : Moved → Dir → Bool
  | setup => fun _ => true
  | packet d _ => Function.update y d (!y d)

/-- The toggles after the log -/
def expected (log : List Moved) : Dir → Bool := log.foldl expect fun _ => true

/-- Every packet of the log has the toggle that it has to have. -/
def InTurn (log : List Moved) : Prop :=
  ∀ pre d x, pre ++ [packet d x] <+: log → x = expected pre d

variable {log : List Moved} {m : Moved}

theorem expected_concat : expected (log ++ [m]) = expect (expected log) m := by
  rw [expected, List.foldl_concat]
  rfl

theorem InTurn.nil : InTurn [] := by
  intro pre d x hpre
  have hnil := List.prefix_nil.1 hpre
  simp at hnil

theorem InTurn.concat (h : InTurn log) (hm : ∀ d x, m = packet d x → x = expected log d) :
    InTurn (log ++ [m]) := by
  intro pre d x hpre
  rcases List.prefix_concat_iff.1 hpre with heq | hle
  · obtain ⟨rfl, hlast⟩ := List.append_inj' heq rfl
    exact hm d x (List.head_eq_of_cons_eq hlast).symm
  · exact h pre d x hle

end Moved

/-- The host sends no data where a SETUP packet has to come. -/
def Pipe.orderly (s : Pipe) : Happening → Bool
  | .outDone _ => s.dev.state ≠ .waitSetup
  | _ => true

/-! ## The toggles of the descriptors -/

/-- The states of a data stage -/
def isData : ControlState → Bool
  | .inData => true
  | .lastInData => true
  | .outData => true
  | _ => false

/-- The other direction -/
def Dir.other : Dir → Dir
  | .rx => .tx
  | .tx => .rx

/-- The packet of the state has the toggle `y`, and the status packet after a data stage is going
to be the first one of its direction. -/
def Pipe.Turns (s : Pipe) (y : Dir → Bool) : Prop :=
  ∀ d, s.dev.state ≠ .waitSetup → dirOf s.dev.state = some d →
    (s.eps.nextBd d).data01 = y d ∧ (isData s.dev.state = true → y d.other = true)

/-- A transaction of the direction is done. -/
structure Pipe.Turned (s : Pipe) (y : Dir → Bool) (d : Dir) (o : Bool) : Prop where
  next : (s.eps.bd 0 d o).data01 = !y d
  other : isData s.dev.state = true → y d.other = true

namespace Pipe

variable {s : Pipe} {y : Dir → Bool} {d : Dir} {o : Bool} {e : Endps}

theorem nextBd_prepareEp0 {buf : Ptr Region} {n : Nat} {x : Bool} :
    ((e.prepareEp0 d buf n x).nextBd d).data01 = x := by
  have hbd : (e.prepareEp0 d buf n x).nextBd d = ⟨armWord n x, buf⟩ := setBd_self
  rw [hbd, data01_armWord]

/-- The driver arms a packet. -/
theorem turns_of {s' : Pipe} {buf : Ptr Region} {n : Nat} {x : Bool}
    (hdir : dirOf s'.dev.state = some d) (heps : s'.eps = e.prepareEp0 d buf n x) (hx : x = y d)
    (hother : isData s'.dev.state = true → y d.other = true) : s'.Turns y := by
  intro c _ hc
  obtain rfl : d = c := Option.some.inj (hdir.symm.trans hc)
  refine ⟨?_, hother⟩
  rw [heps, nextBd_prepareEp0, hx]

theorem turns_waitSetup (h : s.dev.state = .waitSetup) : s.Turns y :=
  fun _ hne _ => absurd h hne

theorem turns_stalled (h : s.dev.state = .stalled) : s.Turns y := by
  intro d _ hd
  rw [h] at hd
  cases hd

/-! ### After a SETUP packet -/

theorem turns_ctrlSend (hy : ∀ c, y c = true) (buf : Ptr Region) (n : Nat) :
    (s.usbLldCtrlSend buf n).Turns y :=
  turns_of (dirOf_ctrlSend buf n) rfl (hy .tx).symm fun _ => hy _

theorem turns_ctrlRecv (hy : ∀ c, y c = true) (p : Ptr Region) (n : Nat) :
    (s.usbLldCtrlRecv p n).Turns y :=
  turns_of (d := .rx) rfl rfl (hy .rx).symm fun _ => hy _

theorem turns_ctrlAck (hy : ∀ c, y c = true) : s.usbLldCtrlAck.Turns y :=
  turns_of (d := .tx) rfl rfl (hy .tx).symm fun _ => hy _

theorem turns_ctrlError : s.usbLldCtrlError.Turns y :=
  turns_stalled rfl

/-- The request is answered, or the application has to answer it. -/
theorem turns_setup0 (hy : ∀ c, y c = true) :
    s.handleSetup0.pending = .answer ∨ s.handleSetup0.Turns y := by
  rw [handleSetup0]
  dsimp only
  split
  · exact .inr turns_ctrlError
  · exact .inr (turns_ctrlSend hy _ _)
  · exact .inr (turns_ctrlAck hy)
  · exact .inl rfl

/-! ### After another packet -/

theorem Turned.toggle (h : s.Turned y d o) : (!(s.eps.bd 0 d o).data01) = y d := by
  rw [h.next, Bool.not_not]

theorem turns_out0 (h : s.Turned y .rx o) : (s.handleOut0 o).Turns y := by
  rw [handleOut0]
  split
  · rename_i hst
    have hdata : isData s.dev.state = true := hst ▸ rfl
    rw [handleDatastageOut]
    dsimp only
    split
    · exact turns_of (d := .tx) rfl rfl (h.other hdata).symm fun h => by cases h
    · exact turns_of (d := .rx) rfl rfl h.toggle fun _ => h.other hdata
  · split
    · exact turns_waitSetup rfl
    · exact turns_ctrlError

theorem turns_in0 (h : s.Turned y .tx o) : (s.handleIn0 o).Turns y := by
  have hdev : ((s.handleIn0 o).dev, (s.handleIn0 o).eps) =
      (Usb.handleIn0 (ctrlPort o) s.mem s.dev s.eps).1 := rfl
  rw [Usb.handleIn0] at hdev
  split at hdev
  · rename_i hst
    have hdata : isData s.dev.state = true := by
      rcases hst with hst | hst
      · exact hst ▸ rfl
      · exact hst ▸ rfl
    rw [Usb.handleDatastageIn] at hdev
    split at hdev
    · rename_i hlast
      split at hdev
      · obtain ⟨hd, heps⟩ := Prod.mk.inj hdev
        exact turns_of (d := .tx) (by rw [hd]; exact congrArg dirOf hlast.2) heps h.toggle
          fun _ => h.other hdata
      · obtain ⟨hd, heps⟩ := Prod.mk.inj hdev
        refine turns_of (d := .rx) (hd ▸ rfl) heps (h.other hdata).symm fun h => ?_
        rw [hd] at h
        cases h
    · obtain ⟨hd, heps⟩ := Prod.mk.inj hdev
      refine turns_of (d := .tx) ?_ heps h.toggle fun _ => h.other hdata
      rw [hd]
      dsimp only
      split
      · rfl
      · rfl
  · split at hdev
    · obtain ⟨hd, -⟩ := Prod.mk.inj hdev
      exact turns_waitSetup (hd ▸ rfl)
    · obtain ⟨hd, -⟩ := Prod.mk.inj hdev
      exact turns_stalled (hd ▸ rfl)

theorem out0_frame : (s.handleOut0 o).pending = s.pending ∧ (s.handleOut0 o).stat = s.stat := by
  rw [handleOut0, handleDatastageOut]
  dsimp only
  repeat' split
  all_goals exact ⟨rfl, rfl⟩

theorem stat_setup0 : s.handleSetup0.stat = s.stat := by
  rw [handleSetup0]
  dsimp only
  split
  all_goals rfl

end Pipe

/-! ## The invariant -/

/-- The toggles of the descriptors agree with the packets so far. -/
structure Toggles (log : List Moved) (s : Pipe) : Prop where
  inTurn : Moved.InTurn log
  armed : s.stat = [] → s.pending ≠ .answer → s.Turns (Moved.expected log)
  done : ∀ d o, s.stat = [(d, o)] →
    (d = .rx ∧ (s.eps.bd 0 .rx o).tokPid = usbTokenSetup ∧ ∀ c, Moved.expected log c = true) ∨
      ((d = .rx → (s.eps.bd 0 .rx o).tokPid ≠ usbTokenSetup) ∧
        s.Turned (Moved.expected log) d o)
  answering : s.pending = .answer → ∀ c, Moved.expected log c = true

namespace Toggles

variable {log : List Moved} {s s' : Pipe} {d : Dir} {o : Bool}

/-- What the toggles do not depend on may change. -/
theorem same (h : Toggles log s) (hdev : s'.dev.state = s.dev.state)
    (hp : s'.pending = .answer ↔ s.pending = .answer) (hst : s'.stat = s.stat)
    (hbd : Endps.SameEp0 s.eps s'.eps) : Toggles log s' where
  inTurn := h.inTurn
  armed hs hpend d hne hdir := by
    rw [hdev] at hne hdir
    rw [hdev, hbd.nextBd]
    exact h.armed (hst ▸ hs) (fun h => hpend (hp.2 h)) d hne hdir
  done d o hs := by
    rw [hbd.bd]
    refine (h.done d o (hst ▸ hs)).imp id fun ⟨htok, hnext, hother⟩ => ⟨htok, ?_, ?_⟩
    · rw [hbd.bd]
      exact hnext
    · rw [hdev]
      exact hother
  answering hpend := h.answering (hp.1 hpend)

/-- Nothing is done, and what comes next is known. -/
theorem of_turns (h : Toggles log s) (hst : s'.stat = [])
    (hturns : s'.pending ≠ .answer → s'.Turns (Moved.expected log))
    (hans : s'.pending = .answer → ∀ c, Moved.expected log c = true) : Toggles log s' where
  inTurn := h.inTurn
  armed _ := hturns
  done d o hs := by
    rw [hst] at hs
    cases hs
  answering := hans

/-- The host takes a packet, or sends one. -/
theorem packet (h : Toggles log s) (hl : Lockstep s) (ho : (s.eps.nextBd d).own = true)
    (hne : s.dev.state ≠ .waitSetup) {token : BitVec 32} (ht : token.toNat < 16)
    (hset : token ≠ usbTokenSetup) {n : Nat} (hdev : s'.dev.state = s.dev.state)
    (hp : s'.pending = s.pending) (hst : s'.stat = (s.complete d token n).stat)
    (hbd : s'.eps = (s.complete d token n).eps) :
    Toggles (log ++ [.packet d (s.eps.nextBd d).data01]) s' := by
  obtain ⟨hdir, -, hpend, hs, -⟩ := hl.armed_of_own ho
  obtain ⟨hx, hother⟩ := h.armed hs hpend d hne hdir
  have hstat : s'.stat = [(d, s.eps.odd 0 d)] := by
    rw [hst, Pipe.complete, hs, List.nil_append]
  have hentry : s'.eps.bd 0 d (s.eps.odd 0 d) =
      ⟨doneWord (s.eps.nextBd d).ctrl token n, (s.eps.nextBd d).buf⟩ := by
    rw [hbd]
    exact setBd_self
  refine ⟨h.inTurn.concat ?_, ?_, ?_, ?_⟩
  · rintro c x ⟨rfl, rfl⟩
    exact hx
  · intro hnil
    rw [hstat] at hnil
    cases hnil
  · intro c o hc
    rw [hstat, List.cons.injEq, Prod.mk.injEq] at hc
    obtain ⟨⟨rfl, rfl⟩, -⟩ := hc
    refine .inr ⟨?_, ?_, ?_⟩
    · rintro rfl
      rw [hentry, tokPid_doneWord ht]
      exact hset
    · rw [hentry, data01_doneWord ht, hx, Moved.expected_concat, Moved.expect,
        Function.update_self, Bool.not_not]
    · intro hdata
      rw [hdev] at hdata
      have hdo : d.other ≠ d := by cases d <;> decide
      rw [Moved.expected_concat, Moved.expect, Function.update_of_ne hdo]
      exact hother hdata
  · intro hans
    exact absurd (hp ▸ hans) hpend

/-- The host sends a SETUP packet. -/
theorem setup (h : Toggles log s) (hl : Lockstep s) (ho : (s.eps.nextBd .rx).own = true) {n : Nat}
    (hst : s'.stat = (s.complete .rx usbTokenSetup n).stat)
    (hbd : s'.eps = (s.complete .rx usbTokenSetup n).eps) : Toggles (log ++ [.setup]) s' := by
  obtain ⟨-, -, hpend, hs, -⟩ := hl.armed_of_own ho
  have hall : ∀ c, Moved.expected (log ++ [.setup]) c = true := fun c => by
    rw [Moved.expected_concat, Moved.expect]
  have hstat : s'.stat = [(.rx, s.eps.odd 0 .rx)] := by
    rw [hst, Pipe.complete, hs, List.nil_append]
  refine ⟨h.inTurn.concat ?_, ?_, ?_, fun _ => hall⟩
  · rintro c x ⟨⟩
  · intro hnil
    rw [hstat] at hnil
    cases hnil
  · intro c o hc
    rw [hstat, List.cons.injEq, Prod.mk.injEq] at hc
    obtain ⟨⟨rfl, rfl⟩, -⟩ := hc
    refine .inl ⟨rfl, ?_, hall⟩
    have hentry : s'.eps.bd 0 .rx (s.eps.odd 0 .rx) =
        ⟨doneWord (s.eps.nextBd .rx).ctrl usbTokenSetup n, (s.eps.nextBd .rx).buf⟩ := by
      rw [hbd]
      exact setBd_self
    rw [hentry]
    exact tokPid_doneWord (by decide)

/-- The driver handles what has been done. -/
theorem transaction (h : Toggles log s) (hp : s.pending = .nothing) (hst : s.stat = [(d, o)]) :
    Toggles log ({ s with stat := [] }.handleTransaction d o) := by
  have hnever : s.pending ≠ .answer := hp ▸ Pending.noConfusion
  have hnext : ∀ d, Pipe.Turned s (Moved.expected log) d o →
      (Pipe.setEps { s with stat := [] } (s.eps.handleTransaction 0 d)).Turned
        (Moved.expected log) d o := fun d hd => ⟨hd.next, hd.other⟩
  rcases h.done d o hst with ⟨rfl, htok, hall⟩ | ⟨htok, hturned⟩
  · rw [Pipe.handleTransaction]
    split
    · refine h.of_turns Pipe.stat_setup0 (fun hpend => ?_) fun _ => hall
      rcases Pipe.turns_setup0 hall with hans | hturns
      · exact absurd hans hpend
      · exact hturns
    · rename_i hno
      exact absurd htok hno
  · cases d with
    | rx =>
        rw [Pipe.handleTransaction]
        split
        · rename_i hset
          exact absurd hset (htok rfl)
        · obtain ⟨hpend, hstat⟩ := Pipe.out0_frame (o := o)
            (s := Pipe.setEps { s with stat := [] } (s.eps.handleTransaction 0 .rx))
          exact h.of_turns hstat (fun _ => Pipe.turns_out0 (hnext .rx hturned))
            fun hans => absurd (hpend ▸ hans) hnever
    | tx =>
        exact h.of_turns rfl (fun _ => Pipe.turns_in0 (hnext .tx hturned))
          fun hans => absurd hans hnever

theorem eventHandler (h : Toggles log s) (hl : Lockstep s) (hp : s.pending = .nothing) :
    Toggles log s.usbLldEventHandler := by
  rw [Pipe.usbLldEventHandler]
  split
  · refine h.same rfl ?_ rfl .refl
    rw [hp]
    exact iff_of_false Pending.noConfusion Pending.noConfusion
  · split
    · rename_i d odd rest hst
      obtain rfl : rest = [] := by
        have hlen := hl.oneAtATime.fifo
        rw [hst] at hlen
        exact List.length_eq_zero_iff.1 (Nat.le_zero.1 (Nat.le_of_succ_le_succ hlen))
      exact h.transaction hp hst
    · rename_i hst
      split
      · exact h.same rfl Iff.rfl rfl .refl
      · split
        · dsimp only
          split
          · refine h.of_turns hst (fun _ => Pipe.turns_waitSetup rfl) fun hans => ?_
            exact absurd (hp.symm.trans hans) Pending.noConfusion
          · exact h.same rfl Iff.rfl rfl .refl
        · exact h

/-- **One step** keeps the toggles in turn. -/
theorem step {feature : Byte} {a : Happening} (h : Toggles log s) (hl : Lockstep s)
    (hok : s.orderly a = true) (hs : Pipe.step feature s a = .ok s') :
    Toggles (log ++ s.moved a) s' := by
  have hnil : ∀ {l : List Moved}, l = [] → ∀ {t : Pipe}, Toggles log t → Toggles (log ++ l) t := by
    rintro l rfl t ht
    rwa [List.append_nil]
  cases a with
  | setup req =>
      rw [Pipe.step] at hs
      split at hs
      · rename_i hown
        cases hs
        rw [Bool.and_eq_true] at hown
        exact h.setup hl hown.2 rfl rfl
      · cases hs
  | inDone =>
      rw [Pipe.step] at hs
      split at hs
      · rename_i hown
        cases hs
        rw [Pipe.moves, Bool.and_eq_true, Bool.and_eq_true] at hown
        have hne : s.dev.state ≠ .waitSetup := fun hst => by
          have hdir := (hl.armed_of_own hown.1.2).1
          rw [hst] at hdir
          cases hdir
        exact h.packet hl hown.1.2 hne (by decide) (by decide) rfl rfl rfl rfl
      · cases hs
  | outDone bs =>
      rw [Pipe.step] at hs
      split at hs
      · rename_i hown
        cases hs
        rw [Pipe.moves, Bool.and_eq_true, Bool.and_eq_true] at hown
        exact h.packet hl hown.1.2 (of_decide_eq_true hok) (by decide) (by decide) rfl rfl rfl rfl
      · cases hs
  | stallSent | busError | busReset =>
      cases hs
      exact hnil rfl (h.same rfl Iff.rfl rfl .refl)
  | handle =>
      rw [Pipe.step] at hs
      split at hs
      · rename_i hp
        cases hs
        exact hnil rfl (h.eventHandler hl hp)
      · cases hs
  | answer r =>
      rw [Pipe.step] at hs
      split at hs
      · rename_i hp
        cases hs
        have hall := h.answering hp
        have hst : s.stat = [] := (hl.answer hp).stat
        refine hnil rfl (h.of_turns ?_ (fun _ => ?_) fun _ => hall)
        · cases r with
          | send buf n | recv p n | ack | error => exact hst
        · cases r with
          | send buf n => exact Pipe.turns_ctrlSend hall buf n
          | recv p n => exact Pipe.turns_ctrlRecv hall p n
          | ack => exact Pipe.turns_ctrlAck hall
          | error => exact Pipe.turns_ctrlError
      · cases hs
  | followReset =>
      rw [Pipe.step] at hs
      split at hs
      · cases hs
        refine hnil rfl (h.of_turns rfl (fun _ => Pipe.turns_waitSetup rfl) fun hans => ?_)
        exact absurd hans Pending.noConfusion
      · cases hs
  | other std =>
      cases hs
      exact hnil rfl (h.same rfl Iff.rfl rfl Endps.sameEp0_withEp0)

end Toggles

/-- **The packets of endpoint 0 are in turn**: in every run in which the host sends no data where
a SETUP packet has to come, each packet after a SETUP packet has the toggle that the packets of its
direction before it leave over, and the first one of a direction has DATA1. -/
theorem control_packets_in_turn {s : Pipe} {feature : Byte} {mem : Mem} {log : List Moved}
    (h : Logged (Pipe.step feature) (fun s a => s.orderly a = true) Pipe.moved
      (.start feature mem) log s) : Moved.InTurn log := by
  have hlock : ∀ s₁, Steps (Pipe.step feature) (fun s a => s.orderly a = true)
      (.start feature mem) s₁ → Lockstep s₁ :=
    fun s₁ hs => lockstep_of_reach (hs.mono fun _ _ _ => trivial)
  have hstart : Toggles [] (Pipe.start feature mem) := by
    refine ⟨Moved.InTurn.nil, fun _ _ => Pipe.turns_waitSetup rfl, fun d o hst => ?_,
      fun hans => ?_⟩
    · cases hst
    · cases hans
  exact (h.keeps (P := Toggles) hlock (fun l s e s' hl _ ht hok hs => ht.step hl hok hs)
    hstart).inTurn

/-- A request to write three bytes, with its data and its status packet. -/
theorem control_packets_write : ∃ log : List Moved,
    log = [.setup, .packet .rx true, .packet .tx true] ∧ Moved.InTurn log := by
  have htest : logTest (Pipe.step 0x80) Pipe.orderly Pipe.moved
      (fun log _ => decide (log = [.setup, .packet .rx true, .packet .tx true])) []
      (.start 0x80 fun _ _ => 0)
      [.setup ⟨0x21, 0x20, 0, 0, 3⟩, .handle, .answer (.recv ⟨.app, 0⟩ 3), .outDone [1, 2, 3],
        .handle, .inDone] = true := by
    decide +kernel
  obtain ⟨log, s, hrun, hlog⟩ := logged_of_logTest (.refl _) htest
  exact ⟨log, of_decide_eq_true hlog, control_packets_in_turn hrun⟩

end Chopstx.Usb.Mkl27z
