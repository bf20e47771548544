import Chopstx.Property.Lockstep
import Chopstx.Property.DataStage

/-!
# The data of a control write transfer of the MKL27Z

The controller writes the packets of the data stage to where `usb_lld_ctrl_recv` wants the data,
and `handle_datastage_out` arms the next buffer behind them.  Whatever else happens on the bus or
to the device, the bytes of the packets stand one behind the other, none is written outside, and
the stage ends with the last one.

* `Pipe.taken`, `Pipe.goesOn` - the packet of a step, and that the transfer is not given up.
* `Wants`, `Took`, `Ended`, `Stage` - the points of the data stage.
* `Receives` - the buffer, the packets so far, and the memory outside.
* `outDone`, `handle`, `step` - what the bus and the driver do to it.
* `out_stage_stores` - the result about runs, and `out_stage_stores_seven` a stage of seven bytes.

The descriptors are those of `Chopstx.Property.Lockstep`.
-/

namespace Chopstx.Usb.Mkl27z

open Transition Memory

/-- The host and the application go on with the data stage. -/
def Pipe.goesOn (s : Pipe) : Happening → Bool
  | .setup _ => false
  | .followReset => false
  | _ => s.dev.state = .outData

/-- The bytes that one step receives -/
def Pipe.taken (s : Pipe) : Happening → List Byte
  | .outDone bs => s.cut bs
  | _ => []

/-- The buffer of the next packet is armed: it begins behind the bytes received, and has room for
what is still to come, as far as a packet can bring it. -/
structure Wants (p : Ptr Region) (len n : Nat) (s : Pipe) : Prop where
  room : n < len
  stat : s.stat = []
  addr : s.dev.ctrlData.addr = p.add n
  left : s.dev.ctrlData.len.toNat = len - n
  own : (s.eps.nextBd .rx).own = true
  buf : (s.eps.nextBd .rx).buf = p.add n
  bc : (s.eps.nextBd .rx).bc = min maxPacketSize (len - n)

/-- A packet has been received and is not handled; it has brought the last `k` of `n` bytes. -/
structure Took (p : Ptr Region) (len n : Nat) (s : Pipe) (o : Bool) (k : Nat) : Prop where
  room : n ≤ len
  count : k ≤ n
  stat : s.stat = [(.rx, o)]
  addr : s.dev.ctrlData.addr = p.add (n - k)
  left : s.dev.ctrlData.len.toNat = len - (n - k)
  data : (s.eps.bd 0 .rx o).tokPid ≠ usbTokenSetup
  bc : (s.eps.bd 0 .rx o).bc = k

/-- All has been received, and the status packet is armed. -/
structure Ended (s : Pipe) : Prop where
  state : s.dev.state = .waitStatusIn
  stat : s.stat = []
  own : (s.eps.nextBd .tx).own = true
  data01 : (s.eps.nextBd .tx).data01 = true
  bc : (s.eps.nextBd .tx).bc = 0

/-- The data stage after some bytes -/
inductive Stage (p : Ptr Region) (len n : Nat) (s : Pipe) : Prop
  | wants (hst : s.dev.state = .outData) (h : Wants p len n s)
  | took (o : Bool) (k : Nat) (hst : s.dev.state = .outData) (h : Took p len n s o k)
  | ended (hn : n = len) (h : Ended s)

/-- The bytes are in place. -/
structure Receives (M : Mem) (p : Ptr Region) (len : Nat) (l : List Byte) (s : Pipe) : Prop where
  mem : s.mem = M.write p l
  pending : s.pending ≠ .answer
  stage : Stage p len l.length s

section

variable {p : Ptr Region} {len n k : Nat} {s s' : Pipe} {o : Bool} {M : Mem} {l : List Byte}

theorem bc_packet {buf : Ptr Region} {x : Bool} (h : n ≤ maxPacketSize) :
    BdEntry.bc ⟨armWord n x, buf⟩ = n := by
  rw [bc_armWord]
  exact Nat.mod_eq_of_lt (h.trans_lt (by decide))

/-- A buffer is armed. -/
theorem wants_of {e : Endps} {x : Bool} (hroom : n < len) (hst : s.stat = [])
    (haddr : s.dev.ctrlData.addr = p.add n) (hleft : s.dev.ctrlData.len.toNat = len - n)
    (hk : k = min maxPacketSize (len - n)) (heps : s.eps = e.prepareEp0 .rx (p.add n) k x) :
    Wants p len n s := by
  have hbd : s.eps.nextBd .rx = ⟨armWord k x, p.add n⟩ := by
    rw [heps]
    exact setBd_self
  refine ⟨hroom, hst, haddr, hleft, ?_, ?_, ?_⟩
  · rw [hbd]
    exact own_armWord
  · rw [hbd]
  · rw [hbd, bc_packet (by omega), hk]

/-- `usb_lld_ctrl_recv` -/
theorem wants_ctrlRecv (h₁ : 1 ≤ len) (h₂ : len ≤ 65535) (hst : s.stat = []) :
    Wants p len 0 (s.usbLldCtrlRecv p len) := by
  refine wants_of h₁ hst rfl (Nat.mod_eq_of_lt (by omega)) ?_ rfl
  split
  · omega
  · omega

theorem datastageOut_frame : (s.handleDatastageOut o).mem = s.mem ∧
    (s.handleDatastageOut o).pending = s.pending := by
  rw [Pipe.handleDatastageOut]
  dsimp only
  split
  · exact ⟨rfl, rfl⟩
  · exact ⟨rfl, rfl⟩

/-- `handle_datastage_out` -/
theorem stage_datastageOut (hroom : n ≤ len) (hk : k ≤ n) (hst : s.stat = [])
    (haddr : s.dev.ctrlData.addr = p.add (n - k))
    (hleft : s.dev.ctrlData.len.toNat = len - (n - k)) (hbc : (s.eps.bd 0 .rx o).bc = k) :
    Stage p len n (s.handleDatastageOut o) := by
  have haddr' : (s.dev.ctrlData.advance k).addr = p.add n := by
    show s.dev.ctrlData.addr.add k = p.add n
    rw [haddr, Ptr.add_add, Nat.sub_add_cancel hk]
  have hleft' : (s.dev.ctrlData.advance k).len.toNat = len - n := by
    rw [advance_len (by omega), hleft]
    omega
  rw [Pipe.handleDatastageOut]
  dsimp only
  rw [hbc]
  split
  · rename_i hzero
    have hzero' : len - n = 0 := by
      rw [← hleft', hzero]
      rfl
    have hbd : (s.eps.kl27zPrepareEp0In Region.devReq.ptr 0 ep0Data1).nextBd .tx =
        ⟨armWord 0 ep0Data1, Region.devReq.ptr⟩ := setBd_self
    refine .ended (by omega) ⟨rfl, hst, ?_, ?_, ?_⟩
    · exact (congrArg BdEntry.own hbd).trans own_armWord
    · exact (congrArg BdEntry.data01 hbd).trans data01_armWord
    · exact (congrArg BdEntry.bc hbd).trans (bc_packet (Nat.zero_le _))
  · rename_i hne
    have hpos : n < len := by
      by_contra hge
      refine hne (BitVec.eq_of_toNat_eq (hleft'.trans ?_))
      show len - n = 0
      omega
    have heps : s.eps.kl27zPrepareEp0Out (s.dev.ctrlData.advance k).addr
        (packetLen (s.dev.ctrlData.advance k).len) (!(s.eps.bd 0 .rx o).data01) =
          s.eps.prepareEp0 .rx (p.add n) (packetLen (s.dev.ctrlData.advance k).len)
            (!(s.eps.bd 0 .rx o).data01) := by
      rw [haddr']
      rfl
    refine .wants rfl (wants_of hpos hst haddr' hleft' ?_ heps)
    rw [packetLen, hleft']
    split
    · omega
    · omega

end

/-! ## The steps -/

namespace Receives

variable {p : Ptr Region} {len : Nat} {s s' : Pipe} {M : Mem} {l : List Byte}

/-- What the data stage does not look at may change. -/
theorem same (h : Receives M p len l s) (hdev : s'.dev = s.dev) (hmem : s'.mem = s.mem)
    (hp : s'.pending ≠ .answer) (hst : s'.stat = s.stat) (hbd : Endps.SameEp0 s.eps s'.eps) :
    Receives M p len l s' := by
  refine ⟨hmem.trans h.mem, hp, ?_⟩
  cases h.stage with
  | wants hout hw =>
      refine .wants (hdev ▸ hout)
        ⟨hw.room, hst.trans hw.stat, hdev ▸ hw.addr, hdev ▸ hw.left, ?_, ?_, ?_⟩
      · rw [hbd.nextBd, hw.own]
      · rw [hbd.nextBd, hw.buf]
      · rw [hbd.nextBd, hw.bc]
  | took o k hout hw =>
      refine .took o k (hdev ▸ hout)
        ⟨hw.room, hw.count, hst.trans hw.stat, hdev ▸ hw.addr, hdev ▸ hw.left, ?_, ?_⟩
      · rw [hbd.bd]
        exact hw.data
      · rw [hbd.bd]
        exact hw.bc
  | ended hn hw =>
      refine .ended hn ⟨hdev ▸ hw.state, hst.trans hw.stat, ?_, ?_, ?_⟩
      · rw [hbd.nextBd, hw.own]
      · rw [hbd.nextBd, hw.data01]
      · rw [hbd.nextBd, hw.bc]

/-- The host sends a packet. -/
theorem outDone (h : Receives M p len l s) (hst : s.dev.state = .outData)
    (hown : (s.eps.nextBd .rx).own = true) (hl : Lockstep s) (bs : List Byte) :
    Receives M p len (l ++ s.cut bs)
      { s.complete .rx usbTokenOut (s.cut bs).length with mem := s.store bs } := by
  cases h.stage with
  | took o k _ hw =>
      have hnil := (hl.armed_of_own hown).2.2.2.1
      rw [hw.stat] at hnil
      cases hnil
  | ended _ hw =>
      rw [hw.state] at hst
      cases hst
  | wants _ hw =>
      have hcut : (s.cut bs).length ≤ min maxPacketSize (len - l.length) := by
        rw [Pipe.cut, List.length_take, hw.bc]
        exact Nat.min_le_left _ _
      have hmax : maxPacketSize < 1024 := by decide
      have hroom := hw.room
      have hentry : (s.eps.complete .rx usbTokenOut (s.cut bs).length).bd 0 .rx (s.eps.odd 0 .rx) =
          ⟨doneWord (s.eps.nextBd .rx).ctrl usbTokenOut (s.cut bs).length,
            (s.eps.nextBd .rx).buf⟩ := setBd_self
      refine ⟨?_, h.pending, .took (s.eps.odd 0 .rx) (s.cut bs).length hst ?_⟩
      · show s.mem.write (s.eps.nextBd .rx).buf (s.cut bs) = M.write p (l ++ s.cut bs)
        rw [hw.buf, h.mem, write_write_append]
      · rw [List.length_append]
        refine ⟨by omega, by omega, ?_, ?_, ?_, ?_, ?_⟩
        · show s.stat ++ _ = _
          rw [hw.stat, List.nil_append]
        · rw [Nat.add_sub_cancel]
          exact hw.addr
        · rw [Nat.add_sub_cancel]
          exact hw.left
        · intro htok
          have htok' := (congrArg BdEntry.tokPid hentry).symm.trans htok
          rw [tokPid_doneWord (by decide)] at htok'
          cases htok'
        · exact (congrArg BdEntry.bc hentry).trans (bc_doneWord (by decide) (by omega))

/-- The driver handles it. -/
theorem handle (h : Receives M p len l s) (hst : s.dev.state = .outData) (hl : Lockstep s) :
    Receives M p len l s.usbLldEventHandler := by
  have hnever : s.pending ≠ .answer := h.pending
  rw [Pipe.usbLldEventHandler]
  split
  · exact h.same rfl rfl Pending.noConfusion rfl .refl
  · split
    · rename_i d odd rest hstat
      cases h.stage with
      | wants _ hw =>
          rw [hw.stat] at hstat
          cases hstat
      | ended _ hw =>
          rw [hw.state] at hst
          cases hst
      | took o k _ hw =>
          rw [hw.stat] at hstat
          cases hstat
          rw [Pipe.handleTransaction]
          split
          · rename_i htok
            exact absurd htok hw.data
          · rw [Pipe.handleOut0]
            split
            · obtain ⟨hmem, hpend⟩ := datastageOut_frame (o := odd)
                (s := Pipe.setEps { s with stat := [] } (s.eps.handleTransaction 0 .rx))
              exact ⟨hmem.trans h.mem, fun hans => hnever (hpend.symm.trans hans),
                stage_datastageOut hw.room hw.count rfl hw.addr hw.left hw.bc⟩
            · rename_i hno
              exact absurd hst hno
    · split
      · exact h.same rfl rfl hnever rfl .refl
      · split
        · dsimp only
          split
          · rename_i hstall
            have hstalled := hl.stall.1 hstall
            rw [hst] at hstalled
            cases hstalled
          · exact h.same rfl rfl hnever rfl .refl
        · exact h

/-- **One step** of the data stage -/
theorem step {feature : Byte} {a : Happening} (h : Receives M p len l s) (hl : Lockstep s)
    (hok : s.goesOn a = true) (hs : Pipe.step feature s a = .ok s') :
    Receives M p len (l ++ s.taken a) s' := by
  have hnil : ∀ {k : List Byte}, k = [] → ∀ {t : Pipe}, Receives M p len l t →
      Receives M p len (l ++ k) t := by
    rintro k rfl t ht
    rwa [List.append_nil]
  cases a with
  | setup req | followReset => cases hok
  | inDone =>
      rw [Pipe.step] at hs
      split at hs
      · rename_i hown
        rw [Pipe.moves, Bool.and_eq_true, Bool.and_eq_true] at hown
        have hdir := (hl.armed_of_own hown.1.2).1
        rw [of_decide_eq_true hok] at hdir
        cases hdir
      · cases hs
  | outDone bs =>
      rw [Pipe.step] at hs
      split at hs
      · rename_i hown
        cases hs
        rw [Pipe.moves, Bool.and_eq_true, Bool.and_eq_true] at hown
        exact h.outDone (of_decide_eq_true hok) hown.1.2 hl bs
      · cases hs
  | stallSent | busError | busReset =>
      cases hs
      exact hnil rfl (h.same rfl rfl h.pending rfl .refl)
  | handle =>
      rw [Pipe.step] at hs
      split at hs
      · cases hs
        exact hnil rfl (h.handle (of_decide_eq_true hok) hl)
      · cases hs
  | answer r =>
      rw [Pipe.step, if_neg h.pending] at hs
      cases hs
  | other std =>
      cases hs
      exact hnil rfl (h.same rfl rfl h.pending rfl Endps.sameEp0_withEp0)

end Receives

/-- **The data of a control write transfer**: in every run of the data stage after
`usb_lld_ctrl_recv`, the bytes of the packets stand one behind the other in the buffer and there
are never more than it has room for; where the driver waits, it waits for the next packet behind
them with room for the rest, and the stage ends with the last byte, with the status packet armed. -/
theorem out_stage_stores {s₀ s₁ s : Pipe} {feature : Byte} {mem : Mem} {p : Ptr Region} {len : Nat}
    {l : List Byte} (h : Reach (Pipe.step feature) anyEvent (.start feature mem) s₀)
    (hs : Pipe.step feature s₀ (.answer (.recv p len)) = .ok s₁) (h₁ : 1 ≤ len) (h₂ : len ≤ 65535)
    (hrun : Logged (Pipe.step feature) (fun s a => s.goesOn a = true) Pipe.taken s₁ l s) :
    s.mem = s₁.mem.write p l ∧ l.length ≤ len ∧
      ((s.dev.state = .outData ∧ (s.stat = [] → Wants p len l.length s)) ∨
        (l.length = len ∧ Ended s)) := by
  have hlock : ∀ s₂, Steps (Pipe.step feature) (fun s a => s.goesOn a = true) s₁ s₂ → Lockstep s₂ :=
    fun s₂ hs₂ =>
      lockstep_of_reach (Reach.steps (h.tail _ trivial hs) (hs₂.mono fun _ _ _ => trivial))
  have hstart : Receives s₁.mem p len [] s₁ := by
    rw [Pipe.step] at hs
    split at hs
    · rename_i hp
      cases hs
      refine ⟨write_nil.symm, Pending.noConfusion, .wants rfl (wants_ctrlRecv h₁ h₂ ?_)⟩
      exact ((lockstep_of_reach h).answer hp).stat
    · cases hs
  have hend := hrun.keeps (P := Receives s₁.mem p len) hlock
    (fun l s e s' hl _ hr hok hs => hr.step hl hok hs) hstart
  refine ⟨hend.mem, ?_⟩
  cases hend.stage with
  | wants hout hw => exact ⟨hw.room.le, .inl ⟨hout, fun _ => hw⟩⟩
  | took o k hout hw =>
      refine ⟨hw.room, .inl ⟨hout, fun hnil => ?_⟩⟩
      rw [hw.stat] at hnil
      cases hnil
  | ended hn hw => exact ⟨hn.le, .inr ⟨hn, hw⟩⟩

/-- The application waits for seven bytes, and the host sends them. -/
theorem out_stage_stores_seven : ∃ s : Pipe, s.dev.state = .waitStatusIn ∧
    ∃ M : Mem, s.mem = M.write ⟨.app, 8⟩ [1, 2, 3, 4, 5, 6, 7] := by
  have htest : runTest (Pipe.step 0x80) (fun _ _ => true)
      (fun s => stepTest (Pipe.step 0x80) (fun s₁ => logTest (Pipe.step 0x80) Pipe.goesOn Pipe.taken
        (fun l s => decide (l = [1, 2, 3, 4, 5, 6, 7] ∧ s.dev.state = .waitStatusIn)) [] s₁
        [.outDone [1, 2, 3, 4, 5, 6, 7], .busError, .handle]) s (.answer (.recv ⟨.app, 8⟩ 7)))
      (.start 0x80 fun _ _ => 0) [.setup ⟨0x21, 0x20, 0, 0, 7⟩, .handle] = true := by
    decide +kernel
  obtain ⟨s₀, h, htest⟩ := reach_any_of_runTest htest
  obtain ⟨s₁, hs, htest⟩ := of_stepTest htest
  obtain ⟨l, s, hrun, hlog⟩ := logged_of_logTest (.refl _) htest
  obtain ⟨rfl, hst⟩ := of_decide_eq_true hlog
  exact ⟨s, hst, s₁.mem, (out_stage_stores h hs (by decide) (by decide) hrun).1⟩

end Chopstx.Usb.Mkl27z
