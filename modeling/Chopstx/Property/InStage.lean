import Chopstx.Property.Lockstep
import Chopstx.Property.DataStage

/-!
# The data of a control read transfer of the MKL27Z

Endpoint 0 of the MKL27Z has been given in two ways: as the record `Endp0`, which the data stage
of the three drivers is about, and as entries of the table of descriptors, where the control pipe
goes on between the bus and the application.  The record is what the table shows.

* `Shows` - the record has what the words of the descriptors stand for, and `Views` adds the
  device address of the pipe.
* `related_ports` - what the driver does keeps them so, and with it `usb_lld_ctrl_send`,
  `handle_datastage_in` and `handle_in0` (`Views.ctrlSend`, `Views.in0`); so does a completed
  transaction (`Shows.inTransaction`).
* `Lockstep.views` - every reachable pipe is shown by some record.
* `Sending` - the packets that the host has got are the first ones of those that the record
  sends, and the others are left; `Sending.step` is one step of the data stage, whatever else
  happens on the bus or to the device.
* `in_stage_sends` - in every run of the data stage that begins with `usb_lld_ctrl_send` the host
  gets the first of the packets that the data have to be cut into, and where the driver waits for
  the status packet it has got them all.  The data are not just 64 bytes, as everywhere in
  `Chopstx.Property.DataStage`.
-/

namespace Chopstx.Usb.Mkl27z

open Transition

/-! ## What the table of descriptors shows -/

/-- The fields that the control word stands for -/
def BdEntry.view (b : BdEntry) : Bd := ⟨b.own, b.data01, b.bc, b.buf⟩

/-- The record has what endpoint 0 shows; `odd` is the bit `ODD` of `STAT`. -/
structure Shows (odd : Bool) (e : Endps) (e₀ : Endp0) : Prop where
  rx : ∀ o, e₀.bdRx o = (e.bd 0 .rx o).view
  tx : ∀ o, e₀.bdTx o = (e.bd 0 .tx o).view
  rxOdd : e₀.rxOdd = e.odd 0 .rx
  txOdd : e₀.txOdd = e.odd 0 .tx
  stall : e₀.epStall = e.kl27zEpIsStall 0
  statOdd : e₀.statOdd = odd

section

variable {e e' : Endps} {e₀ : Endp0} {d : Dir} {o odd x : Bool} {b : BdEntry} {n : Nat}
  {buf : Ptr Region} {f : Bool → Bd} {M : Mem}

theorem view_armWord : BdEntry.view ⟨armWord n x, buf⟩ = ⟨true, x, n % 256, buf⟩ := by
  rw [BdEntry.view, own_armWord, data01_armWord, bc_armWord]

theorem bc_lt (b : BdEntry) : b.bc < 1024 := by
  rw [BdEntry.bc, BitVec.toNat_and]
  exact Nat.and_le_right.trans_lt (by decide)

/-- The controller gives the descriptor back. -/
theorem view_doneWord : BdEntry.view ⟨doneWord b.ctrl usbTokenIn b.bc, b.buf⟩ = b.view.release := by
  rw [BdEntry.view, own_doneWord (by decide), data01_doneWord (by decide),
    bc_doneWord (by decide) (bc_lt b)]
  rfl

/-- A write to a descriptor is one to the record. -/
theorem view_setBd (h : ∀ o', f o' = (e.bd 0 d o').view) (o' : Bool) :
    Function.update f o b.view o' = ((e.setBd 0 d o b).bd 0 d o').view := by
  by_cases ho : o' = o
  · rw [ho, Function.update_self, setBd_self]
  · rw [Function.update_of_ne ho, h, Bool.eq_not.2 ho, setBd_other]

theorem bd_setBd {c : Dir} (hc : c ≠ d) : (e.setBd 0 d o b).bd 0 c = e.bd 0 c :=
  setBd_frame fun h => hc h.2

namespace Shows

/-- `kl27z_prepare_ep0_in` -/
theorem prepareIn (h : Shows odd e e₀) :
    Shows odd (e.kl27zPrepareEp0In buf n x) (e₀.kl27zPrepareEp0In buf n x) where
  rx o := by
    rw [Endps.kl27zPrepareEp0In, Endps.prepareEp0, bd_setBd (by decide)]
    exact h.rx o
  tx o := by
    show Function.update e₀.bdTx e₀.txOdd ⟨true, x, n % 256, buf⟩ o = _
    rw [← view_armWord, h.txOdd]
    exact view_setBd h.tx o
  rxOdd := h.rxOdd
  txOdd := h.txOdd
  stall := h.stall
  statOdd := h.statOdd

/-- `kl27z_prepare_ep0_out` -/
theorem prepareOut (h : Shows odd e e₀) :
    Shows odd (e.kl27zPrepareEp0Out buf n x) (e₀.kl27zPrepareEp0Out buf n x) where
  rx o := by
    rw [Endp0.kl27zPrepareEp0Out, ← view_armWord, h.rxOdd]
    exact view_setBd h.rx o
  tx o := by
    rw [Endps.kl27zPrepareEp0Out, Endps.prepareEp0, bd_setBd (by decide)]
    exact h.tx o
  rxOdd := h.rxOdd
  txOdd := h.txOdd
  stall := h.stall
  statOdd := h.statOdd

/-- `kl27z_prepare_ep0_setup` -/
theorem prepareSetup (h : Shows odd e e₀) :
    Shows odd e.kl27zPrepareEp0Setup e₀.kl27zPrepareEp0Setup where
  rx o := by
    rw [Endps.kl27zPrepareEp0Setup, Endp0.kl27zPrepareEp0Setup]
    dsimp only
    rw [h.rxOdd]
    split
    · rename_i ho
      rw [ho, setBd_other', setBd_self]
      decide
    · rename_i ho
      rw [Bool.eq_not.2 ho, setBd_self]
      decide
  tx o := by
    rw [Endps.kl27zPrepareEp0Setup, bd_setBd (by decide), bd_setBd (by decide)]
    exact h.tx o
  rxOdd := h.rxOdd
  txOdd := h.txOdd
  stall := h.stall
  statOdd := h.statOdd

/-- `kl27z_ep_stall` -/
theorem epStall (h : Shows odd e e₀) : Shows odd (e.kl27zEpStall 0) e₀.kl27zEpStall where
  rx := h.rx
  tx := h.tx
  rxOdd := h.rxOdd
  txOdd := h.txOdd
  stall := Endps.isStall_stall.symm
  statOdd := h.statOdd

/-- `handle_in0` has seen the status packet. -/
theorem statusInDone (h : Shows odd e e₀) (d : UsbDev) :
    Shows odd ((ctrlPort odd).statusInDone d e) (port.statusInDone d e₀) := by
  dsimp only [ctrlPort, port]
  apply prepareSetup
  split
  · refine ⟨h.rx, h.tx, ?_, ?_, h.stall, h.statOdd⟩
    · simp
    · simpa using h.txOdd
  · exact h

/-- A completed IN transaction, which `handle_transaction` has begun with -/
theorem inTransaction (h : Shows odd e e₀) :
    Shows (e.odd 0 .tx) ((e.complete .tx usbTokenIn (e.nextBd .tx).bc).handleTransaction 0 .tx)
      e₀.inTransaction where
  rx o := by
    show e₀.bdRx o = ((e.complete .tx usbTokenIn (e.nextBd .tx).bc).bd 0 .rx o).view
    rw [Endps.complete, Endps.setCtrl, bd_setBd (by decide)]
    exact h.rx o
  tx o := by
    show Function.update e₀.bdTx e₀.txOdd (e₀.bdTx e₀.txOdd).release o =
      ((e.complete .tx usbTokenIn (e.nextBd .tx).bc).bd 0 .tx o).view
    rw [h.tx, h.txOdd, ← view_doneWord]
    exact view_setBd h.tx o
  rxOdd := by
    rw [Endps.handleTransaction]
    simpa [Endp0.inTransaction, Endps.complete, Endps.setCtrl, Endps.setBd] using h.rxOdd
  txOdd := by
    rw [Endps.handleTransaction]
    simpa [Endp0.inTransaction, Endps.complete, Endps.setCtrl, Endps.setBd] using h.txOdd
  stall := h.stall
  statOdd := h.txOdd

/-- The packet that the host gets -/
theorem queued (h : Shows odd e e₀) (st : ControlState) :
    (ctrlPort odd).queued M st e = port.queued M st e₀ := by
  dsimp only [ctrlPort, port]
  rw [h.txOdd, h.tx]
  rfl

/-- The data toggle of the next packet -/
theorem nextData01 (h : Shows odd e e₀) : e₀.nextData01 = !(e.bd 0 .tx odd).data01 := by
  rw [Endp0.nextData01, h.statOdd, h.tx]
  rfl

/-- The status packet can be received. -/
theorem statusReady (h : Shows odd e e₀) (st : ControlState) :
    (ctrlPort odd).statusReady st e = port.statusReady st e₀ := by
  dsimp only [ctrlPort, port]
  rw [h.rxOdd, h.rx]
  rfl

/-- What is not of endpoint 0 may change. -/
theorem same (h : Shows odd e e₀) (hbd : Endps.SameEp0 e e') : Shows odd e' e₀ where
  rx o := by
    rw [hbd.bd]
    exact h.rx o
  tx o := by
    rw [hbd.bd]
    exact h.tx o
  rxOdd := by
    rw [hbd.odd]
    exact h.rxOdd
  txOdd := by
    rw [hbd.odd]
    exact h.txOdd
  stall := by
    rw [hbd.stall]
    exact h.stall
  statOdd := h.statOdd

end Shows

end

/-- **The two ports do the same.** -/
theorem related_ports (odd : Bool) : (ctrlPort odd).Related port (Shows odd) where
  sendFirst h := h.prepareIn
  sendNext h := by
    dsimp only [ctrlPort, port]
    rw [h.nextData01]
    exact h.prepareIn
  sendZlp h := by
    dsimp only [ctrlPort, port]
    rw [h.nextData01]
    exact h.prepareIn
  recvStatus h := h.prepareOut
  statusInDone h := h.statusInDone _
  stall h := h.epStall

/-! ## The pipe -/

/-- The record shows endpoint 0 of the pipe, and the address of the device. -/
structure Views (odd : Bool) (s : Pipe) (e₀ : Endp0) : Prop where
  eps : Shows odd s.eps e₀
  daddr : s.daddr = e₀.daddr.setWidth 8

section

variable {s s' : Pipe} {e₀ : Endp0} {odd : Bool}

/-- **Some record shows the pipe.** -/
theorem Lockstep.views (h : Lockstep s) (odd : Bool) : ∃ e₀, Views odd s e₀ := by
  have hfree : (s.eps.bd 0 .tx !s.eps.odd 0 .tx).view.own = false := by
    rw [BdEntry.view, ← Bool.not_eq_true]
    intro hown
    exact Bool.not_ne_self _ (h.armed_of_own hown).2.1
  refine ⟨⟨fun o => (s.eps.bd 0 .rx o).view, fun o => (s.eps.bd 0 .tx o).view, s.eps.odd 0 .rx,
    s.eps.odd 0 .tx, s.eps.kl27zEpIsStall 0, odd, s.daddr.setWidth 16, hfree⟩, ?_, ?_⟩
  · exact ⟨fun _ => rfl, fun _ => rfl, rfl, rfl, rfl, rfl⟩
  · simp

theorem daddr_datastageIn (M : Mem) (d : UsbDev) (e₀ : Endp0) :
    (Usb.handleDatastageIn port M d e₀).2.daddr = e₀.daddr := by
  rw [Usb.handleDatastageIn]
  split
  · split
    · rfl
    · rfl
  · rfl

theorem daddr_in0 (M : Mem) (d : UsbDev) (e₀ : Endp0) :
    (Usb.handleIn0 port M d e₀).1.2.daddr =
      if d.state = .waitStatusIn ∧ d.devReq.isSetAddress then d.devReq.value else e₀.daddr := by
  by_cases hdata : d.state = .inData ∨ d.state = .lastInData
  · have hno : ¬ (d.state = .waitStatusIn ∧ d.devReq.isSetAddress) := by
      rintro ⟨hst, -⟩
      rw [hst] at hdata
      simp at hdata
    rw [if_neg hno, Usb.handleIn0, if_pos hdata]
    exact daddr_datastageIn M d e₀
  · rw [Usb.handleIn0, if_neg hdata]
    by_cases hst : d.state = .waitStatusIn
    · simp only [hst, port, true_and]
      cases d.devReq.isSetAddress with
      | true => rfl
      | false => rfl
    · rw [if_neg hst, if_neg fun h => hst h.1]
      rfl

namespace Views

theorem same (h : Views odd s e₀) (hbd : Endps.SameEp0 s.eps s'.eps) (hd : s'.daddr = s.daddr) :
    Views odd s' e₀ :=
  ⟨h.eps.same hbd, hd.trans h.daddr⟩

/-- `usb_lld_ctrl_send` -/
theorem ctrlSend (h : Views odd s e₀) (buf : Ptr Region) (buflen : Nat) :
    (s.usbLldCtrlSend buf buflen).dev = (Mkl27z.usbLldCtrlSend s.mem s.dev e₀ buf buflen).1 ∧
      Views odd (s.usbLldCtrlSend buf buflen)
        (Mkl27z.usbLldCtrlSend s.mem s.dev e₀ buf buflen).2 :=
  have hsend := (related_ports odd).ctrlSend h.eps s.mem s.dev buf buflen
  ⟨hsend.1, hsend.2, h.daddr⟩

/-- `handle_in0` -/
theorem in0 (h : Views odd s e₀) :
    (s.handleIn0 odd).dev = (Mkl27z.handleIn0 s.mem s.dev e₀).1.1 ∧
      Views odd (s.handleIn0 odd) (Mkl27z.handleIn0 s.mem s.dev e₀).1.2 := by
  obtain ⟨hdev, heps⟩ := (related_ports odd).in0 h.eps s.mem s.dev
  refine ⟨hdev, heps, ?_⟩
  rw [Mkl27z.handleIn0, daddr_in0]
  show (if _ then _ else _) = _
  split
  · rfl
  · exact h.daddr

end Views

end

/-! ## The data stage -/

/-- The state of the data stage -/
def InData (d : UsbDev) : Prop := d.state = .inData ∨ d.state = .lastInData

instance {d : UsbDev} : Decidable (InData d) := inferInstanceAs (Decidable (_ ∨ _))

/-- The host and the application go on with the data stage. -/
def Pipe.readsOn (s : Pipe) : Happening → Bool
  | .setup _ => false
  | .followReset => false
  | _ => InData s.dev

/-- The packet that one step gives to the host -/
def Pipe.sent (s : Pipe) : Happening → List (List Byte)
  | .inDone => [s.mem.read (s.eps.nextBd .tx).buf (s.eps.nextBd .tx).bc]
  | _ => []

/-- The data stage before the packets `rest`, with which the record comes to `y` -/
inductive Left (M : Mem) (y : UsbDev × Endp0) (rest : List (List Byte)) (s : Pipe) : Prop
  /-- The next packet is armed. -/
  | armed (e₀ : Endp0) (o : Bool) (hst : InData s.dev) (hstat : s.stat = []) (hv : Views o s e₀)
      (h : Sends port M (s.dev, e₀) rest y)
  /-- The last one has been taken, and is not handled. -/
  | taken (e₀ : Endp0) (o : Bool) (hst : InData s.dev) (hstat : s.stat = [(.tx, o)])
      (hv : Views o (s.setEps (s.eps.handleTransaction 0 .tx)) (port.inAcked e₀))
      (h : Sends port M (Usb.handleIn0 port M s.dev (port.inAcked e₀)).1 rest y)
  /-- The driver waits for the status packet. -/
  | ended (e₀ : Endp0) (o : Bool) (hst : s.dev.state = .waitStatusOut) (hstat : s.stat = [])
      (hv : Views o s e₀) (hrest : rest = []) (hy : (s.dev, e₀) = y)

/-- The packets of the log are the first ones of `ps`, and the others are left. -/
structure Sending (M : Mem) (y : UsbDev × Endp0) (ps l : List (List Byte)) (s : Pipe) : Prop where
  mem : s.mem = M
  pending : s.pending ≠ .answer
  stage : ∃ rest, l ++ rest = ps ∧ Left M y rest s

/-- After a packet the driver goes on with the data, or is ready for the status packet. -/
theorem datastageIn_goes {ε : Type} (P : LawfulPort ε) (M : Mem) {d : UsbDev} (e : ε)
    (hst : InData d) :
    InData (Usb.handleIn0 P.toPort M d (P.inAcked e)).1.1 ∨
      (Usb.handleIn0 P.toPort M d (P.inAcked e)).1.1.state = .waitStatusOut ∧
        P.queued M .waitStatusOut (Usb.handleIn0 P.toPort M d (P.inAcked e)).1.2 = none := by
  have hdata : d.state = .inData ∨ d.state = .lastInData := hst
  rw [Usb.handleIn0, if_pos hdata, Usb.handleDatastageIn]
  split
  · split
    · exact .inl hst
    · exact .inr ⟨rfl, P.queued_recvStatus⟩
  · refine .inl ?_
    dsimp only [InData]
    split
    · exact .inr rfl
    · exact .inl rfl

/-- `handle_transaction` looks at endpoint 0 only. -/
theorem Endps.SameEp0.handled {e e' : Endps} {d : Dir} (h : e.SameEp0 e') :
    (e.handleTransaction 0 d).SameEp0 (e'.handleTransaction 0 d) where
  ep := h.ep
  bd := h.bd
  odd := by
    rw [Endps.handleTransaction, Endps.handleTransaction]
    dsimp only
    rw [Function.update_self, Function.update_self, h.odd]

/-- `handle_in0` sends the next packet, or waits for the status packet. -/
theorem Left.in0 {M : Mem} {y : UsbDev × Endp0} {rest : List (List Byte)} {s : Pipe} {e₀ : Endp0}
    {o : Bool} (hst : InData s.dev) (hstat : s.stat = []) (hmem : s.mem = M)
    (hv : Views o s (port.inAcked e₀))
    (hsends : Sends port M (Usb.handleIn0 port M s.dev (port.inAcked e₀)).1 rest y) :
    Left M y rest (s.handleIn0 o) := by
  obtain ⟨hdev, hnext⟩ := hv.in0
  rw [hmem] at hdev hnext
  rcases datastageIn_goes lawfulPort M e₀ hst with hin | ⟨hwait, hnone⟩
  · refine .armed _ o ?_ hstat hnext ?_
    · rw [hdev]
      exact hin
    · rw [hdev]
      exact hsends
  · obtain ⟨hrest, hy⟩ := hsends.unique (.done (hwait ▸ hnone))
    refine .ended _ o ?_ hstat hnext hrest ?_
    · rw [hdev]
      exact hwait
    · rw [hdev]
      exact hy.symm

namespace Sending

variable {M : Mem} {y : UsbDev × Endp0} {ps l : List (List Byte)} {s s' : Pipe} {o : Bool}

/-- What the data stage does not look at may change. -/
theorem same (h : Sending M y ps l s) (hdev : s'.dev = s.dev) (hmem : s'.mem = s.mem)
    (hp : s'.pending ≠ .answer) (hstat : s'.stat = s.stat) (hd : s'.daddr = s.daddr)
    (hbd : Endps.SameEp0 s.eps s'.eps) : Sending M y ps l s' := by
  obtain ⟨rest, hps, hleft⟩ := h.stage
  refine ⟨hmem.trans h.mem, hp, rest, hps, ?_⟩
  cases hleft with
  | armed e₀ o hst hs hv hsends =>
      exact .armed e₀ o (hdev ▸ hst) (hstat.trans hs) (hv.same hbd hd) (hdev ▸ hsends)
  | taken e₀ o hst hs hv hsends =>
      exact .taken e₀ o (hdev ▸ hst) (hstat.trans hs) (hv.same hbd.handled hd) (hdev ▸ hsends)
  | ended e₀ o hst hs hv hrest hy =>
      exact .ended e₀ o (hdev ▸ hst) (hstat.trans hs) (hv.same hbd hd) hrest (hdev ▸ hy)

/-- The host takes a packet. -/
theorem inDone (h : Sending M y ps l s) (hst : InData s.dev)
    (hown : (s.eps.nextBd .tx).own = true) (hl : Lockstep s) :
    Sending M y ps (l ++ s.sent .inDone)
      (s.complete .tx usbTokenIn (s.eps.nextBd .tx).bc) := by
  obtain ⟨rest, hps, hleft⟩ := h.stage
  cases hleft with
  | taken e₀ o _ hs _ _ =>
      have hnil := (hl.armed_of_own hown).2.2.2.1
      rw [hs] at hnil
      cases hnil
  | ended e₀ o hwait _ _ _ _ =>
      rcases hst with hst | hst
      · rw [hwait] at hst
        cases hst
      · rw [hwait] at hst
        cases hst
  | armed e₀ o _ hs hv hsends =>
      have hq : port.queued M s.dev.state e₀ =
          some (M.read (s.eps.nextBd .tx).buf (s.eps.nextBd .tx).bc) := by
        rw [← hv.eps.queued]
        exact if_pos hown
      cases hsends with
      | done hnone =>
          rw [hq] at hnone
          cases hnone
      | step hp hsends =>
          rename_i p rest
          cases hp with
          | mk hp =>
              obtain rfl := Option.some.inj (hq.symm.trans hp)
              refine ⟨h.mem, h.pending, rest, ?_, .taken e₀ (s.eps.odd 0 .tx) hst ?_
                ⟨hv.eps.inTransaction, hv.daddr⟩ hsends⟩
              · rw [List.append_assoc, ← hps, Pipe.sent, h.mem]
                rfl
              · show s.stat ++ _ = _
                rw [hs, List.nil_append]

/-- The driver handles it. -/
theorem handle (h : Sending M y ps l s) (hst : InData s.dev) (hl : Lockstep s) :
    Sending M y ps l s.usbLldEventHandler := by
  rw [Pipe.usbLldEventHandler]
  split
  · exact h.same rfl rfl Pending.noConfusion rfl rfl .refl
  · split
    · rename_i d odd tail hstat
      obtain ⟨rest, hps, hleft⟩ := h.stage
      cases hleft with
      | armed e₀ o _ hs _ _ | ended e₀ o _ hs _ _ _ =>
          rw [hs] at hstat
          cases hstat
      | taken e₀ o _ hs hv hsends =>
          rw [hs] at hstat
          cases hstat
          exact ⟨h.mem, h.pending, rest, hps, .in0 hst rfl h.mem ⟨hv.eps, hv.daddr⟩ hsends⟩
    · split
      · exact h.same rfl rfl h.pending rfl rfl .refl
      · split
        · dsimp only
          split
          · rename_i hstall
            have hstalled := hl.stall.1 hstall
            rcases hst with hst | hst
            · rw [hst] at hstalled
              cases hstalled
            · rw [hst] at hstalled
              cases hstalled
          · exact h.same rfl rfl h.pending rfl rfl .refl
        · exact h

/-- **One step** of the data stage -/
theorem step {feature : Byte} {a : Happening} (h : Sending M y ps l s) (hl : Lockstep s)
    (hok : s.readsOn a = true) (hs : Pipe.step feature s a = .ok s') :
    Sending M y ps (l ++ s.sent a) s' := by
  have hnil : ∀ {k : List (List Byte)}, k = [] → ∀ {t : Pipe}, Sending M y ps l t →
      Sending M y ps (l ++ k) t := by
    rintro k rfl t ht
    rwa [List.append_nil]
  cases a with
  | setup req | followReset => cases hok
  | inDone =>
      rw [Pipe.step] at hs
      split at hs
      · rename_i hown
        cases hs
        rw [Pipe.moves, Bool.and_eq_true, Bool.and_eq_true] at hown
        exact h.inDone (of_decide_eq_true hok) hown.1.2 hl
      · cases hs
  | outDone bs =>
      rw [Pipe.step] at hs
      split at hs
      · rename_i hown
        rw [Pipe.moves, Bool.and_eq_true, Bool.and_eq_true] at hown
        have hdir := (hl.armed_of_own hown.1.2).1
        rcases of_decide_eq_true hok with hst | hst
        · rw [hst] at hdir
          cases hdir
        · rw [hst] at hdir
          cases hdir
      · cases hs
  | stallSent | busError | busReset =>
      cases hs
      exact hnil rfl (h.same rfl rfl h.pending rfl rfl .refl)
  | handle =>
      rw [Pipe.step] at hs
      split at hs
      · cases hs
        exact hnil rfl (h.handle (of_decide_eq_true hok) hl)
      · cases hs
  | answer r =>
      rw [Pipe.step, if_neg h.pending] at hs
      cases hs
  | other std =>
      cases hs
      exact hnil rfl (h.same rfl rfl h.pending rfl rfl Endps.sameEp0_withEp0)

end Sending

/-- No empty packet is asked for while the application has to answer. -/
def Pipe.Fresh (s : Pipe) : Prop := s.pending = .answer → s.dev.ctrlData.requireZlp = false

theorem fresh_setup0 {s : Pipe} (hp : s.pending ≠ .answer) : s.handleSetup0.Fresh := by
  intro h
  rw [Pipe.handleSetup0] at h ⊢
  dsimp only at h ⊢
  cases hr : (setupRequest stdPort s.std s.dev.devReq).1 with
  | fail | send data | ack =>
      rw [hr] at h
      exact absurd h hp
  | report e => rfl

theorem fresh_of_ne {s : Pipe} (hp : s.pending ≠ .answer) : s.Fresh := fun h => absurd h hp

theorem fresh_out0 {s : Pipe} {o : Bool} (hp : s.pending ≠ .answer) : (s.handleOut0 o).Fresh := by
  apply fresh_of_ne
  rw [Pipe.handleOut0]
  split
  · rw [Pipe.handleDatastageOut]
    dsimp only
    split
    · exact hp
    · exact hp
  · split
    · exact hp
    · exact hp

theorem fresh_handler {s : Pipe} (hp : s.pending ≠ .answer) : s.usbLldEventHandler.Fresh := by
  rw [Pipe.usbLldEventHandler]
  split
  · exact fresh_of_ne Pending.noConfusion
  · split
    · rename_i d odd tail hstat
      cases d with
      | rx =>
          rw [Pipe.handleTransaction]
          split
          · exact fresh_setup0
              (s := Pipe.setEps { s with stat := tail } (s.eps.handleTransaction 0 .rx)) hp
          · exact fresh_out0 hp
      | tx => exact fresh_of_ne hp
    · split
      · exact fresh_of_ne hp
      · split
        · dsimp only
          split
          · exact fresh_of_ne hp
          · exact fresh_of_ne hp
        · exact fresh_of_ne hp

theorem Pipe.Fresh.step {s s' : Pipe} {feature : Byte} {a : Happening} (h : s.Fresh)
    (hs : Pipe.step feature s a = .ok s') : s'.Fresh := by
  cases a with
  | setup req | inDone | outDone bs =>
      rw [Pipe.step] at hs
      split at hs
      · cases hs
        exact h
      · cases hs
  | stallSent | busError | busReset | other std =>
      cases hs
      exact h
  | handle =>
      rw [Pipe.step] at hs
      split at hs
      · rename_i hp
        cases hs
        exact fresh_handler fun hans => by cases hp.symm.trans hans
      · cases hs
  | answer r =>
      rw [Pipe.step] at hs
      split at hs
      · cases hs
        cases r with
        | send buf n | recv p n | ack | error => exact fresh_of_ne Pending.noConfusion
      · cases hs
  | followReset =>
      rw [Pipe.step] at hs
      split at hs
      · cases hs
        exact fresh_of_ne Pending.noConfusion
      · cases hs

theorem fresh_of_reach {s : Pipe} {feature : Byte} {mem : Mem}
    (h : Reach (Pipe.step feature) anyEvent (.start feature mem) s) : s.Fresh :=
  h.invariant (fresh_of_ne Pending.noConfusion) fun _ _ _ hf _ hs => hf.step hs

/-- The state after `usb_lld_ctrl_send` -/
theorem inData_ctrlSend {ε : Type} (P : Port ε) (M : Mem) (d : UsbDev) (e : ε) (buf : Ptr Region)
    (buflen : Nat) : InData (Usb.ctrlSend P M d e buf buflen).1 := by
  have hite : ∀ (p : Prop) [Decidable p],
      (if p then ControlState.lastInData else .inData) = .inData ∨
        (if p then ControlState.lastInData else .inData) = .lastInData := by
    intro p _
    split
    · exact .inr rfl
    · exact .inl rfl
  exact hite _

/-- The first packet has been handed over. -/
theorem sending_ctrlSend {s : Pipe} {e₀ : Endp0} {o : Bool} {buf : Ptr Region} {buflen : Nat}
    {ps : List (List Byte)} {y : UsbDev × Endp0} (h : s.Free) (hv : Views o s e₀)
    (hsends : Sends port s.mem (Usb.ctrlSend port s.mem s.dev e₀ buf buflen) ps y) :
    Sending s.mem y ps [] (s.usbLldCtrlSend buf buflen) := by
  obtain ⟨hdev, hnext⟩ := hv.ctrlSend buf buflen
  refine ⟨rfl, h.pending, ps, rfl, .armed _ o ?_ h.stat hnext ?_⟩
  · exact inData_ctrlSend (ctrlPort false) s.mem s.dev s.eps buf buflen
  · rw [hdev]
    exact hsends

/-- **The data of a control read transfer**: when the application answers a request with
`usb_lld_ctrl_send` and there are not just 64 bytes of data, the packets of the stage are the data
cut as they have to be.  In every run of the stage the host gets the first of these packets, and
where the driver waits for the status packet it has got them all, with the buffer for the status
packet armed. -/
theorem in_stage_sends {s₀ s₁ : Pipe} {feature : Byte} {mem : Mem} {buf : Ptr Region}
    {buflen : Nat} (h : Reach (Pipe.step feature) anyEvent (.start feature mem) s₀)
    (hs : Pipe.step feature s₀ (.answer (.send buf buflen)) = .ok s₁) (hbuf : buflen ≤ 65535)
    (hm : min buflen s₀.dev.devReq.len.toNat ≠ maxPacketSize) :
    ∃ ps, StagePackets (s₀.mem.read buf (min buflen s₀.dev.devReq.len.toNat))
        s₀.dev.devReq.len.toNat ps ∧
      ∀ l s, Logged (Pipe.step feature) (fun s a => s.readsOn a = true) Pipe.sent s₁ l s →
        l <+: ps ∧ (s.dev.state = .waitStatusOut → l = ps ∧ s.stat = [] ∧
          (s.eps.nextBd .rx).own = true ∧ (s.eps.nextBd .rx).data01 = true) := by
  have hlock := lockstep_of_reach h
  rw [Pipe.step] at hs
  split at hs
  case isFalse => cases hs
  case isTrue hp =>
    cases hs
    have hfree := hlock.answer hp
    obtain ⟨e₀, hv⟩ := hlock.views false
    obtain ⟨ps, y, hsends, hps, hy⟩ := sends_ctrlSend lawfulPort (M := s₀.mem) (e := e₀) buf hbuf
      (fresh_of_reach h hp) rfl hm
    refine ⟨ps, hps, fun l s hrun => ?_⟩
    have hlock₁ : ∀ s₂, Steps (Pipe.step feature) (fun s a => s.readsOn a = true)
        (Pipe.usbLldCtrlSend { s₀ with pending := .nothing } buf buflen) s₂ → Lockstep s₂ :=
      fun s₂ hs₂ => hs₂.keeps (fun _ _ _ hl _ hs => hl.step hs) (hfree.ctrlSend buf buflen)
    have hstart := sending_ctrlSend (s := { s₀ with pending := .nothing }) hfree
      ⟨hv.eps, hv.daddr⟩ hsends
    have hend := hrun.keeps (P := Sending s₀.mem y ps) hlock₁
      (fun l s e s' hl _ hr hok hs => hr.step hl hok hs) hstart
    obtain ⟨rest, hrest, hleft⟩ := hend.stage
    refine ⟨⟨rest, hrest⟩, fun hwait => ?_⟩
    have hno : ¬ InData s.dev := by
      rw [InData, hwait]
      simp
    cases hleft with
    | armed e₁ o hst _ _ _ | taken e₁ o hst _ _ _ => exact absurd hst hno
    | ended e₁ o _ hs hv₂ hnil hend =>
        rw [hnil, List.append_nil] at hrest
        have hready := hy.2
        rw [← hend] at hready
        have hready' := (hv₂.eps.statusReady _).trans hready
        rw [ctrlPort, Bool.and_eq_true] at hready'
        exact ⟨hrest, hs, hready'⟩

/-- The host takes the descriptor of 18 bytes in one packet. -/
theorem in_stage_sends_descriptor : ∃ s : Pipe, s.dev.state = .waitStatusOut ∧
    (s.eps.nextBd .rx).own = true ∧
    StagePackets (List.replicate 18 0) 18 [List.replicate 18 0] := by
  have htest : runTest (Pipe.step 0x80) (fun _ _ => true)
      (fun s => decide (s.mem.read ⟨.app, 0⟩ 18 = List.replicate 18 0 ∧ s.dev.devReq.len = 18) &&
        stepTest (Pipe.step 0x80) (fun s₁ => logTest (Pipe.step 0x80) Pipe.readsOn Pipe.sent
          (fun l s => decide (l = [List.replicate 18 0] ∧ s.dev.state = .waitStatusOut)) [] s₁
          [.inDone, .busError, .handle]) s (.answer (.send ⟨.app, 0⟩ 18)))
      (.start 0x80 fun _ _ => 0) [.setup getDescriptor, .handle] = true := by
    decide +kernel
  obtain ⟨s₀, h, htest⟩ := reach_any_of_runTest htest
  rw [Bool.and_eq_true] at htest
  obtain ⟨hdata, hlen⟩ := of_decide_eq_true htest.1
  obtain ⟨s₁, hs, htest⟩ := of_stepTest htest.2
  obtain ⟨l, s, hrun, hlog⟩ := logged_of_logTest (.refl _) htest
  obtain ⟨rfl, hst⟩ := of_decide_eq_true hlog
  have hmin : min 18 s₀.dev.devReq.len.toNat = 18 := by
    rw [hlen]
    rfl
  obtain ⟨ps, hps, hall⟩ := in_stage_sends h hs (by decide) (by rw [hmin]; decide)
  obtain ⟨-, hend⟩ := hall _ _ hrun
  obtain ⟨rfl, -, hown, -⟩ := hend hst
  rw [hmin, hdata, hlen] at hps
  exact ⟨s, hst, hown, hps⟩

end Chopstx.Usb.Mkl27z
