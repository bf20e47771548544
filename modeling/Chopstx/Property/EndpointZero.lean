import Chopstx.Usb.Stm32f103Ctrl

/-!
# The register of endpoint 0 and the state of the control pipe

`View` is what the register of endpoint 0 says of the two directions.  `PipeInv` ties it to
`dev->state`: a direction is VALID, or has a completed packet that is not handled, only in the
states of that direction.  Every step keeps it but an answer of the application to a request
that the host has given up, when the driver has made a direction VALID since.

* `View`, `view` - what the register says; the lemmas `view_setTxStatus_valid` and so on say what
  each access does to it.
* `Tied` - the register and the state of the pipe; `ctrlSend_tied` to `handleSetup0_tied` go through
  the functions of the driver.
* `PipeInv`, `PipeInv.usbHandleTransfer`, `PipeInv.step` - the invariant and its step lemmas.
* `Timely` - the condition on the answers of the application.
* `endpointZero_of_reach` - the result about runs, and `endpointZero_two_requests` one of them.
* `endpointZero_both_valid` - a run with an answer that comes too late.
-/

open Transition

namespace Chopstx.Usb

namespace Stm32f103

/-! ## What the register says -/

/-- The bits of the register of an endpoint that the two directions are about. -/
structure View where
  ctrRx : Bool
  rx1 : Bool
  rx0 : Bool
  setup : Bool
  ctrTx : Bool
  tx1 : Bool
  tx0 : Bool
  deriving DecidableEq, Repr

/-- The bits of a register. -/
def view (r : BitVec 16) : View where
  ctrRx := r.getLsbD 15
  rx1 := r.getLsbD 13
  rx0 := r.getLsbD 12
  setup := r.getLsbD 11
  ctrTx := r.getLsbD 7
  tx1 := r.getLsbD 5
  tx0 := r.getLsbD 4

namespace View

variable (v : View)

def txValid : Bool := v.tx1 && v.tx0

def rxValid : Bool := v.rx1 && v.rx0

/-- Both directions answer with NAK or STALL, or not at all. -/
def quiet : Prop := v.txValid = false ∧ v.rxValid = false

/-- A data packet from the host has been received and is not handled. -/
def outWaits : Bool := v.ctrRx && !v.setup

end View

section

variable (r : BitVec 16)

theorem txValid_iff : st103EpGetTxStatus r = epTxValid ↔ (view r).txValid = true := by
  constructor
  · intro h
    have h5 := congrArg (fun x : BitVec 16 => x.getLsbD 5) h
    have h4 := congrArg (fun x : BitVec 16 => x.getLsbD 4) h
    simp [st103EpGetTxStatus, eptxStat, epTxValid] at h4 h5
    simp [View.txValid, view, h4, h5]
  · intro h
    simp only [View.txValid, view, Bool.and_eq_true] at h
    apply BitVec.eq_of_getLsbD_eq
    intro i hi
    interval_cases i <;> simp_all [st103EpGetTxStatus, eptxStat, epTxValid]

theorem rxValid_iff : st103EpGetRxStatus r = epRxValid ↔ (view r).rxValid = true := by
  constructor
  · intro h
    have h13 := congrArg (fun x : BitVec 16 => x.getLsbD 13) h
    have h12 := congrArg (fun x : BitVec 16 => x.getLsbD 12) h
    simp [st103EpGetRxStatus, eprxStat, epRxValid] at h12 h13
    simp [View.rxValid, view, h12, h13]
  · intro h
    simp only [View.rxValid, view, Bool.and_eq_true] at h
    apply BitVec.eq_of_getLsbD_eq
    intro i hi
    interval_cases i <;> simp_all [st103EpGetRxStatus, eprxStat, epRxValid]

/-! ### What each access does to it -/

theorem view_setTxStatus_valid :
    view (st103EpSetTxStatus r epTxValid) = { view r with tx1 := true, tx0 := true } := by
  simp [view, st103EpSetTxStatus, st103SetEpreg, epregMask, eptxStat, epTxValid, epCtrRx, epCtrTx,
    epSetup, toggleBits, plainBits]

theorem view_setRxStatus_valid :
    view (st103EpSetRxStatus r epRxValid) = { view r with rx1 := true, rx0 := true } := by
  simp [view, st103EpSetRxStatus, st103SetEpreg, epregMask, eprxStat, epRxValid, epCtrRx, epCtrTx,
    epSetup, toggleBits, plainBits]

theorem view_setRxtxStatus_valid : view (st103EpSetRxtxStatus r epRxNak epTxValid) =
    { view r with rx1 := true, rx0 := false, tx1 := true, tx0 := true } := by
  simp [view, st103EpSetRxtxStatus, st103SetEpreg, epregMask, eptxStat, eprxStat, epRxNak,
    epTxValid, epCtrRx, epCtrTx, epSetup, toggleBits, plainBits]

theorem view_setRxtxStatus_stall : view (st103EpSetRxtxStatus r epRxStall epTxStall) =
    { view r with rx1 := false, rx0 := true, tx1 := false, tx0 := true } := by
  simp [view, st103EpSetRxtxStatus, st103SetEpreg, epregMask, eptxStat, eprxStat, epRxStall,
    epTxStall, epCtrRx, epCtrTx, epSetup, toggleBits, plainBits]

theorem view_clearCtrTx :
    view (st103SetEpreg r (clearCtrValue .tx r)) = { view r with ctrTx := false } := by
  simp [view, clearCtrValue, Dir.ctr, st103SetEpreg, epregMask, epCtrRx, epCtrTx, epSetup,
    toggleBits, plainBits]

theorem view_clearCtrRx :
    view (st103SetEpreg r (clearCtrValue .rx r)) = { view r with ctrRx := false } := by
  simp [view, clearCtrValue, Dir.ctr, st103SetEpreg, epregMask, epCtrRx, epCtrTx, epSetup,
    toggleBits, plainBits]

theorem view_setupTransaction : view (setupTransaction r) =
    ⟨true, true, false, true, (view r).ctrTx, true, false⟩ := by
  simp [view, setupTransaction, eptxStat, eprxStat, epRxNak, epTxNak, epCtrRx, epSetup]

theorem view_inTransaction :
    view (inTransaction r) = { view r with ctrTx := true, tx1 := true, tx0 := false } := by
  simp [view, inTransaction, eptxStat, epTxNak, epCtrTx, epDtogTx]

theorem view_outTransaction (frozen : Bool) : view (outTransaction frozen r) =
    { view r with
      ctrRx := true, rx1 := true, rx0 := false, setup := frozen && (view r).setup } := by
  cases frozen <;> simp [view, outTransaction, eprxStat, epRxNak, epCtrRx, epSetup, Dir.dtog]

theorem view_resetRegister : view (resetRegister r) =
    ⟨(view r).ctrRx, false, false, false, (view r).ctrTx, false, false⟩ := by
  simp [view, resetRegister, epCtrRx, epCtrTx]

theorem view_setupEndpoint {rxAddr txAddr : Nat} (hrx : rxAddr ≠ 0) (htx : txAddr ≠ 0) :
    view (st103SetEpreg r (setupEndpointValue 0 0x0200 0 rxAddr txAddr r)) =
      ⟨false, true, false, (view r).setup, false, true, false⟩ := by
  rw [setupEndpointValue, if_pos hrx, if_pos htx]
  simp [view, st103SetEpreg, eptxStat, eprxStat, epRxNak, epTxNak, epCtrRx, epCtrTx, epSetup,
    epDtogTx, Dir.dtog, toggleBits, plainBits]

theorem hasCtr_tx_eq : hasCtr .tx r = (view r).ctrTx := hasCtr_eq .tx r

theorem hasCtr_rx_eq : hasCtr .rx r = (view r).ctrRx := hasCtr_eq .rx r

theorem setup_iff : r &&& epSetup ≠ 0 ↔ (view r).setup = true := by
  have hmask : epSetup = BitVec.twoPow 16 11 := by decide
  rw [hmask]
  exact and_twoPow_ne_zero (by decide) r

end

end Stm32f103

/-! ## The register and the state -/

/-- The states in which a packet for the host may be ready. -/
def ControlState.isIn : ControlState → Bool
  | .inData => true
  | .lastInData => true
  | .waitStatusIn => true
  | _ => false

/-- The states in which a packet of the host may be expected. -/
def ControlState.isOut : ControlState → Bool
  | .outData => true
  | .waitStatusOut => true
  | _ => false

theorem ControlState.not_isOut {st : ControlState} (h : st.isIn = true) : st.isOut = false := by
  cases st <;> first | rfl | cases h

namespace Stm32f103

/-- The two directions are as the state says.  `P` says whether what the register keeps as
completed is going to be handled, and not dropped with a reset of the bus. -/
structure Tied (P : Prop) (st : ControlState) (v : View) : Prop where
  tx : v.txValid = true → st.isIn = true
  rx : v.rxValid = true → st.isOut = true
  inWaits : P → v.ctrTx = true → st.isIn = true ∧ v.quiet
  outWaits : P → v.outWaits = true → st.isOut = true ∧ v.quiet

namespace Tied

variable {P Q : Prop} {st : ControlState} {v : View}

/-- Nothing waits to be handled. -/
theorem of_idle (h : P → v.ctrTx = false ∧ v.outWaits = false)
    (htx : v.txValid = true → st.isIn = true) (hrx : v.rxValid = true → st.isOut = true) :
    Tied P st v where
  tx := htx
  rx := hrx
  inWaits hp hc := by
    rw [(h hp).1] at hc
    cases hc
  outWaits hp hc := by
    rw [(h hp).2] at hc
    cases hc

theorem mono (h : Tied P st v) (hle : Q → P) : Tied Q st v :=
  ⟨h.tx, h.rx, fun hq => h.inWaits (hle hq), fun hq => h.outWaits (hle hq)⟩

theorem not_rx (h : Tied P st v) (htx : v.txValid = true) : v.rxValid = false := by
  cases hrx : v.rxValid with
  | false => rfl
  | true =>
      have hout := h.rx hrx
      rw [ControlState.not_isOut (h.tx htx)] at hout
      cases hout

theorem setupTransaction (h : Tied P st v) :
    Tied P st ⟨true, true, false, true, v.ctrTx, true, false⟩ where
  tx hv := by cases hv
  rx hv := by cases hv
  inWaits hp hc := ⟨(h.inWaits hp hc).1, rfl, rfl⟩
  outWaits _ hc := by cases hc

theorem inTransaction (h : Tied P st v) (htx : v.txValid = true) :
    Tied P st { v with ctrTx := true, tx1 := true, tx0 := false } where
  tx hv := by cases hv
  rx hv := h.rx hv
  inWaits _ _ := ⟨h.tx htx, rfl, h.not_rx htx⟩
  outWaits hp hc := by
    have hq := (h.outWaits hp hc).2.1
    rw [htx] at hq
    cases hq

theorem outTransaction (h : Tied P st v) (hrx : v.rxValid = true) (b : Bool) :
    Tied P st { v with ctrRx := true, rx1 := true, rx0 := false, setup := b } where
  tx hv := h.tx hv
  rx hv := by cases hv
  inWaits hp hc := by
    have hq := (h.inWaits hp hc).2.2
    rw [hrx] at hq
    cases hq
  outWaits _ _ := by
    refine ⟨h.rx hrx, ?_, rfl⟩
    cases htx : v.txValid with
    | false => exact htx
    | true =>
        have hno := h.not_rx htx
        rw [hrx] at hno
        cases hno

/-- A packet for the host waits to be handled: nothing is VALID, and no packet of the host
waits. -/
theorem at_in (h : Tied P st v) (hp : P) (hc : v.ctrTx = true) :
    st.isIn = true ∧ v.quiet ∧ v.outWaits = false := by
  have hin := h.inWaits hp hc
  refine ⟨hin.1, hin.2, ?_⟩
  cases hw : v.outWaits with
  | false => rfl
  | true =>
      have hout := (h.outWaits hp hw).1
      rw [ControlState.not_isOut hin.1] at hout
      cases hout

end Tied

/-! ## The functions of the driver -/

section

variable {s : Pipe}

theorem ctrlSend_spec (M : Mem) (buf : Ptr Region) (n : Nat) :
    (s.usbLldCtrlSend M buf n).dev.state.isIn = true ∧
      view (s.usbLldCtrlSend M buf n).reg =
        { view s.reg with rx1 := true, rx0 := false, tx1 := true, tx0 := true } := by
  constructor
  · have hstate : ∀ (c : Prop) [Decidable c],
        (if c then ControlState.lastInData else ControlState.inData).isIn = true := by
      intro c _
      split <;> rfl
    exact hstate _
  · exact view_setRxtxStatus_valid s.reg

theorem datastageIn_spec {M : Mem} {d : UsbDev} {e : Endp0} :
    (handleDatastageIn M d e).1.state.isIn = true ∧
        view (handleDatastageIn M d e).2.epreg = { view e.epreg with tx1 := true, tx0 := true } ∨
      (handleDatastageIn M d e).1.state = .waitStatusOut ∧
        view (handleDatastageIn M d e).2.epreg =
          { view e.epreg with rx1 := true, rx0 := true } := by
  rw [handleDatastageIn, Usb.handleDatastageIn]
  split
  · rename_i hlast
    split
    · refine .inl ⟨?_, view_setTxStatus_valid e.epreg⟩
      show d.state.isIn = true
      rw [hlast.2]
      rfl
    · exact .inr ⟨rfl, view_setRxStatus_valid e.epreg⟩
  · refine .inl ⟨?_, view_setTxStatus_valid e.epreg⟩
    simp only
    split <;> rfl

theorem datastageOut_spec :
    s.handleDatastageOut.dev.state = .waitStatusIn ∧
        view s.handleDatastageOut.reg = { view s.reg with tx1 := true, tx0 := true } ∨
      s.handleDatastageOut.dev.state = .outData ∧
        view s.handleDatastageOut.reg = { view s.reg with rx1 := true, rx0 := true } := by
  have hreg : s.takePacket.reg = s.reg := by
    rw [Pipe.takePacket]
    simp only
    split <;> rfl
  rw [Pipe.handleDatastageOut]
  simp only
  split
  · exact .inl ⟨rfl, (view_setTxStatus_valid s.takePacket.reg).trans (by rw [hreg])⟩
  · exact .inr ⟨rfl, (view_setRxStatus_valid s.takePacket.reg).trans (by rw [hreg])⟩

end

/-! ## The invariant -/

/-- What is completed in the register is going to be handled. -/
def Pipe.Settled (s : Pipe) : Prop := s.istrReset = false ∧ s.pending ≠ .reset

/-- The register of endpoint 0 is tied to the state of the control pipe. -/
def PipeInv (s : Pipe) : Prop := Tied s.Settled s.dev.state (view s.reg)

/-- The answers of the application come at the right time: nothing of the transfer before waits
to be handled, and to receive data, no packet is ready for the host. -/
def Timely (s : Pipe) : Happening → Prop
  | .answer r =>
      (s.istrReset = false → (view s.reg).ctrTx = false ∧ (view s.reg).outWaits = false) ∧
        ((∃ p len, r = .recv p len) → st103EpGetTxStatus s.reg ≠ epTxValid)
  | _ => True

section

variable {s s' : Pipe} {B : Board}

theorem Tied.sendState {P : Prop} {st : ControlState} {v : View} (hst : st.isIn = true)
    (hidle : P → v.ctrTx = false ∧ v.outWaits = false) :
    Tied P st { v with rx1 := true, rx0 := false, tx1 := true, tx0 := true } :=
  .of_idle hidle (fun _ => hst) (fun hv => by cases hv)

theorem Tied.stall {P : Prop} {st : ControlState} {v : View}
    (hidle : P → v.ctrTx = false ∧ v.outWaits = false) :
    Tied P st { v with rx1 := false, rx0 := true, tx1 := false, tx0 := true } :=
  .of_idle hidle (fun hv => by cases hv) (fun hv => by cases hv)

/-- `usb_lld_ctrl_send`, `usb_lld_ctrl_ack` and `usb_lld_ctrl_error` with nothing waiting -/
theorem ctrlSend_tied {P : Prop} {M : Mem} {buf : Ptr Region} {n : Nat}
    (hidle : P → (view s.reg).ctrTx = false ∧ (view s.reg).outWaits = false) :
    Tied P (s.usbLldCtrlSend M buf n).dev.state (view (s.usbLldCtrlSend M buf n).reg) := by
  obtain ⟨hst, hv⟩ := ctrlSend_spec (s := s) M buf n
  rw [hv]
  exact .sendState hst hidle

theorem ctrlAck_tied {P : Prop}
    (hidle : P → (view s.reg).ctrTx = false ∧ (view s.reg).outWaits = false) :
    Tied P s.usbLldCtrlAck.dev.state (view s.usbLldCtrlAck.reg) := by
  have hv : view s.usbLldCtrlAck.reg = _ := view_setRxtxStatus_valid s.reg
  rw [hv]
  exact .sendState rfl hidle

theorem ctrlError_tied {P : Prop}
    (hidle : P → (view s.reg).ctrTx = false ∧ (view s.reg).outWaits = false) :
    Tied P s.usbLldCtrlError.dev.state (view s.usbLldCtrlError.reg) := by
  have hv : view s.usbLldCtrlError.reg = _ := view_setRxtxStatus_stall s.reg
  rw [hv]
  exact .stall hidle

/-- `usb_lld_ctrl_recv` with nothing waiting, and no packet ready for the host -/
theorem ctrlRecv_tied {P : Prop} {p : Ptr Region} {len : Nat}
    (hidle : P → (view s.reg).ctrTx = false ∧ (view s.reg).outWaits = false)
    (htx : (view s.reg).txValid = false) :
    Tied P (s.usbLldCtrlRecv p len).dev.state (view (s.usbLldCtrlRecv p len).reg) := by
  have hv : view (s.usbLldCtrlRecv p len).reg = _ := view_setRxStatus_valid s.reg
  rw [hv]
  refine .of_idle hidle (fun hv => ?_) (fun _ => rfl)
  have htx' : (view s.reg).txValid = true := hv
  rw [htx] at htx'
  cases htx'

/-- `handle_in0` in a state of the direction IN -/
theorem handleIn0_tied {P : Prop} (hst : s.dev.state.isIn = true) (hq : (view s.reg).quiet)
    (hidle : (view s.reg).ctrTx = false ∧ (view s.reg).outWaits = false) :
    Tied P s.handleIn0.dev.state (view s.handleIn0.reg) := by
  simp only [Pipe.handleIn0, handleIn0, Usb.handleIn0]
  split
  · rcases datastageIn_spec (M := s.mem) (d := s.dev) (e := s.ep0) with ⟨h, hv⟩ | ⟨h, hv⟩
    · refine .of_idle ?_ (fun _ => h) ?_
      · intro _
        rw [Pipe.reg]
        exact ⟨(congrArg View.ctrTx hv).trans hidle.1, (congrArg View.outWaits hv).trans hidle.2⟩
      · intro hrx
        have hrx' : (view s.reg).rxValid = true := (congrArg View.rxValid hv).symm.trans hrx
        rw [hq.2] at hrx'
        cases hrx'
    · refine .of_idle ?_ ?_ ?_
      · intro _
        exact ⟨(congrArg View.ctrTx hv).trans hidle.1, (congrArg View.outWaits hv).trans hidle.2⟩
      · intro htx
        have htx' : (view s.reg).txValid = true := (congrArg View.txValid hv).symm.trans htx
        rw [hq.1] at htx'
        cases htx'
      · intro _
        exact congrArg ControlState.isOut h
  · rename_i hne
    split
    · have hreg : (port.statusInDone s.dev s.ep0).epreg = s.reg := by
        simp only [port]
        split <;> rfl
      refine .of_idle ?_ ?_ ?_
      · intro _
        rw [Pipe.reg, hreg]
        exact hidle
      · intro htx
        rw [Pipe.reg, hreg, hq.1] at htx
        cases htx
      · intro hrx
        rw [Pipe.reg, hreg, hq.2] at hrx
        cases hrx
    · rename_i hne'
      exfalso
      cases hs : s.dev.state <;> simp_all [ControlState.isIn]

/-- `handle_out0` in a state of the direction OUT -/
theorem handleOut0_tied {P : Prop} (hst : s.dev.state.isOut = true) (hq : (view s.reg).quiet)
    (hidle : (view s.reg).ctrTx = false ∧ (view s.reg).outWaits = false) :
    Tied P s.handleOut0.dev.state (view s.handleOut0.reg) := by
  rw [Pipe.handleOut0]
  split
  · rcases datastageOut_spec (s := s) with ⟨h, hv⟩ | ⟨h, hv⟩
    · rw [h, hv]
      refine .of_idle (fun _ => hidle) (fun _ => rfl) fun hrx => ?_
      have hrx' : (view s.reg).rxValid = true := hrx
      rw [hq.2] at hrx'
      cases hrx'
    · rw [h, hv]
      refine .of_idle (fun _ => hidle) (fun htx => ?_) fun _ => rfl
      have htx' : (view s.reg).txValid = true := htx
      rw [hq.1] at htx'
      cases htx'
  · split
    · refine .of_idle (fun _ => hidle) (fun htx => ?_) (fun hrx => ?_)
      · have htx' : (view s.reg).txValid = true := htx
        rw [hq.1] at htx'
        cases htx'
      · have hrx' : (view s.reg).rxValid = true := hrx
        rw [hq.2] at hrx'
        cases hrx'
    · exfalso
      cases hs : s.dev.state <;> simp_all [ControlState.isOut]

/-- `handle_setup0` with nothing waiting -/
theorem handleSetup0_tied {P : Prop} (h : Tied P s.dev.state (view s.reg))
    (hidle : (view s.reg).ctrTx = false ∧ (view s.reg).outWaits = false) :
    Tied P s.handleSetup0.dev.state (view s.handleSetup0.reg) := by
  rw [Pipe.handleSetup0]
  simp only
  split
  · exact ctrlError_tied fun _ => hidle
  · exact ctrlSend_tied fun _ => hidle
  · exact ctrlAck_tied fun _ => hidle
  · exact h

/-- **`usb_handle_transfer` keeps the register tied to the state.** -/
theorem PipeInv.usbHandleTransfer (h : PipeInv s) (hs : s.Settled) (P : Prop) :
    Tied P s.usbHandleTransfer.dev.state (view s.usbHandleTransfer.reg) := by
  rw [Pipe.usbHandleTransfer]
  simp only
  rw [hasCtr_tx_eq, hasCtr_rx_eq]
  split
  · rename_i htx
    obtain ⟨hst, hq, hout⟩ := h.at_in hs htx
    refine handleIn0_tied hst ?_ ?_
    · exact (view_clearCtrTx s.reg).symm ▸ hq
    · exact (view_clearCtrTx s.reg).symm ▸ ⟨rfl, hout⟩
  · rename_i htx
    rw [Bool.not_eq_true] at htx
    have hv := view_clearCtrRx s.reg
    split
    · split
      · refine handleSetup0_tied ?_ ?_
        · refine .of_idle ?_ ?_ ?_
          · exact fun _ => hv.symm ▸ ⟨htx, rfl⟩
          · exact fun hval => h.tx ((congrArg View.txValid hv).symm.trans hval)
          · exact fun hval => h.rx ((congrArg View.rxValid hv).symm.trans hval)
        · exact hv.symm ▸ ⟨htx, rfl⟩
      · rename_i hrx hset
        rw [ne_eq, not_not] at hset
        have hwait : (view s.reg).outWaits = true := by
          have hno : (view s.reg).setup = false := by
            cases hb : (view s.reg).setup with
            | false => rfl
            | true => exact absurd hset ((setup_iff s.reg).2 hb)
          simp [View.outWaits, hrx, hno]
        obtain ⟨hst, hq⟩ := h.outWaits hs hwait
        refine handleOut0_tied hst ?_ ?_
        · exact hv.symm ▸ hq
        · exact hv.symm ▸ ⟨htx, rfl⟩
    · rename_i hrx
      rw [Bool.not_eq_true] at hrx
      refine .of_idle (fun _ => ⟨htx, ?_⟩) h.tx h.rx
      simp [View.outWaits, hrx]

/-- **The step lemma.** -/
theorem PipeInv.step (h : PipeInv s) {a : Happening} (hok : Timely s a)
    (hs : s.step B a = .ok s') : PipeInv s' := by
  cases a with
  | setup pma =>
      cases hs
      have ht : Tied s.Settled s.dev.state (view (setupTransaction s.reg)) :=
        (view_setupTransaction s.reg).symm ▸ Tied.setupTransaction h
      exact ht
  | inDone =>
      rw [Pipe.step] at hs
      split at hs
      · rename_i htx
        cases hs
        have ht : Tied s.Settled s.dev.state (view (inTransaction s.reg)) :=
          (view_inTransaction s.reg).symm ▸ Tied.inTransaction h ((txValid_iff s.reg).1 htx)
        exact ht
      · cases hs
  | outDone pma count frozen =>
      rw [Pipe.step] at hs
      split at hs
      · rename_i hrx
        cases hs
        have ht : Tied s.Settled s.dev.state (view (outTransaction frozen s.reg)) :=
          (view_outTransaction s.reg frozen).symm ▸
            Tied.outTransaction h ((rxValid_iff s.reg).1 hrx) _
        exact ht
      · cases hs
  | busReset =>
      cases hs
      have hv := view_resetRegister s.reg
      refine .of_idle (fun hp => ?_) (fun htx => ?_) (fun hrx => ?_)
      · cases hp.1
      · have htx' := (congrArg View.txValid hv).symm.trans htx
        cases htx'
      · have hrx' := (congrArg View.rxValid hv).symm.trans hrx
        cases hrx'
  | handle =>
      rw [Pipe.step] at hs
      split at hs
      · rename_i hp
        cases hs
        rw [PipeInv, Pipe.usbLldEventHandler]
        split
        · exact h.mono fun hq => absurd rfl hq.2
        · rename_i hr
          have hset : s.Settled := ⟨by simpa using hr, by rw [hp]; decide⟩
          exact h.usbHandleTransfer hset _
      · cases hs
  | answer r =>
      rw [Pipe.step] at hs
      split at hs
      · cases hs
        cases r with
        | send buf n => exact ctrlSend_tied fun hq => hok.1 hq.1
        | recv p len =>
            refine ctrlRecv_tied (fun hq => hok.1 hq.1) ?_
            have hne := hok.2 ⟨p, len, rfl⟩
            rw [ne_eq, txValid_iff, Bool.not_eq_true] at hne
            exact hne
        | ack => exact ctrlAck_tied fun hq => hok.1 hq.1
        | error => exact ctrlError_tied fun hq => hok.1 hq.1
      · cases hs
  | followReset =>
      rw [Pipe.step] at hs
      split at hs
      · cases hs
        have hv := view_setupEndpoint s.reg B.rx_ne B.tx_ne
        refine .of_idle (fun _ => ?_) (fun htx => ?_) (fun hrx => ?_)
        · exact ⟨congrArg View.ctrTx hv, congrArg View.outWaits hv⟩
        · have htx' := (congrArg View.txValid hv).symm.trans htx
          cases htx'
        · have hrx' := (congrArg View.rxValid hv).symm.trans hrx
          cases hrx'
      · cases hs
  | other mem std =>
      cases hs
      exact h

/-! ## The runs -/

/-- The next call of `usb_lld_event_handler` comes to the last branch of `handle_in0` or of
`handle_out0`, which stalls the endpoint. -/
def ProtocolError (s : Pipe) : Prop :=
  s.istrReset = false ∧ s.pending = .nothing ∧
    (hasCtr .tx s.reg = true ∧ s.dev.state ≠ .inData ∧ s.dev.state ≠ .lastInData ∧
        s.dev.state ≠ .waitStatusIn ∨
      hasCtr .tx s.reg = false ∧ hasCtr .rx s.reg = true ∧ s.reg &&& epSetup = 0 ∧
        s.dev.state ≠ .outData ∧ s.dev.state ≠ .waitStatusOut)

/-- What endpoint 0 has to keep in every state. -/
structure EndpointZero (s : Pipe) : Prop where
  tx : st103EpGetTxStatus s.reg = epTxValid →
    s.dev.state = .inData ∨ s.dev.state = .lastInData ∨ s.dev.state = .waitStatusIn
  rx : st103EpGetRxStatus s.reg = epRxValid →
    s.dev.state = .outData ∨ s.dev.state = .waitStatusOut
  notBoth : ¬ (st103EpGetTxStatus s.reg = epTxValid ∧ st103EpGetRxStatus s.reg = epRxValid)
  noError : ¬ ProtocolError s

theorem PipeInv.endpointZero (h : PipeInv s) : EndpointZero s where
  tx htx := by
    have hin := h.tx ((txValid_iff s.reg).1 htx)
    cases hst : s.dev.state <;> simp_all [ControlState.isIn]
  rx hrx := by
    have hout := h.rx ((rxValid_iff s.reg).1 hrx)
    cases hst : s.dev.state <;> simp_all [ControlState.isOut]
  notBoth := by
    rintro ⟨htx, hrx⟩
    have hno := h.not_rx ((txValid_iff s.reg).1 htx)
    rw [(rxValid_iff s.reg).1 hrx] at hno
    cases hno
  noError := by
    rintro ⟨hr, hp, herr⟩
    have hset : s.Settled := ⟨hr, by rw [hp]; decide⟩
    rcases herr with ⟨hc, h1, h2, h3⟩ | ⟨-, hc, hsetup, h1, h2⟩
    · rw [hasCtr_tx_eq] at hc
      have hin := (h.inWaits hset hc).1
      cases hst : s.dev.state <;> simp_all [ControlState.isIn]
    · rw [hasCtr_rx_eq] at hc
      have hno : (view s.reg).setup = false := by
        cases hb : (view s.reg).setup with
        | false => rfl
        | true => exact absurd hsetup ((setup_iff s.reg).2 hb)
      have hout := (h.outWaits hset (by simp [View.outWaits, hc, hno])).1
      cases hst : s.dev.state <;> simp_all [ControlState.isOut]

/-- **Endpoint 0 and the state of the control pipe.**  In every run in which each answer of the
application comes when nothing of the transfer before waits to be handled, and
`usb_lld_ctrl_recv` when no packet is ready for the host, the directions of endpoint 0 are VALID
only in their states, never both, and neither handler comes to its protocol-error branch. -/
theorem endpointZero_of_reach (B : Board) (pma : Pma) (mem : Mem) (eps : Nat → BitVec 16)
    (h : Reach (Pipe.step B) Timely (.start B pma mem eps) s) : EndpointZero s := by
  have hinv : PipeInv s := by
    refine h.invariant (P := PipeInv) ?_ fun _ _ _ hi hok hs => hi.step hok hs
    have hv : view (Pipe.start B pma mem eps).reg = ⟨false, false, false, false, false, false,
        false⟩ := by
      simp [view, Pipe.reg, Pipe.start]
    rw [PipeInv, hv]
    exact .of_idle (fun _ => ⟨rfl, rfl⟩) (fun htx => by cases htx) (fun hrx => by cases hrx)
  exact hinv.endpointZero

end

/-- The features and the buffers of endpoint 0 of a communication device. -/
def cdcBoard : Board := ⟨0x80, 0x40, 0x80, by decide, by decide⟩

/-- A packet memory that holds a request of the given type for `len` bytes. -/
def requestPma (type len : BitVec 16) : Pma := fun w => if w = 0x20 then type else if w = 0x23 then
  len else 0

/-- The answer to a request that the host has given up makes a packet ready, and the answer to
the next request, which waits for data, leaves it so: both directions are VALID. -/
theorem endpointZero_both_valid : ∃ s : Pipe,
    Reach (Pipe.step cdcBoard) anyEvent (.start cdcBoard (fun _ => 0) (fun _ _ => 0) fun _ => 0) s ∧
      ¬ EndpointZero s := by
  have hrun : runTest (Pipe.step cdcBoard) (fun _ _ => true)
      (fun s => decide (st103EpGetTxStatus s.reg = epTxValid ∧
        st103EpGetRxStatus s.reg = epRxValid))
      (.start cdcBoard (fun _ => 0) (fun _ _ => 0) fun _ => 0)
      [.busReset, .handle, .followReset, .setup (requestPma 0xC0 8), .handle,
        .setup (requestPma 0x40 8), .answer (.send ⟨.app, 0⟩ 8), .handle,
        .answer (.recv ⟨.app, 0⟩ 8)] = true := by
    decide +kernel
  obtain ⟨s, hs, hp⟩ := reach_any_of_runTest hrun
  rw [decide_eq_true_eq] at hp
  exact ⟨s, hs, fun h => h.notBoth hp⟩

/-- The same two requests, the second after the answer to the first one has been taken. -/
theorem endpointZero_two_requests : ∃ s : Pipe, s.dev.state = .outData ∧ EndpointZero s := by
  have hrun : runTest (Pipe.step cdcBoard)
      (fun s a => match a with
        | .answer _ => s.pending = .answer ∧ (view s.reg).ctrTx = false ∧
            (view s.reg).outWaits = false ∧ st103EpGetTxStatus s.reg ≠ epTxValid
        | _ => true)
      (fun s => decide (s.dev.state = .outData))
      (.start cdcBoard (fun _ => 0) (fun _ _ => 0) fun _ => 0)
      [.busReset, .handle, .followReset, .setup (requestPma 0xC0 8), .handle,
        .answer (.send ⟨.app, 0⟩ 8), .inDone, .setup (requestPma 0x40 8), .handle, .handle,
        .answer (.recv ⟨.app, 0⟩ 8)] = true := by
    decide +kernel
  obtain ⟨s, hs, hp⟩ := reach_of_runTest hrun
  rw [decide_eq_true_eq] at hp
  refine ⟨s, hp, endpointZero_of_reach cdcBoard (fun _ => 0) (fun _ _ => 0) (fun _ => 0)
    (hs.mono ?_)⟩
  intro s a hok
  cases a with
  | answer r =>
      simp only [decide_eq_true_eq] at hok
      exact ⟨fun _ => ⟨hok.2.1, hok.2.2.1⟩, fun _ => hok.2.2.2⟩
  | _ => trivial

end Stm32f103

end Chopstx.Usb
