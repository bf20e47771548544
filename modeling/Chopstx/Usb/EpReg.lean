import Chopstx.Usb.Stm32f103
import Chopstx.Library.Transition

/-!
# The registers EPnR between the driver and the hardware

Every function of the driver that changes `EPnR` reads the register, computes a value and
writes it, and the hardware may change the register in between.  The machine has one step
for each access to a register: those of `usb_handle_transfer`, those of any number of other
calls under way, and those of the hardware, which may change all bits but clears no
`CTR_RX` and no `CTR_TX`.

* `Dir`, `EpOp`, `EpOp.value`, `EpOp.apply` - the functions, what each writes when it has read the
  register, and the function as a whole.
* `clearCtrValue`, `handled`, `TransferPc` - the parts of `usb_handle_transfer`.
* `RegState`, `Access`, `RegState.step` - the register and all who access it, and one access.
* `apply_setRxtxStatus`, `apply_setRxStatus`, `apply_setTxStatus` - these are the functions of
  `Chopstx.Usb.Stm32f103` where nothing comes in between.
-/

namespace Chopstx.Usb.Stm32f103

/-! ## The functions that read a register and write it -/

/-- A direction of an endpoint. -/
inductive Dir where
  | rx
  | tx
  deriving DecidableEq, Repr

namespace Dir

/-- `EP_CTR_RX`, `EP_CTR_TX` -/
def ctr : Dir → BitVec 16
  | .rx => epCtrRx
  | .tx => epCtrTx

/-- `EP_DTOG_RX`, `EP_DTOG_TX` -/
def dtog : Dir → BitVec 16
  | .rx => 0x4000
  | .tx => epDtogTx

/-- The other direction. -/
def other : Dir → Dir
  | .rx => .tx
  | .tx => .rx

end Dir

/-- `ep_value & EP_CTR_RX`, `ep_value & EP_CTR_TX` as conditions -/
def hasCtr (d : Dir) (r : BitVec 16) : Bool := r &&& d.ctr ≠ 0

/-- The test of one bit. -/
theorem and_twoPow_ne_zero {i : Nat} (hi : i < 16) (r : BitVec 16) :
    r &&& BitVec.twoPow 16 i ≠ 0 ↔ r.getLsbD i = true := by
  rw [BitVec.and_twoPow]
  cases r.getLsbD i with
  | false => simp
  | true =>
      have hne : BitVec.twoPow 16 i ≠ 0 := by
        intro h
        have hbit := congrArg (fun x : BitVec 16 => x.getLsbD i) h
        simp [hi] at hbit
      simpa using hne

/-- The place of a `CTR` bit. -/
def Dir.bit : Dir → Nat
  | .rx => 15
  | .tx => 7

theorem hasCtr_eq (d : Dir) (r : BitVec 16) : hasCtr d r = r.getLsbD d.bit := by
  have hmask : d.ctr = BitVec.twoPow 16 d.bit := by cases d <;> decide
  have hlt : d.bit < 16 := by cases d <;> decide
  rw [Bool.eq_iff_iff, hasCtr, decide_eq_true_eq, hmask]
  exact and_twoPow_ne_zero hlt r

/-- What `st103_ep_clear_ctr_rx` or `st103_ep_clear_ctr_tx` writes, when it has read `r`. -/
def clearCtrValue (d : Dir) (r : BitVec 16) : BitVec 16 := r &&& ~~~d.ctr &&& epregMask

/-- The other functions that change the register of an endpoint. -/
inductive EpOp where
  /-- `st103_ep_set_rxtx_status` -/
  | setRxtxStatus (stRx stTx : BitVec 16)
  /-- `st103_ep_set_rx_status` -/
  | setRxStatus (stRx : BitVec 16)
  /-- `st103_ep_set_tx_status` -/
  | setTxStatus (stTx : BitVec 16)
  /-- `st103_ep_clear_dtog_rx`, `st103_ep_clear_dtog_tx` -/
  | clearDtog (d : Dir)
  deriving DecidableEq, Repr

/-- What the function writes when it has read `r`, if it writes. -/
def EpOp.value (r : BitVec 16) : EpOp → Option (BitVec 16)
  | .setRxtxStatus stRx stTx =>
      some (((r &&& (epregMask ||| eprxStat ||| eptxStat)) ^^^ (eprxStat &&& stRx) ^^^
        (eptxStat &&& stTx)) ||| epCtrRx ||| epCtrTx)
  | .setRxStatus stRx =>
      some (((r &&& (epregMask ||| eprxStat)) ^^^ (eprxStat &&& stRx)) ||| epCtrRx ||| epCtrTx)
  | .setTxStatus stTx =>
      some (((r &&& (epregMask ||| eptxStat)) ^^^ (eptxStat &&& stTx)) ||| epCtrRx ||| epCtrTx)
  | .clearDtog d =>
      if r &&& d.dtog ≠ 0 then some ((r &&& epregMask) ||| epCtrRx ||| epCtrTx ||| d.dtog) else none

/-- The function as a whole, where nothing comes in between. -/
def EpOp.apply (op : EpOp) (r : BitVec 16) : BitVec 16 :=
  match op.value r with
  | some v => st103SetEpreg r v
  | none => r

theorem apply_setRxtxStatus (r stRx stTx : BitVec 16) :
    (EpOp.setRxtxStatus stRx stTx).apply r = st103EpSetRxtxStatus r stRx stTx := rfl

theorem apply_setRxStatus (r st : BitVec 16) :
    (EpOp.setRxStatus st).apply r = st103EpSetRxStatus r st := rfl

theorem apply_setTxStatus (r st : BitVec 16) :
    (EpOp.setTxStatus st).apply r = st103EpSetTxStatus r st := rfl

/-! ## The machine -/

/-- Where `usb_handle_transfer` is: not running, behind its `st103_get_epreg`, or inside
`st103_ep_clear_ctr_rx` or `st103_ep_clear_ctr_tx` with the value to write. -/
inductive TransferPc where
  | idle
  | read (n : Nat) (epValue : BitVec 16)
  | clear (n : Nat) (d : Dir) (value : BitVec 16)
  deriving DecidableEq, Repr

/-- The direction that `usb_handle_transfer` handles: endpoint 0 looks at `EP_CTR_TX` first,
the others at `EP_CTR_RX`. -/
def handled (n : Nat) (epValue : BitVec 16) : Option Dir :=
  let first := if n = 0 then Dir.tx else .rx
  if hasCtr first epValue then some first
  else if hasCtr first.other epValue then some first.other
  else none

/-- The registers, the transfer handler, the other calls with the value that each will write
to which register, and the transfers that the hardware has completed and that
`usb_handle_transfer` has not reported. -/
structure RegState where
  epreg : Nat → BitVec 16
  transfer : TransferPc
  calls : Nat → Option (Nat × BitVec 16)
  unreported : Nat → Dir → Bool

/-- The registers as they are, with every transfer complete in them to be reported. -/
def RegState.start (epreg : Nat → BitVec 16) : RegState where
  epreg := epreg
  transfer := .idle
  calls := fun _ => none
  unreported := fun n d => hasCtr d (epreg n)

/-- An access to a register. -/
inductive Access where
  /-- The hardware changes the register of the endpoint `n`. -/
  | hardware (n : Nat) (r : BitVec 16)
  /-- `usb_handle_transfer` starts for the endpoint `n`. -/
  | transfer (n : Nat)
  /-- `usb_handle_transfer` goes on. -/
  | transferNext
  /-- The call `t` starts on the register of the endpoint `n`. -/
  | call (t n : Nat) (op : EpOp)
  /-- The call `t` writes its value. -/
  | callWrite (t : Nat)
  deriving DecidableEq, Repr

/-- One access.  It is refused where it is not to be made, and where the hardware would clear
`CTR_RX` or `CTR_TX`. -/
def RegState.step (s : RegState) : Access → Except Unit RegState
  | .hardware n r =>
      if s.epreg n &&& (epCtrRx ||| epCtrTx) &&& ~~~r = 0 then
        .ok { s with
          epreg := Function.update s.epreg n r
          unreported := fun m d =>
            s.unreported m d || (m = n && hasCtr d r && !hasCtr d (s.epreg n)) }
      else .error ()
  | .transfer n =>
      match s.transfer with
      | .idle => .ok { s with transfer := .read n (s.epreg n) }
      | _ => .error ()
  | .transferNext =>
      match s.transfer with
      | .idle => .error ()
      | .read n epValue =>
          match handled n epValue with
          | some d => .ok { s with transfer := .clear n d (clearCtrValue d (s.epreg n)) }
          | none => .ok { s with transfer := .idle }
      | .clear n d value =>
          -- the write, and the return that reports the transfer
          .ok { s with
            epreg := Function.update s.epreg n (st103SetEpreg (s.epreg n) value)
            transfer := .idle
            unreported := fun m c => s.unreported m c && !(m = n && c = d) }
  | .call t n op =>
      match s.calls t with
      | some _ => .error ()
      | none =>
          .ok { s with
            calls := Function.update s.calls t ((op.value (s.epreg n)).map fun v => (n, v)) }
  | .callWrite t =>
      match s.calls t with
      | none => .error ()
      | some (n, v) =>
          .ok { s with
            epreg := Function.update s.epreg n (st103SetEpreg (s.epreg n) v)
            calls := Function.update s.calls t none }

end Chopstx.Usb.Stm32f103
