import Chopstx.Usb.Lld

/-!
# Endpoint 0 of the MKL27Z

The controller takes the packets from memory: a buffer descriptor names the buffer, and
its bit `OWN` says that it belongs to the controller.  Each direction of endpoint 0 has
two descriptors, which are used in turn; the driver keeps in `tx_odd` and `rx_odd` which
one is next.  The one that is not next never belongs to the controller, and this is a
part of the record of the endpoint.

* `Bd`, `Endp0` - a descriptor, and the record; its field `other_free` is that part.
* `kl27zPrepareEp0In`, `kl27zPrepareEp0Out`, `kl27zPrepareEp0Setup` - a packet is armed.
* `inTransaction`, `nextData01` - a transaction is completed, and the data toggle after it.
* `port`, `lawfulPort` - the endpoint as a port that keeps the laws.

`Chopstx.Property.InStage` connects the record to the table of descriptors of
`Chopstx.Usb.Mkl27zCtrl`.
-/

namespace Chopstx.Usb.Mkl27z

/-! ## Buffer descriptors -/

/-- A buffer descriptor (`struct BD`), with the fields of its control word that endpoint 0
uses. -/
structure Bd where
  own : Bool
  data01 : Bool
  bc : Nat
  buf : Ptr Region
  deriving DecidableEq, Repr

/-- The descriptor belongs to the driver. -/
def Bd.release (b : Bd) : Bd := { b with own := false }

/-- Endpoint 0: the descriptors `BD_table[0..1]` of the direction OUT and `BD_table[2..3]`
of the direction IN, which of them are next, the stall bit of the endpoint register, the
bit `ODD` of the register `STAT`, and the device address. -/
structure Endp0 where
  bdRx : Bool → Bd
  bdTx : Bool → Bd
  rxOdd : Bool
  txOdd : Bool
  epStall : Bool
  statOdd : Bool
  daddr : BitVec 16
  other_free : (bdTx !txOdd).own = false

namespace Endp0

variable (e : Endp0)

/-- `kl27z_prepare_ep0_in`; its argument `len` is a `uint8_t`. -/
def kl27zPrepareEp0In (buf : Ptr Region) (len : Nat) (data01 : Bool) : Endp0 :=
  { e with
    bdTx := Function.update e.bdTx e.txOdd ⟨true, data01, len % 256, buf⟩
    other_free := by
      rw [Function.update_of_ne (by simp)]
      exact e.other_free }

/-- `kl27z_prepare_ep0_out`. -/
def kl27zPrepareEp0Out (buf : Ptr Region) (len : Nat) (data01 : Bool) : Endp0 :=
  { e with bdRx := Function.update e.bdRx e.rxOdd ⟨true, data01, len % 256, buf⟩ }

/-- `kl27z_prepare_ep0_setup`. -/
def kl27zPrepareEp0Setup : Endp0 :=
  { e with
    bdRx := fun odd =>
      if odd = e.rxOdd then ⟨true, false, 8, Region.devReq.ptr⟩
      else ⟨false, false, 0, Region.null.ptr⟩ }

/-- `kl27z_ep_stall (ENDP0)`. -/
def kl27zEpStall : Endp0 := { e with epStall := true }

/-- A completed IN transaction: the controller gives the descriptor back and names it in
`STAT`, and `handle_transaction` goes on to the other one. -/
def inTransaction : Endp0 :=
  { e with
    bdTx := Function.update e.bdTx e.txOdd (e.bdTx e.txOdd).release
    statOdd := e.txOdd
    txOdd := !e.txOdd
    other_free := by simp [Bd.release] }

/-- The data toggle of the packet after the one that was sent (`data01`). -/
def nextData01 : Bool := !(e.bdTx e.statOdd).data01

end Endp0

/-! ## The port -/

/-- `DATA1`. -/
def data1 : Bool := true

/-- How the driver of the MKL27Z moves the packets of endpoint 0. -/
def port : Port Endp0 where
  sendFirst _ p n e := e.kl27zPrepareEp0In p n data1
  sendNext _ p n e := e.kl27zPrepareEp0In p n e.nextData01
  sendZlp e := e.kl27zPrepareEp0In Region.devReq.ptr 0 e.nextData01
  recvStatus e := e.kl27zPrepareEp0Out Region.devReq.ptr 0 data1
  statusInDone d e :=
    let e := if d.devReq.isSetAddress then { e with daddr := d.devReq.value, rxOdd := false } else e
    e.kl27zPrepareEp0Setup
  stall e := e.kl27zEpStall
  queued M _ e :=
    if (e.bdTx e.txOdd).own then some (M.read (e.bdTx e.txOdd).buf (e.bdTx e.txOdd).bc) else none
  inAcked e := e.inTransaction
  statusReady _ e := (e.bdRx e.rxOdd).own && (e.bdRx e.rxOdd).data01

/-- `usb_lld_ctrl_send`. -/
def usbLldCtrlSend (M : Mem) (d : UsbDev) (e : Endp0) (buf : Ptr Region) (buflen : Nat) :
    UsbDev × Endp0 :=
  ctrlSend port M d e buf buflen

/-- `handle_datastage_in`. -/
def handleDatastageIn (M : Mem) (d : UsbDev) (e : Endp0) : UsbDev × Endp0 :=
  Usb.handleDatastageIn port M d e

/-- `handle_in0`. -/
def handleIn0 (M : Mem) (d : UsbDev) (e : Endp0) : (UsbDev × Endp0) × UsbEvent :=
  Usb.handleIn0 port M d e

/-! ## Its laws -/

section

variable {M : Mem} {p : Ptr Region} {n : Nat} {st : ControlState} {e : Endp0} {b : Bool}

theorem queued_prepare (h : n ≤ maxPacketSize) :
    port.queued M st (e.kl27zPrepareEp0In p n b) = some (M.read p n) := by
  have hn : n % 256 = n := Nat.mod_eq_of_lt (lt_of_le_of_lt h (by decide))
  simp only [port, Endp0.kl27zPrepareEp0In, Function.update_self, if_true, hn]

theorem queued_recvStatus : port.queued M st (port.recvStatus (port.inAcked e)) = none := by
  apply if_neg
  have h : ((Function.update e.bdTx e.txOdd (e.bdTx e.txOdd).release) !e.txOdd).own = false := by
    rw [Function.update_of_ne (by simp)]
    exact e.other_free
  simp only [port, Endp0.kl27zPrepareEp0Out, Endp0.inTransaction, h]
  decide

theorem statusReady_recvStatus : port.statusReady st (port.recvStatus e) = true := by
  simp [port, Endp0.kl27zPrepareEp0Out, data1]

end

/-- The port of the MKL27Z keeps the laws. -/
def lawfulPort : LawfulPort Endp0 where
  toPort := port
  queued_sendFirst h _ := queued_prepare h
  queued_sendNext h _ := queued_prepare h
  queued_sendZlp := queued_prepare (Nat.zero_le _)
  queued_recvStatus := queued_recvStatus
  statusReady_recvStatus := statusReady_recvStatus

end Chopstx.Usb.Mkl27z
