import Chopstx.Usb.Lld

/-!
# Endpoint 0 of the STM32F103

The packet memory (PMA) is an array of 16-bit words, each with two bytes of a packet.  In
the register `EPnR` a write of 1 toggles the status and data-toggle bits, a write of 0
clears the bits `CTR_RX` and `CTR_TX`, and `EP_SETUP` is read-only.

* `st103SetEpreg` and the functions over it - what the hardware makes of a write to the register.
* `Pma`, `usbLldToPmabuf`, `bytes_usbLldToPmabuf` - the packet memory; what is written is what the
  hardware reads, at odd and at even addresses.
* `Endp0`, `port`, `lawfulPort` - the endpoint as a port that keeps the laws.
* `usbLldCtrlSend`, `handleDatastageIn`, `handleIn0` - the functions of the control pipe over it.
-/

namespace Chopstx.Usb.Stm32f103

/-! ## The register EPnR -/

/-- `EPREG_MASK`. -/
def epregMask : BitVec 16 := 0x8F8F

/-- `EPRX_STAT`. -/
def eprxStat : BitVec 16 := 0x3000

/-- `EPTX_STAT`. -/
def eptxStat : BitVec 16 := 0x0030

/-- `EP_CTR_RX`. -/
def epCtrRx : BitVec 16 := 0x8000

/-- `EP_CTR_TX`. -/
def epCtrTx : BitVec 16 := 0x0080

/-- `EP_SETUP`. -/
def epSetup : BitVec 16 := 0x0800

/-- `EP_DTOG_TX`. -/
def epDtogTx : BitVec 16 := 0x0040

/-- The bits that a write of 1 toggles. -/
def toggleBits : BitVec 16 := 0x7070

/-- The bits that a write sets to the value written. -/
def plainBits : BitVec 16 := 0x070F

/-- `EP_TX_STALL`, `EP_TX_NAK` and `EP_TX_VALID`. -/
def epTxStall : BitVec 16 := 0x0010
def epTxNak : BitVec 16 := 0x0020
def epTxValid : BitVec 16 := 0x0030

/-- `EP_RX_STALL`, `EP_RX_NAK` and `EP_RX_VALID`. -/
def epRxStall : BitVec 16 := 0x1000
def epRxNak : BitVec 16 := 0x2000
def epRxValid : BitVec 16 := 0x3000

/-- What the hardware makes of a write of `value` to `EPnR` (`st103_set_epreg`). -/
def st103SetEpreg (r value : BitVec 16) : BitVec 16 :=
  ((r ^^^ value) &&& toggleBits) ||| (r &&& value &&& (epCtrRx ||| epCtrTx)) |||
    (value &&& plainBits) ||| (r &&& epSetup)

/-- `st103_ep_set_tx_status`. -/
def st103EpSetTxStatus (r st : BitVec 16) : BitVec 16 :=
  st103SetEpreg r (((r &&& (epregMask ||| eptxStat)) ^^^ (eptxStat &&& st)) ||| epCtrRx ||| epCtrTx)

/-- `st103_ep_set_rx_status`. -/
def st103EpSetRxStatus (r st : BitVec 16) : BitVec 16 :=
  st103SetEpreg r (((r &&& (epregMask ||| eprxStat)) ^^^ (eprxStat &&& st)) ||| epCtrRx ||| epCtrTx)

/-- `st103_ep_set_rxtx_status`. -/
def st103EpSetRxtxStatus (r stRx stTx : BitVec 16) : BitVec 16 :=
  st103SetEpreg r (((r &&& (epregMask ||| eprxStat ||| eptxStat)) ^^^ (eprxStat &&& stRx) ^^^
    (eptxStat &&& stTx)) ||| epCtrRx ||| epCtrTx)

/-- `st103_ep_get_tx_status`. -/
def st103EpGetTxStatus (r : BitVec 16) : BitVec 16 := r &&& eptxStat

/-- `st103_ep_get_rx_status`. -/
def st103EpGetRxStatus (r : BitVec 16) : BitVec 16 := r &&& eprxStat

/-- `st103_ep_clear_ctr_tx`. -/
def st103EpClearCtrTx (r : BitVec 16) : BitVec 16 :=
  st103SetEpreg r (r &&& ~~~epCtrTx &&& epregMask)

/-- A completed IN transaction: the hardware sets `CTR_TX`, toggles `DTOG_TX` and answers
the next IN token with NAK. -/
def inTransaction (r : BitVec 16) : BitVec 16 :=
  ((r &&& ~~~eptxStat) ||| epTxNak ||| epCtrTx) ^^^ epDtogTx

section

variable (r st stRx stTx : BitVec 16)

theorem getTxStatus_setTxStatus :
    st103EpGetTxStatus (st103EpSetTxStatus r st) = st &&& eptxStat := by
  apply BitVec.eq_of_getLsbD_eq
  intro i hi
  interval_cases i <;>
    simp [st103EpGetTxStatus, st103EpSetTxStatus, st103SetEpreg, epregMask, eptxStat, epCtrRx,
      epCtrTx, epSetup, toggleBits, plainBits]

theorem getTxStatus_setRxStatus :
    st103EpGetTxStatus (st103EpSetRxStatus r st) = st103EpGetTxStatus r := by
  apply BitVec.eq_of_getLsbD_eq
  intro i hi
  interval_cases i <;>
    simp [st103EpGetTxStatus, st103EpSetRxStatus, st103SetEpreg, epregMask, eptxStat, eprxStat,
      epCtrRx, epCtrTx, epSetup, toggleBits, plainBits]

theorem getRxStatus_setRxStatus :
    st103EpGetRxStatus (st103EpSetRxStatus r st) = st &&& eprxStat := by
  apply BitVec.eq_of_getLsbD_eq
  intro i hi
  interval_cases i <;>
    simp [st103EpGetRxStatus, st103EpSetRxStatus, st103SetEpreg, epregMask, eprxStat, epCtrRx,
      epCtrTx, epSetup, toggleBits, plainBits]

theorem getTxStatus_setRxtxStatus :
    st103EpGetTxStatus (st103EpSetRxtxStatus r stRx stTx) = stTx &&& eptxStat := by
  apply BitVec.eq_of_getLsbD_eq
  intro i hi
  interval_cases i <;>
    simp [st103EpGetTxStatus, st103EpSetRxtxStatus, st103SetEpreg, epregMask, eptxStat, eprxStat,
      epCtrRx, epCtrTx, epSetup, toggleBits, plainBits]

theorem getTxStatus_clearCtrTx :
    st103EpGetTxStatus (st103EpClearCtrTx r) = st103EpGetTxStatus r := by
  apply BitVec.eq_of_getLsbD_eq
  intro i hi
  interval_cases i <;>
    simp [st103EpGetTxStatus, st103EpClearCtrTx, st103SetEpreg, epregMask, eptxStat, epCtrRx,
      epCtrTx, epSetup, toggleBits, plainBits]

theorem getTxStatus_inTransaction : st103EpGetTxStatus (inTransaction r) = epTxNak := by
  apply BitVec.eq_of_getLsbD_eq
  intro i hi
  interval_cases i <;>
    simp [st103EpGetTxStatus, inTransaction, eptxStat, epTxNak, epCtrTx, epDtogTx]

end

/-! ## The packet memory -/

/-- The words of the packet memory. -/
abbrev Pma := Nat → BitVec 16

/-- The byte at the address `a` of the packet memory. -/
def Pma.byte (pma : Pma) (a : Nat) : Byte :=
  if a % 2 = 0 then (pma (a / 2)).setWidth 8 else (pma (a / 2) >>> 8).setWidth 8

/-- The `n` bytes from the address `a` on. -/
def Pma.bytes (pma : Pma) (a n : Nat) : List Byte :=
  (List.range n).map fun i => pma.byte (a + i)

/-- The loop of `usb_lld_to_pmabuf` over whole words, and the byte that may be left. -/
def toPmaWords : List Byte → Nat → Pma → Pma
  | b₀ :: b₁ :: bs, w, pma =>
      toPmaWords bs (w + 1) (Function.update pma w (b₀.setWidth 16 ||| (b₁.setWidth 16 <<< 8)))
  | [b], w, pma => Function.update pma w (b.setWidth 16)
  | [], _, pma => pma

/-- `usb_lld_to_pmabuf`. -/
def usbLldToPmabuf (src : List Byte) (addr : Nat) (pma : Pma) : Pma :=
  match src with
  | [] => pma
  | b :: bs =>
      if addr % 2 = 1 then
        toPmaWords bs (addr / 2 + 1)
          (Function.update pma (addr / 2) ((pma (addr / 2) &&& 0xff) ||| (b.setWidth 16 <<< 8)))
      else toPmaWords (b :: bs) (addr / 2) pma

@[simp] theorem byte_even {pma : Pma} {w : Nat} : pma.byte (2 * w) = (pma w).setWidth 8 := by
  rw [Pma.byte, if_pos (by omega), Nat.mul_div_cancel_left w (by omega)]

@[simp] theorem byte_odd {pma : Pma} {w : Nat} :
    pma.byte (2 * w + 1) = (pma w >>> 8).setWidth 8 := by
  rw [Pma.byte, if_neg (by omega), show (2 * w + 1) / 2 = w by omega]

theorem low_word (b₀ b₁ : Byte) :
    (b₀.setWidth 16 ||| (b₁.setWidth 16 <<< 8)).setWidth 8 = b₀ := by
  apply BitVec.eq_of_getLsbD_eq
  intro i hi
  interval_cases i <;> simp

theorem high_word (b₀ b₁ : Byte) :
    ((b₀.setWidth 16 ||| (b₁.setWidth 16 <<< 8)) >>> 8).setWidth 8 = b₁ := by
  apply BitVec.eq_of_getLsbD_eq
  intro i hi
  interval_cases i <;> simp

theorem high_merge (w : BitVec 16) (b : Byte) :
    ((w &&& 0xff ||| (b.setWidth 16 <<< 8)) >>> 8).setWidth 8 = b := by
  apply BitVec.eq_of_getLsbD_eq
  intro i hi
  interval_cases i <;> simp

/-- The words before the first one written stay. -/
theorem toPmaWords_before {bs : List Byte} {w v : Nat} {pma : Pma} (h : v < w) :
    toPmaWords bs w pma v = pma v := by
  induction bs, w, pma using toPmaWords.induct with
  | case1 b₀ b₁ bs w pma ih =>
      rw [toPmaWords, ih (by omega), Function.update_of_ne (by omega)]
  | case2 b w pma => exact Function.update_of_ne (by omega) ..
  | case3 w pma => rfl

theorem byte_toPmaWords {bs : List Byte} {w i : Nat} {pma : Pma} (h : i < bs.length) :
    Pma.byte (toPmaWords bs w pma) (2 * w + i) = bs[i] := by
  induction bs, w, pma using toPmaWords.induct generalizing i with
  | case1 b₀ b₁ bs w pma ih =>
      rw [toPmaWords]
      match i with
      | 0 =>
          refine byte_even.trans ?_
          rw [toPmaWords_before (by omega), Function.update_self]
          exact low_word b₀ b₁
      | 1 =>
          rw [byte_odd, toPmaWords_before (by omega), Function.update_self]
          exact high_word b₀ b₁
      | i + 2 =>
          rw [show 2 * w + (i + 2) = 2 * (w + 1) + i by omega]
          exact ih (by simpa using h)
  | case2 b w pma =>
      obtain rfl : i = 0 := by simpa using h
      rw [toPmaWords, Nat.add_zero, byte_even, Function.update_self]
      simp
  | case3 w pma => simp at h

/-- **What `usb_lld_to_pmabuf` writes is what the hardware reads**, at odd and at even
addresses. -/
theorem bytes_usbLldToPmabuf (src : List Byte) (addr : Nat) (pma : Pma) :
    Pma.bytes (usbLldToPmabuf src addr pma) addr src.length = src := by
  apply List.ext_getElem (by simp [Pma.bytes])
  intro i h₁ h₂
  have hget : (Pma.bytes (usbLldToPmabuf src addr pma) addr src.length)[i] =
      Pma.byte (usbLldToPmabuf src addr pma) (addr + i) := by
    simp [Pma.bytes]
  rw [hget]
  cases src with
  | nil => simp at h₂
  | cons b bs =>
      rw [usbLldToPmabuf]
      split
      · rename_i hodd
        have ha : addr = 2 * (addr / 2) + 1 := by omega
        cases i with
        | zero =>
            rw [Nat.add_zero, ha, byte_odd, show (2 * (addr / 2) + 1) / 2 = addr / 2 by omega,
              toPmaWords_before (by omega), Function.update_self]
            exact high_merge _ b
        | succ i =>
            rw [show addr + (i + 1) = 2 * (addr / 2 + 1) + i by omega]
            exact byte_toPmaWords (by simpa using h₂)
      · rename_i heven
        rw [show addr + i = 2 * (addr / 2) + i by omega]
        exact byte_toPmaWords h₂

/-! ## The port -/

/-- Endpoint 0: its register, the packet memory with the address of the transmit buffer
and the length of the packet in it, and the device address. -/
structure Endp0 where
  epreg : BitVec 16
  pma : Pma
  txAddr : Nat
  txCount : Nat
  daddr : BitVec 16

namespace Endp0

/-- `st103_ep_set_tx_status (ENDP0, …)`. -/
def setTxStatus (e : Endp0) (st : BitVec 16) : Endp0 :=
  { e with epreg := st103EpSetTxStatus e.epreg st }

/-- `st103_ep_set_rx_status (ENDP0, …)`. -/
def setRxStatus (e : Endp0) (st : BitVec 16) : Endp0 :=
  { e with epreg := st103EpSetRxStatus e.epreg st }

/-- `st103_ep_set_rxtx_status (ENDP0, …)`. -/
def setRxtxStatus (e : Endp0) (stRx stTx : BitVec 16) : Endp0 :=
  { e with epreg := st103EpSetRxtxStatus e.epreg stRx stTx }

/-- `usb_lld_to_pmabuf` into the transmit buffer, and `st103_set_tx_count`. -/
def load (e : Endp0) (src : List Byte) : Endp0 :=
  { e with pma := usbLldToPmabuf src e.txAddr e.pma, txCount := src.length }

end Endp0

/-- How the driver of the STM32F103 moves the packets of endpoint 0. -/
def port : Port Endp0 where
  sendFirst M p n e := (e.load (M.read p n)).setRxtxStatus epRxNak epTxValid
  sendNext M p n e := (e.load (M.read p n)).setTxStatus epTxValid
  sendZlp e := { e with txCount := 0 }.setTxStatus epTxValid
  recvStatus e := e.setRxStatus epRxValid
  statusInDone d e := if d.devReq.isSetAddress then { e with daddr := d.devReq.value } else e
  stall e := e.setRxtxStatus epRxStall epTxStall
  queued _ _ e :=
    if st103EpGetTxStatus e.epreg = epTxValid then some (e.pma.bytes e.txAddr e.txCount) else none
  -- the hardware has answered the token, `usb_handle_transfer` clears `CTR_TX`
  inAcked e := { e with epreg := st103EpClearCtrTx (inTransaction e.epreg) }
  statusReady _ e := st103EpGetRxStatus e.epreg = epRxValid

/-- `usb_lld_ctrl_send`. -/
def usbLldCtrlSend (M : Mem) (d : UsbDev) (e : Endp0) (buf : Ptr Region) (buflen : Nat) :
    UsbDev × Endp0 :=
  ctrlSend port M d e buf buflen

/-- `handle_datastage_in`. -/
def handleDatastageIn (M : Mem) (d : UsbDev) (e : Endp0) : UsbDev × Endp0 :=
  Usb.handleDatastageIn port M d e

/-- `handle_in0`. -/
def handleIn0 (M : Mem) (d : UsbDev) (e : Endp0) : (UsbDev × Endp0) × UsbEvent :=
  Usb.handleIn0 port M d e

/-- The IN direction of endpoint 0 has a packet for the host. -/
theorem queued_valid {M : Mem} {st : ControlState} {e : Endp0}
    (h : st103EpGetTxStatus e.epreg = epTxValid) :
    port.queued M st e = some (e.pma.bytes e.txAddr e.txCount) :=
  if_pos h

/-! ## Its laws -/

section

variable {M : Mem} {p : Ptr Region} {n : Nat} {st : ControlState} {e : Endp0}

theorem bytes_load (src : List Byte) :
    (e.load src).pma.bytes (e.load src).txAddr (e.load src).txCount = src :=
  bytes_usbLldToPmabuf src e.txAddr e.pma

theorem queued_sendFirst : port.queued M st (port.sendFirst M p n e) = some (M.read p n) := by
  have h : st103EpGetTxStatus (port.sendFirst M p n e).epreg = epTxValid :=
    getTxStatus_setRxtxStatus (e.load (M.read p n)).epreg epRxNak epTxValid
  rw [queued_valid h]
  exact congrArg some (bytes_load (M.read p n))

theorem queued_sendNext : port.queued M st (port.sendNext M p n e) = some (M.read p n) := by
  have h : st103EpGetTxStatus (port.sendNext M p n e).epreg = epTxValid :=
    getTxStatus_setTxStatus (e.load (M.read p n)).epreg epTxValid
  rw [queued_valid h]
  exact congrArg some (bytes_load (M.read p n))

theorem queued_sendZlp : port.queued M st (port.sendZlp e) = some [] := by
  have h : st103EpGetTxStatus (port.sendZlp e).epreg = epTxValid :=
    getTxStatus_setTxStatus e.epreg epTxValid
  exact queued_valid h

theorem queued_recvStatus : port.queued M st (port.recvStatus (port.inAcked e)) = none := by
  have h : st103EpGetTxStatus (port.recvStatus (port.inAcked e)).epreg = epTxNak :=
    (getTxStatus_setRxStatus (port.inAcked e).epreg epRxValid).trans
      ((getTxStatus_clearCtrTx (inTransaction e.epreg)).trans (getTxStatus_inTransaction e.epreg))
  apply if_neg
  rw [h]
  decide

theorem statusReady_recvStatus : port.statusReady st (port.recvStatus e) = true := by
  have h : st103EpGetRxStatus (port.recvStatus e).epreg = epRxValid :=
    getRxStatus_setRxStatus e.epreg epRxValid
  exact decide_eq_true h

end

/-- The port of the STM32F103 keeps the laws. -/
def lawfulPort : LawfulPort Endp0 where
  toPort := port
  queued_sendFirst _ _ := queued_sendFirst
  queued_sendNext _ _ := queued_sendNext
  queued_sendZlp := queued_sendZlp
  queued_recvStatus := queued_recvStatus
  statusReady_recvStatus := statusReady_recvStatus

end Chopstx.Usb.Stm32f103
