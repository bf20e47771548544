import Chopstx.Usb.Stm32f103Ctrl

/-!
# The packet memory as the processor sees it

The words of the packet memory stand at every second halfword from `PMA_ADDR` on.
`usb_lld_to_pmabuf` and `usb_lld_from_pmabuf` go through it with a pointer to a halfword that
they advance by two; on the words alone they are the functions of `Pma`.  The packet memory
begins with the table of the buffers, in which `usb_lld_txcpy` looks up where the transmit
buffer of an endpoint stands.

* `usbLldToPmabuf`, `usbLldFromPmabuf` - the loops with their pointers.
* `pma_usbLldToPmabuf`, `usbLldFromPmabuf_pma` - on the words alone they are those of `Pma`.
* `usbLldTxcpy` - a piece of a packet is stored at its offset in the buffer of an endpoint.
-/

namespace Chopstx.Usb.Stm32f103

/-! ## The copies, halfword by halfword -/

/-- The halfwords from `PMA_ADDR` on, by their distance from it in bytes. -/
abbrev Halfwords := Nat → BitVec 16

namespace Halfwords

/-- The words of the packet memory. -/
def pma (m : Halfwords) : Pma := fun w => m (4 * w)

/-- The loop of `usb_lld_to_pmabuf` from the halfword `p` on, and the byte that may be left. -/
def toPmabufLoop : List Byte → Nat → Halfwords → Halfwords
  | b₀ :: b₁ :: s, p, m =>
      toPmabufLoop s (p + 4) (Function.update m p (b₀.setWidth 16 ||| (b₁.setWidth 16 <<< 8)))
  | [b], p, m => Function.update m p (b.setWidth 16)
  | [], _, m => m

/-- `usb_lld_to_pmabuf` -/
def usbLldToPmabuf (src : List Byte) (addr : BitVec 16) (m : Halfwords) : Halfwords :=
  match src with
  | [] => m
  | b :: s =>
      if addr &&& 1 ≠ 0 then
        let p := (addr.toNat - 1) * 2
        let w := m p
        toPmabufLoop s (p + 4) (Function.update m p ((w &&& 0xff) ||| (b.setWidth 16 <<< 8)))
      else toPmabufLoop (b :: s) (addr.toNat * 2) m

/-- The loop of `usb_lld_from_pmabuf` from the halfword `p` on, and the byte that may be left. -/
def fromPmabufLoop (m : Halfwords) : Nat → Nat → List Byte
  | n + 2, p => (m p &&& 0xff).setWidth 8 :: (m p >>> 8).setWidth 8 :: fromPmabufLoop m n (p + 4)
  | 1, p => [(m p &&& 0xff).setWidth 8]
  | 0, _ => []

/-- `usb_lld_from_pmabuf`: the bytes that it stores -/
def usbLldFromPmabuf (m : Halfwords) (addr : BitVec 16) (n : Nat) : List Byte :=
  if n = 0 then []
  else if addr &&& 1 ≠ 0 then
    let p := (addr.toNat - 1) * 2
    (m p >>> 8).setWidth 8 :: fromPmabufLoop m (n - 1) (p + 4)
  else fromPmabufLoop m n (addr.toNat * 2)

end Halfwords

/-! ## The words alone -/

theorem odd_iff (addr : BitVec 16) : addr &&& 1 ≠ 0 ↔ addr.toNat % 2 = 1 := by
  have h : (addr &&& 1).toNat = addr.toNat % 2 := by
    rw [BitVec.toNat_and]
    exact Nat.and_one_is_mod addr.toNat
  constructor
  · intro hne
    have h₀ : (addr &&& 1).toNat ≠ 0 := fun h₀ => hne (BitVec.eq_of_toNat_eq h₀)
    omega
  · intro hodd heq
    rw [heq] at h
    change 0 = addr.toNat % 2 at h
    omega

theorem low_byte (w : BitVec 16) : (w &&& 0xff).setWidth 8 = w.setWidth 8 := by
  apply BitVec.eq_of_getLsbD_eq
  intro i hi
  interval_cases i <;> simp

/-- A store to the word `w`. -/
theorem pma_update (m : Halfwords) (w : Nat) (x : BitVec 16) :
    Halfwords.pma (Function.update m (4 * w) x) = Function.update m.pma w x := by
  funext v
  by_cases hv : v = w
  · rw [hv, Halfwords.pma, Function.update_self, Function.update_self]
  · rw [Halfwords.pma, Function.update_of_ne (by omega), Function.update_of_ne hv, Halfwords.pma]

theorem pma_toPmabufLoop : ∀ (s : List Byte) (w : Nat) (m : Halfwords),
    (Halfwords.toPmabufLoop s (4 * w) m).pma = toPmaWords s w m.pma
  | b₀ :: b₁ :: s, w, m => by
      rw [Halfwords.toPmabufLoop, toPmaWords, show 4 * w + 4 = 4 * (w + 1) by omega,
        pma_toPmabufLoop s, pma_update]
  | [b], w, m => pma_update m w (b.setWidth 16)
  | [], _, _ => rfl

/-- On the words, `usb_lld_to_pmabuf` is the function of `Pma`. -/
theorem pma_usbLldToPmabuf (src : List Byte) (addr : BitVec 16) (m : Halfwords) :
    (m.usbLldToPmabuf src addr).pma = Stm32f103.usbLldToPmabuf src addr.toNat m.pma := by
  cases src with
  | nil => rfl
  | cons b s =>
      simp only [Halfwords.usbLldToPmabuf, Stm32f103.usbLldToPmabuf, odd_iff]
      split
      · have hp : (addr.toNat - 1) * 2 = 4 * (addr.toNat / 2) := by omega
        rw [hp, show 4 * (addr.toNat / 2) + 4 = 4 * (addr.toNat / 2 + 1) by omega,
          pma_toPmabufLoop, pma_update]
        rfl
      · have hp : addr.toNat * 2 = 4 * (addr.toNat / 2) := by omega
        rw [hp, pma_toPmabufLoop]

theorem fromPmabufLoop_eq (m : Halfwords) : ∀ n w : Nat,
    m.fromPmabufLoop n (4 * w) = fromPmaWords m.pma n w
  | n + 2, w => by
      rw [Halfwords.fromPmabufLoop, fromPmaWords, low_byte,
        show 4 * w + 4 = 4 * (w + 1) by omega, fromPmabufLoop_eq m n]
      rfl
  | 1, w => by
      rw [Halfwords.fromPmabufLoop, fromPmaWords, low_byte]
      rfl
  | 0, _ => rfl

/-- On the words, `usb_lld_from_pmabuf` is the function of `Pma`. -/
theorem usbLldFromPmabuf_pma (m : Halfwords) (addr : BitVec 16) (n : Nat) :
    m.usbLldFromPmabuf addr n = Stm32f103.usbLldFromPmabuf m.pma addr.toNat n := by
  simp only [Halfwords.usbLldFromPmabuf, Stm32f103.usbLldFromPmabuf, odd_iff]
  by_cases hn : n = 0
  · rw [if_pos hn, if_pos hn]
  · rw [if_neg hn, if_neg hn]
    split
    · have hp : (addr.toNat - 1) * 2 = 4 * (addr.toNat / 2) := by omega
      rw [hp, show 4 * (addr.toNat / 2) + 4 = 4 * (addr.toNat / 2 + 1) by omega,
        fromPmabufLoop_eq]
      rfl
    · have hp : addr.toNat * 2 = 4 * (addr.toNat / 2) := by omega
      rw [hp, fromPmabufLoop_eq]

/-! ## The table of the buffers -/

/-- `st103_get_tx_addr` -/
def st103GetTxAddr (epNum : BitVec 8) (pma : Pma) : BitVec 16 := pma (4 * epNum.toNat)

/-- `usb_lld_txcpy`; `ep_num` and the address are cut to the types of the functions that take
them. -/
def usbLldTxcpy (src : List Byte) (epNum offset : Int) (pma : Pma) : Pma :=
  let txAddr := st103GetTxAddr (BitVec.ofInt 8 epNum) pma
  usbLldToPmabuf src (BitVec.ofInt 16 (txAddr.toNat + offset)).toNat pma

end Chopstx.Usb.Stm32f103
