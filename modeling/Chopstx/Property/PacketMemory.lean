import Chopstx.Library.Patches
import Chopstx.Usb.PacketMemory

/-!
# What the copies do to the packet memory

`usb_lld_from_pmabuf` reads the bytes that `usb_lld_to_pmabuf` has written, at odd and at even
addresses.  `usb_lld_to_pmabuf` keeps the byte before an odd address, but where the last byte is
the low one of its word, the high one becomes 0: it belongs to nobody, or to the segment behind.

* `usbLldFromPmabuf_eq`, `fromPmabuf_toPmabuf` - reading, and that it gives what was written.
* `piece`, `byte_usbLldToPmabuf` - the bytes that are written, and each byte of the memory after it.
* `Copy`, `Copy.WritesOwn`, `Copy.Cut` - a call of `usb_lld_txcpy`, and where its last byte ends.
* `Copy.writesOwn_iff` - when a call writes its own bytes only.
* `fill`, `fill_perm_iff` - several calls, in any order.
* `txcpy_own_bytes_iff` - the result, with an even case in `txcpy_own_bytes_iff_even`.
* `txcpy_byte_behind` - a call that writes the byte behind its own ones.
-/

namespace Chopstx.Usb.Stm32f103

/-! ## Reading -/

theorem bytes_cons (pma : Pma) (a n : Nat) :
    pma.bytes a (n + 1) = pma.byte a :: pma.bytes (a + 1) n := by
  rw [Pma.bytes, Pma.bytes, List.range_succ_eq_map, List.map_cons, List.map_map, Nat.add_zero]
  refine congrArg _ (List.map_congr_left ?_)
  intro i _
  show pma.byte (a + (i + 1)) = pma.byte (a + 1 + i)
  rw [Nat.add_assoc, Nat.add_comm 1 i]

theorem fromPmaWords_eq (pma : Pma) : ∀ n w : Nat, fromPmaWords pma n w = pma.bytes (2 * w) n
  | n + 2, w => by
      rw [fromPmaWords, bytes_cons, bytes_cons, byte_even, byte_odd, fromPmaWords_eq pma n,
        Nat.mul_add_one]
  | 1, w => by
      rw [fromPmaWords, bytes_cons, byte_even]
      rfl
  | 0, _ => rfl

/-- What `usb_lld_from_pmabuf` stores are the bytes from `addr` on. -/
theorem usbLldFromPmabuf_eq (pma : Pma) (addr n : Nat) :
    usbLldFromPmabuf pma addr n = pma.bytes addr n := by
  rw [usbLldFromPmabuf]
  split
  · rename_i hn
    rw [hn]
    rfl
  · rename_i hn
    obtain ⟨n, rfl⟩ := Nat.exists_eq_succ_of_ne_zero hn
    split
    · rename_i hodd
      have ha : addr = 2 * (addr / 2) + 1 := by omega
      conv_rhs => rw [ha]
      rw [fromPmaWords_eq, Nat.succ_eq_add_one, Nat.add_sub_cancel, bytes_cons, byte_odd,
        Nat.mul_add_one]
    · have ha : addr = 2 * (addr / 2) := by omega
      conv_rhs => rw [ha]
      exact fromPmaWords_eq pma _ _

/-- **The copies are inverse**: what is read after it has been written is what was written,
whatever the address, the length and the contents before. -/
theorem fromPmabuf_toPmabuf (s : List Byte) (addr : BitVec 16) (m : Halfwords) :
    (m.usbLldToPmabuf s addr).usbLldFromPmabuf addr s.length = s := by
  rw [usbLldFromPmabuf_pma, pma_usbLldToPmabuf, usbLldFromPmabuf_eq, bytes_usbLldToPmabuf]

/-! ## The bytes that are written -/

section

variable {pma : Pma} {bs src : List Byte} {w a addr : Nat}

theorem byte_congr {pma' : Pma} (h : pma' (a / 2) = pma (a / 2)) : pma'.byte a = pma.byte a := by
  rw [Pma.byte, Pma.byte, h]

theorem word_ext {pma' : Pma} (h₀ : pma'.byte (2 * w) = pma.byte (2 * w))
    (h₁ : pma'.byte (2 * w + 1) = pma.byte (2 * w + 1)) : pma' w = pma w := by
  rw [byte_even, byte_even] at h₀
  rw [byte_odd, byte_odd] at h₁
  apply BitVec.eq_of_getLsbD_eq
  intro i hi
  by_cases hlow : i < 8
  · have hb := congrArg (fun x : Byte => x.getLsbD i) h₀
    simpa [hlow] using hb
  · have hb := congrArg (fun x : Byte => x.getLsbD (i - 8)) h₁
    have hi8 : i - 8 < 8 := by omega
    simpa [hi8, Nat.add_sub_cancel' (Nat.le_of_not_lt hlow)] using hb

theorem ext_byte {pma' : Pma} (h : pma'.byte = pma.byte) : pma' = pma :=
  funext fun w => word_ext (congrFun h (2 * w)) (congrFun h (2 * w + 1))

theorem byte_toPmaWords_before (h : a < 2 * w) : Pma.byte (toPmaWords bs w pma) a = pma.byte a :=
  byte_congr (toPmaWords_before (by omega))

/-- Behind the last byte, the high byte of its word becomes 0. -/
theorem byte_toPmaWords_behind : ∀ (bs : List Byte) (w : Nat) (pma : Pma),
    2 * w + bs.length ≤ a → Pma.byte (toPmaWords bs w pma) a =
      if a = 2 * w + bs.length ∧ a % 2 = 1 then 0 else pma.byte a
  | b₀ :: b₁ :: bs, w, pma, h => by
      have hlen : 2 * (w + 1) + bs.length = 2 * w + (b₀ :: b₁ :: bs).length := by
        simp only [List.length_cons]
        omega
      have hword : Pma.byte (Function.update pma w (b₀.setWidth 16 ||| (b₁.setWidth 16 <<< 8))) a =
          pma.byte a := by
        simp only [List.length_cons] at h
        exact byte_congr (Function.update_of_ne (by omega) ..)
      rw [toPmaWords, byte_toPmaWords_behind bs (w + 1) _ (by omega), hlen, hword]
  | [b], w, pma, h => by
      simp only [List.length_singleton] at h ⊢
      rw [toPmaWords]
      split
      · rename_i heq
        rw [heq.1, byte_odd, Function.update_self]
        apply BitVec.eq_of_getLsbD_eq
        intro i hi
        simp
      · rename_i hne
        exact byte_congr (Function.update_of_ne (by omega) ..)
  | [], w, pma, h => by
      rw [if_neg]
      · rfl
      · rintro ⟨heq, hodd⟩
        simp only [List.length_nil] at heq
        omega

theorem byte_usbLldToPmabuf_inside {i : Nat} (h : i < src.length) :
    (usbLldToPmabuf src addr pma).byte (addr + i) = src[i] := by
  have hb := bytes_usbLldToPmabuf src addr pma
  have hlen : i < ((usbLldToPmabuf src addr pma).bytes addr src.length).length := by
    rwa [hb]
  have hget : ((usbLldToPmabuf src addr pma).bytes addr src.length)[i] = src[i] := by
    simp only [hb]
  rw [← hget]
  simp [Pma.bytes]

theorem byte_usbLldToPmabuf_before (h : a < addr) :
    (usbLldToPmabuf src addr pma).byte a = pma.byte a := by
  cases src with
  | nil => rfl
  | cons b bs =>
      rw [usbLldToPmabuf]
      split
      · rename_i hodd
        rw [byte_toPmaWords_before (by omega)]
        by_cases ha : a / 2 = addr / 2
        · -- the low byte of the word in which the first byte is the high one
          have haeq : a = 2 * (addr / 2) := by omega
          rw [haeq, byte_even, byte_even, Function.update_self]
          apply BitVec.eq_of_getLsbD_eq
          intro i hi
          interval_cases i <;> simp
        · exact byte_congr (Function.update_of_ne ha ..)
      · exact byte_toPmaWords_before (by omega)

theorem byte_usbLldToPmabuf_behind (h : addr + src.length ≤ a) :
    (usbLldToPmabuf src addr pma).byte a =
      if src ≠ [] ∧ a = addr + src.length ∧ a % 2 = 1 then 0 else pma.byte a := by
  cases src with
  | nil =>
      rw [if_neg (fun hne => hne.1 rfl)]
      rfl
  | cons b bs =>
      have hne : b :: bs ≠ [] := List.cons_ne_nil b bs
      simp only [ne_eq, hne, not_false_eq_true, true_and]
      simp only [List.length_cons] at h ⊢
      rw [usbLldToPmabuf]
      split
      · rename_i hodd
        have hend : 2 * (addr / 2 + 1) + bs.length = addr + (bs.length + 1) := by omega
        rw [byte_toPmaWords_behind _ _ _ (by omega), hend]
        have hword : Pma.byte (Function.update pma (addr / 2)
            ((pma (addr / 2) &&& 0xff) ||| (b.setWidth 16 <<< 8))) a = pma.byte a :=
          byte_congr (Function.update_of_ne (by omega) ..)
        rw [hword]
      · have hend : 2 * (addr / 2) + (b :: bs).length = addr + (bs.length + 1) := by
          simp only [List.length_cons]
          omega
        rw [byte_toPmaWords_behind _ _ _ (by omega), hend]

end

/-- The bytes that `usb_lld_to_pmabuf` writes: those of the source, and a 0 behind them where the
last one is the low byte of its word. -/
def piece (src : List Byte) (addr : Nat) : Patch Nat Byte := fun a =>
  if addr ≤ a ∧ a < addr + src.length then src[a - addr]?
  else if src ≠ [] ∧ a = addr + src.length ∧ a % 2 = 1 then some 0
  else none

/-- **What `usb_lld_to_pmabuf` writes**, byte by byte. -/
theorem byte_usbLldToPmabuf (src : List Byte) (addr : Nat) (pma : Pma) :
    (usbLldToPmabuf src addr pma).byte = Patch.apply pma.byte (piece src addr) := by
  funext a
  rw [Patch.apply, piece]
  by_cases hin : addr ≤ a ∧ a < addr + src.length
  · have hi : a - addr < src.length := by omega
    rw [if_pos hin, List.getElem?_eq_getElem hi, Option.getD_some, ← byte_usbLldToPmabuf_inside hi,
      Nat.add_sub_cancel' hin.1]
  · rw [if_neg hin]
    rcases Nat.lt_or_ge a addr with hlt | hge
    · rw [byte_usbLldToPmabuf_before hlt, if_neg (by omega), Option.getD_none]
    · rw [byte_usbLldToPmabuf_behind (by omega)]
      split <;> rfl

/-! ## `usb_lld_txcpy` -/

/-- A call of `usb_lld_txcpy` for an endpoint -/
structure Copy where
  offset : Int
  src : List Byte
  deriving DecidableEq, Repr

namespace Copy

variable (txAddr : BitVec 16) (c d : Copy)

/-- Where its segment of the transmit buffer begins, and where it ends -/
def first : Int := txAddr.toNat + c.offset

def behind : Int := c.first txAddr + c.src.length

/-- The byte `a` of the packet memory is in the segment. -/
def Covers (a : Nat) : Prop := c.first txAddr ≤ a ∧ (a : Int) < c.behind txAddr

/-- The segment is in what a `uint16_t` can address. -/
def InRange : Prop := 0 ≤ c.first txAddr ∧ c.behind txAddr ≤ 2 ^ 16

/-- The call, for the endpoint `epNum` -/
def run (epNum : Int) (pma : Pma) : Pma := usbLldTxcpy c.src epNum c.offset pma

/-- The segment has the bytes of the source, and every other byte is as it was. -/
def WritesOwn (epNum : Int) (pma : Pma) : Prop :=
  (∀ i (h : i < c.src.length), (c.run epNum pma).byte ((c.first txAddr).toNat + i) = c.src[i]) ∧
    ∀ a, ¬ c.Covers txAddr a → (c.run epNum pma).byte a = pma.byte a

/-- The last byte is the low one of its word. -/
def Cut : Prop := c.src ≠ [] ∧ c.behind txAddr % 2 = 1

/-- The two segments have no byte in common. -/
def Apart : Prop := ∀ a, ¬ (c.Covers txAddr a ∧ d.Covers txAddr a)

/-- The segment `d` does not begin with the other byte of the last word of `c`, or has a 0
there. -/
def Spares : Prop :=
  c.Cut txAddr → ∀ i (h : i < d.src.length), d.first txAddr + i = c.behind txAddr → d.src[i] = 0

/-- The segment has no byte of the address of the buffer in the table. -/
def OffTable (epNum : Int) : Prop :=
  ¬ c.Covers txAddr (8 * (BitVec.ofInt 8 epNum).toNat) ∧
    ¬ c.Covers txAddr (8 * (BitVec.ofInt 8 epNum).toNat + 1)

end Copy

/-- The calls one after another -/
def fill (epNum : Int) (cs : List Copy) (pma : Pma) : Pma :=
  cs.foldl (fun pma c => c.run epNum pma) pma

section

variable {txAddr : BitVec 16} {epNum : Int} {pma : Pma} {c d : Copy} {cs : List Copy}

/-- The patch of a call -/
def Copy.piece (txAddr : BitVec 16) (c : Copy) : Patch Nat Byte :=
  Stm32f103.piece c.src (c.first txAddr).toNat

theorem Copy.run_eq (hr : c.InRange txAddr)
    (htx : st103GetTxAddr (BitVec.ofInt 8 epNum) pma = txAddr) :
    c.run epNum pma = usbLldToPmabuf c.src (c.first txAddr).toNat pma := by
  obtain ⟨hlo, hhi⟩ := hr
  rw [Copy.run, usbLldTxcpy, htx]
  by_cases hnil : c.src = []
  · rw [hnil]
    rfl
  · have hlen : 0 < c.src.length := List.length_pos_iff.2 hnil
    have haddr : (BitVec.ofInt 16 (txAddr.toNat + c.offset)).toNat = (c.first txAddr).toNat := by
      rw [BitVec.toNat_ofInt]
      show (c.first txAddr % ((2 ^ 16 : Nat) : Int)).toNat = _
      rw [Copy.behind] at hhi
      rw [Int.emod_eq_of_lt hlo (by push_cast; omega)]
    rw [haddr]

theorem Copy.byte_run (hr : c.InRange txAddr)
    (htx : st103GetTxAddr (BitVec.ofInt 8 epNum) pma = txAddr) :
    (c.run epNum pma).byte = Patch.apply pma.byte (c.piece txAddr) := by
  rw [c.run_eq hr htx]
  exact byte_usbLldToPmabuf c.src (c.first txAddr).toNat pma

/-! ### The patch of a call -/

theorem Copy.piece_inside {i : Nat} (h : i < c.src.length) :
    c.piece txAddr ((c.first txAddr).toNat + i) = some c.src[i] := by
  rw [Copy.piece, Stm32f103.piece, if_pos ⟨by omega, by omega⟩, Nat.add_sub_cancel_left,
    List.getElem?_eq_getElem h]

theorem Copy.piece_behind (hr : c.InRange txAddr) (hcut : c.Cut txAddr) :
    c.piece txAddr (c.behind txAddr).toNat = some 0 := by
  obtain ⟨hlo, -⟩ := hr
  obtain ⟨hne, hodd⟩ := hcut
  rw [Copy.behind] at hodd ⊢
  rw [Copy.piece, Stm32f103.piece, if_neg (by omega), if_pos ⟨hne, by omega, by omega⟩]

/-- Where the patch gives something, it is a byte of the segment or the 0 behind it. -/
theorem Copy.piece_some (hr : c.InRange txAddr) {a : Nat} {x : Byte}
    (h : c.piece txAddr a = some x) :
    (∃ i, ∃ hi : i < c.src.length, (a : Int) = c.first txAddr + i ∧ x = c.src[i]) ∨
      c.Cut txAddr ∧ (a : Int) = c.behind txAddr ∧ x = 0 := by
  obtain ⟨hlo, -⟩ := hr
  rw [Copy.piece, Stm32f103.piece] at h
  split at h
  · rename_i hin
    have hi : a - (c.first txAddr).toNat < c.src.length := by omega
    rw [List.getElem?_eq_getElem hi] at h
    exact .inl ⟨_, hi, by omega, (Option.some.inj h).symm⟩
  · split at h
    · rename_i hend
      refine .inr ⟨⟨hend.1, ?_⟩, ?_, (Option.some.inj h).symm⟩
      · rw [Copy.behind]
        omega
      · rw [Copy.behind]
        omega
    · cases h

theorem Copy.covers_of_eq {a i : Nat} (h : i < c.src.length)
    (ha : (a : Int) = c.first txAddr + i) : c.Covers txAddr a := by
  refine ⟨by omega, ?_⟩
  rw [Copy.behind]
  omega

theorem Copy.Cut.covers {a : Nat} (h : c.Cut txAddr) (ha : (a : Int) + 1 = c.behind txAddr) :
    c.Covers txAddr a := by
  have hlen : 0 < c.src.length := List.length_pos_iff.2 h.1
  rw [Copy.behind] at ha
  exact Copy.covers_of_eq (Nat.sub_lt hlen Nat.one_pos) (by omega)

theorem Copy.piece_none (hr : c.InRange txAddr) {a : Nat} (hc : ¬ c.Covers txAddr a)
    (hb : ¬ (c.Cut txAddr ∧ (a : Int) = c.behind txAddr)) : c.piece txAddr a = none := by
  cases h : c.piece txAddr a with
  | none => rfl
  | some x =>
      rcases Copy.piece_some hr h with ⟨i, hi, ha, -⟩ | ⟨hcut, ha, -⟩
      · exact absurd (Copy.covers_of_eq hi ha) hc
      · exact absurd ⟨hcut, ha⟩ hb

theorem Copy.not_covers_behind : ¬ c.Covers txAddr (c.behind txAddr).toNat := by
  rintro ⟨hlo, hhi⟩
  omega

/-! ### One call -/

/-- **When `usb_lld_txcpy` writes its own bytes only** -/
theorem Copy.writesOwn_iff (hr : c.InRange txAddr)
    (htx : st103GetTxAddr (BitVec.ofInt 8 epNum) pma = txAddr) :
    c.WritesOwn txAddr epNum pma ↔ ¬ c.Cut txAddr ∨ pma.byte (c.behind txAddr).toNat = 0 := by
  rw [Copy.WritesOwn, c.byte_run hr htx]
  constructor
  · rintro ⟨-, hframe⟩
    by_cases hcut : c.Cut txAddr
    · have hb := hframe _ Copy.not_covers_behind
      rw [Patch.apply_some (Copy.piece_behind hr hcut)] at hb
      exact .inr hb.symm
    · exact .inl hcut
  · intro h
    refine ⟨fun i hi => Patch.apply_some (Copy.piece_inside hi), fun a ha => ?_⟩
    by_cases hb : c.Cut txAddr ∧ (a : Int) = c.behind txAddr
    · obtain ⟨hcut, heq⟩ := hb
      have hzero := h.resolve_left (not_not.2 hcut)
      have hnat : a = (c.behind txAddr).toNat := by omega
      rw [hnat, Patch.apply_some (Copy.piece_behind hr hcut), hzero]
    · exact Patch.apply_none (Copy.piece_none hr ha hb)

/-! ### Several calls -/

theorem Copy.Spares.of_agree (hc : c.InRange txAddr) (hd : d.InRange txAddr)
    (h : Patch.Agree (c.piece txAddr) (d.piece txAddr)) : Copy.Spares txAddr c d := by
  intro hcut i hi heq
  have hnat : (d.first txAddr).toNat + i = (c.behind txAddr).toNat := by
    obtain ⟨hlo, -⟩ := hd
    omega
  have hin : d.piece txAddr ((d.first txAddr).toNat + i) = some d.src[i] := Copy.piece_inside hi
  rw [hnat] at hin
  exact (h _ _ _ (Copy.piece_behind hc hcut) hin).symm

/-- The patches of two segments that have no byte in common agree if and only if neither one
makes a byte of the other 0. -/
theorem Copy.agree_iff (hc : c.InRange txAddr) (hd : d.InRange txAddr)
    (hcd : Copy.Apart txAddr c d) :
    Patch.Agree (c.piece txAddr) (d.piece txAddr) ↔
      Copy.Spares txAddr c d ∧ Copy.Spares txAddr d c := by
  constructor
  · exact fun h => ⟨.of_agree hc hd h, .of_agree hd hc h.symm⟩
  · rintro ⟨hs, hs'⟩ a x y hx hy
    rcases Copy.piece_some hc hx with ⟨i, hi, ha, rfl⟩ | ⟨hcut, ha, rfl⟩
    · rcases Copy.piece_some hd hy with ⟨j, hj, ha', rfl⟩ | ⟨hcut', ha', rfl⟩
      · exact absurd ⟨Copy.covers_of_eq hi ha, Copy.covers_of_eq hj ha'⟩ (hcd a)
      · exact hs' hcut' i hi (by omega)
    · rcases Copy.piece_some hd hy with ⟨j, hj, ha', rfl⟩ | ⟨-, -, rfl⟩
      · exact (hs hcut j hj (by omega)).symm
      · rfl

/-- A call keeps the address of the buffer. -/
theorem Copy.txAddr_run (hr : c.InRange txAddr) (ho : c.OffTable txAddr epNum)
    (htx : st103GetTxAddr (BitVec.ofInt 8 epNum) pma = txAddr) :
    st103GetTxAddr (BitVec.ofInt 8 epNum) (c.run epNum pma) = txAddr := by
  obtain ⟨h₀, h₁⟩ := ho
  have hbyte : ∀ a, ¬ c.Covers txAddr a → ¬ (c.Cut txAddr ∧ (a : Int) = c.behind txAddr) →
      (c.run epNum pma).byte a = pma.byte a := by
    intro a hc hb
    rw [c.byte_run hr htx]
    exact Patch.apply_none (Copy.piece_none hr hc hb)
  refine Eq.trans ?_ htx
  have hword : 2 * (4 * (BitVec.ofInt 8 epNum).toNat) = 8 * (BitVec.ofInt 8 epNum).toNat := by
    omega
  apply word_ext
  · rw [hword]
    refine hbyte _ h₀ ?_
    rintro ⟨⟨-, hodd⟩, hb⟩
    omega
  · rw [hword]
    refine hbyte _ h₁ ?_
    rintro ⟨hcut, hb⟩
    exact h₀ (hcut.covers (by omega))

theorem byte_fill (hcs : ∀ c ∈ cs, c.InRange txAddr ∧ c.OffTable txAddr epNum)
    (htx : st103GetTxAddr (BitVec.ofInt 8 epNum) pma = txAddr) :
    (fill epNum cs pma).byte = Patch.applyAll pma.byte (cs.map (Copy.piece txAddr)) := by
  induction cs generalizing pma with
  | nil => rfl
  | cons c cs ih =>
      obtain ⟨⟨hr, ho⟩, hcs⟩ := List.forall_mem_cons.1 hcs
      rw [List.map_cons, Patch.applyAll_cons, ← c.byte_run hr htx]
      exact ih hcs (Copy.txAddr_run hr ho htx)

/-- **When the order of the calls does not matter** -/
theorem fill_perm_iff (hcs : ∀ c ∈ cs, c.InRange txAddr ∧ c.OffTable txAddr epNum)
    (hapart : cs.Pairwise (Copy.Apart txAddr))
    (htx : st103GetTxAddr (BitVec.ofInt 8 epNum) pma = txAddr) :
    (∀ ds : List Copy, ds.Perm cs → fill epNum ds pma = fill epNum cs pma) ↔
      cs.Pairwise fun c d => Copy.Spares txAddr c d ∧ Copy.Spares txAddr d c := by
  have hagree : (cs.Pairwise fun c d => Patch.Agree (c.piece txAddr) (d.piece txAddr)) ↔
      cs.Pairwise fun c d => Copy.Spares txAddr c d ∧ Copy.Spares txAddr d c := by
    constructor
    · intro h
      refine (hapart.and h).imp_of_mem fun hc hd hcd => ?_
      exact (Copy.agree_iff (hcs _ hc).1 (hcs _ hd).1 hcd.1).1 hcd.2
    · intro h
      refine (hapart.and h).imp_of_mem fun hc hd hcd => ?_
      exact (Copy.agree_iff (hcs _ hc).1 (hcs _ hd).1 hcd.1).2 hcd.2
  rw [← hagree, ← Patch.applyAll_perm_iff (m := pma.byte), ← byte_fill hcs htx]
  refine forall_congr' fun ds => forall_congr' fun hp => ?_
  rw [← byte_fill (fun c hc => hcs c (hp.subset hc)) htx]
  exact ⟨fun h => congrArg Pma.byte h, ext_byte⟩

end

/-- **The bytes that `usb_lld_txcpy` writes.**  A call writes its own bytes only if and only if
the last one is the high byte of its word, or there is none, or the byte behind it is 0 already.
Calls for segments that have no byte in common may come in any order if and only if none of
them ends with the low byte of a word whose high byte is in another one, and not 0 there. -/
theorem txcpy_own_bytes_iff (epNum : Int) (pma : Pma) :
    (∀ c : Copy, c.InRange (st103GetTxAddr (BitVec.ofInt 8 epNum) pma) →
      (c.WritesOwn (st103GetTxAddr (BitVec.ofInt 8 epNum) pma) epNum pma ↔
        ¬ c.Cut (st103GetTxAddr (BitVec.ofInt 8 epNum) pma) ∨
          pma.byte (c.behind (st103GetTxAddr (BitVec.ofInt 8 epNum) pma)).toNat = 0)) ∧
    ∀ cs : List Copy,
      (∀ c ∈ cs, c.InRange (st103GetTxAddr (BitVec.ofInt 8 epNum) pma) ∧
        c.OffTable (st103GetTxAddr (BitVec.ofInt 8 epNum) pma) epNum) →
      cs.Pairwise (Copy.Apart (st103GetTxAddr (BitVec.ofInt 8 epNum) pma)) →
      ((∀ ds : List Copy, ds.Perm cs → fill epNum ds pma = fill epNum cs pma) ↔
        cs.Pairwise fun c d =>
          Copy.Spares (st103GetTxAddr (BitVec.ofInt 8 epNum) pma) c d ∧
            Copy.Spares (st103GetTxAddr (BitVec.ofInt 8 epNum) pma) d c) :=
  ⟨fun _ hr => Copy.writesOwn_iff hr rfl, fun _ hcs hapart => fill_perm_iff hcs hapart rfl⟩

/-- A packet memory in which the transmit buffer of endpoint 1 begins at 0x100 -/
def bufferAt0x100 : Pma := fun w => if w = 4 then 0x100 else 0xffff

/-- The byte behind a single one is lost, and with it the segment there, if that has been
written before. -/
theorem txcpy_byte_behind :
    ¬ Copy.WritesOwn (st103GetTxAddr (BitVec.ofInt 8 1) bufferAt0x100) ⟨0, [1]⟩ 1 bufferAt0x100 ∧
      fill 1 [⟨0, [1]⟩, ⟨1, [2]⟩] bufferAt0x100 ≠ fill 1 [⟨1, [2]⟩, ⟨0, [1]⟩] bufferAt0x100 := by
  constructor
  · rintro ⟨-, hframe⟩
    have hb := hframe 0x101 (by rintro ⟨-, h⟩; revert h; decide)
    revert hb
    decide
  · intro h
    have hw := congrFun h 0x80
    revert hw
    decide

/-- A call for two bytes, and two calls for two bytes each -/
theorem txcpy_own_bytes_iff_even :
    Copy.WritesOwn 0x100 ⟨0, [1, 2]⟩ 1 bufferAt0x100 ∧
      fill 1 [⟨2, [3, 4]⟩, ⟨0, [1, 2]⟩] bufferAt0x100 =
        fill 1 [⟨0, [1, 2]⟩, ⟨2, [3, 4]⟩] bufferAt0x100 := by
  have htx : st103GetTxAddr (BitVec.ofInt 8 1) bufferAt0x100 = 0x100 := by decide
  obtain ⟨hone, hall⟩ := txcpy_own_bytes_iff 1 bufferAt0x100
  rw [htx] at hone hall
  refine ⟨(hone ⟨0, [1, 2]⟩ ⟨by decide, by decide⟩).2 (.inl fun h => absurd h.2 (by decide)), ?_⟩
  refine (hall [⟨0, [1, 2]⟩, ⟨2, [3, 4]⟩] ?_ ?_).2 ?_ _ (List.Perm.swap _ _ _)
  · refine List.forall_mem_cons.2 ⟨?_, List.forall_mem_singleton.2 ?_⟩
    · exact ⟨⟨by decide, by decide⟩,
        fun h => absurd h.1 (by decide), fun h => absurd h.1 (by decide)⟩
    · exact ⟨⟨by decide, by decide⟩,
        fun h => absurd h.1 (by decide), fun h => absurd h.1 (by decide)⟩
  · refine List.pairwise_pair.2 fun a ⟨h, h'⟩ => ?_
    have hlt : (a : Int) < 0x102 := h.2
    have hle : (0x102 : Int) ≤ a := h'.1
    omega
  · exact List.pairwise_pair.2
      ⟨fun h => absurd h.2 (by decide), fun h => absurd h.2 (by decide)⟩

end Chopstx.Usb.Stm32f103
