import Chopstx.Property.ControlTransfer
import Chopstx.Usb.UsbipDevice

/-!
# The identity of the device that is exported

The low byte of a number of the descriptor is negative from 0x80 on, and its sign covers the
high byte.

* `le16_descWord` - a number of two bytes, read through `char`, and `high_eq_iff` when its high byte
  is right.
* `Exports`, `exports_iff` - the record agrees with the bytes of a descriptor, and when.
* `issueGetDesc_ends`, `issueGetDesc_data` - the transfer in which the server reads the descriptor.
* `exported_identity_iff` - the result, and `exported_identity_iff_234b` a device it is right for.
* `exported_sign` - a device it is wrong for.
-/

namespace Chopstx.Usb.Usbip

open Transition Memory

/-! ## A number of the descriptor -/

theorem setWidth_charToInt (c : Byte) : (charToInt c).setWidth 8 = c := by
  apply BitVec.eq_of_getLsbD_eq
  intro i hi
  have hi32 : i < 32 := by omega
  rw [charToInt, BitVec.getLsbD_setWidth, BitVec.getLsbD_signExtend]
  simp [hi, hi32]

/-- The bits of a number: those of the low byte, and above them those of the high one, under the
sign of the low one -/
theorem getLsbD_number (hi lo : Byte) {i : Nat} (h : i < 16) :
    (((charToInt hi <<< 8) ||| charToInt lo).setWidth 16).getLsbD i =
      if i < 8 then lo.getLsbD i else hi.getLsbD (i - 8) || lo.msb := by
  have hi32 : i < 32 := by omega
  rw [BitVec.getLsbD_setWidth, BitVec.getLsbD_or, BitVec.getLsbD_shiftLeft, charToInt, charToInt,
    BitVec.getLsbD_signExtend, BitVec.getLsbD_signExtend]
  by_cases h8 : i < 8
  · simp [h, h8, hi32]
  · have hi8 : i - 8 < 8 := by omega
    have hj : i - 8 < 32 := by omega
    simp [h, h8, hi32, hi8, hj]

/-- The bytes of a number as they are sent -/
theorem le16_descWord (hi lo : Byte) :
    le16 (descWord hi lo) = [if lo.msb then 0xff else hi, lo] := by
  have hhigh : (descWord hi lo).setWidth 8 = if lo.msb then 0xff else hi := by
    apply BitVec.eq_of_getLsbD_eq
    intro i hi'
    have h16 : 8 + i < 16 := by omega
    have hbit := getLsbD_number hi lo h16
    rw [if_neg (by omega), Nat.add_sub_cancel_left] at hbit
    rw [BitVec.getLsbD_setWidth, descWord, htons, BitVec.getLsbD_or, BitVec.getLsbD_shiftLeft,
      BitVec.getLsbD_ushiftRight, hbit]
    cases hm : lo.msb with
    | false => simp [hi']
    | true =>
        simp only [if_pos, hi', decide_true, Bool.or_true, Bool.true_and]
        interval_cases i <;> rfl
  have hlow : (descWord hi lo >>> 8).setWidth 8 = lo := by
    apply BitVec.eq_of_getLsbD_eq
    intro i hi'
    have h16 : 8 + i < 16 := by omega
    have hbit := getLsbD_number hi lo (show i < 16 by omega)
    rw [if_pos hi'] at hbit
    have hout : (((charToInt hi <<< 8) ||| charToInt lo).setWidth 16).getLsbD (8 + (8 + i)) =
        false := BitVec.getLsbD_of_ge _ _ (by omega)
    rw [BitVec.getLsbD_setWidth, BitVec.getLsbD_ushiftRight, descWord, htons, BitVec.getLsbD_or,
      BitVec.getLsbD_shiftLeft, BitVec.getLsbD_ushiftRight, Nat.add_sub_cancel_left, hbit, hout]
    simp [hi', h16]
  rw [le16, hhigh, hlow]

/-- The high byte is sent as it is in the descriptor. -/
theorem high_eq_iff (hi lo : Byte) :
    (if lo.msb then 0xff else hi) = hi ↔ lo < 0x80 ∨ hi = 0xff := by
  have hmsb : lo.msb = false ↔ lo < 0x80 := by
    rw [BitVec.msb_eq_decide, decide_eq_false_iff_not, Nat.not_le, BitVec.lt_def]
    rfl
  cases hm : lo.msb with
  | false => exact ⟨fun _ => .inl (hmsb.1 hm), fun _ => rfl⟩
  | true =>
      have hlt : ¬ lo < 0x80 := by
        rw [← hmsb, hm]
        exact Bool.noConfusion
      rw [if_pos rfl]
      exact ⟨fun h => .inr h.symm, fun h => (h.resolve_left hlt).symm⟩

/-! ## The record -/

/-- What is sent of the device has the numbers of the descriptor `desc` with the high byte first,
and its single bytes. -/
structure Exports (desc sent : List Byte) : Prop where
  length : sent.length = 312
  numbers : (sent.drop 300).take 6 =
    [desc.getD 9 0, desc.getD 8 0, desc.getD 11 0, desc.getD 10 0, desc.getD 13 0, desc.getD 12 0]
  classes : (sent.drop 306).take 3 = [desc.getD 4 0, desc.getD 5 0, desc.getD 6 0]
  numConfigurations : sent.getD 310 0 = desc.getD 17 0

theorem length_padded {cs : List Char} {n : Nat} (h : cs.length ≤ n) :
    (padded cs n).length = n := by
  rw [padded, List.length_append, List.length_replicate, List.length_map,
    Nat.add_sub_cancel' h]

/-- The record, cut where the numbers begin -/
theorem bytes_refreshUsbDevice (data : Memory Unit Byte) :
    ∃ front : List Byte, front.length = 300 ∧ (refreshUsbDevice data).bytes = front ++
      ([if (data () 8).msb then 0xff else data () 9, data () 8,
        if (data () 10).msb then 0xff else data () 11, data () 10,
        if (data () 12).msb then 0xff else data () 13, data () 12,
        data () 4, data () 5, data () 6, 0, data () 17, 0]) := by
  refine ⟨padded devicePath 256 ++ myBusId ++ le32 0 ++ le32 0 ++ le32 (htonl 2), ?_, ?_⟩
  · simp only [List.length_append, myBusId]
    rw [length_padded (by decide), length_padded (by decide)]
    rfl
  · rw [UsbipUsbDevice.bytes]
    simp only [refreshUsbDevice, le16_descWord, setWidth_charToInt, List.append_assoc,
      List.cons_append, List.nil_append]

theorem getD_read {m : Memory Region Byte} {p : Ptr Region} {n i : Nat} (h : i < n) :
    (m.read p n).getD i 0 = m p.base (p.off + i) := by
  have hlen : i < (m.read p n).length := by
    rwa [length_read]
  rw [List.getD_eq_getElem?_getD, List.getElem?_eq_getElem hlen, Option.getD_some, getElem_read]

/-- The numbers are sent right if and only if no sign covers a high byte. -/
theorem exports_iff {data : Memory Unit Byte} {desc : List Byte}
    (h : ∀ i < 18, data () i = desc.getD i 0) :
    Exports desc (refreshUsbDevice data).bytes ↔
      ∀ i ∈ [8, 10, 12], desc.getD i 0 < 0x80 ∨ desc.getD (i + 1) 0 = 0xff := by
  obtain ⟨front, hfront, hbytes⟩ := bytes_refreshUsbDevice data
  have hdrop : ∀ j, ((refreshUsbDevice data).bytes).drop (300 + j) =
      ([if (data () 8).msb then 0xff else data () 9, data () 8,
        if (data () 10).msb then 0xff else data () 11, data () 10,
        if (data () 12).msb then 0xff else data () 13, data () 12,
        data () 4, data () 5, data () 6, 0, data () 17, 0] : List Byte).drop j := by
    intro j
    rw [hbytes, ← hfront, List.drop_length_add_append]
  have hnumbers : (((refreshUsbDevice data).bytes.drop 300).take 6 =
      [desc.getD 9 0, desc.getD 8 0, desc.getD 11 0, desc.getD 10 0, desc.getD 13 0,
        desc.getD 12 0]) ↔
      ∀ i ∈ [8, 10, 12], desc.getD i 0 < 0x80 ∨ desc.getD (i + 1) 0 = 0xff := by
    rw [hdrop 0, h 8 (by decide), h 9 (by decide), h 10 (by decide), h 11 (by decide),
      h 12 (by decide), h 13 (by decide)]
    simp only [List.drop_zero, List.take_succ_cons, List.take_zero, List.cons.injEq, and_true,
      true_and, high_eq_iff, List.forall_mem_cons, List.not_mem_nil, false_implies,
      implies_true]
  constructor
  · intro he
    exact hnumbers.1 he.numbers
  · intro hsign
    refine ⟨?_, hnumbers.2 hsign, ?_, ?_⟩
    · rw [hbytes, List.length_append, hfront]
      rfl
    · rw [hdrop 6, ← h 4 (by decide), ← h 5 (by decide), ← h 6 (by decide)]
      rfl
    · have hget : (refreshUsbDevice data).bytes.getD 310 0 =
          ((refreshUsbDevice data).bytes.drop (300 + 10)).getD 0 0 := by
        simp [List.getD_eq_getElem?_getD, List.getElem?_drop]
      rw [hget, hdrop 10, ← h 17 (by decide)]
      rfl

/-! ## What the server sends -/

/-- The device list and the attach are answered with the identity of the descriptor. -/
def Exported (desc : List Byte) (data : Memory Unit Byte) : Prop :=
  Exports desc (listDevices data) ∧
    ∃ sent, attachDevice myBusId data = some sent ∧ Exports desc sent

theorem exported_iff {desc : List Byte} {data : Memory Unit Byte} :
    Exported desc data ↔ Exports desc (refreshUsbDevice data).bytes := by
  rw [Exported, listDevices, attachDevice, if_neg (not_not.2 rfl)]
  constructor
  · exact fun h => h.1
  · exact fun h => ⟨h, _, rfl, h⟩

section

variable {A : Sys.App} {M : Mem} {D : Memory Unit Byte} {b : Ptr Region} {l : Nat}
  {w : DeviceReq} {k : CtrlData} {s : Sys}

theorem not_inLost : ¬ InLost A issueGetDesc := by
  rintro ⟨hlt, -⟩
  revert hlt
  decide

/-- `issue_get_desc` comes to its end. -/
theorem issueGetDesc_ends (A : Sys.App) (D : Memory Unit Byte) (M : Mem) (b : Ptr Region) (l : Nat)
    (w : DeviceReq) (k : CtrlData) :
    ∃ s, Steps (step A) anyEvent (start issueGetDesc.toCtrlUrb D M b l w k) s ∧
      Terminal (step A) s := by
  obtain ⟨s, hrun, hidle, -, -⟩ := in_run (D := D) (M := M) (b := b) (l := l) (w := w) (k := k)
    rfl (not_inLost (A := A))
  exact ⟨s, hrun.steps, hidle.terminal⟩

/-- At the end of `issue_get_desc`, the URB has the bytes that the device sends. -/
theorem issueGetDesc_data
    (hr : Steps (step A) anyEvent (start issueGetDesc.toCtrlUrb D M b l w k) s)
    (ht : Terminal (step A) s) :
    s.data.read ⟨(), 0⟩ (A.sent issueGetDesc) = M.read ⟨.app, A.buf⟩ (A.sent issueGetDesc) := by
  obtain ⟨s₁, hrun, hidle, -, hdata⟩ := in_run (D := D) (M := M) (b := b) (l := l) (w := w) (k := k)
    rfl (not_inLost (A := A))
  have hstall : NotStalled s₁ := by
    rw [NotStalled, hidle.dev]
    exact ControlState.noConfusion
  have hall : Eventually (step A) NotStalled (fun s => Idle s ∧
      s.data.read ⟨(), 0⟩ (A.sent issueGetDesc) = M.read ⟨.app, A.buf⟩ (A.sent issueGetDesc))
      (start issueGetDesc.toCtrlUrb D M b l w k) :=
    hrun.eventually (.here hstall ⟨hidle, hdata⟩)
  exact (hall.terminal (fun _ h => h.1.terminal) hr ht).2

/-- What is sent of the device, when the URB has the bytes of its descriptor -/
theorem exported_data_iff (h18 : 18 ≤ A.sent issueGetDesc)
    (hdata : s.data.read ⟨(), 0⟩ (A.sent issueGetDesc) =
      M.read ⟨.app, A.buf⟩ (A.sent issueGetDesc)) :
    Exported (M.read ⟨.app, A.buf⟩ (A.sent issueGetDesc)) s.data ↔
      ∀ i ∈ [8, 10, 12], M .app (A.buf + i) < 0x80 ∨ M .app (A.buf + (i + 1)) = 0xff := by
  have hget : ∀ i < 18, s.data () i = (M.read ⟨.app, A.buf⟩ (A.sent issueGetDesc)).getD i 0 := by
    intro i hi
    have hlen : i < A.sent issueGetDesc := Nat.lt_of_lt_of_le hi h18
    rw [← hdata, List.getD_eq_getElem?_getD, List.getElem?_eq_getElem (by rwa [length_read]),
      Option.getD_some, getElem_read, Nat.zero_add]
  have hread : ∀ i < 18, (M.read ⟨.app, A.buf⟩ (A.sent issueGetDesc)).getD i 0 =
      M .app (A.buf + i) :=
    fun i hi => getD_read (Nat.lt_of_lt_of_le hi h18)
  rw [exported_iff, exports_iff hget]
  refine forall₂_congr fun i hi => ?_
  have hi17 : i + 1 < 18 := by
    simp only [List.mem_cons, List.not_mem_nil, or_false] at hi
    omega
  rw [hread i (Nat.lt_of_succ_lt hi17), hread (i + 1) hi17]

end

/-- **When the identity that is exported is that of the device.**  The device sends its
descriptor, of 18 bytes or more, and the two threads come to the end of the transfer: what is
sent of the device is right if and only if each of `idVendor`, `idProduct` and `bcdDevice` has a
low byte less than 0x80, or a high byte of 0xff. -/
theorem exported_identity_iff (A : Sys.App) (D : Memory Unit Byte) (M : Mem) (b : Ptr Region)
    (l : Nat) (w : DeviceReq) (k : CtrlData) (h18 : 18 ≤ A.sent issueGetDesc) (s : Sys)
    (hr : Steps (step A) anyEvent (start issueGetDesc.toCtrlUrb D M b l w k) s)
    (ht : Terminal (step A) s) :
    Exported (M.read ⟨.app, A.buf⟩ (A.sent issueGetDesc)) s.data ↔
      ∀ i ∈ [8, 10, 12], M .app (A.buf + i) < 0x80 ∨ M .app (A.buf + (i + 1)) = 0xff :=
  exported_data_iff h18 (issueGetDesc_data hr ht)

/-- An application whose memory begins with the bytes `desc` -/
def descMem (desc : List Byte) : Mem := fun r i => if r = .app then desc.getD i 0 else 0

/-- The descriptor of a device with `idVendor` 0x16c0 and `idProduct` 0x05dc -/
def desc16c0 : List Byte := [18, 1, 0, 2, 0, 0, 0, 64, 0xc0, 0x16, 0xdc, 5, 0, 2, 1, 2, 3, 1]

/-- A vendor number whose low byte is 0xc0: 0xffc0 is sent. -/
theorem exported_sign : ∃ s,
    Steps (step ⟨0, 18, 0⟩) anyEvent (start issueGetDesc.toCtrlUrb (fun _ _ => 0)
      (descMem desc16c0) usbSetup 8 (getDescriptor 0) ⟨Region.null.ptr, 0, false⟩) s ∧
    Terminal (step ⟨0, 18, 0⟩) s ∧ ¬ Exported desc16c0 s.data := by
  obtain ⟨s, hr, ht⟩ := issueGetDesc_ends ⟨0, 18, 0⟩ (fun _ _ => 0) (descMem desc16c0) usbSetup 8
    (getDescriptor 0) ⟨Region.null.ptr, 0, false⟩
  refine ⟨s, hr, ht, fun h => ?_⟩
  have hsign := (exported_data_iff (by decide) (issueGetDesc_data hr ht)).1 h 8 (by decide)
  revert hsign
  decide

/-- The same with `idVendor` 0x234b, `idProduct` 0x0004 and `bcdDevice` 0x0200 -/
def desc234b : List Byte := [18, 1, 0, 2, 0, 0, 0, 64, 0x4b, 0x23, 4, 0, 0, 2, 1, 2, 3, 1]

theorem exported_identity_iff_234b : ∃ s,
    Steps (step ⟨0, 18, 0⟩) anyEvent (start issueGetDesc.toCtrlUrb (fun _ _ => 0)
      (descMem desc234b) usbSetup 8 (getDescriptor 0) ⟨Region.null.ptr, 0, false⟩) s ∧
    Terminal (step ⟨0, 18, 0⟩) s ∧ Exported desc234b s.data := by
  obtain ⟨s, hr, ht⟩ := issueGetDesc_ends ⟨0, 18, 0⟩ (fun _ _ => 0) (descMem desc234b) usbSetup 8
    (getDescriptor 0) ⟨Region.null.ptr, 0, false⟩
  exact ⟨s, hr, ht, (exported_identity_iff ⟨0, 18, 0⟩ (fun _ _ => 0) (descMem desc234b) usbSetup 8
    (getDescriptor 0) ⟨Region.null.ptr, 0, false⟩ (by decide) s hr ht).2 (by decide)⟩

end Chopstx.Usb.Usbip
