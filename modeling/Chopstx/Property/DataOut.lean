import Chopstx.Property.DataStage
import Chopstx.Property.EndpointZero
import Chopstx.Property.PacketMemory

/-!
# The data stage of a control write transfer

`usb_lld_ctrl_recv` says where the data go and how many there are.  Each OUT packet that
`handle_out0` takes is copied behind the one before, as far as there is room, and the packet
that brings the last byte ends the stage.  What comes after it is refused.

* `OutPacket`, `received` - the packets, and the bytes that they bring.
* `takeOut`, `recvPackets` - a packet that the host sends and `handle_out0` takes, and any number.
* `Receiving`, `Complete` - the stage that goes on, and the one that is over.
* `Receiving.takeOut`, `Receiving.takeOut_last`, `Complete.takeOut` - one packet more.
* `recvPackets_spec`, `ctrlRecv_stores` - any packets, and from `usb_lld_ctrl_recv` on.
* `step_takeOut` - a packet is a step of the device in `Chopstx.Usb.Stm32f103Ctrl`.
-/

namespace Chopstx.Usb.Stm32f103

open Memory

/-! ## Packets -/

/-- An OUT packet has been received: the hardware has changed the endpoint with its packet
memory, and counts the bytes. -/
structure OutPacket where
  ep0 : Endp0
  count : Nat
  count_le : count ≤ maxPacketSize

/-- The bytes of the packet, when the receive buffer begins at `rxAddr` -/
def OutPacket.data (rxAddr : Nat) (pk : OutPacket) : List Byte := pk.ep0.pma.bytes rxAddr pk.count

/-- The bytes of several packets -/
def outData (rxAddr : Nat) (pks : List OutPacket) : List Byte :=
  pks.flatMap (OutPacket.data rxAddr)

namespace Pipe

/-- The packet is received. -/
def received (s : Pipe) (pk : OutPacket) : Pipe := { s with ep0 := pk.ep0, rxCount := pk.count }

/-- The packet is received and handled. -/
def takeOut (s : Pipe) (pk : OutPacket) : Pipe := (s.received pk).handleOut0

/-- `usb_lld_ctrl_recv`, and the packets after it -/
def recvPackets (s : Pipe) (p : Ptr Region) (len : Nat) (pks : List OutPacket) : Pipe :=
  pks.foldl takeOut (s.usbLldCtrlRecv p len)

/-- The data stage after the bytes `data`: there is room for more. -/
structure Receiving (s₀ : Pipe) (p : Ptr Region) (len : Nat) (data : List Byte) (s : Pipe) : Prop
    where
  room : data.length < len
  mem : s.mem = s₀.mem.write p data
  state : s.dev.state = .outData
  addr : s.dev.ctrlData.addr = p.add data.length
  left : s.dev.ctrlData.len.toNat = len - data.length
  rxAddr : s.rxAddr = s₀.rxAddr

/-- All has been received that there is room for. -/
structure Complete (s₀ : Pipe) (p : Ptr Region) (len : Nat) (data : List Byte) (s : Pipe) : Prop
    where
  full : len ≤ data.length
  mem : s.mem = s₀.mem.write p (data.take len)
  state : s.dev.state = .waitStatusIn ∨ s.dev.state = .stalled

variable {s₀ s : Pipe} {p : Ptr Region} {len : Nat} {data : List Byte}

theorem receiving_ctrlRecv (h₁ : 1 ≤ len) (h₂ : len ≤ 65535) :
    Receiving s₀ p len [] (s₀.usbLldCtrlRecv p len) where
  room := h₁
  mem := (write_nil (m := s₀.mem)).symm
  state := rfl
  addr := rfl
  left := Nat.mod_eq_of_lt (by omega)
  rxAddr := rfl

theorem length_data (rxAddr : Nat) (pk : OutPacket) : (pk.data rxAddr).length = pk.count := by
  simp [OutPacket.data, Pma.bytes]

theorem add_ne_null (hp : p ≠ Region.null.ptr) (n : Nat) : p.add n ≠ Region.null.ptr := by
  intro h
  have hbase : p.base = .null := congrArg Ptr.base h
  have hoff : p.off + n = 0 := congrArg Ptr.off h
  apply hp
  rw [← hbase]
  show p = ⟨p.base, 0⟩
  rw [show (0 : Nat) = p.off by omega]

theorem take_bytes (pma : Pma) (a k n : Nat) :
    (pma.bytes a n).take k = pma.bytes a (min n k) := by
  rw [Pma.bytes, Pma.bytes, ← List.map_take, List.take_range, Nat.min_comm]

/-! ## One packet -/

/-- What `handle_datastage_out` copies of a packet -/
theorem takePacket_received (hp : p ≠ Region.null.ptr) (h : Receiving s₀ p len data s)
    (pk : OutPacket) :
    ((s.received pk).takePacket).mem =
        s₀.mem.write p (data ++ (pk.data s₀.rxAddr).take (len - data.length)) ∧
      ((s.received pk).takePacket).dev.ctrlData.addr =
        p.add (data.length + min pk.count (len - data.length)) ∧
      ((s.received pk).takePacket).dev.ctrlData.len.toNat =
        len - data.length - pk.count ∧
      ((s.received pk).takePacket).rxAddr = s₀.rxAddr := by
  obtain ⟨hroom, hmem, -, haddr, hleft, hrx⟩ := h
  have hne : (s.received pk).dev.ctrlData.addr ≠ Region.null.ptr ∧
      (s.received pk).dev.ctrlData.len ≠ 0 := by
    constructor
    · show s.dev.ctrlData.addr ≠ _
      rw [haddr]
      exact add_ne_null hp _
    · intro h₀
      have h₀' : s.dev.ctrlData.len.toNat = 0 := congrArg BitVec.toNat h₀
      omega
  have hn : (if (s.received pk).rxCount > (s.received pk).dev.ctrlData.len.toNat then
      (s.received pk).dev.ctrlData.len.toNat else (s.received pk).rxCount) =
        min pk.count (len - data.length) := by
    show (if pk.count > s.dev.ctrlData.len.toNat then s.dev.ctrlData.len.toNat else pk.count) = _
    rw [hleft]
    split <;> omega
  rw [takePacket]
  simp only [hn]
  rw [if_pos hne]
  refine ⟨?_, ?_, ?_, hrx⟩
  · show (s.mem.write s.dev.ctrlData.addr (usbLldFromPmabuf pk.ep0.pma s.rxAddr _)) = _
    rw [hmem, haddr, hrx, usbLldFromPmabuf_eq, write_write_append, OutPacket.data, take_bytes]
  · show s.dev.ctrlData.addr.add _ = _
    rw [haddr, Ptr.add_add]
  · show (s.dev.ctrlData.advance (min pk.count (len - data.length))).len.toNat = _
    rw [advance_len (by omega), hleft]
    omega

/-- A packet that leaves room for more -/
theorem Receiving.takeOut (hp : p ≠ Region.null.ptr) (h : Receiving s₀ p len data s)
    (pk : OutPacket) (hroom : data.length + pk.count < len) :
    Receiving s₀ p len (data ++ pk.data s₀.rxAddr) (s.takeOut pk) := by
  obtain ⟨hmem, haddr, hleft, hrx⟩ := takePacket_received hp h pk
  have hlen : (pk.data s₀.rxAddr).length = pk.count := length_data s₀.rxAddr pk
  have hall : (pk.data s₀.rxAddr).take (len - data.length) = pk.data s₀.rxAddr :=
    List.take_of_length_le (by omega)
  have hne : ((s.received pk).takePacket).dev.ctrlData.len ≠ 0 := by
    intro h₀
    have h₀' := congrArg BitVec.toNat h₀
    rw [hleft] at h₀'
    change _ = 0 at h₀'
    omega
  rw [Pipe.takeOut, handleOut0, if_pos (show (s.received pk).dev.state = .outData from h.state),
    handleDatastageOut, if_neg hne]
  refine ⟨?_, ?_, rfl, ?_, ?_, hrx⟩
  · rw [List.length_append]
    omega
  · exact hmem.trans (by rw [hall])
  · refine haddr.trans ?_
    rw [List.length_append, hlen, Nat.min_eq_left (by omega)]
  · refine hleft.trans ?_
    rw [List.length_append, hlen, Nat.sub_sub]

/-- The packet that brings the last byte -/
theorem Receiving.takeOut_last (hp : p ≠ Region.null.ptr) (h : Receiving s₀ p len data s)
    (pk : OutPacket) (hfull : len ≤ data.length + pk.count) :
    Complete s₀ p len (data ++ pk.data s₀.rxAddr) (s.takeOut pk) ∧
      (s.takeOut pk).dev.state = .waitStatusIn := by
  obtain ⟨hmem, -, hleft, -⟩ := takePacket_received hp h pk
  have hlen : (pk.data s₀.rxAddr).length = pk.count := length_data s₀.rxAddr pk
  have hzero : ((s.received pk).takePacket).dev.ctrlData.len = 0 := by
    apply BitVec.eq_of_toNat_eq
    rw [hleft]
    show _ = 0
    omega
  rw [Pipe.takeOut, handleOut0, if_pos (show (s.received pk).dev.state = .outData from h.state),
    handleDatastageOut, if_pos hzero]
  refine ⟨⟨?_, ?_, .inl rfl⟩, rfl⟩
  · rw [List.length_append]
    omega
  · refine hmem.trans ?_
    rw [List.take_append, List.take_of_length_le (Nat.le_of_lt h.room)]

/-- A packet behind the last byte -/
theorem Complete.takeOut (h : Complete s₀ p len data s) (pk : OutPacket) (bs : List Byte) :
    Complete s₀ p len (data ++ bs) (s.takeOut pk) := by
  have hstate : (s.received pk).dev.state ≠ .outData ∧
      (s.received pk).dev.state ≠ .waitStatusOut := by
    show s.dev.state ≠ _ ∧ s.dev.state ≠ _
    rcases h.state with hst | hst
    · rw [hst]
      decide
    · rw [hst]
      decide
  rw [Pipe.takeOut, handleOut0, if_neg hstate.1, if_neg hstate.2]
  refine ⟨?_, ?_, .inr rfl⟩
  · rw [List.length_append]
    exact Nat.le_add_right_of_le h.full
  · refine h.mem.trans ?_
    rw [List.take_append_of_le_length h.full]

/-! ## A sequence of packets -/

/-- **The data stage after any packets.** -/
theorem recvPackets_spec (s₀ : Pipe) (hp : p ≠ Region.null.ptr) (h₁ : 1 ≤ len)
    (h₂ : len ≤ 65535) (pks : List OutPacket) :
    Receiving s₀ p len (outData s₀.rxAddr pks) (s₀.recvPackets p len pks) ∨
      Complete s₀ p len (outData s₀.rxAddr pks) (s₀.recvPackets p len pks) := by
  induction pks using List.reverseRecOn with
  | nil => exact .inl (receiving_ctrlRecv h₁ h₂)
  | append_singleton pks pk ih =>
      have hdata : outData s₀.rxAddr (pks ++ [pk]) =
          outData s₀.rxAddr pks ++ pk.data s₀.rxAddr := by
        rw [outData, outData, List.flatMap_append, List.flatMap_singleton]
      have hrun : s₀.recvPackets p len (pks ++ [pk]) = (s₀.recvPackets p len pks).takeOut pk := by
        rw [recvPackets, recvPackets, List.foldl_concat]
      rw [hdata, hrun]
      rcases ih with h | h
      · by_cases hroom : (outData s₀.rxAddr pks).length + pk.count < len
        · exact .inl (h.takeOut hp pk hroom)
        · exact .inr (h.takeOut_last hp pk (Nat.le_of_not_lt hroom)).1
      · exact .inr (h.takeOut pk _)

/-- **The data stage of a control write transfer.**  Whatever packets come after
`usb_lld_ctrl_recv`, the bytes from `p` on are the first ones received, as far as there is room,
and no other cell of the memory changes.  The driver waits for more until the packet that brings
the last byte, and then for the status stage. -/
theorem ctrlRecv_stores (s : Pipe) (p : Ptr Region) (hp : p ≠ Region.null.ptr) (len : Nat)
    (h₁ : 1 ≤ len) (h₂ : len ≤ 65535) (pks : List OutPacket) :
    (s.recvPackets p len pks).mem.read p (min (outData s.rxAddr pks).length len) =
        (outData s.rxAddr pks).take len ∧
      (∀ r i, (r ≠ p.base ∨ i < p.off ∨ p.off + min (outData s.rxAddr pks).length len ≤ i) →
        (s.recvPackets p len pks).mem r i = s.mem r i) ∧
      ((outData s.rxAddr pks).length < len →
        (s.recvPackets p len pks).dev.state = .outData) ∧
      ∀ pks₁ pk, pks = pks₁ ++ [pk] → (outData s.rxAddr pks₁).length < len →
        len ≤ (outData s.rxAddr pks).length →
          (s.recvPackets p len pks).dev.state = .waitStatusIn := by
  have hspec := recvPackets_spec s hp h₁ h₂ pks
  have hmem : (s.recvPackets p len pks).mem = s.mem.write p ((outData s.rxAddr pks).take len) := by
    rcases hspec with h | h
    · rw [h.mem, List.take_of_length_le (Nat.le_of_lt h.room)]
    · exact h.mem
  have hlen : ((outData s.rxAddr pks).take len).length = min (outData s.rxAddr pks).length len := by
    rw [List.length_take, Nat.min_comm]
  refine ⟨?_, ?_, ?_, ?_⟩
  · rw [hmem, ← hlen]
    exact read_write_same
  · intro r i hout
    rw [hmem]
    by_cases hr : r = p.base
    · subst hr
      apply write_outside
      rw [hlen]
      exact hout.resolve_left (not_not.2 rfl)
    · rw [write_base_ne hr]
  · intro hlt
    rcases hspec with h | h
    · exact h.state
    · exact absurd h.full (Nat.not_le_of_lt hlt)
  · rintro pks₁ pk rfl hlt hle
    have hrun : s.recvPackets p len (pks₁ ++ [pk]) = (s.recvPackets p len pks₁).takeOut pk := by
      rw [recvPackets, recvPackets, List.foldl_concat]
    have hdata : (outData s.rxAddr (pks₁ ++ [pk])).length =
        (outData s.rxAddr pks₁).length + pk.count := by
      rw [outData, outData, List.flatMap_append, List.flatMap_singleton, List.length_append,
        length_data]
    rw [hrun]
    rcases recvPackets_spec s hp h₁ h₂ pks₁ with h | h
    · exact (h.takeOut_last hp pk (hdata ▸ hle)).2
    · exact absurd h.full (Nat.not_le_of_lt hlt)

/-- The packet of two bytes in a packet memory whose words are all `w` -/
def wordPacket (w : BitVec 16) : OutPacket where
  ep0 := ⟨0, fun _ => w, 0, 0, 0⟩
  count := 2
  count_le := by decide

/-- A control pipe as `usb_lld_init` leaves it -/
def idlePipe : Pipe :=
  Pipe.start ⟨0, 16, 80, by decide, by decide⟩ (fun _ => 0) (fun _ _ => 0) fun _ => 0

/-- Two packets of two bytes each, where there is room for three -/
theorem ctrlRecv_stores_three :
    (idlePipe.recvPackets Region.app.ptr 3 [wordPacket 0x0201, wordPacket 0x0403]).mem.read
        Region.app.ptr 3 = [1, 2, 3] ∧
      (idlePipe.recvPackets Region.app.ptr 3 [wordPacket 0x0201, wordPacket 0x0403]).dev.state =
        .waitStatusIn := by
  obtain ⟨hread, -, -, hlast⟩ := ctrlRecv_stores idlePipe Region.app.ptr (by decide) 3 (by decide)
    (by decide) [wordPacket 0x0201, wordPacket 0x0403]
  have hdata : outData idlePipe.rxAddr [wordPacket 0x0201, wordPacket 0x0403] = [1, 2, 3, 4] := by
    decide
  rw [hdata] at hread hlast
  exact ⟨hread, hlast [wordPacket 0x0201] (wordPacket 0x0403) rfl (by decide) (by decide)⟩

/-! ## The packets on the bus -/

/-- In the machine, a packet that is received where the register says VALID, and handled, is
one of these. -/
theorem step_takeOut {B : Board} (hrx : (view s.reg).rxValid = true)
    (htx : (view s.reg).ctrTx = false) (hreset : s.istrReset = false)
    (hpending : s.pending = .nothing) (pma : Pma) {count : Nat} (hcount : count ≤ maxPacketSize) :
    ∃ s₁ pk, s.step B (.outDone pma count false) = .ok s₁ ∧
      s₁.step B .handle = .ok (s.takeOut pk) ∧ pk.ep0.pma = pma ∧ pk.count = count := by
  have hview := view_outTransaction s.reg false
  have hctrTx : hasCtr .tx (outTransaction false s.reg) = false := by
    rw [hasCtr_tx_eq, hview]
    exact htx
  have hctrRx : hasCtr .rx (outTransaction false s.reg) = true := by
    rw [hasCtr_rx_eq, hview]
  have hsetup : ¬ outTransaction false s.reg &&& epSetup ≠ 0 := by
    rw [setup_iff, hview]
    simp
  refine ⟨_, ⟨{ s.ep0 with
      epreg := st103SetEpreg (outTransaction false s.reg)
        (clearCtrValue .rx (outTransaction false s.reg))
      pma }, count, hcount⟩, if_pos ((rxValid_iff s.reg).2 hrx), ?_, rfl, rfl⟩
  simp only [Pipe.step]
  rw [if_pos hpending, usbLldEventHandler, if_neg (by simp [hreset]), usbHandleTransfer]
  have htx' : ¬ hasCtr .tx (outTransaction false s.reg) = true := by simp [hctrTx]
  refine congrArg Except.ok ?_
  exact (if_neg htx').trans ((if_pos hctrRx).trans (if_neg hsetup))

end Pipe

end Chopstx.Usb.Stm32f103
