import Chopstx.Library.Chunks
import Chopstx.Usb.Stm32f103
import Chopstx.Usb.Mkl27z
import Chopstx.Usb.Usbip

/-!
# The data stage of a control read transfer

`usb_lld_ctrl_send` hands the first packet over, and each completed IN transaction the
next one, until the driver is ready for the status packet.  The packets are the data cut
into packets of 64 bytes, and an empty packet at the end where the host cannot see that
they are all, with one exception: where there are exactly 64 bytes, an empty packet
follows them that has no reason.

* `Driver`, `Driver.port` - the three drivers, and the functions by which they differ.
* `sends_last`, `sends_next` - the end of the stage, and a packet that more follow.
* `sends_inData` - the induction on the data.
* `ctrlSend_spec`, `StagePackets` - from `usb_lld_ctrl_send` on.
* `Driver.StageRight`, `stageRight_iff` - what has to be, and when it is.
* `stageRight_128`, `not_stageRight_64` - 128 bytes and 64 bytes.
-/

namespace Chopstx.Usb

open Memory

/-! ## The end of the stage -/

/-- The empty packet at the end. -/
def zlp (b : Bool) : List (List Byte) := if b then [[]] else []

section

variable {ε : Type} (P : LawfulPort ε) {M : Mem} {d : UsbDev} {e : ε} {p : List Byte}
  {y : UsbDev × ε} {ps : List (List Byte)}

/-- The driver waits for the status packet and is ready to receive it. -/
def StatusOut (P : Port ε) (y : UsbDev × ε) : Prop :=
  y.1.state = .waitStatusOut ∧ P.statusReady y.1.state y.2 = true

/-- All data have been handed over, and the last packet is taken. -/
theorem sends_recvStatus (hs : d.state = .lastInData) (hl : d.ctrlData.len = 0)
    (hz : d.ctrlData.requireZlp = false) (hq : P.queued M d.state e = some p) :
    ∃ y, Sends P.toPort M (d, e) [p] y ∧ StatusOut P.toPort y := by
  have h : (handleIn0 P.toPort M d (P.inAcked e)).1 =
      ({ d with state := .waitStatusOut }, P.recvStatus (P.inAcked e)) := by
    simp [handleIn0, handleDatastageIn, hs, hl, hz]
  refine ⟨_, .step (.mk hq) (.done ?_), ?_⟩
  · rw [h]
    exact P.queued_recvStatus
  · rw [h]
    exact ⟨rfl, P.statusReady_recvStatus⟩

/-- All data have been handed over. -/
theorem sends_last (hs : d.state = .lastInData) (hl : d.ctrlData.len = 0)
    (hq : P.queued M d.state e = some p) :
    ∃ y, Sends P.toPort M (d, e) (p :: zlp d.ctrlData.requireZlp) y ∧ StatusOut P.toPort y := by
  cases hz : d.ctrlData.requireZlp with
  | false => exact sends_recvStatus P hs hl hz hq
  | true =>
      have h : (handleIn0 P.toPort M d (P.inAcked e)).1 =
          ({ d with ctrlData := { d.ctrlData with requireZlp := false } },
            P.sendZlp (P.inAcked e)) := by
        simp [handleIn0, handleDatastageIn, hs, hl, hz]
      have hq' : P.queued M d.state (P.sendZlp (P.inAcked e)) = some [] := by
        rw [hs]
        exact P.queued_sendZlp
      obtain ⟨y, hy, hst⟩ := sends_recvStatus P
        (d := { d with ctrlData := { d.ctrlData with requireZlp := false } }) hs hl rfl hq'
      exact ⟨y, .step (.mk hq) (h ▸ hy), hst⟩

/-! ## The packets of the data -/

/-- The device after the next packet has been handed over. -/
def UsbDev.sent (d : UsbDev) : UsbDev :=
  { d with
    state := if d.ctrlData.len.toNat ≤ maxPacketSize then .lastInData else .inData
    ctrlData := d.ctrlData.advance (packetLen d.ctrlData.len) }

theorem packetLen_le (len : BitVec 16) : packetLen len ≤ maxPacketSize := by
  rw [packetLen]
  split <;> omega

theorem packetLen_le_len (len : BitVec 16) : packetLen len ≤ len.toNat := by
  rw [packetLen]
  split <;> omega

theorem advance_len {c : CtrlData} {n : Nat} (h : n ≤ c.len.toNat) :
    (c.advance n).len.toNat = c.len.toNat - n := by
  have hlt := c.len.isLt
  have hn : (BitVec.ofNat 16 n).toNat = n := Nat.mod_eq_of_lt (by omega)
  rw [CtrlData.advance, BitVec.toNat_sub_of_le (by rw [BitVec.le_def, hn]; exact h), hn]

/-- A packet is taken in the middle of the data: the next one is handed over. -/
theorem sends_next (hs : d.state = .inData) (hq : P.queued M d.state e = some p) :
    ∃ e', P.queued M d.sent.state e' =
        some (M.read d.ctrlData.addr (packetLen d.ctrlData.len)) ∧
      ∀ ps y, Sends P.toPort M (d.sent, e') ps y → Sends P.toPort M (d, e) (p :: ps) y := by
  have hd : (handleIn0 P.toPort M d (P.inAcked e)).1 =
      (d.sent, P.sendNext M d.ctrlData.addr (packetLen d.ctrlData.len) (P.inAcked e)) := by
    simp [handleIn0, handleDatastageIn, UsbDev.sent, hs]
  refine ⟨_, P.queued_sendNext (packetLen_le _) ?_, fun ps y hy => .step (.mk hq) (hd ▸ hy)⟩
  rw [UsbDev.sent]
  dsimp only
  split <;> simp

/-- **The packets after one of 64 bytes**, when there are more data: they are the rest of
the data cut into packets, and the empty packet that was asked for. -/
theorem sends_inData (hs : d.state = .inData) (hl : d.ctrlData.len ≠ 0)
    (hq : P.queued M d.state e = some p) :
    ∃ cs y, Cut maxPacketSize (M.read d.ctrlData.addr d.ctrlData.len.toNat) cs ∧
      Sends P.toPort M (d, e) (p :: (cs ++ zlp d.ctrlData.requireZlp)) y ∧
      StatusOut P.toPort y := by
  induction hn : d.ctrlData.len.toNat using Nat.strong_induction_on generalizing d e p with
  | _ n ih =>
      have hpos : 0 < d.ctrlData.len.toNat := by
        rw [Nat.pos_iff_ne_zero]
        intro h
        exact hl (BitVec.eq_of_toNat_eq h)
      by_cases hle : d.ctrlData.len.toNat ≤ maxPacketSize
      · -- the rest is one packet
        have hp : packetLen d.ctrlData.len = n := by
          rw [packetLen, if_neg (by omega), hn]
        have hlast : d.sent.state = .lastInData := if_pos hle
        have hzero : d.sent.ctrlData.len = 0 := by
          apply BitVec.eq_of_toNat_eq
          rw [UsbDev.sent, advance_len (packetLen_le_len _), hp, hn, Nat.sub_self]
          rfl
        obtain ⟨e', he, hnext⟩ := sends_next P hs hq
        rw [hp] at he
        obtain ⟨y, hy, hst⟩ := sends_last P hlast hzero he
        refine ⟨[M.read d.ctrlData.addr n], y, Cut.single ?_ ?_, hnext _ _ hy, hst⟩
        · intro h
          have hlen := congrArg List.length h
          rw [length_read, List.length_nil] at hlen
          omega
        · rw [length_read]
          omega
      · -- a packet of 64 bytes, and more data behind it
        have hp : packetLen d.ctrlData.len = maxPacketSize := if_pos (by omega)
        have hin : d.sent.state = .inData := if_neg hle
        have hrest : d.sent.ctrlData.len.toNat = n - maxPacketSize := by
          rw [UsbDev.sent, advance_len (packetLen_le_len _), hp, hn]
        obtain ⟨e', he, hnext⟩ := sends_next P hs hq
        rw [hp] at he
        have hne : d.sent.ctrlData.len ≠ 0 := by
          intro h
          rw [h] at hrest
          change 0 = n - maxPacketSize at hrest
          omega
        have hmax : 0 < maxPacketSize := by decide
        obtain ⟨cs, y, hcs, hy, hst⟩ := ih (n - maxPacketSize) (by omega) hin hne he hrest
        have haddr : d.sent.ctrlData.addr = d.ctrlData.addr.add maxPacketSize := by
          rw [UsbDev.sent, hp]
          rfl
        refine ⟨M.read d.ctrlData.addr maxPacketSize :: cs, y, ?_, hnext _ _ hy, hst⟩
        rw [haddr] at hcs
        have hn' : n = maxPacketSize + (n - maxPacketSize) := by omega
        rw [hn', read_add]
        exact Cut.cons hmax length_read hcs

/-- After a packet of 64 bytes that was all of the data, there is an empty packet without
a reason. -/
theorem sends_inData_empty (hs : d.state = .inData) (hl : d.ctrlData.len = 0)
    (hq : P.queued M d.state e = some p) :
    ∃ y, Sends P.toPort M (d, e) (p :: [] :: zlp d.ctrlData.requireZlp) y ∧
      StatusOut P.toPort y := by
  obtain ⟨e', he, hnext⟩ := sends_next P hs hq
  have hp : packetLen d.ctrlData.len = 0 := by
    rw [hl]
    rfl
  have hlast : d.sent.state = .lastInData := by
    rw [UsbDev.sent, hl]
    rfl
  have hzero : d.sent.ctrlData.len = 0 := by
    rw [UsbDev.sent, hp]
    exact (BitVec.sub_zero _).trans hl
  rw [hp, read_zero] at he
  obtain ⟨y, hy, hst⟩ := sends_last P hlast hzero he
  exact ⟨y, hnext _ _ hy, hst⟩

/-! ## The whole stage -/

/-- What `usb_lld_ctrl_send` does: it cuts the data to what the host asks for, decides on
the empty packet, and hands the first packet over. -/
theorem ctrlSend_spec (buf : Ptr Region) {buflen m : Nat} (hbuf : buflen ≤ 65535)
    (hz : d.ctrlData.requireZlp = false) (hm : m = min buflen d.devReq.len.toNat) :
    ∃ c : CtrlData, c.addr = buf ∧ c.len.toNat = m ∧
      c.requireZlp = decide (m < d.devReq.len.toNat ∧ 0 < m ∧ maxPacketSize ∣ m) ∧
      ctrlSend P.toPort M d e buf buflen =
        ({ d with
            state := if m < maxPacketSize then .lastInData else .inData
            ctrlData := c.advance (if m < maxPacketSize then m else maxPacketSize) },
          P.sendFirst M buf (if m < maxPacketSize then m else maxPacketSize) e) := by
  have hlen : (BitVec.ofNat 16 buflen).toNat = buflen := Nat.mod_eq_of_lt (by omega)
  by_cases hask : d.devReq.len.toNat ≤ buflen
  · -- the host gets what it asks for
    have hm' : m = d.devReq.len.toNat := by omega
    have hge : BitVec.ofNat 16 buflen ≥ d.devReq.len := by
      rw [ge_iff_le, BitVec.le_def, hlen]
      exact hask
    refine ⟨{ d.ctrlData with addr := buf, len := d.devReq.len }, rfl, hm'.symm, ?_, ?_⟩
    · simp [hz, hm']
    · rw [ctrlSend]
      dsimp only
      rw [if_pos hge, ← hm']
  · -- the host asks for more
    have hm' : m = buflen := by omega
    have hge : ¬ BitVec.ofNat 16 buflen ≥ d.devReq.len := by
      rw [ge_iff_le, BitVec.le_def, hlen]
      exact hask
    have hne : BitVec.ofNat 16 buflen ≠ 0 ↔ 0 < m := by
      rw [← hlen] at hm'
      rw [hm', Nat.pos_iff_ne_zero, not_iff_not]
      exact ⟨fun h => by rw [h]; rfl, fun h => BitVec.eq_of_toNat_eq h⟩
    by_cases hzlp : 0 < m ∧ m % maxPacketSize = 0
    · refine ⟨⟨buf, BitVec.ofNat 16 buflen, true⟩, rfl, hlen.trans hm'.symm, ?_, ?_⟩
      · have hlt : m < d.devReq.len.toNat := by omega
        simp [hlt, hzlp.1, Nat.dvd_of_mod_eq_zero hzlp.2]
      · have hcond : BitVec.ofNat 16 buflen ≠ 0 ∧
            (BitVec.ofNat 16 buflen).toNat % maxPacketSize = 0 := by
          rw [hne, hlen, ← hm']
          exact hzlp
        rw [ctrlSend]
        dsimp only
        rw [if_neg hge, if_pos hcond, hlen, ← hm']
    · refine ⟨{ d.ctrlData with addr := buf, len := BitVec.ofNat 16 buflen }, rfl,
        hlen.trans hm'.symm, ?_, ?_⟩
      · rw [hz, eq_comm, decide_eq_false_iff_not]
        rintro ⟨-, hpos, hdvd⟩
        exact hzlp ⟨hpos, Nat.mod_eq_zero_of_dvd hdvd⟩
      · have hcond : ¬ (BitVec.ofNat 16 buflen ≠ 0 ∧
            (BitVec.ofNat 16 buflen).toNat % maxPacketSize = 0) := by
          rw [hne, hlen, ← hm']
          exact hzlp
        rw [ctrlSend]
        dsimp only
        rw [if_neg hge, if_neg hcond, hlen, ← hm']

/-- The packets of a data stage with the data `bs`, where the host asked for `n` bytes. -/
def StagePackets (bs : List Byte) (n : Nat) (ps : List (List Byte)) : Prop :=
  ∃ cs, Cut maxPacketSize bs cs ∧
    ps = cs ++ zlp (bs.length = 0 ∨ bs.length < n ∧ 0 < bs.length ∧ maxPacketSize ∣ bs.length)

/-- A data stage that does not have 64 bytes of data. -/
theorem sends_ctrlSend (buf : Ptr Region) {buflen m : Nat} (hbuf : buflen ≤ 65535)
    (hz : d.ctrlData.requireZlp = false) (hm : m = min buflen d.devReq.len.toNat)
    (hne : m ≠ maxPacketSize) :
    ∃ ps y, Sends P.toPort M (ctrlSend P.toPort M d e buf buflen) ps y ∧
      StagePackets (M.read buf m) d.devReq.len.toNat ps ∧ StatusOut P.toPort y := by
  obtain ⟨c, haddr, hlen, hzlp, heq⟩ := ctrlSend_spec P (M := M) (e := e) buf hbuf hz hm
  rw [heq]
  by_cases hlt : m < maxPacketSize
  · -- one packet, shorter than 64 bytes
    simp only [hlt, if_true] at heq ⊢
    have hq : P.queued M .lastInData (P.sendFirst M buf m e) = some (M.read buf m) :=
      P.queued_sendFirst hlt.le (.inr rfl)
    have hl : (c.advance m).len = 0 := by
      apply BitVec.eq_of_toNat_eq
      rw [advance_len hlen.ge, hlen, Nat.sub_self]
      rfl
    have hnz : (c.advance m).requireZlp = false := by
      refine hzlp.trans (decide_eq_false ?_)
      rintro ⟨-, hpos, hdvd⟩
      exact absurd (Nat.le_of_dvd hpos hdvd) (by omega)
    obtain ⟨y, hy, hst⟩ := sends_recvStatus P
      (d := { d with state := .lastInData, ctrlData := c.advance m }) rfl hl hnz hq
    refine ⟨_, y, hy, ?_, hst⟩
    by_cases hzero : m = 0
    · subst hzero
      exact ⟨[], Cut.nil, by simp [zlp]⟩
    · refine ⟨[M.read buf m], Cut.single ?_ ?_, ?_⟩
      · intro h
        have h' := congrArg List.length h
        rw [length_read, List.length_nil] at h'
        exact hzero h'
      · rw [length_read]
        exact hlt.le
      · have hno : ¬ (m = 0 ∨ m < d.devReq.len.toNat ∧ 0 < m ∧ maxPacketSize ∣ m) := by
          rintro (h | ⟨-, hpos, hdvd⟩)
          · exact hzero h
          · exact absurd (Nat.le_of_dvd hpos hdvd) (by omega)
        simp [zlp, hno]
  · -- a packet of 64 bytes, and more data behind it
    simp only [hlt, if_false] at heq ⊢
    have hmax : 0 < maxPacketSize := by decide
    have hle : maxPacketSize ≤ c.len.toNat := by omega
    have hq : P.queued M .inData (P.sendFirst M buf maxPacketSize e) =
        some (M.read buf maxPacketSize) :=
      P.queued_sendFirst le_rfl (.inl rfl)
    have hrest : (c.advance maxPacketSize).len.toNat = m - maxPacketSize := by
      rw [advance_len hle, hlen]
    have hl : (c.advance maxPacketSize).len ≠ 0 := by
      intro h
      rw [h] at hrest
      change 0 = m - maxPacketSize at hrest
      omega
    obtain ⟨cs, y, hcs, hy, hst⟩ := sends_inData P
      (d := { d with state := .inData, ctrlData := c.advance maxPacketSize }) rfl hl hq
    refine ⟨_, y, hy, ⟨M.read buf maxPacketSize :: cs, ?_, ?_⟩, hst⟩
    · have hm' : m = maxPacketSize + (m - maxPacketSize) := by omega
      have hc : (c.advance maxPacketSize).addr = buf.add maxPacketSize := by
        rw [CtrlData.advance, haddr]
      simp only [hrest, hc] at hcs
      rw [hm', read_add]
      exact Cut.cons hmax length_read hcs
    · have hm0 : ¬ m = 0 := by omega
      have hzlp' : (c.advance maxPacketSize).requireZlp =
          decide (m < d.devReq.len.toNat ∧ 0 < m ∧ maxPacketSize ∣ m) := hzlp
      simp only [hzlp', length_read, hm0, false_or, List.cons_append]

/-- A data stage of 64 bytes: one empty packet more than there has to be. -/
theorem sends_ctrlSend_max (buf : Ptr Region) {buflen : Nat} (hbuf : buflen ≤ 65535)
    (hz : d.ctrlData.requireZlp = false)
    (hm : maxPacketSize = min buflen d.devReq.len.toNat) :
    ∃ y, Sends P.toPort M (ctrlSend P.toPort M d e buf buflen)
        (M.read buf maxPacketSize :: [] :: zlp (maxPacketSize < d.devReq.len.toNat)) y ∧
      StatusOut P.toPort y := by
  obtain ⟨c, haddr, hlen, hzlp, heq⟩ := ctrlSend_spec P (M := M) (e := e) buf hbuf hz hm
  rw [heq]
  simp only [lt_irrefl, if_false]
  have hq : P.queued M .inData (P.sendFirst M buf maxPacketSize e) =
      some (M.read buf maxPacketSize) :=
    P.queued_sendFirst le_rfl (.inl rfl)
  have hl : (c.advance maxPacketSize).len = 0 := by
    apply BitVec.eq_of_toNat_eq
    rw [advance_len hlen.ge, hlen, Nat.sub_self]
    rfl
  obtain ⟨y, hy, hst⟩ := sends_inData_empty P
    (d := { d with state := .inData, ctrlData := c.advance maxPacketSize }) rfl hl hq
  refine ⟨y, ?_, hst⟩
  have hzlp' : (c.advance maxPacketSize).requireZlp =
      decide (maxPacketSize < d.devReq.len.toNat) := by
    refine hzlp.trans (decide_eq_decide.2 ?_)
    exact ⟨fun h => h.1, fun h => ⟨h, by decide, dvd_rfl⟩⟩
  rw [← hzlp']
  exact hy

end

/-! ## The drivers -/

/-- The three USB drivers. -/
inductive Driver where
  | stm32f103
  | mkl27z
  | usbip
  deriving DecidableEq, Repr

/-- The endpoint 0 of a driver. -/
def Driver.Endp0 : Driver → Type
  | .stm32f103 => Stm32f103.Endp0
  | .mkl27z => Mkl27z.Endp0
  | .usbip => Usbip.UsbControl

/-- How a driver moves the packets of endpoint 0. -/
def Driver.port : (D : Driver) → LawfulPort D.Endp0
  | .stm32f103 => Stm32f103.lawfulPort
  | .mkl27z => Mkl27z.lawfulPort
  | .usbip => Usbip.lawfulPort

/-- The data stage of the request `req` that the driver answers with
`usb_lld_ctrl_send (dev, buf, buflen)` is as it should be: the packets are the data, cut as
they have to be, and then the driver waits for the status packet, with no packet queued. -/
def Driver.StageRight (D : Driver) (M : Mem) (d : UsbDev) (e : D.Endp0) (req : DeviceReq)
    (buf : Ptr Region) (buflen : Nat) : Prop :=
  ∃ ps y, Sends D.port.toPort M (ctrlSend D.port.toPort M (d.beginSetup req) e buf buflen) ps y ∧
    StagePackets (M.read buf (min buflen req.len.toNat)) req.len.toNat ps ∧
    StatusOut D.port.toPort y

/-- The stage of 64 bytes has a packet too many. -/
theorem Driver.not_stageRight_max {D : Driver} {M : Mem} {d : UsbDev} {e : D.Endp0}
    {req : DeviceReq} {buf : Ptr Region} {buflen : Nat} (hbuf : buflen ≤ 65535)
    (hm : min buflen req.len.toNat = maxPacketSize) : ¬ D.StageRight M d e req buf buflen := by
  rintro ⟨ps, y, hy, hps, -⟩
  rw [hm] at hps
  obtain ⟨z, hz, -⟩ := sends_ctrlSend_max D.port (M := M) (d := d.beginSetup req) (e := e)
    buf hbuf rfl hm.symm
  obtain ⟨rfl, -⟩ := hy.unique hz
  obtain ⟨cs, hcs, hps⟩ := hps
  -- the data are one packet
  have hone : cs = [M.read buf maxPacketSize] := by
    refine hcs.unique (Cut.single ?_ length_read.le)
    intro h
    have h' := congrArg List.length h
    rw [length_read, List.length_nil] at h'
    exact absurd h' (by decide)
  have hlen := congrArg List.length hps
  rw [hone, length_read] at hlen
  have hmax : ¬ maxPacketSize = 0 := by decide
  have hpos : 0 < maxPacketSize := by decide
  have hiff : maxPacketSize < (d.beginSetup req).devReq.len.toNat ↔
      (maxPacketSize = 0 ∨ maxPacketSize < req.len.toNat ∧ 0 < maxPacketSize ∧
        maxPacketSize ∣ maxPacketSize) := by
    simp [hmax, hpos, UsbDev.beginSetup]
  simp [hiff] at hlen

/-- **The data stage is right if and only if it does not have 64 bytes of data**, in each
of the three drivers, for every buffer and whatever the host asks for. -/
theorem stageRight_iff (D : Driver) (M : Mem) (d : UsbDev) (e : D.Endp0) (req : DeviceReq)
    (buf : Ptr Region) (buflen : Nat) (hbuf : buflen ≤ 65535) :
    D.StageRight M d e req buf buflen ↔ min buflen req.len.toNat ≠ 64 := by
  constructor
  · exact fun h hm => Driver.not_stageRight_max hbuf hm h
  · intro hm
    exact sends_ctrlSend D.port (d := d.beginSetup req) buf hbuf rfl rfl hm

/-- A request `GET_DESCRIPTOR` for the device that asks for `n` bytes. -/
def getDescriptor (n : BitVec 16) : DeviceReq := ⟨0x80, 6, 0x0100, 0, n⟩

/-- A device that waits for a SETUP packet. -/
def idleDev : UsbDev := ⟨.waitSetup, getDescriptor 0, ⟨Region.null.ptr, 0, false⟩⟩

/-- The endpoint 0 of the STM32F103 when it has received a SETUP packet. -/
def Stm32f103.idleEndp0 : Stm32f103.Endp0 := ⟨0x2220, fun _ => 0, 0x40, 0, 0⟩

/-- Data of 128 bytes, where the host asks for 255. -/
theorem stageRight_128 :
    Driver.StageRight .stm32f103 (fun _ _ => 0) idleDev Stm32f103.idleEndp0 (getDescriptor 255)
      Region.app.ptr 128 :=
  (stageRight_iff .stm32f103 (fun _ _ => 0) idleDev Stm32f103.idleEndp0 (getDescriptor 255)
    Region.app.ptr 128 (by decide)).2 (by decide)

/-- Data of 64 bytes, where the host asks for 64: the driver queues an empty packet after
they have been taken. -/
theorem not_stageRight_64 :
    ¬ Driver.StageRight .stm32f103 (fun _ _ => 0) idleDev Stm32f103.idleEndp0 (getDescriptor 64)
      Region.app.ptr 64 :=
  Driver.not_stageRight_max (by decide) (by decide)

end Chopstx.Usb
