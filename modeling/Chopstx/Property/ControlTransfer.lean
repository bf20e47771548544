import Chopstx.Property.DataStage
import Chopstx.Usb.HostController

/-!
# Control transfers of the USBIP emulation

The loops of the host controller and of the device have to agree on the packet that ends a
data stage.  The host controller ends it at the first packet of less than 64 bytes, also
where it has moved all bytes of the URB; the device ends it when all bytes are moved.
They agree unless the data are a multiple of 64 bytes.

Only one of the two threads can go on at any time, so a transfer is a run of forced steps,
and it is put together from rounds: the host controller reads the eventfd and makes a
transaction, and the device handles it.

* `forced_host`, `forced_device`, `round` - steps that are the only ones, and the rounds made of
  them; `in_round`, `out_round` and the others are the four kinds of a transaction.
* `setup_round` - from the SETUP packet to the request.
* `in_stage`, `out_data` - the data stages, by induction on the packets.
* `in_run`, `in_run_lost`, `out_run`, `out_run_lost` - whole transfers, with and without a STALL.
* `Agree` - the two threads mean the same packet by the last one.
* `transferred_iff` - the result: the transfer is carried out if and only if they do.
* `not_transferred_multiple` - transfers of 64 bytes, in both directions.
-/

namespace Chopstx.Usb.Usbip

open Memory Transition

variable {A : Sys.App} {s s₁ s₂ : Sys} {u : Urb} {host pt : HostPt} {m o c : Nat}
  {D : Memory Unit Byte} {e : UsbControl} {d : UsbDev} {M : Mem} {i : Intr} {r : Int}
  {ps cs : List (List Byte)} {p : List Byte} {y : UsbDev × UsbControl}

/-! ## Forced steps -/

/-- The device has not been stalled. -/
def NotStalled (s : Sys) : Prop := s.dev.state ≠ .stalled

theorem forced_host (hd : s.devPt = .wait) (hi : s.intr = none)
    (h : s.hcHandleControlUrb = .ok s₁) : Forced (step A) s s₁ := by
  refine ⟨.host, h, fun p s₂ hs => ?_⟩
  cases p with
  | host => rfl
  | device =>
      rw [step, Sys.device, Sys.handle, hd] at hs
      simp [hi] at hs

theorem forced_device (hb : s.hcHandleControlUrb = .error .blocked)
    (h : s.device A.answer = .ok s₁) : Forced (step A) s s₁ := by
  refine ⟨.device, h, fun p s₂ hs => ?_⟩
  cases p with
  | host =>
      rw [step, hb] at hs
      cases hs
  | device => rfl

/-- The points before a `read` of the eventfd. -/
inductive HostPt.Reads : HostPt → Prop
  | outRead (c : Nat) : Reads (.outRead c)
  | outStatusRead : Reads .outStatusRead
  | inRead (c : Nat) : Reads (.inRead c)
  | inStatusRead : Reads .inStatusRead
  | readyRead (r : Int) : Reads (.readyRead r)

/-- The host controller waits for the device. -/
theorem host_blocked (hr : s.host.Reads) (he : s.ep0.eventfd = 0) :
    s.hcHandleControlUrb = .error .blocked := by
  have hread : ∀ pt, s.readEventfd pt = .error .blocked := fun pt => if_pos he
  rw [Sys.hcHandleControlUrb]
  cases hpt : s.host with
  | outRead | outStatusRead | inRead | inStatusRead => exact hread _
  | readyRead r =>
      simp only [hread]
      rfl
  | _ => exact absurd (hpt ▸ hr) (by rintro ⟨⟩)

/-! ## Rounds -/

/-- A state between two rounds. -/
def rest (u : Urb) (host : HostPt) (m o : Nat) (D : Memory Unit Byte) (e : UsbControl)
    (d : UsbDev) (M : Mem) : Sys :=
  ⟨u.toCtrlUrb, host, m, u.len, o, D, e, none, d, .wait, M⟩

/-- The endpoint after a transaction. -/
def UsbControl.acked (e : UsbControl) : UsbControl := { e with state := .nak, eventfd := 0 }

/-- The device handles the event that the host controller has left. -/
theorem device_round {s : Sys} (hd : s.devPt = .wait) (hi : s.intr = some i) (hh : s.host.Reads)
    (he : s.ep0.eventfd = 0) (hs : NotStalled s) :
    ForcedRun (step A) NotStalled s ({ s with intr := none, devPt := .took i }.handleEvent i) := by
  have htake : Forced (step A) s { s with intr := none, devPt := .took i } := by
    apply forced_device (host_blocked hh he)
    rw [Sys.device, Sys.handle, hd]
    simp only [hi, reduceCtorEq, if_false]
  have hhandle : Forced (step A) { s with intr := none, devPt := .took i }
      ({ s with intr := none, devPt := .took i }.handleEvent i) :=
    forced_device (host_blocked hh he) rfl
  exact .head hs htake (.head hs hhandle (.refl _))

section

variable (he : e.eventfd ≠ 0) (hst : e.state = .ready) (hd : d.state ≠ .stalled)

include he hd

/-- The host controller takes the notification and makes a transaction that leaves an event,
and the device handles it. -/
theorem round {q : HostPt} {m' o' : Nat} {D' : Memory Unit Byte} {f : UsbControl}
    {M' : Mem}
    (hread : (rest u host m o D e d M).hcHandleControlUrb =
      (rest u host m o D e d M).readEventfd pt)
    (htrans : (rest u pt m o D { e with eventfd := 0 } d M).hcHandleControlUrb =
      .ok { rest u q m' o' D' f d M' with intr := some i })
    (hr : q.Reads) (hf : f.eventfd = 0) :
    ForcedRun (step A) NotStalled (rest u host m o D e d M)
      ({ rest u q m' o' D' f d M' with devPt := .took i }.handleEvent i) := by
  have htoken : (rest u host m o D e d M).hcHandleControlUrb =
      .ok (rest u pt m o D { e with eventfd := 0 } d M) :=
    hread.trans (if_neg he)
  refine .head hd (forced_host rfl rfl htoken) (.head hd (forced_host rfl rfl htrans) ?_)
  exact device_round rfl rfl hr hf hd

include hst

/-- A packet from the device to the host. -/
theorem in_round {n : Nat} (hn : n = if e.len > c then c else e.len) :
    ForcedRun (step A) NotStalled (rest u (.inRead c) m o D e d M)
      (rest u (if n < 64 then .inStatusRead else .inRead (Sys.count (m - n))) (m - n) (o + n)
        (D.write ⟨(), o⟩ (M.read e.buf n)) (handleIn0 M d e.acked).1.2
        (handleIn0 M d e.acked).1.1 M) := by
  have hr : HostPt.Reads (if n < 64 then .inStatusRead else .inRead (Sys.count (m - n))) := by
    split
    · exact .inStatusRead
    · exact .inRead _
  refine round he hd rfl ?_ hr rfl (i := .dataTransfer .dirIn) (f := e.acked)
  simp only [Sys.hcHandleControlUrb, Sys.controlReadDataTransaction, Sys.transaction, rest, hst,
    Sys.notifyDevice, Sys.setEp0State, ← hn]
  rfl

/-- The status packet of a control read transfer. -/
theorem in_status_round :
    ForcedRun (step A) NotStalled (rest u .inStatusRead m o D e d M)
      (rest u (.readyRead m) m o D (handleOut0 d { e.acked with len := 0 }).2
        (handleOut0 d { e.acked with len := 0 }).1 M) := by
  refine round he hd rfl ?_ (.readyRead _) rfl (i := .dataTransfer .dirOut)
    (f := { e.acked with len := 0 })
  simp only [Sys.hcHandleControlUrb, Sys.controlReadStatusTransaction, Sys.transaction, rest, hst,
    Sys.notifyDevice]
  rfl

/-- A packet from the host to the device. -/
theorem out_round (hc : c ≤ e.len) :
    ForcedRun (step A) NotStalled (rest u (.outRead c) m o D e d M)
      (rest u (if c < 64 then .outStatusRead else .outRead (Sys.count (m - c))) (m - c) (o + c)
        D (handleOut0 d { e.acked with len := c }).2
        (handleOut0 d { e.acked with len := c }).1
        (M.write e.buf (D.read ⟨(), o⟩ c))) := by
  have hr : HostPt.Reads (if c < 64 then .outStatusRead else .outRead (Sys.count (m - c))) := by
    split
    · exact .outStatusRead
    · exact .outRead _
  refine round he hd rfl ?_ hr rfl (i := .dataTransfer .dirOut)
    (f := { e.acked with len := c })
  simp only [Sys.hcHandleControlUrb, Sys.controlWriteDataTransaction, Sys.transaction, rest, hst,
    Sys.notifyDevice]
  rw [if_neg (Nat.not_lt.2 hc)]
  rfl

/-- The status packet of a control write transfer. -/
theorem out_status_round :
    ForcedRun (step A) NotStalled (rest u .outStatusRead m o D e d M)
      (rest u (.readyRead 0) m o D (handleIn0 M d e.acked).1.2
        (handleIn0 M d e.acked).1.1 M) := by
  refine round he hd rfl ?_ (.readyRead _) rfl (i := .dataTransfer .dirIn) (f := e.acked)
  simp only [Sys.hcHandleControlUrb, Sys.controlWriteStatusTransaction, Sys.transaction, rest, hst,
    Sys.notifyDevice, Sys.setEp0State]
  rfl

end

/-! ## The beginning and the end -/

/-- There is no data stage where the two bytes of the length are 0. -/
theorem setup_len_eq_zero (u : Urb) :
    u.setup.getD 6 0 = 0 ∧ u.setup.getD 7 0 = 0 ↔ u.len = 0 := by
  have h : ∀ a b : Byte, (b ++ a : BitVec 16).toNat = 0 ↔ a = 0 ∧ b = 0 := by
    intro a b
    rw [BitVec.toNat_append, Nat.or_eq_zero_iff, Nat.shiftLeft_eq_zero_iff]
    simp [BitVec.toNat_eq, and_comm]
  rw [u.len_setup]
  exact (h _ _).symm

/-- Where the host controller goes after the SETUP token. -/
def Urb.first (u : Urb) : HostPt :=
  match u.dir with
  | .dirOut => if u.len = 0 then .outStatusRead else .outRead (Sys.count u.len)
  | .dirIn => .inRead (Sys.count u.len)

/-- The device when it has received a request. -/
def requested (u : Urb) : UsbDev :=
  ⟨.waitSetup, deviceReq u.setup, ⟨Region.null.ptr, 0, false⟩⟩

/-- The memory with the SETUP packet in it. -/
def setupMem (u : Urb) (M : Mem) : Mem := M.write usbSetup u.setup

/-- The SETUP token, and the answer of the application. -/
theorem setup_round (u : Urb) (D : Memory Unit Byte) (M : Mem) (b : Ptr Region) (l : Nat)
    (w : DeviceReq) (k : CtrlData) :
    ForcedRun (step A) NotStalled (start u.toCtrlUrb D M b l w k)
      (rest u u.first u.len 0 D
        (A.answer (setupMem u M) (requested u) ⟨0, .nak, b, l⟩).2
        (A.answer (setupMem u M) (requested u) ⟨0, .nak, b, l⟩).1 (setupMem u M)) := by
  have hreads : u.first.Reads := by
    rw [Urb.first]
    repeat' split
    · exact .outStatusRead
    · exact .outRead _
    · exact .inRead _
  have hsetup : (start u.toCtrlUrb D M b l w k).hcHandleControlUrb =
      .ok { rest u u.first u.len 0 D ⟨0, .nak, b, l⟩ ⟨.waitSetup, w, k⟩ (setupMem u M) with
        intr := some .setup } := by
    have hfirst : u.first = match u.dir with
        | .dirOut =>
            if u.dir = .dirOut ∧ u.setup.getD 6 0 = 0 ∧ u.setup.getD 7 0 = 0 then .outStatusRead
            else .outRead (Sys.count u.len)
        | .dirIn => .inRead (Sys.count u.len) := by
      rw [Urb.first]
      split
      · next hdir => simp only [setup_len_eq_zero, hdir, true_and]
      · rfl
    rw [hfirst]
    rfl
  have hreq : deviceReq ((setupMem u M).read usbSetup 8) = deviceReq u.setup := by
    rw [setupMem, ← u.setup_length, read_write_same]
  have hns : ∀ st : ControlState, st = .waitSetup → st ≠ .stalled := by
    rintro _ rfl
    exact ControlState.noConfusion
  refine .head (hns _ rfl) (forced_host rfl rfl hsetup) ?_
  refine (device_round rfl rfl hreads rfl (hns _ rfl)).trans ?_
  refine .head (hns _ rfl) (forced_device (host_blocked hreads rfl) rfl) ?_
  simp only [Sys.handleEvent, UsbDev.beginSetup, rest, hreq]
  exact .refl _

/-- The transfer is over, and the device is ready for the next one. -/
structure Idle (s : Sys) : Prop where
  host : s.host = .done 0
  dev : s.dev.state = .waitSetup
  ep0 : s.ep0.state = .ready
  devPt : s.devPt = .wait
  intr : s.intr = none

theorem Idle.terminal (h : Idle s) : Terminal (step A) s := by
  intro p s₁ hs
  cases p with
  | host =>
      rw [step, Sys.hcHandleControlUrb, h.host] at hs
      cases hs
  | device =>
      rw [step, Sys.device, Sys.handle, h.devPt] at hs
      simp [h.intr] at hs

/-- The device is ready for a SETUP token, and the host controller ends the transfer. -/
theorem ready_round (he : e.eventfd ≠ 0) (hd : d.state = .waitSetup) :
    ForcedRun (step A) NotStalled (rest u (.readyRead r) m o D e d M)
      ((rest u (.readyRead r) m o D { e with eventfd := 0 } d M).finish r) := by
  have h : (rest u (.readyRead r) m o D e d M).hcHandleControlUrb =
      .ok ((rest u (.readyRead r) m o D { e with eventfd := 0 } d M).finish r) := by
    have hread : (rest u (.readyRead r) m o D e d M).readEventfd (.readyRead r) =
        .ok (rest u (.readyRead r) m o D { e with eventfd := 0 } d M) := if_neg he
    simp only [Sys.hcHandleControlUrb]
    change ((rest u (.readyRead r) m o D e d M).readEventfd (.readyRead r) >>= _) = _
    rw [hread]
    rfl
  have hns : d.state ≠ .stalled := by rw [hd]; decide
  exact .head hns (forced_host rfl rfl h) (.refl _)

/-! ## Control read transfers -/

theorem handleIn0_eventfd : (handleIn0 M d e).1.2.eventfd = e.eventfd + 1 := by
  rw [handleIn0, Usb.handleIn0]
  split
  · rw [Usb.handleDatastageIn]
    repeat' split
    all_goals rfl
  · split <;> rfl

theorem handleOut0_eventfd : (handleOut0 d e).2.eventfd = e.eventfd + 1 := by
  rw [handleOut0]
  repeat' split
  · rw [handleDatastageOut]
    split <;> rfl
  all_goals rfl

/-- The host controller has got the bytes `bs`, and the device is at `x`. -/
def fetched (u : Urb) (host : HostPt) (D : Memory Unit Byte) (bs : List Byte)
    (x : UsbDev × UsbControl) (M : Mem) : Sys :=
  rest u host (u.len - bs.length) bs.length (D.write ⟨(), 0⟩ bs) x.2 x.1 M

/-- Where the host controller reads the next packet. -/
def Urb.more (u : Urb) (bs : List Byte) : HostPt := .inRead (Sys.count (u.len - bs.length))

section

variable {bs : List Byte} {x x' : UsbDev × UsbControl} {qs : List (List Byte)}

/-- A packet is queued in the data stage, and it is the buffer of the endpoint. -/
theorem of_queued (h : port.queued M d.state e = some p) :
    (d.state = .inData ∨ d.state = .lastInData) ∧ e.state = .ready ∧ p = M.read e.buf e.len := by
  rw [port] at h
  dsimp only at h
  split at h
  · next hc => exact ⟨hc.1, hc.2, (Option.some.inj h).symm⟩
  · cases h

/-- One packet of the device is one round. -/
theorem in_packet (h : InDone port M x p x') (he : x.2.eventfd ≠ 0) (hp : p.length ≤ 64)
    (hlen : (bs ++ p).length ≤ u.len) :
    x'.2.eventfd ≠ 0 ∧ ForcedRun (step A) NotStalled (fetched u (u.more bs) D bs x M)
      (fetched u (if p.length < 64 then .inStatusRead else u.more (bs ++ p)) D (bs ++ p) x'
        M) := by
  cases h with
  | @mk d e p h =>
  obtain ⟨hd, hst, rfl⟩ := of_queued h
  rw [length_read] at hp ⊢
  rw [List.length_append, length_read] at hlen
  have hns : d.state ≠ .stalled := by rcases hd with hd | hd <;> rw [hd] <;> decide
  -- the host controller takes the whole packet
  have hn : e.len = if e.len > Sys.count (u.len - bs.length) then Sys.count (u.len - bs.length)
      else e.len := by
    rw [Sys.count]
    split <;> split <;> omega
  have hrun := in_round (A := A) (u := u) (m := u.len - bs.length) (o := bs.length) (M := M)
    (D := D.write ⟨(), 0⟩ bs) he hst hns hn
  have hdata : (D.write ⟨(), 0⟩ bs).write ⟨(), bs.length⟩ (M.read e.buf e.len) =
      D.write ⟨(), 0⟩ (bs ++ M.read e.buf e.len) := by
    rw [← write_write_append]
    simp [Ptr.add]
  refine ⟨?_, ?_⟩
  · change (handleIn0 M d e.acked).1.2.eventfd ≠ 0
    rw [handleIn0_eventfd]
    exact Nat.succ_ne_zero _
  · rw [hdata, Nat.sub_sub] at hrun
    simp only [fetched, Urb.more, List.length_append, length_read]
    exact hrun

/-- Packets of 64 bytes, after which the host controller goes on reading. -/
theorem in_full (hcs : ∀ p ∈ cs, p.length = 64) (h : Sends port M x (cs ++ qs) y)
    (he : x.2.eventfd ≠ 0) (hlen : (bs ++ cs.flatten).length ≤ u.len) :
    ∃ x', x'.2.eventfd ≠ 0 ∧ Sends port M x' qs y ∧
      ForcedRun (step A) NotStalled (fetched u (u.more bs) D bs x M)
        (fetched u (u.more (bs ++ cs.flatten)) D (bs ++ cs.flatten) x' M) := by
  induction cs generalizing bs x with
  | nil =>
      refine ⟨x, he, h, ?_⟩
      rw [List.flatten_nil, List.append_nil]
      exact .refl _
  | cons p cs ih =>
      have hp := hcs p (by simp)
      cases h with
      | @step _ x₁ _ _ _ hdone hrest =>
      rw [List.flatten_cons, ← List.append_assoc] at hlen ⊢
      have hlen' : (bs ++ p).length ≤ u.len := by
        rw [List.length_append] at hlen
        omega
      obtain ⟨he₁, hrun⟩ := in_packet (A := A) (D := D) hdone he hp.le hlen'
      rw [hp, if_neg (lt_irrefl 64)] at hrun
      have hcs' : ∀ q ∈ cs, q.length = 64 := fun q hq => hcs q (List.mem_cons_of_mem _ hq)
      obtain ⟨x', he', hs', hrun'⟩ := ih hcs' hrest he₁ hlen
      exact ⟨x', he', hs', hrun.trans hrun'⟩

theorem statusOut_ready (h : StatusOut port x) :
    x.1.state = .waitStatusOut ∧ x.2.state = .ready := by
  obtain ⟨hd, hr⟩ := h
  simp only [port, hd, decide_eq_true_eq] at hr
  exact ⟨hd, hr.2⟩

/-- The status packet of a control read transfer finds the device waiting for it. -/
theorem in_status (hdir : u.dir = .dirIn) (hx : StatusOut port x) (he : x.2.eventfd ≠ 0)
    (hlen : bs.length ≤ u.len) :
    ∃ s, ForcedRun (step A) NotStalled (fetched u .inStatusRead D bs x M) s ∧ Idle s ∧
      s.len = bs.length ∧ s.data.read ⟨(), 0⟩ bs.length = bs := by
  obtain ⟨d, e⟩ := x
  obtain ⟨hd, hr⟩ := statusOut_ready hx
  dsimp only at hd hr he
  have hns : d.state ≠ .stalled := by rw [hd]; decide
  have hout : handleOut0 d { e.acked with len := 0 } =
      ({ d with state := .waitSetup }, { e.acked with len := 0 }.putReady usbSetup 8) := by
    rw [handleOut0, hd]
    rfl
  have hrun := in_status_round (A := A) (u := u) (m := u.len - bs.length) (o := bs.length)
    (M := M) (D := D.write ⟨(), 0⟩ bs) he hr hns
  rw [hout] at hrun
  refine ⟨_, hrun.trans (ready_round (Nat.succ_ne_zero _) rfl), ?_⟩
  rw [Sys.finish]
  simp only [rest, hdir]
  refine ⟨⟨rfl, rfl, rfl, rfl, rfl⟩, ?_, read_write_same⟩
  rw [if_pos (Int.natCast_nonneg _), Int.toNat_natCast]
  omega

/-- The device is stalled where the host controller sends the status packet before the
packets of the device are all taken. -/
theorem in_status_early (h : Sends port M x (p :: ps) y) (he : x.2.eventfd ≠ 0) :
    ∃ s, ForcedRun (step A) NotStalled (fetched u .inStatusRead D bs x M) s ∧
      ¬ NotStalled s := by
  cases h with
  | step hdone _ =>
  cases hdone with
  | @mk d e p h =>
  obtain ⟨hd, hst, -⟩ := of_queued h
  have hns : d.state ≠ .stalled := by rcases hd with hd | hd <;> rw [hd] <;> decide
  refine ⟨_, in_status_round he hst hns, ?_⟩
  have hout : handleOut0 d { e.acked with len := 0 } =
      ({ d with state := .stalled }, { e.acked with len := 0 }.putStall) := by
    rw [handleOut0]
    rcases hd with hd | hd <;> rw [hd] <;> rfl
  rw [hout]
  exact fun h => h rfl

/-- The device is stalled where the host controller reads a packet after the last one. -/
theorem in_late (hx : StatusOut port x) (he : x.2.eventfd ≠ 0) :
    ∃ s, ForcedRun (step A) NotStalled (fetched u (u.more bs) D bs x M) s ∧
      ¬ NotStalled s := by
  obtain ⟨d, e⟩ := x
  obtain ⟨hd, hr⟩ := statusOut_ready hx
  dsimp only at hd hr he
  have hns : d.state ≠ .stalled := by rw [hd]; decide
  refine ⟨_, in_round he hr hns rfl, ?_⟩
  have hin : (handleIn0 M d e.acked).1 = ({ d with state := .stalled }, e.acked.putStall) := by
    rw [handleIn0, Usb.handleIn0, hd]
    rfl
  rw [hin]
  exact fun h => h rfl

/-- Full packets, and a shorter one at the end. -/
theorem in_short (hcs : ∀ p ∈ cs, p.length = 64) (hp : p.length < 64)
    (h : Sends port M x (cs ++ p :: qs) y) (he : x.2.eventfd ≠ 0)
    (hlen : (cs.flatten ++ p).length ≤ u.len) :
    ∃ x', x'.2.eventfd ≠ 0 ∧ Sends port M x' qs y ∧
      ForcedRun (step A) NotStalled (fetched u (u.more []) D [] x M)
        (fetched u .inStatusRead D (cs.flatten ++ p) x' M) := by
  have hlen' : ([] ++ cs.flatten).length ≤ u.len := by
    rw [List.length_append] at hlen ⊢
    rw [List.length_nil]
    omega
  obtain ⟨x₁, he₁, hs, hrun⟩ := in_full (A := A) (D := D) hcs h he hlen'
  cases hs with
  | step hdone hrest =>
  obtain ⟨he', hrun'⟩ := in_packet (A := A) (D := D) hdone he₁ hp.le hlen
  rw [if_pos hp] at hrun'
  exact ⟨_, he', hrest, hrun.trans hrun'⟩

/-- **A data stage ends well** if its last packet is the first one with less than 64 bytes. -/
theorem in_stage (hdir : u.dir = .dirIn) (hcs : ∀ p ∈ cs, p.length = 64) (hp : p.length < 64)
    (h : Sends port M x (cs ++ [p]) y) (hy : StatusOut port y) (he : x.2.eventfd ≠ 0)
    (hlen : (cs.flatten ++ p).length ≤ u.len) :
    ∃ s, ForcedRun (step A) NotStalled (fetched u (u.more []) D [] x M) s ∧ Idle s ∧
      s.len = (cs.flatten ++ p).length ∧
      s.data.read ⟨(), 0⟩ (cs.flatten ++ p).length = cs.flatten ++ p := by
  obtain ⟨x', he', hs, hrun⟩ := in_short (A := A) (D := D) hcs hp h he hlen
  cases hs with
  | done _ =>
      obtain ⟨s, hrun', hs⟩ := in_status (A := A) (D := D) (M := M) hdir hy he' hlen
      exact ⟨s, hrun.trans hrun', hs⟩

end

/-- `buflen` counts modulo 2^16. -/
theorem ctrlSend_mod (buf : Ptr Region) (m : Nat) :
    ctrlSend port M d e buf m = ctrlSend port M d e buf (m % 65536) := by
  have h : BitVec.ofNat 16 m = BitVec.ofNat 16 (m % 65536) := by
    apply BitVec.eq_of_toNat_eq
    simp
  rw [ctrlSend, ctrlSend, h]

/-- The number of bytes that the device sends. -/
def Sys.App.sent (A : Sys.App) (u : Urb) : Nat := min (A.m % 65536) u.len

/-- The two threads do not agree on the end of the data stage of a control read transfer. -/
def InLost (A : Sys.App) (u : Urb) : Prop :=
  64 < u.len ∧ (A.sent u = 64 ∨ A.sent u = u.len ∧ 64 ∣ u.len)

section

variable {b : Ptr Region} {l : Nat} {w : DeviceReq} {k : CtrlData}

/-- The data stage begins. -/
theorem in_setup (hdir : u.dir = .dirIn) :
    ∃ x, x.2.eventfd ≠ 0 ∧
      x = ctrlSend port (setupMem u M) (requested u) ⟨0, .nak, b, l⟩ ⟨.app, A.buf⟩
        (A.m % 65536) ∧
      ForcedRun (step A) NotStalled (start u.toCtrlUrb D M b l w k)
        (fetched u (u.more []) D [] x (setupMem u M)) := by
  have hans : A.answer (setupMem u M) (requested u) ⟨0, .nak, b, l⟩ =
      ctrlSend port (setupMem u M) (requested u) ⟨0, .nak, b, l⟩ ⟨.app, A.buf⟩
        (A.m % 65536) := by
    rw [← ctrlSend_mod, Sys.App.answer, if_pos]
    · rfl
    · exact u.dir_setup.1 hdir
  have hrun := setup_round (A := A) u D M b l w k
  rw [hans] at hrun
  refine ⟨_, Nat.succ_ne_zero 0, rfl, ?_⟩
  have hfirst : u.first = u.more [] := by
    rw [Urb.first, hdir]
    rfl
  rw [hfirst] at hrun
  rw [fetched, write_nil]
  exact hrun

/-- The application's memory is not that of the SETUP packet. -/
theorem setupMem_read {a n : Nat} : (setupMem u M).read ⟨.app, a⟩ n = M.read ⟨.app, a⟩ n :=
  read_write_base_ne Region.noConfusion

theorem sent_le : A.sent u ≤ u.len := Nat.min_le_right _ _

/-- **A control read transfer ends well** where the two threads agree. -/
theorem in_run (hdir : u.dir = .dirIn) (h : ¬ InLost A u) :
    ∃ s, ForcedRun (step A) NotStalled (start u.toCtrlUrb D M b l w k) s ∧ Idle s ∧
      s.len = A.sent u ∧ s.data.read ⟨(), 0⟩ (A.sent u) = M.read ⟨.app, A.buf⟩ (A.sent u) := by
  obtain ⟨x, he, hx, hrun⟩ := in_setup (A := A) (u := u) (D := D) (M := M) (b := b)
    (l := l) (w := w) (k := k) hdir
  have hmod : A.m % 65536 ≤ 65535 := by omega
  have hm : A.sent u = min (A.m % 65536) (requested u).devReq.len.toNat := by
    rw [Sys.App.sent, u.len_setup]
    rfl
  -- it is enough to find full packets and a shorter one
  suffices hps : ∃ cs p y, Sends port (setupMem u M) x (cs ++ [p]) y ∧ StatusOut port y ∧
      (∀ q ∈ cs, q.length = 64) ∧ p.length < 64 ∧
      cs.flatten ++ p = M.read ⟨.app, A.buf⟩ (A.sent u) by
    obtain ⟨cs, p, y, hs, hy, hcs, hp, hbs⟩ := hps
    have hlen : (cs.flatten ++ p).length ≤ u.len := by
      rw [hbs, length_read]
      exact sent_le
    obtain ⟨s, hrun', hidle, hslen, hdata⟩ :=
      in_stage (A := A) (D := D) hdir hcs hp hs hy he hlen
    rw [hbs, length_read] at hslen hdata
    exact ⟨s, hrun.trans hrun', hidle, hslen, hdata⟩
  subst hx
  by_cases h64 : A.sent u = 64
  · -- one full packet, and the empty packet behind it
    have hlen : u.len = 64 := by
      have := sent_le (A := A) (u := u)
      by_contra hne
      exact h ⟨by omega, .inl h64⟩
    obtain ⟨y, hs, hy⟩ := sends_ctrlSend_max lawfulPort (M := setupMem u M) (d := requested u)
      (e := ⟨0, .nak, b, l⟩) ⟨.app, A.buf⟩ hmod rfl (h64.symm.trans hm)
    have hn : ¬ maxPacketSize < (requested u).devReq.len.toNat := by
      rw [show (requested u).devReq.len.toNat = u.len from u.len_setup.symm, hlen]
      decide
    rw [decide_eq_false hn] at hs
    refine ⟨[_], [], y, hs, hy, ?_, by decide, ?_⟩
    · intro q hq
      rw [List.mem_singleton.1 hq, length_read]
      rfl
    · rw [h64]
      simp [maxPacketSize, setupMem_read]
  · obtain ⟨ps, y, hs, ⟨cs, hcut, rfl⟩, hy⟩ := sends_ctrlSend lawfulPort (M := setupMem u M)
      (d := requested u) (e := ⟨0, .nak, b, l⟩) ⟨.app, A.buf⟩ hmod rfl hm h64
    rw [setupMem_read] at hcut hs
    have hn : (requested u).devReq.len.toNat = u.len := u.len_setup.symm
    rw [length_read, hn] at hs
    by_cases hz : A.sent u = 0 ∨ A.sent u < u.len ∧ 0 < A.sent u ∧ maxPacketSize ∣ A.sent u
    · -- an empty packet behind the full ones
      have hdvd : maxPacketSize ∣ (M.read ⟨.app, A.buf⟩ (A.sent u)).length := by
        rw [length_read]
        rcases hz with hz | hz
        · exact hz ▸ dvd_zero _
        · exact hz.2.2
      rw [decide_eq_true hz] at hs
      refine ⟨cs, [], y, hs, hy, hcut.full_of_dvd hdvd, by decide, ?_⟩
      rw [List.append_nil, hcut.flatten]
    · -- the last packet of the data is short
      have hdvd : ¬ maxPacketSize ∣ (M.read ⟨.app, A.buf⟩ (A.sent u)).length := by
        rw [length_read]
        intro hdvd
        have hpos : 0 < A.sent u := by
          rw [Nat.pos_iff_ne_zero]
          exact fun h0 => hz (.inl h0)
        have hle := Nat.le_of_dvd hpos hdvd
        have hall : A.sent u = u.len := by
          by_contra hne
          exact hz (.inr ⟨lt_of_le_of_ne sent_le hne, hpos, hdvd⟩)
        have hlt : 64 < A.sent u := lt_of_le_of_ne hle (Ne.symm h64)
        exact h ⟨hall ▸ hlt, .inr ⟨hall, hall ▸ hdvd⟩⟩
      obtain ⟨qs, p, rfl, hqs, hp⟩ := hcut.exists_last hdvd
      rw [decide_eq_false hz, zlp, if_neg Bool.false_ne_true, List.append_nil] at hs
      refine ⟨qs, p, y, hs, hy, hqs, hp, ?_⟩
      rw [← hcut.flatten]
      simp

/-- **The device is stalled** where the two threads do not agree. -/
theorem in_run_lost (hdir : u.dir = .dirIn) (h : InLost A u) :
    ∃ s, ForcedRun (step A) NotStalled (start u.toCtrlUrb D M b l w k) s ∧ ¬ NotStalled s := by
  obtain ⟨x, he, hx, hrun⟩ := in_setup (A := A) (u := u) (D := D) (M := M) (b := b)
    (l := l) (w := w) (k := k) hdir
  have hmod : A.m % 65536 ≤ 65535 := by omega
  have hn : (requested u).devReq.len.toNat = u.len := u.len_setup.symm
  have hm : A.sent u = min (A.m % 65536) (requested u).devReq.len.toNat := by
    rw [hn]
    rfl
  suffices hend : ∃ s, ForcedRun (step A) NotStalled
      (fetched u (u.more []) D [] x (setupMem u M)) s ∧ ¬ NotStalled s by
    obtain ⟨s, hrun', hs⟩ := hend
    exact ⟨s, hrun.trans hrun', hs⟩
  subst hx
  obtain ⟨hlt, h⟩ := h
  by_cases h64 : A.sent u = 64
  · -- the empty packet that has no reason ends the stage for the host controller
    obtain ⟨y, hs, -⟩ := sends_ctrlSend_max lawfulPort (M := setupMem u M) (d := requested u)
      (e := ⟨0, .nak, b, l⟩) ⟨.app, A.buf⟩ hmod rfl (h64.symm.trans hm)
    rw [hn, decide_eq_true (show maxPacketSize < u.len from hlt)] at hs
    have hfull : ∀ p ∈ [(setupMem u M).read ⟨.app, A.buf⟩ maxPacketSize], p.length = 64 := by
      intro q hq
      rw [List.mem_singleton.1 hq, length_read]
      rfl
    have hlen : ([(setupMem u M).read ⟨.app, A.buf⟩ maxPacketSize].flatten ++ []).length ≤
        u.len := by
      simp [maxPacketSize, hlt.le]
    obtain ⟨x', he', hs', hrun'⟩ := in_short (A := A) (u := u) (D := D) hfull (by decide) hs
      he hlen
    obtain ⟨s, hrun'', hstall⟩ := in_status_early (A := A) (u := u) (D := D)
      (M := setupMem u M) hs' he'
    exact ⟨s, hrun'.trans hrun'', hstall⟩
  · -- the host controller reads on after all bytes
    have hall : A.sent u = u.len ∧ 64 ∣ u.len := h.resolve_left h64
    obtain ⟨ps, y, hs, ⟨cs, hcut, rfl⟩, hy⟩ := sends_ctrlSend lawfulPort (M := setupMem u M)
      (d := requested u) (e := ⟨0, .nak, b, l⟩) ⟨.app, A.buf⟩ hmod rfl hm h64
    rw [length_read, hn, hall.1, decide_eq_false (by omega), zlp, if_neg Bool.false_ne_true] at hs
    rw [hall.1] at hcut
    have hdvd : maxPacketSize ∣ ((setupMem u M).read ⟨.app, A.buf⟩ u.len).length := by
      rw [length_read]
      exact hall.2
    have hlen : ([] ++ cs.flatten).length ≤ u.len := by
      rw [List.nil_append, hcut.flatten, length_read]
    obtain ⟨x', he', hs', hrun'⟩ := in_full (A := A) (u := u) (D := D)
      (hcut.full_of_dvd hdvd) hs he hlen
    cases hs' with
    | done _ =>
        obtain ⟨s, hrun'', hstall⟩ := in_late (A := A) (u := u) (D := D) (M := setupMem u M)
          hy he'
        exact ⟨s, hrun'.trans hrun'', hstall⟩

end

/-! ## Control write transfers -/

/-- The memory of the application after the host has sent `n` bytes. -/
def received (A : Sys.App) (M : Mem) (D : Memory Unit Byte) (n : Nat) : Mem :=
  M.write ⟨.app, A.p⟩ (D.read ⟨(), 0⟩ n)

/-- The device waits for the next packet, after `n` bytes. -/
structure Receiving (A : Sys.App) (u : Urb) (n : Nat) (d : UsbDev) (e : UsbControl) : Prop where
  state : d.state = .outData
  addr : d.ctrlData.addr = ⟨.app, A.p + n⟩
  len : d.ctrlData.len.toNat = u.len - n
  ready : e.state = .ready
  buf : e.buf = ⟨.app, A.p + n⟩
  space : e.len = Sys.count (u.len - n)
  eventfd : e.eventfd ≠ 0

/-- The host controller has sent `n` bytes. -/
def sentBytes (A : Sys.App) (u : Urb) (host : HostPt) (D : Memory Unit Byte) (n : Nat)
    (e : UsbControl) (d : UsbDev) (M : Mem) : Sys :=
  rest u host (u.len - n) n D e d (received A M D n)

/-- One packet of the host is one round. -/
theorem out_packet {n : Nat} (h : Receiving A u n d e) :
    ForcedRun (step A) NotStalled
      (sentBytes A u (.outRead (Sys.count (u.len - n))) D n e d M)
      (sentBytes A u (if Sys.count (u.len - n) < 64 then .outStatusRead
          else .outRead (Sys.count (u.len - (n + Sys.count (u.len - n))))) D
        (n + Sys.count (u.len - n))
        (handleDatastageOut d { e.acked with len := Sys.count (u.len - n) }).2
        (handleDatastageOut d { e.acked with len := Sys.count (u.len - n) }).1 M) := by
  have hns : d.state ≠ .stalled := by rw [h.state]; decide
  have hout : handleOut0 d { e.acked with len := Sys.count (u.len - n) } =
      handleDatastageOut d { e.acked with len := Sys.count (u.len - n) } := by
    rw [handleOut0, if_pos h.state]
  have hrun := out_round (A := A) (u := u) (m := u.len - n) (o := n) (D := D)
    (M := received A M D n) h.eventfd h.ready hns h.space.ge
  have hmem : (received A M D n).write e.buf (D.read ⟨(), n⟩ (Sys.count (u.len - n))) =
      received A M D (n + Sys.count (u.len - n)) := by
    rw [h.buf, received, received, ← write_write_read]
    simp [Ptr.add]
  rw [hout, hmem, Nat.sub_sub] at hrun
  exact hrun

theorem count_le (n : Nat) : Sys.count n ≤ n := by
  rw [Sys.count]
  split <;> omega

/-- The device when a packet has been handled. -/
theorem handleDatastageOut_eq {n c : Nat} (h : Receiving A u n d e) (hc : c ≤ u.len - n) :
    if u.len - n = c then
      (handleDatastageOut d { e.acked with len := c }).1.state = .waitStatusIn ∧
        (handleDatastageOut d { e.acked with len := c }).2.state = .ready ∧
        (handleDatastageOut d { e.acked with len := c }).2.eventfd ≠ 0
    else
      Receiving A u (n + c) (handleDatastageOut d { e.acked with len := c }).1
        (handleDatastageOut d { e.acked with len := c }).2 := by
  have hlen : (d.ctrlData.advance c).len.toNat = u.len - n - c := by
    rw [advance_len (h.len ▸ hc), h.len]
  have haddr : (d.ctrlData.advance c).addr = ⟨.app, A.p + (n + c)⟩ := by
    rw [CtrlData.advance, h.addr, Ptr.add, Nat.add_assoc]
  by_cases hz : u.len - n = c
  · have hlen0 : (d.ctrlData.advance c).len = 0 := by
      apply BitVec.eq_of_toNat_eq
      rw [hlen, hz, Nat.sub_self]
      rfl
    rw [if_pos hz, handleDatastageOut]
    dsimp only
    rw [if_pos hlen0]
    exact ⟨rfl, rfl, Nat.succ_ne_zero _⟩
  · have hlen0 : (d.ctrlData.advance c).len ≠ 0 := by
      intro h0
      rw [h0] at hlen
      change 0 = u.len - n - c at hlen
      omega
    rw [if_neg hz, handleDatastageOut]
    dsimp only
    rw [if_neg hlen0]
    refine ⟨rfl, haddr, ?_, rfl, haddr, ?_, Nat.succ_ne_zero _⟩
    · rw [hlen, Nat.sub_sub]
    · change packetLen _ = _
      rw [packetLen, hlen, Nat.sub_sub]
      rfl

/-- All bytes have been sent, and the device waits for the status packet. -/
structure Received (d : UsbDev) (e : UsbControl) : Prop where
  state : d.state = .waitStatusIn
  ready : e.state = .ready
  eventfd : e.eventfd ≠ 0

/-- The packets of a control write transfer.  After a last packet of 64 bytes the host
controller goes on to send. -/
theorem out_data {n : Nat} (h : Receiving A u n d e) (hn : n < u.len) :
    ∃ d' e', Received d' e' ∧ ForcedRun (step A) NotStalled
      (sentBytes A u (.outRead (Sys.count (u.len - n))) D n e d M)
      (sentBytes A u (if 64 ∣ u.len - n then .outRead 0 else .outStatusRead) D u.len e' d'
        M) := by
  induction hk : u.len - n using Nat.strong_induction_on generalizing n d e with
  | _ k ih =>
      subst hk
      have hrun := out_packet (D := D) (M := M) h
      have hdev := handleDatastageOut_eq h (count_le _)
      by_cases hle : u.len - n ≤ 64
      · -- the last packet
        have hc : Sys.count (u.len - n) = u.len - n := if_neg (by omega)
        have hall : n + (u.len - n) = u.len := by omega
        rw [hc] at hdev hrun ⊢
        rw [if_pos rfl] at hdev
        rw [hall, Nat.sub_self] at hrun
        refine ⟨_, _, ⟨hdev.1, hdev.2.1, hdev.2.2⟩, ?_⟩
        by_cases h64 : u.len - n = 64
        · rw [if_neg (by omega)] at hrun
          rw [if_pos (by omega)]
          exact hrun
        · rw [if_pos (by omega)] at hrun
          rw [if_neg (by omega)]
          exact hrun
      · -- a full packet, and more behind it
        have hc : Sys.count (u.len - n) = 64 := if_pos (by omega)
        rw [hc] at hdev hrun ⊢
        rw [if_neg (by omega)] at hdev
        rw [if_neg (lt_irrefl 64)] at hrun
        obtain ⟨d', e', hd', hrun'⟩ := ih (u.len - (n + 64)) (by omega) hdev (by omega) rfl
        refine ⟨d', e', hd', hrun.trans ?_⟩
        have hdvd : 64 ∣ u.len - (n + 64) ↔ 64 ∣ u.len - n := by omega
        simp only [hdvd] at hrun'
        exact hrun'

/-- The status packet of a control write transfer finds the device waiting for it. -/
theorem out_status (hdir : u.dir = .dirOut) (h : Received d e) :
    ∃ s, ForcedRun (step A) NotStalled (sentBytes A u .outStatusRead D u.len e d M) s ∧
      Idle s ∧ s.mem = received A M D u.len := by
  have hns : d.state ≠ .stalled := by rw [h.state]; decide
  have hin : (handleIn0 (received A M D u.len) d e.acked).1 =
      ({ d with state := .waitSetup }, e.acked.putReady usbSetup 8) := by
    rw [handleIn0, Usb.handleIn0, h.state]
    rfl
  have hrun := out_status_round (A := A) (u := u) (m := u.len - u.len) (o := u.len)
    (D := D) (M := received A M D u.len) h.eventfd h.ready hns
  rw [hin] at hrun
  refine ⟨_, hrun.trans (ready_round (Nat.succ_ne_zero _) rfl), ?_⟩
  rw [Sys.finish]
  simp only [rest, hdir]
  exact ⟨⟨rfl, rfl, rfl, rfl, rfl⟩, trivial⟩

/-- The device is stalled where the host controller sends an empty packet after all
bytes. -/
theorem out_late (h : Received d e) :
    ∃ s, ForcedRun (step A) NotStalled (sentBytes A u (.outRead 0) D u.len e d M) s ∧
      ¬ NotStalled s := by
  have hns : d.state ≠ .stalled := by rw [h.state]; decide
  refine ⟨_, out_round h.eventfd h.ready hns (Nat.zero_le _), ?_⟩
  have hout : handleOut0 d { e.acked with len := 0 } =
      ({ d with state := .stalled }, { e.acked with len := 0 }.putStall) := by
    rw [handleOut0, h.state]
    rfl
  rw [hout]
  exact fun h => h rfl

section

variable {b : Ptr Region} {l : Nat} {w : DeviceReq} {k : CtrlData}

/-- The application answers a control write request. -/
theorem out_setup (hdir : u.dir = .dirOut) :
    ∃ d e, ForcedRun (step A) NotStalled (start u.toCtrlUrb D M b l w k)
        (sentBytes A u u.first D 0 e d (setupMem u M)) ∧
      (0 < u.len → Receiving A u 0 d e) ∧ (u.len = 0 → Received d e) := by
  have hrun := setup_round (A := A) u D M b l w k
  have hmem : received A (setupMem u M) D 0 = setupMem u M := write_nil
  have htype : (requested u).devReq.type &&& requestDir = 0 := by
    by_contra hne
    have hin := u.dir_setup.2 hne
    rw [hdir] at hin
    cases hin
  have hlen : (requested u).devReq.len.toNat = u.len := u.len_setup.symm
  refine ⟨(A.answer (setupMem u M) (requested u) ⟨0, .nak, b, l⟩).1,
    (A.answer (setupMem u M) (requested u) ⟨0, .nak, b, l⟩).2, ?_, fun hpos => ?_,
    fun hzero => ?_⟩
  · rw [sentBytes, hmem]
    exact hrun
  · have hne : (requested u).devReq.len ≠ 0 := by
      intro h0
      rw [h0] at hlen
      change 0 = u.len at hlen
      omega
    rw [Sys.App.answer, if_neg (not_not.2 htype), if_neg hne, hlen]
    refine ⟨rfl, rfl, ?_, rfl, rfl, rfl, Nat.succ_ne_zero _⟩
    have hlt := (requested u).devReq.len.isLt
    exact Nat.mod_eq_of_lt (by omega)
  · have h0 : (requested u).devReq.len = 0 := BitVec.eq_of_toNat_eq (hlen.trans hzero)
    rw [Sys.App.answer, if_neg (not_not.2 htype), if_pos h0]
    exact ⟨rfl, rfl, Nat.succ_ne_zero _⟩

/-- **A control write transfer ends well** if the data are not a multiple of 64 bytes. -/
theorem out_run (hdir : u.dir = .dirOut) (h : ¬ (0 < u.len ∧ 64 ∣ u.len)) :
    ∃ s, ForcedRun (step A) NotStalled (start u.toCtrlUrb D M b l w k) s ∧ Idle s ∧
      s.mem = received A (setupMem u M) D u.len := by
  obtain ⟨d, e, hrun, hdata, hack⟩ := out_setup (A := A) (u := u) (D := D) (M := M)
    (b := b) (l := l) (w := w) (k := k) hdir
  by_cases hpos : 0 < u.len
  · obtain ⟨d', e', hrec, hrun'⟩ := out_data (D := D) (M := setupMem u M) (hdata hpos) hpos
    have hfirst : u.first = .outRead (Sys.count u.len) := by
      rw [Urb.first, hdir]
      exact if_neg (by omega)
    rw [Nat.sub_zero, if_neg (fun hdvd => h ⟨hpos, hdvd⟩), ← hfirst] at hrun'
    obtain ⟨s, hrun'', hs⟩ := out_status (A := A) (D := D) (M := setupMem u M) hdir hrec
    exact ⟨s, hrun.trans (hrun'.trans hrun''), hs⟩
  · have hzero : u.len = 0 := by omega
    have hfirst : u.first = .outStatusRead := by
      rw [Urb.first, hdir]
      exact if_pos hzero
    obtain ⟨s, hrun', hs⟩ := out_status (A := A) (D := D) (M := setupMem u M) hdir
      (hack hzero)
    rw [hfirst] at hrun
    simp only [hzero] at hrun'
    refine ⟨s, hrun.trans hrun', hs⟩

/-- **The device is stalled** if they are. -/
theorem out_run_lost (hdir : u.dir = .dirOut) (hpos : 0 < u.len) (hdvd : 64 ∣ u.len) :
    ∃ s, ForcedRun (step A) NotStalled (start u.toCtrlUrb D M b l w k) s ∧ ¬ NotStalled s := by
  obtain ⟨d, e, hrun, hdata, -⟩ := out_setup (A := A) (u := u) (D := D) (M := M)
    (b := b) (l := l) (w := w) (k := k) hdir
  obtain ⟨d', e', hrec, hrun'⟩ := out_data (D := D) (M := setupMem u M) (hdata hpos) hpos
  have hfirst : u.first = .outRead (Sys.count u.len) := by
    rw [Urb.first, hdir]
    exact if_neg (by omega)
  rw [Nat.sub_zero, if_pos hdvd, ← hfirst] at hrun'
  obtain ⟨s, hrun'', hs⟩ := out_late (A := A) (u := u) (D := D) (M := setupMem u M) hrec
  exact ⟨s, hrun.trans (hrun'.trans hrun''), hs⟩

end

/-! ## All transfers -/

/-- The transfer is over as it should be: the host has the first bytes of the buffer of the
application, or the application has all bytes of the host and its other memory is
unchanged.  The status of the reply is 0. -/
structure Transferred (A : Sys.App) (u : Urb) (D : Memory Unit Byte) (M : Mem) (s : Sys) :
    Prop where
  idle : Idle s
  fetched : u.dir = .dirIn →
    s.data.read ⟨(), 0⟩ s.len = M.read ⟨.app, A.buf⟩ (min A.m u.len)
  received : u.dir = .dirOut →
    s.mem.read ⟨.app, A.p⟩ u.len = D.read ⟨(), 0⟩ u.len ∧
      ∀ i, i < A.p ∨ A.p + u.len ≤ i → s.mem .app i = M .app i

/-- The two threads agree on the end of the data stage, and `buflen` fits in 16 bits where
the host asks for all of it. -/
def Agree (A : Sys.App) (u : Urb) : Prop :=
  match u.dir with
  | .dirIn => A.sent u = min A.m u.len ∧ ¬ InLost A u
  | .dirOut => ¬ (0 < u.len ∧ 64 ∣ u.len)

/-- A transfer in which the device is stalled is not carried out. -/
theorem not_transferred (h : ∃ s₁, ForcedRun (step A) NotStalled s s₁ ∧ ¬ NotStalled s₁) :
    ¬ Eventually (step A) NotStalled (Transferred A u D M) s := by
  obtain ⟨s₁, hrun, hs⟩ := h
  exact fun hall => hs (hall.always (fun _ h => h.idle.terminal) hrun.steps)

/-- **A control transfer is carried out, and the device never stalled, if and only if the
two threads agree**, whatever the order of their steps. -/
theorem transferred_iff (A : Sys.App) (u : Urb) (D : Memory Unit Byte) (M : Mem)
    (b : Ptr Region) (l : Nat) (w : DeviceReq) (k : CtrlData) :
    Eventually (step A) NotStalled (Transferred A u D M) (start u.toCtrlUrb D M b l w k) ↔
      Agree A u := by
  have hend : ∀ s : Sys, Idle s → NotStalled s := by
    intro s hs
    rw [NotStalled, hs.dev]
    exact ControlState.noConfusion
  rw [Agree]
  cases hdir : u.dir with
  | dirIn =>
      constructor
      · intro hall
        have hin : ¬ InLost A u := fun h => not_transferred (in_run_lost hdir h) hall
        refine ⟨?_, hin⟩
        obtain ⟨s, hrun, hidle, hlen, -⟩ := in_run (D := D) (M := M) (b := b)
          (l := l) (w := w) (k := k) hdir hin
        have htr := hall.terminal (fun _ h => h.idle.terminal) hrun.steps hidle.terminal
        have heq := congrArg List.length (htr.fetched hdir)
        rwa [length_read, length_read, hlen] at heq
      · rintro ⟨hsent, hin⟩
        obtain ⟨s, hrun, hidle, hlen, hdata⟩ := in_run (D := D) (M := M) (b := b)
          (l := l) (w := w) (k := k) hdir hin
        refine hrun.eventually (.here (hend s hidle) ⟨hidle, fun _ => ?_, fun h => ?_⟩)
        · rw [hlen, hdata, hsent]
        · rw [hdir] at h
          cases h
  | dirOut =>
      constructor
      · rintro hall ⟨hpos, hdvd⟩
        exact not_transferred (out_run_lost hdir hpos hdvd) hall
      · intro h
        obtain ⟨s, hrun, hidle, hmem⟩ := out_run (D := D) (M := M) (b := b)
          (l := l) (w := w) (k := k) hdir h
        refine hrun.eventually (.here (hend s hidle) ⟨hidle, fun hin => ?_, fun _ => ⟨?_, ?_⟩⟩)
        · rw [hdir] at hin
          cases hin
        · rw [hmem, received, read_write_read]
        · intro i hi
          rw [hmem, received, write_outside (by rw [length_read]; exact hi)]
          exact congrFun (write_base_ne Region.noConfusion) i

/-- A request of a vendor that sends 64 bytes to the device. -/
def write64 : Urb where
  dir := .dirOut
  len := 64
  setup := [0x40, 0, 0, 0, 0, 0, 64, 0]
  setup_length := rfl
  dir_setup := by decide
  len_setup := by decide

/-- A request `GET_DESCRIPTOR` that asks for `n` bytes, where `n` is less than 256. -/
def readDescriptor (n : Fin 256) : Urb where
  dir := .dirIn
  len := n
  setup := [0x80, 6, 0, 1, 0, 0, BitVec.ofFin n, 0]
  setup_length := rfl
  dir_setup := by simp [requestDir]
  len_setup := by
    have h (b : Byte) : (0#8 ++ b).toNat = b.toNat := by
      rw [BitVec.toNat_append]
      simp
    exact (h (BitVec.ofFin n)).symm

/-- The start of a transfer, with memory that is all 0. -/
def start0 (u : Urb) : Sys :=
  start u.toCtrlUrb (fun _ _ => 0) (fun _ _ => 0) usbSetup 8 (getDescriptor 0)
    ⟨Region.null.ptr, 0, false⟩

/-- The device is stalled when the host sends 64 bytes, when it asks for 128 bytes and gets
them, and when it asks for 255 bytes where the application has 64. -/
theorem not_transferred_multiple :
    (¬ Eventually (step ⟨0, 64, 0⟩) NotStalled
        (Transferred ⟨0, 64, 0⟩ write64 (fun _ _ => 0) fun _ _ => 0) (start0 write64)) ∧
      (¬ Eventually (step ⟨0, 128, 0⟩) NotStalled
        (Transferred ⟨0, 128, 0⟩ (readDescriptor 128) (fun _ _ => 0) fun _ _ => 0)
        (start0 (readDescriptor 128))) ∧
      ¬ Eventually (step ⟨0, 64, 0⟩) NotStalled
        (Transferred ⟨0, 64, 0⟩ (readDescriptor 255) (fun _ _ => 0) fun _ _ => 0)
        (start0 (readDescriptor 255)) := by
  refine ⟨not_transferred (out_run_lost rfl (by decide) (by decide)),
    not_transferred (in_run_lost rfl ?_), not_transferred (in_run_lost rfl ?_)⟩
  · exact ⟨by decide, .inr ⟨by decide, by decide⟩⟩
  · exact ⟨by decide, .inl (by decide)⟩

end Chopstx.Usb.Usbip
