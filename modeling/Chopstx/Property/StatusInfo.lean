import Chopstx.Usb.UsbipEndp

/-!
# What GET_STATUS says of an endpoint

The USBIP emulation keeps `status_info` in a static variable.  A `GET_STATUS` for the device
sets or clears its two bits; one for an endpoint only ever sets bit 0.  So the answer for an
endpoint is right when nothing was left in the variable, and what is left in it is a matter
of the requests before.

* `Event`, `device` - a history of requests and other events, and the device after it.
* `Asks` - a `GET_STATUS` for an endpoint that is enabled.
* `FindsWakeup`, `FindsOne` - what the history has left in the variable; `Left` is both.
* `setupRequest_statusInfo` - what a request does to the variable.
* `Keeps.request`, `keeps_device` - the step lemma and the run lemma.
* `getStatus_right_iff` - the result about histories.
* `getStatus_right_stalled`, `getStatus_wrong` - an answer that is right, and one that is wrong.
-/

namespace Chopstx.Usb.Usbip.Status

/-! ## Histories -/

/-- What happens to the device. -/
abbrev Event := DevEvent EpStates

/-- The device at first. -/
def boot (feature : Byte) : StdDev EpStates :=
  ⟨0, feature, 0, ⟨fun _ => .disabled, fun _ => .disabled⟩⟩

/-- The device after a history, whose last event comes first. -/
def device (feature : Byte) (es : List Event) : StdDev EpStates :=
  (boot feature).history stdPort es

/-- The request is a `GET_STATUS` for a recipient, and it is accepted. -/
structure Asks (d : StdDev EpStates) (arg : DeviceReq) (rcp : Byte) : Prop where
  standard : arg.type &&& requestType = standardRequest
  request : arg.request = 0
  recipient : arg.rcp = rcp
  accepted : ∃ bs, (setupRequest stdPort d arg).1 = .send bs

/-- The endpoint that a request addresses is stalled. -/
def Halted (d : StdDev EpStates) (arg : DeviceReq) : Prop :=
  d.eps.get arg.isIn arg.endpoint = .stall

/-- A `GET_STATUS` for the device that finds remote wakeup enabled. -/
def FindsWakeup (d : StdDev EpStates) (arg : DeviceReq) : Prop :=
  Asks d arg deviceRecipient ∧ d.feature &&& 0x20 ≠ 0

/-- A `GET_STATUS` that finds the device powered by the bus, or the endpoint stalled. -/
def FindsOne (d : StdDev EpStates) (arg : DeviceReq) : Prop :=
  Asks d arg deviceRecipient ∧ d.feature &&& 0x40 ≠ 0 ∨
    Asks d arg endpointRecipient ∧ Halted d arg

/-- A request of the history has found something, and there was no `GET_STATUS` for the device
since. -/
def Left (finds : StdDev EpStates → DeviceReq → Prop) (feature : Byte) : List Event → Prop
  | [] => False
  | e :: es =>
      (∃ arg, e = .request arg ∧ finds (device feature es) arg) ∨
        Left finds feature es ∧
          ∀ arg, e = .request arg → ¬ Asks (device feature es) arg deviceRecipient

/-! ## What a request does to `status_info` -/

variable {d : StdDev EpStates} {arg : DeviceReq} {feature : Byte} {es : List Event} {e : Event}
  {one wakeup : Bool}

/-- The variable with its two bits. -/
def bits (one wakeup : Bool) : BitVec 16 := (if one then 1 else 0) ||| (if wakeup then 2 else 0)

theorem deviceStatus_bits : deviceStatus feature (bits one wakeup) =
    bits (feature &&& 0x40 ≠ 0) (feature &&& 0x20 ≠ 0) := by
  rw [deviceStatus]
  generalize decide (feature &&& 0x40 ≠ 0) = a, decide (feature &&& 0x20 ≠ 0) = b
  cases a <;> cases b <;> cases one <;> cases wakeup <;> decide

theorem epStatus_bits {h : Bool} :
    stdPort.epStatus h (bits one wakeup) = bits (one || h) wakeup := by
  cases h <;> cases one <;> cases wakeup <;> decide

theorem bits_zero : bits one wakeup = 0 ↔ one = false ∧ wakeup = false := by
  cases one <;> cases wakeup <;> decide

theorem bits_one : bits one wakeup = 1 ↔ one = true ∧ wakeup = false := by
  cases one <;> cases wakeup <;> decide

/-- Only `GET_STATUS` sends or keeps something of `status_info`. -/
theorem stdGetStatus_cases :
    (arg.rcp = deviceRecipient ∧ stdGetStatus d arg = sendStatus d (deviceStatus d.feature
        d.statusInfo)) ∨
      (arg.rcp = endpointRecipient ∧ stdGetStatus d arg = sendStatus d (stdPort.epStatus
        (stdPort.halted arg.isIn arg.endpoint d.eps) d.statusInfo)) ∨
      (∀ bs, (stdGetStatus d arg).1 ≠ .send bs) ∧ (stdGetStatus d arg).2 = d := by
  rw [stdGetStatus, Usb.stdGetStatus]
  split
  · exact .inr (.inr ⟨(by simp), rfl⟩)
  · split
    · rename_i hrcp
      split
      · exact .inl ⟨hrcp, rfl⟩
      · exact .inr (.inr ⟨(by simp), rfl⟩)
    · split
      · split
        · exact .inr (.inr ⟨(by simp), rfl⟩)
        · exact .inr (.inr ⟨(by simp), rfl⟩)
      · split
        · rename_i hrcp
          split
          · exact .inr (.inr ⟨(by simp), rfl⟩)
          · split
            · exact .inr (.inr ⟨(by simp), rfl⟩)
            · exact .inr (.inl ⟨hrcp, rfl⟩)
        · exact .inr (.inr ⟨(by simp), rfl⟩)

theorem setupRequest_getStatus (hstd : arg.type &&& requestType = standardRequest)
    (hreq : arg.request = 0) : setupRequest stdPort d arg = stdGetStatus d arg := by
  rw [setupRequest, if_pos hstd, hreq]
  rfl

/-- The other requests leave the variable as it is. -/
theorem setupRequest_statusInfo
    (h : ¬ (arg.type &&& requestType = standardRequest ∧ arg.request = 0)) :
    (setupRequest stdPort d arg).2.statusInfo = d.statusInfo := by
  have hfeature : ∀ dev ep : Outcome × StdDev EpStates, dev.2.statusInfo = d.statusInfo →
      ep.2.statusInfo = d.statusInfo →
        (stdFeature stdPort d arg dev ep).2.statusInfo = d.statusInfo := by
    intro dev ep hdev hep
    rcases stdFeature_cases (P := stdPort) (d := d) with h | h | h
    · rw [h]
    · rw [h, hdev]
    · rw [h, hep]
  rw [setupRequest]
  split
  · rename_i hstd
    split
    · rename_i hreq
      exact absurd ⟨hstd, BitVec.eq_of_toNat_eq hreq⟩ h
    · exact hfeature _ _ rfl rfl
    · exact hfeature _ _ rfl rfl
    all_goals rfl
  · rfl

/-- A `GET_STATUS` for the device. -/
theorem Asks.ofDevice (h : Asks d arg deviceRecipient) :
    setupRequest stdPort d arg = sendStatus d (deviceStatus d.feature d.statusInfo) := by
  have hget := setupRequest_getStatus (d := d) h.standard h.request
  obtain ⟨bs, hbs⟩ := h.accepted
  rw [hget] at hbs ⊢
  rcases stdGetStatus_cases with ⟨-, heq⟩ | ⟨hrcp, -⟩ | ⟨hno, -⟩
  · exact heq
  · rw [h.recipient] at hrcp
    exact absurd hrcp (by decide)
  · exact absurd hbs (hno bs)

/-- A `GET_STATUS` for an endpoint. -/
theorem Asks.ofEndpoint (h : Asks d arg endpointRecipient) :
    setupRequest stdPort d arg = sendStatus d (stdPort.epStatus
      (stdPort.halted arg.isIn arg.endpoint d.eps) d.statusInfo) := by
  have hget := setupRequest_getStatus (d := d) h.standard h.request
  obtain ⟨bs, hbs⟩ := h.accepted
  rw [hget] at hbs ⊢
  rcases stdGetStatus_cases with ⟨hrcp, -⟩ | ⟨-, heq⟩ | ⟨hno, -⟩
  · rw [h.recipient] at hrcp
    exact absurd hrcp (by decide)
  · exact heq
  · exact absurd hbs (hno bs)

/-- A request that is no accepted `GET_STATUS`. -/
theorem statusInfo_of_not_asks (hdev : ¬ Asks d arg deviceRecipient)
    (hep : ¬ Asks d arg endpointRecipient) :
    (setupRequest stdPort d arg).2.statusInfo = d.statusInfo := by
  by_cases h : arg.type &&& requestType = standardRequest ∧ arg.request = 0
  · have hget := setupRequest_getStatus (d := d) h.1 h.2
    rw [hget]
    rcases stdGetStatus_cases with ⟨hrcp, heq⟩ | ⟨hrcp, heq⟩ | ⟨-, heq⟩
    · exact absurd ⟨h.1, h.2, hrcp, _, by rw [hget, heq]; rfl⟩ hdev
    · exact absurd ⟨h.1, h.2, hrcp, _, by rw [hget, heq]; rfl⟩ hep
    · rw [heq]
  · exact setupRequest_statusInfo h

/-! ## What is left in the variable -/

/-- The bits of `status_info` say what is left of the history. -/
def Keeps (feature : Byte) (es : List Event) (d : StdDev EpStates) : Prop :=
  ∃ one wakeup, d.statusInfo = bits one wakeup ∧
    (one = true ↔ Left FindsOne feature es) ∧ (wakeup = true ↔ Left FindsWakeup feature es)

theorem device_endpoint_ne : ¬ (Asks d arg deviceRecipient ∧ Asks d arg endpointRecipient) := by
  rintro ⟨hdev, hep⟩
  have := hdev.recipient.symm.trans hep.recipient
  exact absurd this (by decide)

/-- What a request has left, beside what was left before. -/
theorem left_request {finds : StdDev EpStates → DeviceReq → Prop} :
    Left finds feature (.request arg :: es) ↔ finds (device feature es) arg ∨
      Left finds feature es ∧ ¬ Asks (device feature es) arg deviceRecipient := by
  simp [Left]

/-- After a `GET_STATUS` for the device nothing is left of what was before. -/
theorem left_cleared {finds : StdDev EpStates → DeviceReq → Prop}
    (h : Asks (device feature es) arg deviceRecipient) :
    Left finds feature (.request arg :: es) ↔ finds (device feature es) arg := by
  simp [left_request, h]

theorem device_request : device feature (.request arg :: es) =
    (setupRequest stdPort (device feature es) arg).2 := rfl

/-- One request. -/
theorem Keeps.request (h : Keeps feature es (device feature es)) :
    Keeps feature (.request arg :: es) (device feature (.request arg :: es)) := by
  obtain ⟨one, wakeup, hinfo, hone, hwakeup⟩ := h
  simp only [Keeps, left_request, device_request]
  set d := device feature es
  by_cases hdev : Asks d arg deviceRecipient
  · have hep : ¬ Asks d arg endpointRecipient := fun hep => device_endpoint_ne ⟨hdev, hep⟩
    refine ⟨d.feature &&& 0x40 ≠ 0, d.feature &&& 0x20 ≠ 0, ?_, ?_, ?_⟩
    · rw [hdev.ofDevice, sendStatus, hinfo, deviceStatus_bits]
    · simp [FindsOne, hdev, hep]
    · simp [FindsWakeup, hdev]
  · by_cases hep : Asks d arg endpointRecipient
    · refine ⟨one || stdPort.halted arg.isIn arg.endpoint d.eps, wakeup, ?_, ?_, ?_⟩
      · rw [hep.ofEndpoint, sendStatus, hinfo, epStatus_bits]
      · rw [Bool.or_eq_true, hone]
        simp only [FindsOne, hdev, hep, false_and, true_and, false_or, not_false_iff, and_true]
        rw [or_comm]
        exact or_congr_left decide_eq_true_iff
      · simp [FindsWakeup, hdev, hwakeup]
    · refine ⟨one, wakeup, ?_, ?_, ?_⟩
      · rw [statusInfo_of_not_asks hdev hep, hinfo]
      · simp [FindsOne, hdev, hep, hone]
      · simp [FindsWakeup, hdev, hwakeup]

/-- After every history. -/
theorem keeps_device (feature : Byte) (es : List Event) :
    Keeps feature es (device feature es) := by
  induction es with
  | nil => exact ⟨false, false, rfl, by simp [Left], by simp [Left]⟩
  | cons e es ih =>
      cases e with
      | request arg => exact ih.request
      | other eps configuration feature' =>
          obtain ⟨one, wakeup, hinfo, hone, hwakeup⟩ := ih
          refine ⟨one, wakeup, hinfo, ?_, ?_⟩
          · simp [Left, hone]
          · simp [Left, hwakeup]

/-! ## The answer -/

/-- The answer for an endpoint that is stalled is 1 unless remote wakeup was found. -/
theorem answer_halted (h : Asks (device feature es) arg endpointRecipient)
    (hst : Halted (device feature es) arg) :
    (setupRequest stdPort (device feature es) arg).1 = .send (statusBytes 1) ↔
      ¬ Left FindsWakeup feature es := by
  obtain ⟨one, wakeup, hinfo, -, hwakeup⟩ := keeps_device feature es
  have hhalt : stdPort.halted arg.isIn arg.endpoint (device feature es).eps = true :=
    decide_eq_true hst
  rw [h.ofEndpoint, sendStatus, hinfo, epStatus_bits, ← hwakeup, Outcome.send.injEq, hhalt,
    Bool.or_true]
  refine ⟨fun heq => ?_, fun heq => ?_⟩
  · have hbits := bits_one.1 (statusBytes_injective heq)
    simp [hbits.2]
  · rw [bits_one.2 ⟨rfl, by simpa using heq⟩]

/-- The answer for an endpoint that is not stalled is 0 unless something was found. -/
theorem answer_not_halted (h : Asks (device feature es) arg endpointRecipient)
    (hst : ¬ Halted (device feature es) arg) :
    (setupRequest stdPort (device feature es) arg).1 = .send (statusBytes 0) ↔
      ¬ Left FindsWakeup feature es ∧ ¬ Left FindsOne feature es := by
  obtain ⟨one, wakeup, hinfo, hone, hwakeup⟩ := keeps_device feature es
  have hhalt : stdPort.halted arg.isIn arg.endpoint (device feature es).eps = false :=
    decide_eq_false hst
  rw [h.ofEndpoint, sendStatus, hinfo, epStatus_bits, ← hone, ← hwakeup, Outcome.send.injEq, hhalt,
    Bool.or_false]
  refine ⟨fun heq => ?_, fun heq => ?_⟩
  · have hbits := bits_zero.1 (statusBytes_injective heq)
    simp [hbits.1, hbits.2]
  · rw [bits_zero.2 ⟨by simpa using heq.2, by simpa using heq.1⟩]

/-- **The answer to a `GET_STATUS` for an endpoint says whether the endpoint is stalled if and
only if nothing else is left of the history**: no remote wakeup, and, if the endpoint is not
stalled, neither power from the bus nor an endpoint that was stalled. -/
theorem getStatus_right_iff (feature : Byte) (es : List Event) (arg : DeviceReq)
    (h : Asks (device feature es) arg endpointRecipient) :
    ((setupRequest stdPort (device feature es) arg).1 =
        .send (statusBytes (if (device feature es).eps.get arg.isIn arg.endpoint = .stall then 1
        else 0))) ↔
      ¬ Left FindsWakeup feature es ∧
        (Left FindsOne feature es → Halted (device feature es) arg) := by
  by_cases hst : Halted (device feature es) arg
  · have hget : (device feature es).eps.get arg.isIn arg.endpoint = .stall := hst
    rw [if_pos hget, answer_halted h hst]
    simp [hst]
  · have hget : ¬ (device feature es).eps.get arg.isIn arg.endpoint = .stall := hst
    rw [if_neg hget, answer_not_halted h hst]
    simp [hst]

/-- An endpoint that is enabled, and a `GET_STATUS` for the device with remote wakeup. -/
def wakeupHistory : List Event :=
  [.request ⟨0x80, 0, 0, 0, 2⟩, .other ⟨fun _ => .nak, fun _ => .nak⟩ 1 0x20]

theorem wakeup_asks : Asks (device 0 wakeupHistory) ⟨0x82, 0, 0, 0x81, 2⟩ endpointRecipient :=
  ⟨by decide, by decide, by decide, ⟨[2, 0], by decide⟩⟩

/-- A stalled endpoint is found stalled after a `GET_STATUS` for another one. -/
theorem getStatus_right_stalled :
    (setupRequest stdPort (device 0 [.request ⟨0x82, 0, 0, 0x02, 2⟩,
        .other ⟨fun _ => .stall, fun _ => .stall⟩ 1 0]) ⟨0x82, 0, 0, 0x81, 2⟩).1 =
      .send (statusBytes 1) := by
  have hasks : Asks (device 0 [.request ⟨0x82, 0, 0, 0x02, 2⟩,
      .other ⟨fun _ => .stall, fun _ => .stall⟩ 1 0]) ⟨0x82, 0, 0, 0x81, 2⟩ endpointRecipient :=
    ⟨by decide, by decide, by decide, ⟨[1, 0], by decide⟩⟩
  refine (getStatus_right_iff 0 _ _ hasks).2 ⟨?_, fun _ => rfl⟩
  rintro (⟨arg, heq, hasks, -⟩ | ⟨⟨arg, heq, -⟩ | ⟨h, -⟩, -⟩)
  · cases heq
    exact absurd hasks.recipient (by decide)
  · cases heq
  · exact h

/-- After a `GET_STATUS` for the device with remote wakeup the two bytes for an endpoint that
is not stalled are 2 and 0. -/
theorem getStatus_wrong :
    Asks (device 0 wakeupHistory) ⟨0x82, 0, 0, 0x81, 2⟩ endpointRecipient ∧
      (device 0 wakeupHistory).eps.get true 1 ≠ .stall ∧
      (setupRequest stdPort (device 0 wakeupHistory) ⟨0x82, 0, 0, 0x81, 2⟩).1 ≠
        .send (statusBytes 0) :=
  ⟨wakeup_asks, by decide, by decide⟩

end Chopstx.Usb.Usbip.Status
