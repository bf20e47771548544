import Chopstx.Usb.Lld

/-!
# The standard requests of the USB drivers

The handlers of the standard requests are the same in the three drivers but for the way an
endpoint is looked at, stalled and released: this is a `StdPort`.  A handler says what is to
be done, and changes the record of the device: to stall endpoint 0, to send data, to
acknowledge, or to report the request to the application.

* `StdDev`, `StdPort`, `Outcome`, `Request` - the record, the endpoints, and the results.
* `stdGetStatus`, `stdClearFeature`, `stdSetFeature` and the others - the handlers, and
  `setupRequest` the choice among them.
* `setupRequest_eps` - what a request does to the endpoints: it halts the endpoint that it
  addresses, releases it, or leaves all of them alone.
* `setupRequest_configuration` - the configuration is left to the application.
* `DevEvent`, `history` - requests and other changes one after another, and the record after them.
-/

namespace Chopstx.Usb

/-! ## Requests -/

/-- `REQUEST_DIR` -/
def reqDir : Byte := 0x80

/-- `STANDARD_REQUEST` -/
def standardRequest : Byte := 0x00

/-- `FEATURE_ENDPOINT_HALT` and `FEATURE_DEVICE_REMOTE_WAKEUP` -/
def featureEndpointHalt : BitVec 16 := 0
def featureDeviceRemoteWakeup : BitVec 16 := 1

/-- `DEVICE_RECIPIENT`, `INTERFACE_RECIPIENT` and `ENDPOINT_RECIPIENT` -/
def deviceRecipient : Byte := 0
def interfaceRecipient : Byte := 1
def endpointRecipient : Byte := 2

namespace DeviceReq

variable (arg : DeviceReq)

/-- `USB_SETUP_SET (arg->type)` -/
def isSet : Bool := arg.type &&& reqDir = 0

/-- `USB_SETUP_GET (arg->type)` -/
def isGet : Bool := arg.type &&& reqDir ≠ 0

/-- `arg->type & RECIPIENT` -/
def rcp : Byte := arg.type &&& recipient

/-- `arg->index & 0x0f` -/
def endpoint : Nat := (arg.index &&& 0x0f).toNat

/-- `arg->index & 0x80` as a condition: the endpoint address is one of the direction IN. -/
def isIn : Bool := arg.index &&& 0x80 ≠ 0

end DeviceReq

/-- The requests that are reported to the application, which then sends, receives,
acknowledges, or stalls the endpoint. -/
inductive Request where
  | setConfiguration
  | setInterface
  | setFeatureDevice
  | setFeatureEndpoint
  | clearFeatureDevice
  | clearFeatureEndpoint
  | getStatusInterface
  | getDescriptor
  | getInterface
  | ctrlRequest
  deriving DecidableEq, Repr

/-- What a handler ends with: it returns -1, it calls `usb_lld_ctrl_send` for some bytes or
`usb_lld_ctrl_ack`, or it returns the event that reports the request. -/
inductive Outcome where
  | fail
  | send (data : List Byte)
  | ack
  | report (r : Request)
  deriving DecidableEq, Repr

/-- The record of the device as the handlers use it, with the endpoints.  `statusInfo` is the
static variable `status_info` where the driver has one. -/
structure StdDev (σ : Type) where
  configuration : Byte
  feature : Byte
  statusInfo : BitVec 16
  eps : σ

/-- What the handlers of a driver do with an endpoint, given by its direction (IN or not) and
its number. -/
structure StdPort (σ : Type) where
  /-- The value of `status_info` when `std_get_status` begins. -/
  status₀ : BitVec 16 → BitVec 16
  /-- The endpoint is disabled. -/
  disabled : Bool → Nat → σ → Bool
  /-- The endpoint is stalled. -/
  halted : Bool → Nat → σ → Bool
  /-- `status_info` for an endpoint that is stalled or not. -/
  epStatus : Bool → BitVec 16 → BitVec 16
  /-- What `std_clear_feature` does with the endpoint. -/
  clearHalt : Bool → Nat → σ → σ
  /-- What `std_set_feature` does with the endpoint. -/
  setHalt : Bool → Nat → σ → σ

/-- A bit of `status_info` is set or cleared. -/
def putBit (mask : BitVec 16) (on : Bool) (s : BitVec 16) : BitVec 16 :=
  if on then s ||| mask else s &&& ~~~mask

/-- `status_info` for the device: the bits remote wakeup and self-powered. -/
def deviceStatus (feature : Byte) (s : BitVec 16) : BitVec 16 :=
  putBit 1 (feature &&& 0x40 ≠ 0) (putBit 2 (feature &&& 0x20 ≠ 0) s)

/-- The two bytes of `status_info` in memory. -/
def statusBytes (s : BitVec 16) : List Byte := [s.setWidth 8, (s >>> 8).setWidth 8]

theorem statusBytes_injective {s t : BitVec 16} (h : statusBytes s = statusBytes t) : s = t := by
  simp only [statusBytes, List.cons.injEq, and_true] at h
  apply BitVec.eq_of_getLsbD_eq
  intro i hi
  have hlow := congrArg (fun b : Byte => b.getLsbD i) h.1
  have hhigh := congrArg (fun b : Byte => b.getLsbD (i - 8)) h.2
  rcases Nat.lt_or_ge i 8 with hlt | hge
  · simpa [hlt] using hlow
  · have hi' : 8 + (i - 8) = i := by omega
    have hlt : i - 8 < 8 := by omega
    simpa [hlt, hi'] using hhigh

section

variable {σ : Type} (P : StdPort σ) (d : StdDev σ) (arg : DeviceReq)

/-- `usb_lld_ctrl_send (dev, &status_info, 2)` -/
def sendStatus (s : BitVec 16) : Outcome × StdDev σ :=
  (.send (statusBytes s), { d with statusInfo := s })

/-- `std_get_status` -/
def stdGetStatus : Outcome × StdDev σ :=
  if arg.value ≠ 0 ∨ arg.len ≠ 2 ∨ arg.index >>> 8 ≠ 0 ∨ arg.isSet then (.fail, d)
  else if arg.rcp = deviceRecipient then
    if arg.index = 0 then sendStatus d (deviceStatus d.feature (P.status₀ d.statusInfo))
    else (.fail, d)
  else if arg.rcp = interfaceRecipient then
    if d.configuration = 0 then (.fail, d) else (.report .getStatusInterface, d)
  else if arg.rcp = endpointRecipient then
    if arg.index &&& 0x70 ≠ 0 ∨ arg.endpoint = 0 then (.fail, d)
    else if P.disabled arg.isIn arg.endpoint d.eps then (.fail, d)
    else
      sendStatus d (P.epStatus (P.halted arg.isIn arg.endpoint d.eps) (P.status₀ d.statusInfo))
  else (.fail, d)

/-- The part that `std_clear_feature` and `std_set_feature` have in common: `dev` for the
feature of the device, `ep` for the endpoint. -/
def stdFeature (dev ep : Outcome × StdDev σ) : Outcome × StdDev σ :=
  if arg.isGet then (.fail, d)
  else if arg.rcp = deviceRecipient then
    if arg.len ≠ 0 ∨ arg.index ≠ 0 then (.fail, d)
    else if arg.value = featureDeviceRemoteWakeup then dev
    else (.fail, d)
  else if arg.rcp = endpointRecipient then
    if d.configuration = 0 then (.fail, d)
    else if arg.len ≠ 0 ∨ arg.index >>> 8 ≠ 0 ∨ arg.value ≠ featureEndpointHalt ∨
        arg.endpoint = 0 then (.fail, d)
    else if P.disabled arg.isIn arg.endpoint d.eps then (.fail, d)
    else ep
  else (.fail, d)

/-- `std_clear_feature` -/
def stdClearFeature : Outcome × StdDev σ :=
  stdFeature P d arg
    (.report .clearFeatureDevice, { d with feature := d.feature &&& ~~~0x20 })
    (.report .clearFeatureEndpoint, { d with eps := P.clearHalt arg.isIn arg.endpoint d.eps })

/-- `std_set_feature` -/
def stdSetFeature : Outcome × StdDev σ :=
  stdFeature P d arg
    (.report .setFeatureDevice, { d with feature := d.feature ||| 0x20 })
    (.report .setFeatureEndpoint, { d with eps := P.setHalt arg.isIn arg.endpoint d.eps })

/-- `std_set_address` -/
def stdSetAddress : Outcome :=
  if arg.isGet then .fail
  else if arg.rcp = deviceRecipient ∧ arg.len = 0 ∧ arg.value ≤ 127 ∧ arg.index = 0 ∧
      d.configuration = 0 then .ack
  else .fail

/-- `std_get_descriptor` -/
def stdGetDescriptor : Outcome :=
  if arg.isSet then .fail else .report .getDescriptor

/-- `std_get_configuration` -/
def stdGetConfiguration : Outcome :=
  if arg.isSet then .fail
  else if arg.value ≠ 0 ∨ arg.index ≠ 0 ∨ arg.len ≠ 1 then .fail
  else if arg.rcp = deviceRecipient then .send [d.configuration]
  else .fail

/-- `std_set_configuration` -/
def stdSetConfiguration : Outcome :=
  if arg.isGet then .fail
  else if arg.index ≠ 0 ∨ arg.len ≠ 0 then .fail
  else if arg.rcp = deviceRecipient then .report .setConfiguration
  else .fail

/-- `std_get_interface` -/
def stdGetInterface : Outcome :=
  if arg.isSet then .fail
  else if arg.value ≠ 0 ∨ arg.index >>> 8 ≠ 0 ∨ arg.len ≠ 1 then .fail
  else if d.configuration = 0 then .fail
  else if arg.rcp = interfaceRecipient then .report .getInterface
  else .fail

/-- `std_set_interface` -/
def stdSetInterface : Outcome :=
  if arg.isGet ∨ arg.rcp ≠ interfaceRecipient ∨ arg.len ≠ 0 ∨ arg.index >>> 8 ≠ 0 ∨
      arg.value >>> 8 ≠ 0 ∨ d.configuration = 0 then .fail
  else .report .setInterface

/-- The request in `handle_setup0`: the handler by the number of the request, where it is a
standard one. -/
def setupRequest : Outcome × StdDev σ :=
  if arg.type &&& requestType = standardRequest then
    match arg.request.toNat with
    | 0 => stdGetStatus P d arg
    | 1 => stdClearFeature P d arg
    | 3 => stdSetFeature P d arg
    | 5 => (stdSetAddress d arg, d)
    | 6 => (stdGetDescriptor arg, d)
    | 8 => (stdGetConfiguration d arg, d)
    | 9 => (stdSetConfiguration arg, d)
    | 10 => (stdGetInterface d arg, d)
    | 11 => (stdSetInterface d arg, d)
    | _ => (.fail, d)
  else (.report .ctrlRequest, d)

/-! ## What a request does to the endpoints -/

variable {P d arg}

theorem stdGetStatus_eps : (stdGetStatus P d arg).2.eps = d.eps := by
  rw [stdGetStatus]
  repeat' split
  all_goals rfl

theorem stdGetStatus_outcome {r : Request} (h : (stdGetStatus P d arg).1 = .report r) :
    r = .getStatusInterface := by
  rw [stdGetStatus] at h
  repeat' split at h
  all_goals cases h
  all_goals rfl

/-- A feature request fails and changes nothing, or does what it is for. -/
theorem stdFeature_cases {dev ep : Outcome × StdDev σ} :
    stdFeature P d arg dev ep = (.fail, d) ∨ stdFeature P d arg dev ep = dev ∨
      stdFeature P d arg dev ep = ep := by
  rw [stdFeature]
  repeat' split
  all_goals first | exact .inl rfl | exact .inr (.inl rfl) | exact .inr (.inr rfl)

theorem stdSetAddress_outcome {r : Request} : stdSetAddress d arg ≠ .report r := by
  rw [stdSetAddress]
  repeat' split
  all_goals exact Outcome.noConfusion

theorem stdGetConfiguration_outcome {r : Request} : stdGetConfiguration d arg ≠ .report r := by
  rw [stdGetConfiguration]
  repeat' split
  all_goals exact Outcome.noConfusion

theorem ne_report_of {o : Outcome} {r s : Request} (h : o = .fail ∨ o = .report s)
    (hne : r ≠ s) : o ≠ .report r := by
  rintro rfl
  rcases h with h | h
  · cases h
  · cases h
    exact hne rfl

/-- **What a request does to the endpoints**: it releases the endpoint that it addresses if it is
an accepted `CLEAR_FEATURE` for it, stalls it if it is an accepted `SET_FEATURE` for it, and
does nothing to them else. -/
theorem setupRequest_eps :
    ((setupRequest P d arg).1 = .report .clearFeatureEndpoint ∧
        (setupRequest P d arg).2.eps = P.clearHalt arg.isIn arg.endpoint d.eps) ∨
      ((setupRequest P d arg).1 = .report .setFeatureEndpoint ∧
        (setupRequest P d arg).2.eps = P.setHalt arg.isIn arg.endpoint d.eps) ∨
      ((setupRequest P d arg).1 ≠ .report .clearFeatureEndpoint ∧
        (setupRequest P d arg).1 ≠ .report .setFeatureEndpoint ∧
          (setupRequest P d arg).2.eps = d.eps) := by
  have hother : ∀ {o : Outcome × StdDev σ} {s : Request},
      o.1 = .fail ∨ o.1 = .report s → s ≠ .clearFeatureEndpoint → s ≠ .setFeatureEndpoint →
        o.1 ≠ .report .clearFeatureEndpoint ∧ o.1 ≠ .report .setFeatureEndpoint := fun h hc hs =>
    ⟨ne_report_of h hc.symm, ne_report_of h hs.symm⟩
  rw [setupRequest]
  split
  · split
    · refine .inr (.inr ⟨fun h => ?_, fun h => ?_, stdGetStatus_eps⟩)
      · cases stdGetStatus_outcome h
      · cases stdGetStatus_outcome h
    · rw [stdClearFeature]
      rcases @stdFeature_cases _ P d arg _ _ with h | h | h
      · rw [h]
        exact .inr (.inr ⟨Outcome.noConfusion, Outcome.noConfusion, rfl⟩)
      · rw [h]
        exact .inr (.inr ⟨by simp, by simp, rfl⟩)
      · rw [h]
        exact .inl ⟨rfl, rfl⟩
    · rw [stdSetFeature]
      rcases @stdFeature_cases _ P d arg _ _ with h | h | h
      · rw [h]
        exact .inr (.inr ⟨Outcome.noConfusion, Outcome.noConfusion, rfl⟩)
      · rw [h]
        exact .inr (.inr ⟨by simp, by simp, rfl⟩)
      · rw [h]
        exact .inr (.inl ⟨rfl, rfl⟩)
    · exact .inr (.inr ⟨stdSetAddress_outcome, stdSetAddress_outcome, rfl⟩)
    · have h := hother (o := (stdGetDescriptor arg, d)) (s := .getDescriptor) (by
        simp only [stdGetDescriptor]
        split
        · exact .inl rfl
        · exact .inr rfl) (by decide) (by decide)
      exact .inr (.inr ⟨h.1, h.2, rfl⟩)
    · exact .inr (.inr ⟨stdGetConfiguration_outcome, stdGetConfiguration_outcome, rfl⟩)
    · have h := hother (o := (stdSetConfiguration arg, d)) (s := .setConfiguration) (by
        simp only [stdSetConfiguration]
        repeat' split
        all_goals first | exact .inl rfl | exact .inr rfl) (by decide) (by decide)
      exact .inr (.inr ⟨h.1, h.2, rfl⟩)
    · have h := hother (o := (stdGetInterface d arg, d)) (s := .getInterface) (by
        simp only [stdGetInterface]
        repeat' split
        all_goals first | exact .inl rfl | exact .inr rfl) (by decide) (by decide)
      exact .inr (.inr ⟨h.1, h.2, rfl⟩)
    · have h := hother (o := (stdSetInterface d arg, d)) (s := .setInterface) (by
        simp only [stdSetInterface]
        repeat' split
        all_goals first | exact .inl rfl | exact .inr rfl) (by decide) (by decide)
      exact .inr (.inr ⟨h.1, h.2, rfl⟩)
    · exact .inr (.inr ⟨Outcome.noConfusion, Outcome.noConfusion, rfl⟩)
  · exact .inr (.inr ⟨by simp, by simp, rfl⟩)

/-- The configuration is the matter of the application. -/
theorem setupRequest_configuration :
    (setupRequest P d arg).2.configuration = d.configuration := by
  have hfeature : ∀ dev ep : Outcome × StdDev σ, dev.2.configuration = d.configuration →
      ep.2.configuration = d.configuration →
        (stdFeature P d arg dev ep).2.configuration = d.configuration := by
    intro dev ep hdev hep
    rcases stdFeature_cases (P := P) (d := d) with h | h | h
    · rw [h]
    · rw [h, hdev]
    · rw [h, hep]
  rw [setupRequest]
  split
  · split
    · rw [stdGetStatus]
      repeat' split
      all_goals rfl
    · exact hfeature _ _ rfl rfl
    · exact hfeature _ _ rfl rfl
    all_goals rfl
  · rfl

end

/-! ## Histories -/

/-- A request, or what happens to the device in between: the application stalls or enables
endpoints, sets the configuration or resets the device, and data are transferred. -/
inductive DevEvent (σ : Type) where
  | request (arg : DeviceReq)
  | other (eps : σ) (configuration feature : Byte)

namespace StdDev

variable {σ : Type} (P : StdPort σ) (d : StdDev σ)

/-- The device after an event. -/
def after : DevEvent σ → StdDev σ
  | .request arg => (setupRequest P d arg).2
  | .other eps configuration feature => ⟨configuration, feature, d.statusInfo, eps⟩

/-- The device after a history, whose last event comes first. -/
def history : List (DevEvent σ) → StdDev σ
  | [] => d
  | e :: es => (history es).after P e

theorem history_append (es es' : List (DevEvent σ)) :
    d.history P (es' ++ es) = (d.history P es).history P es' := by
  induction es' with
  | nil => rfl
  | cons e es' ih => exact congrArg (fun d => d.after P e) ih

end StdDev

end Chopstx.Usb
