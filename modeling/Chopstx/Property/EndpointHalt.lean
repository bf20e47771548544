import Chopstx.Usb.Stm32f103Ctrl
import Chopstx.Usb.Mkl27zEndp
import Chopstx.Property.StatusInfo

/-!
# The host halts an endpoint and releases it

`SET_FEATURE (ENDPOINT_HALT)` stalls a data endpoint and `CLEAR_FEATURE (ENDPOINT_HALT)` takes the
stall back, and `GET_STATUS` says each time what is the case.  This is one law for the three
drivers (`HaltLaw`), about a run of requests: any requests of the host, for this endpoint and for
others, come before, in between and after (`HaltRun`).

A `HaltPort` is a `StdPort` with the endpoints that are enabled.  Whether an endpoint is stalled
is a `Latch`, which the accepted requests of one kind set and those of another kind clear; what
these kinds are is the difference between the drivers:

* the driver for the STM32F103 has no request that takes a stall back,
* the endpoints of the MKL27Z have one bit for both directions,
* in the USBIP emulation each direction has a state of its own, but what `GET_STATUS` says is made
  from a variable that keeps what it said before.

## Main results

* `haltLaw_iff` : what the law comes to when the requests are accepted
* `Latch.halted_iff`, `Latch.released_iff` : the stall after a history
* `endpointHalt_released` : when the law holds, in each of the three drivers
* `endpointHalt_stays` : a run for each driver in which it does not
-/

namespace Chopstx.Usb

/-! ## The three requests -/

/-- The address of a data endpoint: its direction in bit 7 and its number. -/
structure DataAddress (addr : BitVec 16) : Prop where
  high : addr >>> 8 = 0
  reserved : addr &&& 0x70 = 0
  number : (addr &&& 0x0f).toNat ≠ 0

/-- `SET_FEATURE (ENDPOINT_HALT)` -/
def setHaltReq (addr : BitVec 16) : DeviceReq := ⟨0x02, 3, featureEndpointHalt, addr, 0⟩

/-- `CLEAR_FEATURE (ENDPOINT_HALT)` -/
def clearHaltReq (addr : BitVec 16) : DeviceReq := ⟨0x02, 1, featureEndpointHalt, addr, 0⟩

/-- `GET_STATUS` for an endpoint -/
def getStatusReq (addr : BitVec 16) : DeviceReq := ⟨0x82, 0, 0, addr, 2⟩

/-- The direction and the number in the address. -/
def addrIn (addr : BitVec 16) : Bool := addr &&& 0x80 ≠ 0
def addrNum (addr : BitVec 16) : Nat := (addr &&& 0x0f).toNat

/-! ## Accepted requests -/

section

variable {σ : Type} {P : StdPort σ} {addr : BitVec 16} {d : StdDev σ}

/-- A feature request for an endpoint that is enabled in a configured device is accepted. -/
theorem feature_accepted {arg : DeviceReq} {dev ep : Outcome × StdDev σ} (hget : arg.isGet = false)
    (hrcp : arg.rcp = endpointRecipient) (hlen : arg.len = 0) (hval : arg.value = 0)
    (ha : DataAddress arg.index) (hc : d.configuration ≠ 0)
    (hd : P.disabled arg.isIn arg.endpoint d.eps = false) : stdFeature P d arg dev ep = ep := by
  have hbad : ¬ (arg.len ≠ 0 ∨ arg.index >>> 8 ≠ 0 ∨ arg.value ≠ featureEndpointHalt ∨
      arg.endpoint = 0) := by
    rintro (h | h | h | h)
    · exact h hlen
    · exact h ha.high
    · exact h hval
    · exact ha.number h
  rw [stdFeature, hget, if_neg (by decide), hrcp, if_neg (by decide), if_pos rfl, if_neg hc,
    if_neg hbad, hd, if_neg (by decide)]

/-- `SET` and `GET` requests for an endpoint, by their type -/
theorem type_set {r : Byte} {v i l : BitVec 16} :
    DeviceReq.isGet ⟨0x02, r, v, i, l⟩ = false ∧
      DeviceReq.rcp ⟨0x02, r, v, i, l⟩ = endpointRecipient := by
  show decide ((0x02 : Byte) &&& reqDir ≠ 0) = false ∧ (0x02 : Byte) &&& recipient = _
  decide

theorem type_get {r : Byte} {v i l : BitVec 16} :
    DeviceReq.isSet ⟨0x82, r, v, i, l⟩ = false ∧
      DeviceReq.rcp ⟨0x82, r, v, i, l⟩ = endpointRecipient := by
  show decide ((0x82 : Byte) &&& reqDir = 0) = false ∧ (0x82 : Byte) &&& recipient = _
  decide

theorem setupRequest_setHalt :
    setupRequest P d (setHaltReq addr) = stdSetFeature P d (setHaltReq addr) := by
  have hstd : (setHaltReq addr).type &&& requestType = standardRequest := by
    show (0x02 : Byte) &&& requestType = _
    decide
  rw [setupRequest, if_pos hstd]
  rfl

theorem setupRequest_clearHalt :
    setupRequest P d (clearHaltReq addr) = stdClearFeature P d (clearHaltReq addr) := by
  have hstd : (clearHaltReq addr).type &&& requestType = standardRequest := by
    show (0x02 : Byte) &&& requestType = _
    decide
  rw [setupRequest, if_pos hstd]
  rfl

theorem setupRequest_getStatus :
    setupRequest P d (getStatusReq addr) = stdGetStatus P d (getStatusReq addr) := by
  have hstd : (getStatusReq addr).type &&& requestType = standardRequest := by
    show (0x82 : Byte) &&& requestType = _
    decide
  rw [setupRequest, if_pos hstd]
  rfl

theorem setup_setHalt (ha : DataAddress addr) (hc : d.configuration ≠ 0)
    (hd : P.disabled (addrIn addr) (addrNum addr) d.eps = false) :
    setupRequest P d (setHaltReq addr) = (.report .setFeatureEndpoint,
      { d with eps := P.setHalt (addrIn addr) (addrNum addr) d.eps }) := by
  rw [setupRequest_setHalt]
  exact feature_accepted type_set.1 type_set.2 rfl rfl ha hc hd

theorem setup_clearHalt (ha : DataAddress addr) (hc : d.configuration ≠ 0)
    (hd : P.disabled (addrIn addr) (addrNum addr) d.eps = false) :
    setupRequest P d (clearHaltReq addr) = (.report .clearFeatureEndpoint,
      { d with eps := P.clearHalt (addrIn addr) (addrNum addr) d.eps }) := by
  rw [setupRequest_clearHalt]
  exact feature_accepted type_set.1 type_set.2 rfl rfl ha hc hd

theorem setup_getStatus (ha : DataAddress addr)
    (hd : P.disabled (addrIn addr) (addrNum addr) d.eps = false) :
    setupRequest P d (getStatusReq addr) =
      sendStatus d (P.epStatus (P.halted (addrIn addr) (addrNum addr) d.eps)
        (P.status₀ d.statusInfo)) := by
  have hbad : ¬ ((getStatusReq addr).value ≠ 0 ∨ (getStatusReq addr).len ≠ 2 ∨
      (getStatusReq addr).index >>> 8 ≠ 0 ∨ (getStatusReq addr).isSet = true) := by
    rintro (h | h | h | h)
    · exact h rfl
    · exact h rfl
    · exact h ha.high
    · rw [getStatusReq, type_get.1] at h
      cases h
  have hnum : ¬ ((getStatusReq addr).index &&& 0x70 ≠ 0 ∨ (getStatusReq addr).endpoint = 0) := by
    rintro (h | h)
    · exact h ha.reserved
    · exact ha.number h
  have hd' : P.disabled (getStatusReq addr).isIn (getStatusReq addr).endpoint d.eps = false := hd
  have hrcp : (getStatusReq addr).rcp = endpointRecipient := type_get.2
  rw [setupRequest_getStatus, stdGetStatus, if_neg hbad, hrcp, if_neg (by decide),
    if_neg (by decide), if_pos rfl, if_neg hnum, hd', if_neg (by decide)]
  rfl

end

/-! ## The law -/

/-- The endpoints of a driver, for requests that halt and release them.  An endpoint that is
enabled stays so. -/
structure HaltPort (σ : Type) extends StdPort σ where
  /-- The endpoint, given by its direction and its number, is enabled. -/
  enabled : Bool → Nat → σ → Prop
  disabled_of_enabled {isIn : Bool} {n : Nat} {e : σ} :
    enabled isIn n e → disabled isIn n e = false
  enabled_setHalt {isIn isIn' : Bool} {n n' : Nat} {e : σ} :
    enabled isIn n e → enabled isIn n (setHalt isIn' n' e)
  enabled_clearHalt {isIn isIn' : Bool} {n n' : Nat} {e : σ} :
    enabled isIn n e → enabled isIn n (clearHalt isIn' n' e)

/-- The request addresses the endpoint. -/
def DeviceReq.Addresses (arg : DeviceReq) (addr : BitVec 16) : Prop :=
  arg.isIn = addrIn addr ∧ arg.endpoint = addrNum addr

section

variable {σ : Type}

/-- The request is accepted and halts the endpoint that it addresses. -/
def Halts (P : StdPort σ) (d : StdDev σ) (arg : DeviceReq) : Prop :=
  (setupRequest P d arg).1 = .report .setFeatureEndpoint

/-- The request is accepted and releases the endpoint that it addresses. -/
def Releases (P : StdPort σ) (d : StdDev σ) (arg : DeviceReq) : Prop :=
  (setupRequest P d arg).1 = .report .clearFeatureEndpoint

/-- No request of the kind `stop` is for the endpoint, and what happens beside requests leaves it
enabled in a configured device, and halted or not as it was. -/
def Untouched (H : HaltPort σ) (addr : BitVec 16) (stop : StdDev σ → DeviceReq → Prop)
    (d : StdDev σ) : List (DevEvent σ) → Prop
  | [] => True
  | .request arg :: es => Untouched H addr stop d es ∧
      ¬ (stop (d.history H.toStdPort es) arg ∧ arg.Addresses addr)
  | .other eps configuration _ :: es => Untouched H addr stop d es ∧ configuration ≠ 0 ∧
      H.enabled (addrIn addr) (addrNum addr) eps ∧
        H.halted (addrIn addr) (addrNum addr) eps =
          H.halted (addrIn addr) (addrNum addr) (d.history H.toStdPort es).eps

section

variable (P : StdPort σ) (addr : BitVec 16) (d : StdDev σ) (es es' : List (DevEvent σ))

/-- The device after `SET_FEATURE` and the history `es`. -/
def haltedDev : StdDev σ := (setupRequest P d (setHaltReq addr)).2.history P es

/-- The device after `SET_FEATURE`, the history `es`, `CLEAR_FEATURE` and the history `es'`. -/
def releasedDev : StdDev σ :=
  (setupRequest P (haltedDev P addr d es) (clearHaltReq addr)).2.history P es'

/-- An accepted `SET_FEATURE` halts the endpoint, as `GET_STATUS` says then, and an accepted
`CLEAR_FEATURE` releases it, as `GET_STATUS` says in the end. -/
def HaltLaw : Prop :=
  Halts P d (setHaltReq addr) →
    (setupRequest P (haltedDev P addr d es) (getStatusReq addr)).1 = .send (statusBytes 1) ∧
      (Releases P (haltedDev P addr d es) (clearHaltReq addr) →
        P.halted (addrIn addr) (addrNum addr) (releasedDev P addr d es es').eps = false ∧
          (setupRequest P (releasedDev P addr d es es') (getStatusReq addr)).1 =
            .send (statusBytes 0))

end

/-- The host halts an endpoint of a configured device that is enabled; it does not release it in
`es`, and does not halt it again in `es'`. -/
structure HaltRun (H : HaltPort σ) (addr : BitVec 16) (d : StdDev σ)
    (es es' : List (DevEvent σ)) : Prop where
  configured : d.configuration ≠ 0
  enabled : H.enabled (addrIn addr) (addrNum addr) d.eps
  halted : Untouched H addr (Releases H.toStdPort) (setupRequest H.toStdPort d (setHaltReq addr)).2
    es
  released : Untouched H addr (Halts H.toStdPort)
    (setupRequest H.toStdPort (haltedDev H.toStdPort addr d es) (clearHaltReq addr)).2 es'

variable {H : HaltPort σ} {P : StdPort σ} {addr : BitVec 16} {d : StdDev σ} {arg : DeviceReq}
  {es es' : List (DevEvent σ)} {stop p q : StdDev σ → DeviceReq → Prop} {isIn : Bool} {n : Nat}

/-- A request leaves an endpoint enabled. -/
theorem HaltPort.enabled_request (h : H.enabled isIn n d.eps) :
    H.enabled isIn n (setupRequest H.toStdPort d arg).2.eps := by
  rcases @setupRequest_eps _ H.toStdPort d arg with ⟨-, heq⟩ | ⟨-, heq⟩ | ⟨-, -, heq⟩
  · rw [heq]
    exact H.enabled_clearHalt h
  · rw [heq]
    exact H.enabled_setHalt h
  · rw [heq]
    exact h

/-- The device stays configured, with the endpoint enabled. -/
theorem Untouched.ready (hu : Untouched H addr stop d es) (hc : d.configuration ≠ 0)
    (he : H.enabled (addrIn addr) (addrNum addr) d.eps) :
    (d.history H.toStdPort es).configuration ≠ 0 ∧
      H.enabled (addrIn addr) (addrNum addr) (d.history H.toStdPort es).eps := by
  induction es with
  | nil => exact ⟨hc, he⟩
  | cons e es ih =>
      cases e with
      | request arg =>
          obtain ⟨hc', he'⟩ := ih hu.1
          refine ⟨?_, HaltPort.enabled_request he'⟩
          show (setupRequest H.toStdPort _ arg).2.configuration ≠ 0
          rw [setupRequest_configuration]
          exact hc'
      | other eps configuration feature => exact ⟨hu.2.1, hu.2.2.1⟩

namespace HaltRun

theorem ready_halted (h : HaltRun H addr d es es') :
    (haltedDev H.toStdPort addr d es).configuration ≠ 0 ∧
    H.enabled (addrIn addr) (addrNum addr) (haltedDev H.toStdPort addr d es).eps := by
  refine h.halted.ready ?_ (HaltPort.enabled_request h.enabled)
  rw [setupRequest_configuration]
  exact h.configured

theorem ready_released (h : HaltRun H addr d es es') :
    (releasedDev H.toStdPort addr d es es').configuration ≠ 0 ∧
    H.enabled (addrIn addr) (addrNum addr) (releasedDev H.toStdPort addr d es es').eps := by
  obtain ⟨hc, he⟩ := h.ready_halted
  refine h.released.ready ?_ (HaltPort.enabled_request he)
  rw [setupRequest_configuration]
  exact hc

end HaltRun

/-- **What the law comes to** in such a run: the requests are accepted. -/
theorem haltLaw_iff (ha : DataAddress addr) (h : HaltRun H addr d es es') :
    HaltLaw H.toStdPort addr d es es' ↔
      (setupRequest H.toStdPort (haltedDev H.toStdPort addr d es) (getStatusReq addr)).1 =
          .send (statusBytes 1) ∧
        H.halted (addrIn addr) (addrNum addr) (releasedDev H.toStdPort addr d es es').eps = false ∧
          (setupRequest H.toStdPort (releasedDev H.toStdPort addr d es es') (getStatusReq addr)).1 =
            .send (statusBytes 0) := by
  obtain ⟨hc, he⟩ := h.ready_halted
  have hset : Halts H.toStdPort d (setHaltReq addr) :=
    congrArg Prod.fst (setup_setHalt ha h.configured (H.disabled_of_enabled h.enabled))
  have hclear : Releases H.toStdPort (haltedDev H.toStdPort addr d es) (clearHaltReq addr) :=
    congrArg Prod.fst (setup_clearHalt ha hc (H.disabled_of_enabled he))
  rw [HaltLaw]
  exact ⟨fun hlaw => ⟨(hlaw hset).1, (hlaw hset).2 hclear⟩, fun hlaw _ => ⟨hlaw.1, fun _ => hlaw.2⟩⟩

/-! ## The stall after a history -/

/-- A request of the kind `p`, and none of the kind `q` since. -/
def Since (P : StdPort σ) (p q : StdDev σ → DeviceReq → Prop) (d : StdDev σ) :
    List (DevEvent σ) → Prop
  | [] => False
  | .request arg :: es => p (d.history P es) arg ∨
      Since P p q d es ∧ ¬ q (d.history P es) arg
  | .other _ _ _ :: es => Since P p q d es

/-- The requests that stall an endpoint and those that take the stall back. -/
structure Latch (P : StdPort σ) (isIn : Bool) (n : Nat) (p q : StdDev σ → DeviceReq → Prop) :
    Prop where
  set {d : StdDev σ} {arg : DeviceReq} :
    p d arg → P.halted isIn n (setupRequest P d arg).2.eps = true
  clear {d : StdDev σ} {arg : DeviceReq} :
    q d arg → P.halted isIn n (setupRequest P d arg).2.eps = false
  keep {d : StdDev σ} {arg : DeviceReq} : ¬ p d arg → ¬ q d arg →
    P.halted isIn n (setupRequest P d arg).2.eps = P.halted isIn n d.eps

/-- The stall after a history: it is `x` where a request that makes it so came last. -/
theorem Untouched.since_iff {x : Bool} (hu : Untouched H addr stop d es)
    (hp : ∀ {d arg}, p d arg →
      H.halted (addrIn addr) (addrNum addr) (setupRequest H.toStdPort d arg).2.eps = x)
    (hq : ∀ {d arg}, q d arg →
      H.halted (addrIn addr) (addrNum addr) (setupRequest H.toStdPort d arg).2.eps = !x)
    (hkeep : ∀ {d arg}, ¬ p d arg → ¬ q d arg →
      H.halted (addrIn addr) (addrNum addr) (setupRequest H.toStdPort d arg).2.eps =
        H.halted (addrIn addr) (addrNum addr) d.eps)
    (h0 : H.halted (addrIn addr) (addrNum addr) d.eps = !x) :
    H.halted (addrIn addr) (addrNum addr) (d.history H.toStdPort es).eps = x ↔
      Since H.toStdPort p q d es := by
  have hne : (!x) ≠ x := by cases x <;> decide
  induction es with
  | nil =>
      show H.halted _ _ d.eps = x ↔ False
      simp [h0]
  | cons e es ih =>
      cases e with
      | request arg =>
          show H.halted _ _ (setupRequest H.toStdPort (d.history H.toStdPort es) arg).2.eps = x ↔
            p _ arg ∨ Since H.toStdPort p q d es ∧ ¬ q _ arg
          by_cases hset : p (d.history H.toStdPort es) arg
          · simp [hset, hp hset]
          · by_cases hclear : q (d.history H.toStdPort es) arg
            · simp [hset, hclear, hq hclear]
            · rw [hkeep hset hclear]
              exact (ih hu.1).trans (by simp [hset, hclear])
      | other eps configuration feature =>
          show H.halted _ _ eps = x ↔ Since H.toStdPort p q d es
          rw [hu.2.2.2]
          exact ih hu.1

/-- An endpoint that was not stalled is stalled if a request stalled it last. -/
theorem Latch.halted_iff (h : Latch H.toStdPort (addrIn addr) (addrNum addr) p q)
    (hu : Untouched H addr stop d es) (h0 : H.halted (addrIn addr) (addrNum addr) d.eps = false) :
    H.halted (addrIn addr) (addrNum addr) (d.history H.toStdPort es).eps = true ↔
      Since H.toStdPort p q d es :=
  hu.since_iff h.set h.clear h.keep h0

/-- A stalled endpoint is stalled no longer if a request took the stall back last. -/
theorem Latch.released_iff (h : Latch H.toStdPort (addrIn addr) (addrNum addr) p q)
    (hu : Untouched H addr stop d es) (h0 : H.halted (addrIn addr) (addrNum addr) d.eps = true) :
    H.halted (addrIn addr) (addrNum addr) (d.history H.toStdPort es).eps = false ↔
      Since H.toStdPort q p d es :=
  hu.since_iff h.clear h.set (fun hq hp => h.keep hp hq) h0

/-- The requests that a history must not have are not in it. -/
theorem Untouched.not_since (hu : Untouched H addr stop d es)
    (hp : ∀ d arg, p d arg → stop d arg ∧ arg.Addresses addr) : ¬ Since H.toStdPort p q d es := by
  induction es with
  | nil => exact id
  | cons e es ih =>
      cases e with
      | request arg =>
          rintro (h | ⟨h, -⟩)
          · exact hu.2 (hp _ _ h)
          · exact ih hu.1 h
      | other eps configuration feature => exact ih hu.1

end

/-! ## The STM32F103 -/

namespace Stm32f103

section

variable (r st : BitVec 16)

theorem getRxStatus_setTxStatus :
    st103EpGetRxStatus (st103EpSetTxStatus r st) = st103EpGetRxStatus r := by
  apply BitVec.eq_of_getLsbD_eq
  intro i hi
  interval_cases i <;>
    simp [st103EpGetRxStatus, st103EpSetTxStatus, st103SetEpreg, epregMask, eptxStat, eprxStat,
      epCtrRx, epCtrTx, epSetup, toggleBits, plainBits]

theorem getRxStatus_clearDtog (d : Dir) :
    st103EpGetRxStatus ((EpOp.clearDtog d).apply r) = st103EpGetRxStatus r := by
  rw [EpOp.apply, EpOp.value]
  split
  · rename_i v hv
    split at hv
    · rw [Option.some.injEq] at hv
      subst hv
      apply BitVec.eq_of_getLsbD_eq
      intro i hi
      cases d <;> interval_cases i <;>
        simp [st103EpGetRxStatus, st103SetEpreg, epregMask, eprxStat, epCtrRx, epCtrTx, epSetup,
          toggleBits, plainBits, Dir.dtog, epDtogTx]
    · cases hv
  · rfl

theorem getTxStatus_clearDtog (d : Dir) :
    st103EpGetTxStatus ((EpOp.clearDtog d).apply r) = st103EpGetTxStatus r := by
  rw [EpOp.apply, EpOp.value]
  split
  · rename_i v hv
    split at hv
    · rw [Option.some.injEq] at hv
      subst hv
      apply BitVec.eq_of_getLsbD_eq
      intro i hi
      cases d <;> interval_cases i <;>
        simp [st103EpGetTxStatus, st103SetEpreg, epregMask, eptxStat, epCtrRx, epCtrTx, epSetup,
          toggleBits, plainBits, Dir.dtog, epDtogTx]
    · cases hv
  · rfl

end

variable {e : Nat → BitVec 16} {isIn isIn' : Bool} {n n' : Nat}

/-- The two bits of the status for a direction. -/
def status (isIn : Bool) (r : BitVec 16) : BitVec 16 :=
  if isIn then st103EpGetTxStatus r else st103EpGetRxStatus r

/-- `std_clear_feature` leaves the status of the endpoint as it is. -/
theorem status_clearHalt : status isIn (stdPort.clearHalt isIn' n' e n) = status isIn (e n) := by
  show status isIn (Function.update e n' _ n) = _
  by_cases hn : n = n'
  · subst hn
    rw [Function.update_self]
    cases isIn with
    | false => exact getRxStatus_clearDtog ..
    | true => exact getTxStatus_clearDtog ..
  · rw [Function.update_of_ne hn]

/-- `std_set_feature` changes the status of the endpoint that it stalls. -/
theorem status_setHalt : status isIn (stdPort.setHalt isIn' n' e n) =
    if isIn' = isIn ∧ n' = n then (if isIn then epTxStall else epRxStall)
    else status isIn (e n) := by
  show status isIn (Function.update e n' _ n) = _
  by_cases hn : n = n'
  · subst hn
    rw [Function.update_self]
    cases isIn <;> cases isIn'
    · simp only [status, Bool.false_eq_true, if_false, true_and, if_true, getRxStatus_setRxStatus]
      decide
    · simp [status, getRxStatus_setTxStatus]
    · simp [status, getTxStatus_setRxStatus]
    · simp only [status, if_true, true_and, getTxStatus_setTxStatus]
      decide
  · rw [Function.update_of_ne hn, if_neg fun h => hn h.2.symm]

theorem disabled_eq : stdPort.disabled isIn n e = decide (status isIn (e n) = 0) := by
  cases isIn <;> rfl

theorem halted_eq : stdPort.halted isIn n e =
    decide (status isIn (e n) = if isIn then epTxStall else epRxStall) := by
  cases isIn <;> rfl

/-- The data endpoints that are enabled are those whose status says so. -/
def haltPort : HaltPort (Nat → BitVec 16) where
  toStdPort := stdPort
  enabled isIn n e := stdPort.disabled isIn n e = false
  disabled_of_enabled := id
  enabled_setHalt h := by
    rw [disabled_eq] at h ⊢
    rw [status_setHalt]
    split
    · rename_i isIn _ _ _ _ _
      cases isIn <;> decide
    · exact h
  enabled_clearHalt h := by
    rw [disabled_eq] at h ⊢
    rw [status_clearHalt]
    exact h

/-- A stall is never taken back. -/
theorem latch : Latch stdPort isIn n
    (fun d arg => Halts stdPort d arg ∧ arg.isIn = isIn ∧ arg.endpoint = n) fun _ _ => False where
  set {d arg} h := by
    rcases @setupRequest_eps _ stdPort d arg with ⟨hout, -⟩ | ⟨-, heq⟩ | ⟨-, hout, -⟩
    · cases hout.symm.trans h.1
    · rw [heq, halted_eq, status_setHalt, if_pos h.2, decide_eq_true_iff]
    · exact absurd h.1 hout
  clear h := h.elim
  keep {d arg} hp _ := by
    rcases @setupRequest_eps _ stdPort d arg with ⟨-, heq⟩ | ⟨hout, heq⟩ | ⟨-, -, heq⟩
    · rw [heq, halted_eq, status_clearHalt, halted_eq]
    · rw [heq, halted_eq, status_setHalt, if_neg fun h => hp ⟨hout, h⟩, halted_eq]
    · rw [heq]

/-- The endpoint stays stalled. -/
theorem haltLaw_false {addr : BitVec 16} {d : StdDev (Nat → BitVec 16)}
    {es es' : List (DevEvent (Nat → BitVec 16))} (ha : DataAddress addr)
    (h : HaltRun haltPort addr d es es') : ¬ HaltLaw stdPort addr d es es' := by
  have hlatch := @latch (addrIn addr) (addrNum addr)
  have hset : Halts stdPort d (setHaltReq addr) := congrArg Prod.fst
    (setup_setHalt ha h.configured (haltPort.disabled_of_enabled h.enabled))
  -- no request takes the stall back
  have hkept : ∀ {d' stop es}, Untouched haltPort addr stop d' es →
      stdPort.halted (addrIn addr) (addrNum addr) d'.eps = true →
        stdPort.halted (addrIn addr) (addrNum addr) (d'.history stdPort es).eps = true := by
    intro d' stop es hu h0
    rw [← Bool.not_eq_false]
    intro hno
    exact hu.not_since (fun _ _ hnever => hnever.elim)
      ((Latch.released_iff (H := haltPort) hlatch hu h0).1 hno)
  have hhalted : stdPort.halted (addrIn addr) (addrNum addr) (haltedDev stdPort addr d es).eps =
      true := hkept h.halted (hlatch.set ⟨hset, rfl, rfl⟩)
  have hstays : stdPort.halted (addrIn addr) (addrNum addr)
      (setupRequest stdPort (haltedDev stdPort addr d es) (clearHaltReq addr)).2.eps = true := by
    have hc := h.ready_halted
    have hclear := setup_clearHalt ha hc.1 (haltPort.disabled_of_enabled hc.2)
    rw [show setupRequest stdPort (haltedDev stdPort addr d es) (clearHaltReq addr) = _ from hclear]
    show stdPort.halted _ _ (stdPort.clearHalt _ _ _) = true
    rw [halted_eq, status_clearHalt, ← halted_eq]
    exact hhalted
  intro hlaw
  obtain ⟨-, hno, -⟩ := (haltLaw_iff (H := haltPort) ha h).1 hlaw
  cases (hkept h.released hstays).symm.trans hno

end Stm32f103

/-! ## The MKL27Z -/

namespace Mkl27z

/-- The direction of the endpoint is enabled in its register. -/
def Enabled (isIn : Bool) (n : Nat) (e : Endps) : Prop :=
  e.ep n &&& (if isIn then 0x04 else 0x08) ≠ 0

theorem ep_clearData01 {e : Endps} {n : Nat} {d : Dir} : (e.clearData01 n d).ep = e.ep := by
  rw [Endps.clearData01]
  split <;> rfl

variable {e : Endps} {isIn isIn' : Bool} {n n' : Nat}

/-- `std_clear_feature` clears the bit of the endpoint for both directions. -/
theorem ep_clearHalt : (stdPort.clearHalt isIn' n' e).ep n =
    if n' = n then e.ep n &&& ~~~0x02 else e.ep n := by
  have hb : ∀ b : Byte, (b ||| 0x02) &&& ~~~0x02 = b &&& ~~~0x02 := by decide +kernel
  simp only [stdPort, Endps.kl27zEpClearDtog, Endps.kl27zEpClearStall, Endps.setEp, ep_clearData01]
  by_cases hn : n' = n
  · subst hn
    rw [Function.update_self, if_pos rfl]
    split
    · rfl
    · simp only [Endps.kl27zEpStall, Endps.setEp, Function.update_self, hb]
  · rw [Function.update_of_ne (Ne.symm hn), if_neg hn]
    split
    · rfl
    · exact Function.update_of_ne (Ne.symm hn) ..

/-- `std_set_feature` sets it. -/
theorem ep_setHalt : (stdPort.setHalt isIn' n' e).ep n =
    if n' = n then e.ep n ||| 0x02 else e.ep n := by
  show Function.update e.ep n' _ n = _
  by_cases hn : n' = n
  · subst hn
    rw [Function.update_self, if_pos rfl]
  · rw [Function.update_of_ne (Ne.symm hn), if_neg hn]

/-- The data endpoints that are enabled are those whose register says so. -/
def haltPort : HaltPort Endps where
  toStdPort := stdPort
  enabled := Enabled
  disabled_of_enabled {isIn n e} h := by
    refine decide_eq_false fun h0 => h ?_
    rw [h0]
    cases isIn <;> decide
  enabled_setHalt {isIn isIn' n n' e} h := by
    have hb : ∀ b m : Byte, m = 0x04 ∨ m = 0x08 → (b ||| 0x02) &&& m = b &&& m := by
      rintro b m (rfl | rfl)
      · revert b
        decide +kernel
      · revert b
        decide +kernel
    rw [Enabled, ep_setHalt]
    split
    · rw [hb _ _ (by cases isIn <;> simp)]
      exact h
    · exact h
  enabled_clearHalt {isIn isIn' n n' e} h := by
    have hb : ∀ b m : Byte, m = 0x04 ∨ m = 0x08 → (b &&& ~~~0x02) &&& m = b &&& m := by
      rintro b m (rfl | rfl)
      · revert b
        decide +kernel
      · revert b
        decide +kernel
    rw [Enabled, ep_clearHalt]
    split
    · rw [hb _ _ (by cases isIn <;> simp)]
      exact h
    · exact h

/-- An accepted `SET_FEATURE` or `CLEAR_FEATURE` for a direction of the endpoint. -/
def HaltsEither (n : Nat) (d : StdDev Endps) (arg : DeviceReq) : Prop :=
  Halts stdPort d arg ∧ arg.endpoint = n

def ReleasesEither (n : Nat) (d : StdDev Endps) (arg : DeviceReq) : Prop :=
  Releases stdPort d arg ∧ arg.endpoint = n

/-- The stall of an endpoint is one for both directions. -/
theorem latch : Latch stdPort isIn n (HaltsEither n) (ReleasesEither n) where
  set {d arg} h := by
    have hb : ∀ b : Byte, (b ||| 0x02) &&& 0x02 ≠ 0 := by decide +kernel
    rcases @setupRequest_eps _ stdPort d arg with ⟨hout, -⟩ | ⟨-, heq⟩ | ⟨-, hout, -⟩
    · cases hout.symm.trans h.1
    · rw [heq]
      refine decide_eq_true ?_
      rw [ep_setHalt, if_pos h.2]
      exact hb _
    · exact absurd h.1 hout
  clear {d arg} h := by
    have hb : ∀ b : Byte, (b &&& ~~~0x02) &&& 0x02 = 0 := by decide +kernel
    rcases @setupRequest_eps _ stdPort d arg with ⟨-, heq⟩ | ⟨hout, -⟩ | ⟨hout, -, -⟩
    · rw [heq]
      refine decide_eq_false fun hne => hne ?_
      rw [ep_clearHalt, if_pos h.2]
      exact hb _
    · cases hout.symm.trans h.1
    · exact absurd h.1 hout
  keep {d arg} hp hq := by
    show decide _ = decide _
    rcases @setupRequest_eps _ stdPort d arg with ⟨hout, heq⟩ | ⟨hout, heq⟩ | ⟨-, -, heq⟩
    · rw [heq, ep_clearHalt, if_neg fun hn => hq ⟨hout, hn⟩]
    · rw [heq, ep_setHalt, if_neg fun hn => hp ⟨hout, hn⟩]
    · rw [heq]

/-- The law holds unless the host takes the stall back, or stalls the endpoint again, with a
request for the other direction. -/
theorem haltLaw_iff_other {addr : BitVec 16} {d : StdDev Endps} {es es' : List (DevEvent Endps)}
    (ha : DataAddress addr) (h : HaltRun haltPort addr d es es') :
    HaltLaw stdPort addr d es es' ↔
      ¬ Since stdPort (ReleasesEither (addrNum addr)) (HaltsEither (addrNum addr))
          (setupRequest stdPort d (setHaltReq addr)).2 es ∧
        ¬ Since stdPort (HaltsEither (addrNum addr)) (ReleasesEither (addrNum addr))
          (setupRequest stdPort (haltedDev stdPort addr d es) (clearHaltReq addr)).2 es' := by
  have hlatch := @latch (addrIn addr) (addrNum addr)
  have hget : ∀ {d' : StdDev Endps} {x : Bool},
      Enabled (addrIn addr) (addrNum addr) d'.eps →
        ((setupRequest stdPort d' (getStatusReq addr)).1 =
            .send (statusBytes (if x then 1 else 0)) ↔
          stdPort.halted (addrIn addr) (addrNum addr) d'.eps = x) := by
    intro d' x he
    rw [setup_getStatus (P := stdPort) ha (haltPort.disabled_of_enabled he)]
    show Outcome.send (statusBytes (if _ then 1 else 0)) = _ ↔ _
    generalize stdPort.halted (addrIn addr) (addrNum addr) d'.eps = y
    cases x <;> cases y <;> decide
  have hset := congrArg Prod.fst
    (setup_setHalt ha h.configured (haltPort.disabled_of_enabled h.enabled))
  have hclear := congrArg Prod.fst
    (setup_clearHalt ha h.ready_halted.1 (haltPort.disabled_of_enabled h.ready_halted.2))
  have hhalted := Latch.released_iff (H := haltPort) hlatch h.halted (hlatch.set ⟨hset, rfl⟩)
  have hreleased := Latch.halted_iff (H := haltPort) hlatch h.released (hlatch.clear ⟨hclear, rfl⟩)
  refine (haltLaw_iff (H := haltPort) ha h).trans ?_
  have h1 := hget (x := true) h.ready_halted.2
  have h0 := hget (x := false) h.ready_released.2
  simp only [if_true, Bool.false_eq_true, if_false] at h1 h0
  constructor
  · rintro ⟨hone, hno, -⟩
    refine ⟨fun hs => ?_, fun hs => ?_⟩
    · cases (h1.1 hone).symm.trans (hhalted.2 hs)
    · cases hno.symm.trans (hreleased.2 hs)
  · rintro ⟨hone, hno⟩
    have hst : stdPort.halted (addrIn addr) (addrNum addr) (haltedDev stdPort addr d es).eps =
        true := by
      rw [← Bool.not_eq_false]
      exact fun hf => hone (hhalted.1 hf)
    have hst' : stdPort.halted (addrIn addr) (addrNum addr)
        (releasedDev stdPort addr d es es').eps = false := by
      rw [← Bool.not_eq_true]
      exact fun ht => hno (hreleased.1 ht)
    exact ⟨h1.2 hst, hst', h0.2 hst'⟩

end Mkl27z

/-! ## The USBIP emulation -/

namespace Usbip

variable {e : EpStates} {isIn isIn' : Bool} {n n' : Nat} {st : EpState}

theorem EpStates.get_set : (e.set isIn' n' st).get isIn n =
    if isIn' = isIn ∧ n' = n then st else e.get isIn n := by
  by_cases hn : n' = n
  · subst hn
    cases isIn <;> cases isIn' <;> simp [EpStates.get, EpStates.set]
  · cases isIn <;> cases isIn' <;>
      simp [EpStates.get, EpStates.set, hn, Function.update_of_ne (Ne.symm hn)]

/-- The data endpoints that are enabled are those whose state is another. -/
def haltPort : HaltPort EpStates where
  toStdPort := stdPort
  enabled isIn n e := stdPort.disabled isIn n e = false
  disabled_of_enabled := id
  enabled_setHalt {isIn isIn' n n' e} h := by
    refine decide_eq_false ?_
    show ¬ (e.set isIn' n' .stall).get isIn n = .disabled
    rw [EpStates.get_set]
    split
    · decide
    · exact of_decide_eq_false h
  enabled_clearHalt {isIn isIn' n n' e} h := by
    refine decide_eq_false ?_
    show ¬ (e.set isIn' n' .nak).get isIn n = .disabled
    rw [EpStates.get_set]
    split
    · decide
    · exact of_decide_eq_false h

/-- The stall of an endpoint is its own. -/
theorem latch : Latch stdPort isIn n
    (fun d arg => Halts stdPort d arg ∧ arg.isIn = isIn ∧ arg.endpoint = n)
    (fun d arg => Releases stdPort d arg ∧ arg.isIn = isIn ∧ arg.endpoint = n) where
  set {d arg} h := by
    rcases @setupRequest_eps _ stdPort d arg with ⟨hout, -⟩ | ⟨-, heq⟩ | ⟨-, hout, -⟩
    · cases hout.symm.trans h.1
    · rw [heq]
      refine decide_eq_true ?_
      show (d.eps.set _ _ _).get _ _ = _
      rw [EpStates.get_set, if_pos h.2]
    · exact absurd h.1 hout
  clear {d arg} h := by
    rcases @setupRequest_eps _ stdPort d arg with ⟨-, heq⟩ | ⟨hout, -⟩ | ⟨hout, -, -⟩
    · rw [heq]
      refine decide_eq_false ?_
      show ¬ (d.eps.set _ _ _).get _ _ = _
      rw [EpStates.get_set, if_pos h.2]
      decide
    · cases hout.symm.trans h.1
    · exact absurd h.1 hout
  keep {d arg} hp hq := by
    rcases @setupRequest_eps _ stdPort d arg with ⟨hout, heq⟩ | ⟨hout, heq⟩ | ⟨-, -, heq⟩
    · rw [heq]
      show decide ((d.eps.set _ _ _).get _ _ = _) = _
      rw [EpStates.get_set, if_neg fun h => hq ⟨hout, h⟩]
      rfl
    · rw [heq]
      show decide ((d.eps.set _ _ _).get _ _ = _) = _
      rw [EpStates.get_set, if_neg fun h => hp ⟨hout, h⟩]
      rfl
    · rw [heq]

/-- The endpoint is halted and released as the host asks. -/
theorem halted_released {addr : BitVec 16} {d : StdDev EpStates}
    {es es' : List (DevEvent EpStates)} (ha : DataAddress addr)
    (h : HaltRun haltPort addr d es es') :
    stdPort.halted (addrIn addr) (addrNum addr) (haltedDev stdPort addr d es).eps = true ∧
      stdPort.halted (addrIn addr) (addrNum addr) (releasedDev stdPort addr d es es').eps =
        false := by
  have hlatch := @latch (addrIn addr) (addrNum addr)
  have hset := congrArg Prod.fst
    (setup_setHalt ha h.configured (haltPort.disabled_of_enabled h.enabled))
  have hclear := congrArg Prod.fst
    (setup_clearHalt ha h.ready_halted.1 (haltPort.disabled_of_enabled h.ready_halted.2))
  constructor
  · have hiff := Latch.released_iff (H := haltPort) hlatch h.halted (hlatch.set ⟨hset, rfl, rfl⟩)
    rw [← Bool.not_eq_false]
    exact fun hno => h.halted.not_since (fun _ _ hr => hr) (hiff.1 hno)
  · have hiff := Latch.halted_iff (H := haltPort) hlatch h.released
      (hlatch.clear ⟨hclear, rfl, rfl⟩)
    rw [← Bool.not_eq_true]
    exact fun hyes => h.released.not_since (fun _ _ hr => hr) (hiff.1 hyes)

open Status in
/-- The law holds when neither answer finds something of other requests in `status_info`. -/
theorem haltLaw_iff_fresh {addr : BitVec 16} {feature : Byte}
    {es₀ es es' : List (DevEvent EpStates)} (ha : DataAddress addr)
    (h : HaltRun haltPort addr (device feature es₀) es es') :
    HaltLaw stdPort addr (device feature es₀) es es' ↔
      let toGet := es ++ .request (setHaltReq addr) :: es₀
      let toEnd := es' ++ .request (clearHaltReq addr) :: toGet
      ¬ Left FindsWakeup feature toGet ∧
        ¬ Left FindsWakeup feature toEnd ∧ ¬ Left FindsOne feature toEnd := by
  have hget : device feature (es ++ .request (setHaltReq addr) :: es₀) =
      haltedDev stdPort addr (device feature es₀) es := StdDev.history_append ..
  have hend : device feature (es' ++ .request (clearHaltReq addr) ::
      (es ++ .request (setHaltReq addr) :: es₀)) =
        releasedDev stdPort addr (device feature es₀) es es' := by
    rw [releasedDev, ← hget]
    exact StdDev.history_append ..
  have hasks : ∀ {l : List (DevEvent EpStates)}, haltPort.enabled (addrIn addr) (addrNum addr)
      (device feature l).eps → Asks (device feature l) (getStatusReq addr) endpointRecipient := by
    intro l he
    refine ⟨?_, rfl, type_get.2, _, congrArg Prod.fst (setup_getStatus ha he)⟩
    show (0x82 : Byte) &&& requestType = _
    decide
  obtain ⟨hhalted, hreleased⟩ := halted_released ha h
  have hstall : (haltedDev stdPort addr (device feature es₀) es).eps.get (addrIn addr)
      (addrNum addr) = .stall := of_decide_eq_true hhalted
  have hnot : ¬ (releasedDev stdPort addr (device feature es₀) es es').eps.get (addrIn addr)
      (addrNum addr) = .stall := of_decide_eq_false hreleased
  refine (haltLaw_iff (H := haltPort) ha h).trans ?_
  have hasked₁ : Asks (device feature (es ++ .request (setHaltReq addr) :: es₀)) (getStatusReq addr)
      endpointRecipient := hasks (by rw [hget]; exact h.ready_halted.2)
  have hasked₀ : Asks (device feature (es' ++ .request (clearHaltReq addr) ::
      (es ++ .request (setHaltReq addr) :: es₀))) (getStatusReq addr) endpointRecipient :=
    hasks (by rw [hend]; exact h.ready_released.2)
  have hone := answer_halted hasked₁ (by rw [hget]; exact hstall)
  have hzero := answer_not_halted hasked₀ (by rw [hend]; exact hnot)
  rw [hget] at hone
  rw [hend] at hzero
  constructor
  · rintro ⟨h1, -, h0⟩
    exact ⟨hone.1 h1, hzero.1 h0⟩
  · rintro ⟨h1, h0⟩
    exact ⟨hone.2 h1, hreleased, hzero.2 h0⟩

end Usbip

/-! ## The three drivers -/

open Usbip.Status in
/-- **When the host can release an endpoint that it has halted.**  In the driver for the MKL27Z:
when it neither takes the stall back nor stalls the endpoint again with a request for the other
direction.  In the USBIP emulation: when `GET_STATUS` finds nothing of other requests in
`status_info`.  In the driver for the STM32F103: never. -/
theorem endpointHalt_released {addr : BitVec 16} (ha : DataAddress addr) :
    (∀ (d : StdDev Mkl27z.Endps) (es es' : List (DevEvent Mkl27z.Endps)),
        HaltRun Mkl27z.haltPort addr d es es' →
        (HaltLaw Mkl27z.stdPort addr d es es' ↔
          ¬ Since Mkl27z.stdPort (Mkl27z.ReleasesEither (addrNum addr))
              (Mkl27z.HaltsEither (addrNum addr))
              (setupRequest Mkl27z.stdPort d (setHaltReq addr)).2 es ∧
            ¬ Since Mkl27z.stdPort (Mkl27z.HaltsEither (addrNum addr))
              (Mkl27z.ReleasesEither (addrNum addr))
              (setupRequest Mkl27z.stdPort (haltedDev Mkl27z.stdPort addr d es)
                (clearHaltReq addr)).2 es')) ∧
      (∀ (feature : Byte) (es₀ es es' : List (DevEvent Usbip.EpStates)),
        HaltRun Usbip.haltPort addr (device feature es₀) es es' →
        (HaltLaw Usbip.stdPort addr (device feature es₀) es es' ↔
          let toGet := es ++ .request (setHaltReq addr) :: es₀
          let toEnd := es' ++ .request (clearHaltReq addr) :: toGet
          ¬ Left FindsWakeup feature toGet ∧
            ¬ Left FindsWakeup feature toEnd ∧ ¬ Left FindsOne feature toEnd)) ∧
      (∀ (d : StdDev (Nat → BitVec 16)) (es es' : List (DevEvent (Nat → BitVec 16))),
        HaltRun Stm32f103.haltPort addr d es es' →
        ¬ HaltLaw Stm32f103.stdPort addr d es es') :=
  ⟨fun _ _ _ h => Mkl27z.haltLaw_iff_other ha h, fun _ _ _ _ h => Usbip.haltLaw_iff_fresh ha h,
    fun _ _ _ h => Stm32f103.haltLaw_false ha h⟩

/-- The address of endpoint 1, direction IN. -/
theorem dataAddress_in1 : DataAddress 0x81 := ⟨by decide, by decide, by decide⟩

/-- A configured device whose endpoints are enabled, for each of the drivers. -/
def Mkl27z.ready : StdDev Mkl27z.Endps :=
  ⟨1, 0, 0, ⟨fun _ => 0x1d, fun _ _ _ => ⟨0, Region.usbSetup.ptr⟩, fun _ _ => false⟩⟩

def Usbip.ready : List (DevEvent Usbip.EpStates) := [.other ⟨fun _ => .nak, fun _ => .nak⟩ 1 0]

def Stm32f103.ready : StdDev (Nat → BitVec 16) := ⟨1, 0, 0, fun _ => 0x0021⟩

/-- `GET_STATUS` for the device. -/
def getDeviceStatusReq : DeviceReq := ⟨0x80, 0, 0, 0, 2⟩

open Usbip.Status in
/-- Endpoint 1, direction IN, is halted and released by the driver for the MKL27Z, with a request
for another endpoint in between, and by the USBIP emulation, with `GET_STATUS` for the endpoint and
the device in between; the driver for the STM32F103 does not release it. -/
theorem endpointHalt_released_in1 :
    HaltLaw Mkl27z.stdPort 0x81 Mkl27z.ready [.request (clearHaltReq 0x02)] [] ∧
      HaltLaw Usbip.stdPort 0x81 (Usbip.Status.device 0 Usbip.ready)
        [.request getDeviceStatusReq, .request (getStatusReq 0x81)] [] ∧
      ¬ HaltLaw Stm32f103.stdPort 0x81 Stm32f103.ready [.request (getStatusReq 0x81)] [] := by
  have h := endpointHalt_released dataAddress_in1
  have hmkl : HaltRun Mkl27z.haltPort 0x81 Mkl27z.ready [.request (clearHaltReq 0x02)] [] :=
    ⟨by decide, by show _ ≠ _; decide, ⟨trivial, fun hr => absurd hr.2.1 (by decide)⟩, trivial⟩
  have husbip : HaltRun Usbip.haltPort 0x81 (Usbip.Status.device 0 Usbip.ready)
      [.request getDeviceStatusReq, .request (getStatusReq 0x81)] [] :=
    ⟨by decide, by show _ = _; decide,
      ⟨⟨trivial, fun hr => absurd hr.1 (by unfold Releases; decide)⟩,
        fun hr => absurd hr.1 (by unfold Releases; decide)⟩, trivial⟩
  have hstm : HaltRun Stm32f103.haltPort 0x81 Stm32f103.ready [.request (getStatusReq 0x81)] [] :=
    ⟨by decide, by show _ = _; decide,
      ⟨trivial, fun hr => absurd hr.1 (by unfold Releases; decide)⟩, trivial⟩
  -- the `GET_STATUS` for the device finds nothing and leaves nothing
  have hasks : Asks (device 0 (.request (getStatusReq 0x81) :: .request (setHaltReq 0x81) ::
      Usbip.ready)) getDeviceStatusReq deviceRecipient :=
    ⟨by decide, rfl, by decide, [0, 0], by decide⟩
  have hwakeup : ¬ Left FindsWakeup 0 (.request getDeviceStatusReq ::
      .request (getStatusReq 0x81) :: .request (setHaltReq 0x81) :: Usbip.ready) := by
    rw [left_cleared hasks]
    exact fun hf => hf.2 (by decide)
  have hone : ¬ Left FindsOne 0 (.request getDeviceStatusReq :: .request (getStatusReq 0x81) ::
      .request (setHaltReq 0x81) :: Usbip.ready) := by
    rw [left_cleared hasks]
    rintro (⟨-, hf⟩ | ⟨hep, -⟩)
    · exact hf (by decide)
    · exact absurd hep.recipient (by decide)
  have hclear : ∀ {d rcp}, ¬ Asks d (clearHaltReq 0x81) rcp :=
    fun hr => absurd hr.request (by decide)
  refine ⟨(h.1 _ _ _ hmkl).2 ⟨?_, id⟩, (h.2.1 _ _ _ _ husbip).2 ⟨hwakeup, ?_, ?_⟩,
    h.2.2 _ _ _ hstm⟩
  · rintro (hr | ⟨hr, -⟩)
    · exact absurd hr.2 (by decide)
    · exact hr
  · intro hl
    rcases left_request.1 hl with hf | ⟨hl, -⟩
    · exact hclear hf.1
    · exact hwakeup hl
  · intro hl
    rcases left_request.1 hl with (hf | hf) | ⟨hl, -⟩
    · exact hclear hf.1
    · exact hclear hf.1
    · exact hone hl

/-- In the driver for the STM32F103 endpoint 1 stays stalled; in the USBIP emulation
`GET_STATUS` says that it is, after it was asked in between; and in the driver for the MKL27Z it
is stalled no longer when the host has released the other direction. -/
theorem endpointHalt_stays :
    (HaltRun Stm32f103.haltPort 0x81 Stm32f103.ready [] [] ∧
        ¬ HaltLaw Stm32f103.stdPort 0x81 Stm32f103.ready [] []) ∧
      (HaltRun Usbip.haltPort 0x81 (Usbip.Status.device 0 Usbip.ready)
          [.request (getStatusReq 0x81)] [] ∧
        ¬ HaltLaw Usbip.stdPort 0x81 (Usbip.Status.device 0 Usbip.ready)
          [.request (getStatusReq 0x81)] []) ∧
      HaltRun Mkl27z.haltPort 0x81 Mkl27z.ready [.request (clearHaltReq 0x01)] [] ∧
        ¬ HaltLaw Mkl27z.stdPort 0x81 Mkl27z.ready [.request (clearHaltReq 0x01)] [] := by
  refine ⟨⟨⟨by decide, by show _ = _; decide, trivial, trivial⟩, ?_⟩,
    ⟨⟨by decide, by show _ = _; decide,
      ⟨trivial, fun hr => absurd hr.1 (by unfold Releases; decide)⟩, trivial⟩, ?_⟩,
    ⟨by decide, by show _ ≠ _; decide, ⟨trivial, fun hr => absurd hr.2.1 (by decide)⟩, trivial⟩, ?_⟩
  · unfold HaltLaw Halts Releases
    decide
  · unfold HaltLaw Halts Releases
    decide
  · unfold HaltLaw Halts Releases
    decide

end Chopstx.Usb
