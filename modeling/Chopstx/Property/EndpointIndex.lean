import Chopstx.Property.UrbReply
import Chopstx.Usb.UsbipEndp

/-!
# The indices of the endpoint records

The numbers of endpoints come from the client: in the header of an URB, and in the SETUP packet
of a control URB.  None of the places where they are used as indices checks that they
are below 8.  All others take them from an URB of the list, or from the loop over the
endpoints, and are safe if these are.

* `bothStep`, `accesses` - a step of the server or of the standard requests, and the indices that it
  uses: `listAccess` those from the list of URBs, `ownAccess` those of its own.
* `bothStep_queued` - the step lemma: the endpoints of the URBs in the list are below 8.
* `InRange`, `indices_lt_iff` - the condition on the command, and that it is the exact one.
* `bothStep_index` - where an index is not below 8, the step ends in the fault of the model.
* `indices_not_lt` - endpoint 8, and a feature of endpoint 0x8f.
-/

namespace Chopstx.Usb.Usbip.Server

open Transition

/-! ## The server and the standard requests -/

/-- The endpoints of the server for the standard requests. -/
def statePort : StdPort State where
  status₀ := stdPort.status₀
  disabled isIn n s := (s.endp (isIn, n)).state = .disabled
  halted isIn n s := (s.endp (isIn, n)).state = .stall
  epStatus := stdPort.epStatus
  clearHalt isIn n s := s.setEndp (isIn, n) { s.endp (isIn, n) with state := .nak }
  setHalt isIn n s := s.setEndp (isIn, n) { s.endp (isIn, n) with state := .stall }

/-- The record of an endpoint that the handler of a request uses: `std_get_status`,
`std_clear_feature` and `std_set_feature`, after their checks. -/
def stdAccess (configuration : Byte) (arg : DeviceReq) : Option (Bool × Nat) :=
  if arg.type &&& requestType = standardRequest ∧ arg.rcp = endpointRecipient then
    match arg.request.toNat with
    | 0 =>
        if arg.value ≠ 0 ∨ arg.len ≠ 2 ∨ arg.index >>> 8 ≠ 0 ∨ arg.isSet then none
        else if arg.index &&& 0x70 ≠ 0 ∨ arg.endpoint = 0 then none
        else some (arg.isIn, arg.endpoint)
    | 1 | 3 =>
        if arg.isGet then none
        else if configuration = 0 then none
        else if arg.len ≠ 0 ∨ arg.index >>> 8 ≠ 0 ∨ arg.value ≠ featureEndpointHalt ∨
            arg.endpoint = 0 then none
        else some (arg.isIn, arg.endpoint)
    | _ => none
  else none

/-- What happens to the server and the device: the commands of the client, where `taken` says
that endpoint 0 is ready for the SETUP packet of a control URB; an endpoint that is ready in
the loop over the eventfds; what the application does to an endpoint and to the memory, and
the configuration and features that it sets. -/
inductive Activity where
  | submit (x : Submit) (a : Answer) (taken : Bool)
  | unlink (seq flags : BitVec 32)
  | ready (isIn : Bool) (i : Fin 7)
  | device (isIn : Bool) (n : Fin 8) (c : UsbControl) (M : Mem)
  | configure (configuration feature : Byte)

namespace Activity

/-- The event of the server. -/
def event : Activity → Option Event
  | .submit x a _ => some (.submit x a)
  | .unlink seq flags => some (.unlink seq flags)
  | .ready isIn i => some (.ready (isIn, i + 1))
  | .device isIn n c M => some (.device (isIn, n) c M)
  | .configure .. => none

/-- The request for the device in a control URB. -/
def request : Activity → Option DeviceReq
  | .submit x _ true =>
      match x.cmd, x.setup with
      | some cmd, some setup =>
          if cmd.len.toNat ≤ urbDataSize ∧ ¬ (cmd.dir = dirOut ∧ cmd.len ≠ 0 ∧ x.data = none) ∧
              cmd.ep = 0 then some (deviceReq setup)
          else none
      | _, _ => none
  | _ => none

/-- The data endpoint of an URB, where `usbip_handle_data_urb` is called for it. -/
def dataUrb : Activity → Option (Bool × Nat)
  | .submit x _ _ =>
      match x.cmd, x.setup with
      | some cmd, some _ =>
          if cmd.len.toNat ≤ urbDataSize ∧ ¬ (cmd.dir = dirOut ∧ cmd.len ≠ 0 ∧ x.data = none) ∧
              cmd.ep ≠ 0 then some cmd.endp
          else none
      | _, _ => none
  | _ => none

end Activity

variable {s s' : State} {l : List Nat} {d d' : StdDev State} {act : Activity} {arg : DeviceReq}

/-- The record of an endpoint that is used for an URB which the server has in its list: the one
that is taken back, and the one that a packet is for.  The thread of the device is told its
number, and takes the length from the record. -/
def listAccess (s : State) : Activity → Option (Bool × Nat)
  | .unlink _ flags => (s.urbs.find? fun n => (s.urb n).seq = flags).map fun n => (s.urb n).endp
  | .ready isIn i => (s.endp (isIn, i + 1)).urb.map fun n => (s.urb n).endp
  | _ => none

/-- The record of an endpoint that the loop over the endpoints, or the application, is at. -/
def ownAccess : Activity → Option (Bool × Nat)
  | .ready isIn i => some (isIn, i + 1)
  | .device isIn n _ _ => some (isIn, n)
  | _ => none

/-- **The accesses** to `usbc_ep_in` and `usbc_ep_out`, each with the index. -/
def accesses (d : StdDev State) (act : Activity) : List (Bool × Nat) :=
  (act.request.bind (stdAccess d.configuration)).toList ++ act.dataUrb.toList ++
    (listAccess d.eps act).toList ++ (ownAccess act).toList

/-- The step of the device: the configuration and the features are set, or a request is
handled. -/
def deviceStep (d : StdDev State) (act : Activity) : Except Fault (StdDev State) :=
  match act with
  | .configure configuration feature => .ok { d with configuration, feature }
  | _ =>
      match act.request with
      | none => .ok d
      | some arg =>
          if ∃ e ∈ stdAccess d.configuration arg, 8 ≤ e.2 then .error .index
          else .ok (setupRequest statePort d arg).2

/-- One step of both. -/
def bothStep (d : StdDev State) (act : Activity) : Except Fault (StdDev State) :=
  match deviceStep d act, act.event with
  | .error fault, _ => .error fault
  | .ok d, none => .ok d
  | .ok d, some ev => (step d.eps ev).map fun s => { d with eps := s }

/-- The system before the first URB. -/
def bothInit (feature : Byte) : StdDev State := ⟨0, feature, 0, .init⟩

/-! ## What a request uses -/

section

variable {t : State} {dev ep : Outcome × StdDev State}

/-- The device with other endpoints. -/
def withEps (t : State) (x : Outcome × StdDev State) : Outcome × StdDev State :=
  (x.1, { x.2 with eps := t })

/-- `std_get_status` looks at no endpoint unless it passes the checks for one. -/
theorem stdGetStatus_withEps (h : arg.rcp = endpointRecipient →
      (arg.value ≠ 0 ∨ arg.len ≠ 2 ∨ arg.index >>> 8 ≠ 0 ∨ arg.isSet) ∨
        (arg.index &&& 0x70 ≠ 0 ∨ arg.endpoint = 0)) :
    Usb.stdGetStatus statePort { d with eps := t } arg =
      withEps t (Usb.stdGetStatus statePort d arg) := by
  rw [Usb.stdGetStatus, Usb.stdGetStatus]
  split_ifs with hbad hdev hindex hif hconf hep hnum
  all_goals first
    | rfl
    | exact absurd (h hep) (by rintro (h' | h') <;> contradiction)

/-- So do `std_clear_feature` and `std_set_feature`. -/
theorem stdFeature_withEps (h : arg.rcp = endpointRecipient → arg.isGet ∨ d.configuration = 0 ∨
      (arg.len ≠ 0 ∨ arg.index >>> 8 ≠ 0 ∨ arg.value ≠ featureEndpointHalt ∨ arg.endpoint = 0))
    {dev' ep' : Outcome × StdDev State} (hdev : dev' = withEps t dev) :
    stdFeature statePort { d with eps := t } arg dev' ep' =
      withEps t (stdFeature statePort d arg dev ep) := by
  rw [stdFeature, stdFeature]
  split_ifs with hget hdev' hbad hwake hep hconf hbad'
  all_goals first
    | rfl
    | exact hdev
    | exact absurd (h hep) (by rintro (h' | h' | h') <;> contradiction)

/-- A request that uses no record does the same, whatever the endpoints are. -/
theorem setupRequest_withEps (h : stdAccess d.configuration arg = none) :
    setupRequest statePort { d with eps := t } arg = withEps t (setupRequest statePort d arg) := by
  rw [setupRequest, setupRequest]
  split
  · rename_i hstd
    have h' : arg.rcp = endpointRecipient → _ := fun hrcp => (if_pos ⟨hstd, hrcp⟩).symm.trans h
    have hfeature : (if arg.isGet then none
        else if d.configuration = 0 then none
        else if arg.len ≠ 0 ∨ arg.index >>> 8 ≠ 0 ∨ arg.value ≠ featureEndpointHalt ∨
            arg.endpoint = 0 then none
        else some (arg.isIn, arg.endpoint)) = none → arg.isGet ∨ d.configuration = 0 ∨
        (arg.len ≠ 0 ∨ arg.index >>> 8 ≠ 0 ∨ arg.value ≠ featureEndpointHalt ∨
          arg.endpoint = 0) := by
      intro hnone
      by_contra hno
      rw [not_or, not_or] at hno
      simp only [hno.1, hno.2.1, hno.2.2, if_false] at hnone
      cases hnone
    split
    · rename_i hreq
      refine stdGetStatus_withEps fun hrcp => ?_
      have h' := h' hrcp
      rw [hreq] at h'
      by_contra hno
      rw [not_or] at hno
      simp only [hno.1, hno.2, if_false] at h'
      cases h'
    · rename_i hreq
      refine stdFeature_withEps (fun hrcp => hfeature ?_) rfl
      have h' := h' hrcp
      rwa [hreq] at h'
    · rename_i hreq
      refine stdFeature_withEps (fun hrcp => hfeature ?_) rfl
      have h' := h' hrcp
      rwa [hreq] at h'
    all_goals rfl
  · rfl

end

/-! ## The list of URBs -/

/-- A request changes the states of endpoints only. -/
theorem setupRequest_turned (h : Queued d.eps l) :
    Turned d.eps (setupRequest statePort d arg).2.eps l (.ready (true, 0)) l := by
  have hset : ∀ st, Turned d.eps (d.eps.setEndp (arg.isIn, arg.endpoint)
      { d.eps.endp (arg.isIn, arg.endpoint) with state := st }) l (.ready (true, 0)) l :=
    fun st => .of_alike h (.setEndp rfl) fun m => by rw [State.setEndp_urb]
  rcases @setupRequest_eps State statePort d arg with ⟨-, heq⟩ | ⟨-, heq⟩ | ⟨-, -, heq⟩
  · rw [heq]
    exact hset _
  · rw [heq]
    exact hset _
  · rw [heq]
    exact .of_alike h .refl fun _ => rfl

theorem deviceStep_queued (h : Queued d.eps l) (hs : deviceStep d act = .ok d') :
    Queued d'.eps l := by
  rw [deviceStep.eq_def] at hs
  split at hs
  · cases hs
    exact h
  · split at hs
    · cases hs
      exact h
    · split at hs
      · cases hs
      · cases hs
        exact h.turned (setupRequest_turned h)

/-- **Step lemma.** -/
theorem bothStep_queued (h : Queued d.eps l) (hs : bothStep d act = .ok d') :
    ∃ l', Queued d'.eps l' := by
  rw [bothStep] at hs
  split at hs
  · cases hs
  · rename_i hd hev
    cases hs
    exact ⟨l, deviceStep_queued h hd⟩
  · rename_i hd hev
    have h₁ := deviceStep_queued h hd
    obtain ⟨s', hs', rfl⟩ := map_ok hs
    obtain ⟨l', ht⟩ := step_turned h₁ hs'
    exact ⟨l', h₁.turned ht⟩

theorem queued_of_bothReach {feature : Byte} (h : Reach bothStep anyEvent (bothInit feature) d) :
    ∃ l, Queued d.eps l := by
  refine h.invariant (P := fun d => ∃ l, Queued d.eps l) (queued_of_reach (.refl _)) ?_
  rintro d act d' ⟨l, hq⟩ - hs
  exact bothStep_queued hq hs

/-- The URBs of the list are for records of the arrays. -/
theorem listAccess_lt {e : Bool × Nat} (h : Queued s l) (he : e ∈ listAccess s act) : e.2 < 8 := by
  rw [Option.mem_def, listAccess.eq_def] at he
  split at he
  · obtain ⟨n, hn, rfl⟩ := Option.map_eq_some_iff.mp he
    rw [h.listed.urbs_eq] at hn
    exact (h.data n (List.mem_of_find?_eq_some hn)).2
  · obtain ⟨n, hn, rfl⟩ := Option.map_eq_some_iff.mp he
    exact (h.data n (h.current _ n hn).1).2
  · cases he

theorem ownAccess_lt {e : Bool × Nat} (he : e ∈ ownAccess act) : e.2 < 8 := by
  rw [Option.mem_def, ownAccess.eq_def] at he
  split at he
  · cases he
    dsimp only
    omega
  · cases he
    dsimp only
    omega
  · cases he

/-! ## The indices -/

/-- What the client must not ask for: an URB for a data endpoint above 7, or a request of which
the handler comes to use the record of one. -/
def InRange (d : StdDev State) (act : Activity) : Prop :=
  (∀ e ∈ act.dataUrb, e.2 < 8) ∧
    ∀ arg ∈ act.request, ∀ e ∈ stdAccess d.configuration arg, e.2 < 8

/-- **All indices of a step are below 8 if and only if the command asks for nothing else.** -/
theorem indices_lt_iff (feature : Byte) (d : StdDev State) (act : Activity)
    (h : Reach bothStep anyEvent (bothInit feature) d) :
    (∀ e ∈ accesses d act, e.2 < 8) ↔ InRange d act := by
  obtain ⟨l, hq⟩ := queued_of_bothReach h
  have hlist : ∀ e ∈ (listAccess d.eps act).toList, e.2 < 8 := fun e he =>
    listAccess_lt hq (Option.mem_toList.mp he)
  have hown : ∀ e ∈ (ownAccess act).toList, e.2 < 8 := fun e he =>
    ownAccess_lt (Option.mem_toList.mp he)
  have hrequest : (∀ e ∈ (act.request.bind (stdAccess d.configuration)).toList, e.2 < 8) ↔
      ∀ arg ∈ act.request, ∀ e ∈ stdAccess d.configuration arg, e.2 < 8 := by
    simp only [Option.mem_toList, Option.mem_def, Option.bind_eq_some_iff]
    exact ⟨fun h arg harg e he => h e ⟨arg, harg, he⟩, fun h e ⟨arg, harg, he⟩ => h arg harg e he⟩
  have hdata : (∀ e ∈ act.dataUrb.toList, e.2 < 8) ↔ ∀ e ∈ act.dataUrb, e.2 < 8 := by
    simp only [Option.mem_toList, Option.mem_def]
  rw [accesses, InRange, ← hrequest, ← hdata]
  constructor
  · intro hall
    refine ⟨fun e he => hall e ?_, fun e he => hall e ?_⟩
    · exact List.mem_append_left _ (List.mem_append_left _ (List.mem_append_right _ he))
    · exact List.mem_append_left _ (List.mem_append_left _ (List.mem_append_left _ he))
  · rintro ⟨hd, hr⟩ e he
    rcases List.mem_append.mp he with he | he
    · rcases List.mem_append.mp he with he | he
      · rcases List.mem_append.mp he with he | he
        · exact hr e he
        · exact hd e he
      · exact hlist e he
    · exact hown e he

/-- `usbip_handle_urb` goes wrong with an index where the data endpoint is out of range. -/
theorem usbipHandleUrb_index {x : Submit} {a : Answer} {taken : Bool} :
    s.usbipHandleUrb x a = .error .index ↔
      ¬ ∀ e ∈ (Activity.submit x a taken).dataUrb, e.2 < 8 := by
  rw [State.usbipHandleUrb, Activity.dataUrb]
  cases x.cmd with
  | none => simp
  | some cmd =>
      cases hsetup : x.setup with
      | none =>
          simp only [if_true]
          split <;> simp
      | some setup =>
          have hst : Started s cmd (s.linkUrb.setUrb s.nurb
            (State.newUrb x.seq cmd (some setup) x.data)) := started
          dsimp only
          generalize s.linkUrb.setUrb s.nurb (State.newUrb x.seq cmd (some setup) x.data) = s₁ at *
          have hno : ¬ ¬ ∀ e ∈ (none : Option (Bool × Nat)), e.2 < 8 := not_not.mpr (by simp)
          by_cases hlen : cmd.len.toNat > urbDataSize
          · rw [if_pos hlen, if_neg fun h => not_le.mpr hlen h.1]
            exact iff_of_false (by simp) hno
          · rw [if_neg hlen, if_neg (Option.some_ne_none setup)]
            by_cases hdata : cmd.dir = dirOut ∧ cmd.len ≠ 0 ∧ x.data = none
            · rw [if_pos hdata, if_neg fun h => h.2.1 hdata]
              exact iff_of_false (by simp) hno
            · rw [if_neg hdata]
              by_cases hep : cmd.ep = 0
              · rw [if_pos hep, if_neg fun h => h.2.2 hep]
                exact iff_of_false (by simp) hno
              · rw [if_neg hep, if_pos ⟨not_lt.mp hlen, hdata, hep⟩, State.usbipHandleDataUrb,
                  hst.endp_new]
                simp only [Option.mem_def, Option.some.injEq, forall_eq', not_lt]
                by_cases hlt : 8 ≤ cmd.endp.2
                · rw [if_pos hlt]
                  exact iff_of_true rfl hlt
                · rw [if_neg hlt]
                  refine iff_of_false (fun h => ?_) hlt
                  split at h <;> cases h

/-- `CMD_URB_UNLINK` and the loop over the endpoints use no index above 7. -/
theorem step_not_index {ev : Event} (h : Queued s l) (hev : ∀ x a, ev ≠ .submit x a) :
    step s ev ≠ .error .index := by
  intro hs
  cases ev with
  | submit x a => exact hev x a rfl
  | device e c M => cases hs
  | ready e =>
      change s.usbipEpReady e = _ at hs
      rw [State.usbipEpReady] at hs
      split at hs
      · cases hs
      · split at hs
        · cases hs
        · simp only at hs
          split at hs
          · split at hs
            · cases hs
            · cases hs
          · cases hs
  | unlink seq flags =>
      change s.usbipUnlinkUrb seq flags = _ at hs
      have hhead := h.listed.head
      rw [State.usbipUnlinkUrb] at hs
      split at hs
      · cases hs
      · rename_i a ha
        cases l with
        | nil =>
            rw [ha] at hhead
            cases hhead
        | cons b l =>
            rw [ha, List.head?_cons, Option.some.injEq] at hhead
            subst hhead
            rw [h.listed.findNext_eq] at hs
            split at hs
            · cases hs
            · cases hs
            · rename_i n hf
              rw [Option.some.injEq] at hf
              have hlt := (h.data n (List.mem_of_find?_eq_some hf)).2
              rw [State.unlinkUrbEp] at hs
              split at hs
              · rename_i hge
                exact absurd hlt (not_lt.mpr hge)
              · split at hs <;> cases hs

/-- What the step of the server comes to after that of the device. -/
theorem bothStep_of_ok {ev : Event} (hd : deviceStep d act = .ok d') (hev : act.event = some ev) :
    bothStep d act = .error .index ↔ step d'.eps ev = .error .index := by
  rw [bothStep, hd, hev]
  dsimp only
  cases step d'.eps ev with
  | error fault => simp [Except.map]
  | ok s => simp [Except.map]

/-- A step uses an index above 7 only where it goes wrong, and there it does. -/
theorem bothStep_index (feature : Byte) (h : Reach bothStep anyEvent (bothInit feature) d) :
    bothStep d act = .error .index ↔ ¬ InRange d act := by
  obtain ⟨l, hq⟩ := queued_of_bothReach h
  have hquiet : ∀ ev, act.event = some ev → (∀ x a, ev ≠ .submit x a) → act.request = none →
      act.dataUrb = none → deviceStep d act = .ok d →
        (bothStep d act = .error .index ↔ ¬ InRange d act) := by
    intro ev hev hne hreq hdata hdev
    rw [bothStep_of_ok hdev hev, InRange, hreq, hdata]
    exact iff_of_false (step_not_index hq hne) (not_not.mpr ⟨(by simp), (by simp)⟩)
  cases act with
  | configure configuration feature =>
      refine iff_of_false (by rintro ⟨⟩) (not_not.mpr ⟨?_, ?_⟩) <;> rintro _ ⟨⟩
  | unlink seq flags => exact hquiet _ rfl (by simp) rfl rfl rfl
  | ready isIn i => exact hquiet _ rfl (by simp) rfl rfl rfl
  | device isIn n c M => exact hquiet _ rfl (by simp) rfl rfl rfl
  | submit x a taken =>
      have hserver : ∀ d₁, deviceStep d (.submit x a taken) = .ok d₁ →
          (bothStep d (.submit x a taken) = .error .index ↔
            ¬ ∀ e ∈ (Activity.submit x a taken).dataUrb, e.2 < 8) :=
        fun d₁ hd₁ => (bothStep_of_ok hd₁ rfl).trans usbipHandleUrb_index
      by_cases hreq : ∃ arg ∈ (Activity.submit x a taken).request,
          ∃ e ∈ stdAccess d.configuration arg, 8 ≤ e.2
      · obtain ⟨arg, harg, hex⟩ := hreq
        have hd : deviceStep d (.submit x a taken) = .error .index := by
          simp only [deviceStep, Option.mem_def.mp harg, if_pos hex]
        rw [bothStep, hd]
        refine iff_of_true rfl fun hin => ?_
        obtain ⟨e, he, hge⟩ := hex
        exact absurd (hin.2 arg harg e he) (not_lt.mpr hge)
      · have hlt : ∀ arg ∈ (Activity.submit x a taken).request,
            ∀ e ∈ stdAccess d.configuration arg, e.2 < 8 := by
          intro arg harg e he
          by_contra hge
          exact hreq ⟨arg, harg, e, he, not_lt.mp hge⟩
        obtain ⟨d₁, hd₁⟩ : ∃ d₁, deviceStep d (.submit x a taken) = .ok d₁ := by
          simp only [deviceStep]
          cases harg : (Activity.submit x a taken).request with
          | none => exact ⟨d, rfl⟩
          | some arg => exact ⟨_, if_neg fun hex => hreq ⟨arg, harg, hex⟩⟩
        rw [hserver d₁ hd₁, InRange, not_and_or]
        exact (or_iff_left (not_not.mpr hlt)).symm

/-- The client stalls endpoint 1. -/
theorem indices_lt_stall : ∃ d : StdDev State, (d.eps.endp (true, 1)).state = .nak ∧
    ∀ e ∈ accesses d (.submit ⟨10, some ⟨1, 0, 0, 0, 0⟩,
      some [0x02, 3, 0, 0, 0x81, 0, 0, 0], none⟩ ⟨0, 0, fun _ _ => 0⟩ true), e.2 < 8 := by
  have hrun : runTest bothStep (fun _ _ => true)
      (fun d => decide ((d.eps.endp (true, 1)).state = .nak ∧ d.configuration = 1)) (bothInit 0)
      [.configure 1 0, .device true 1 ⟨0, .nak, Region.null.ptr, 0⟩ fun _ _ => 0] = true := by
    decide +kernel
  obtain ⟨d, hd, hp⟩ := reach_any_of_runTest hrun
  obtain ⟨hst, hconf⟩ := of_decide_eq_true hp
  refine ⟨d, hst, (indices_lt_iff 0 d _ hd).2 ⟨?_, ?_⟩⟩
  · intro e he
    cases he
  · intro arg harg e he
    cases harg
    rw [hconf] at he
    cases he
    decide

/-- An URB for endpoint 8, and `GET_STATUS` for endpoint 15. -/
theorem indices_not_lt :
    (¬ ∀ e ∈ accesses (bothInit 0) (.submit ⟨10, some ⟨1, 1, 8, 0, 64⟩,
        some (List.replicate 8 0), none⟩ ⟨0, 0, fun _ _ => 0⟩ true), e.2 < 8) ∧
      ¬ ∀ e ∈ accesses (bothInit 0) (.submit ⟨10, some ⟨1, 1, 0, 0, 2⟩,
        some [0x82, 0, 0, 0, 0x8f, 0, 2, 0], none⟩ ⟨0, 0, fun _ _ => 0⟩ true), e.2 < 8 := by
  constructor
  · intro h
    exact absurd (h (true, 8) (by decide)) (by decide)
  · intro h
    exact absurd (h (true, 15) (by decide)) (by decide)

end Chopstx.Usb.Usbip.Server
