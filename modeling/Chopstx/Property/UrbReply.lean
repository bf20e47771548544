import Chopstx.Property.UrbOrder

/-!
# Every submission is answered

Whatever the client submits, takes back, or lets wait, an URB of the list has had no reply, and
it leaves the list with its one reply or because it is taken back.  What is left is a
submission whose header is not received or asks for too much: the server then uses a pointer
to an URB that there is not.

* `Queued`, `queued_of_reach` - the list of URBs, in every run.
* `Turned`, `step_turned` - what a step does to the replies and to the list.
* `Fate`, `Fate.steps` - what becomes of an URB, and that a run does no more.
* `Accounted` - it is in the list, has its one reply, or is taken back.
* `Complete` - the submission is received as a whole and does not ask for too much.
* `AnsweredBy`, `submit_answered_iff` - what is promised, and when it is kept.
* `submit_answered_refused`, `submit_not_answered` - an URB that is refused, and three that are not
  answered.
-/

namespace Chopstx.Usb.Usbip.Server

open Transition

/-! ## Replies -/

/-- The sequence number of a reply. -/
def Reply.seq : Reply → BitVec 32
  | .finish _ seq .. | .fail _ seq _ | .unlink seq _ => seq

/-- The replies `REP_URB_SUBMIT` for an URB. -/
def State.replies (s : State) (n : Nat) : List Reply :=
  s.sent.filter fun r => r.answers true = some n

/-- The event takes the URB back. -/
def TakesBack (n : Nat) (s : State) : Event → Prop
  | .unlink _ flags => s.urbs.find? (fun m => (s.urb m).seq = flags) = some n
  | _ => False

variable {s s' : State} {l l' p q : List Nat} {n m : Nat} {e : Bool × Nat} {r : Reply}
  {x : Submit} {a : Answer} {ev : Event} {cmd : MsgCmd}

theorem replies_concat (h : s'.sent = s.sent ++ [r]) :
    s'.replies n = s.replies n ++ if r.answers true = some n then [r] else [] := by
  rw [State.replies, h, List.filter_append, List.filter_cons, List.filter_nil, State.replies]
  congr 1
  simp only [decide_eq_true_eq]

theorem replies_congr (h : s'.sent = s.sent) : s'.replies = s.replies := by
  funext n
  rw [State.replies, h, State.replies]

/-! ## The list in all runs -/

/-- The URBs `l` are in the list.  They are for data endpoints, and the pointers of the endpoints
are to URBs of the list that are for them. -/
structure Queued (s : State) (l : List Nat) : Prop where
  listed : Listed s l
  data : ∀ n ∈ l, (s.urb n).ep ≠ 0 ∧ (s.urb n).ep.toNat < 8
  current : ∀ e n, (s.endp e).urb = some n → n ∈ l ∧ (s.urb n).endp = e

/-- The URBs that were there before are for the same endpoints, and have the same sequence
numbers. -/
structure Frame (s s' : State) : Prop where
  ep : ∀ m, m ≠ s.nurb → (s'.urb m).ep = (s.urb m).ep
  dir : ∀ m, m ≠ s.nurb → (s'.urb m).dir = (s.urb m).dir
  seq : ∀ m, m ≠ s.nurb → (s'.urb m).seq = (s.urb m).seq

theorem Frame.endp (h : Frame s s') (hm : m ≠ s.nurb) : (s'.urb m).endp = (s.urb m).endp :=
  Urb.endp_congr (h.ep m hm) (h.dir m hm)

theorem Frame.of_urb (h : ∀ m, m ≠ s.nurb → s'.urb m = s.urb m) : Frame s s' :=
  ⟨fun m hm => by rw [h m hm], fun m hm => by rw [h m hm], fun m hm => by rw [h m hm]⟩

/-- What an event can do to the list and to the replies. -/
inductive Turn (s : State) (l : List Nat) (s' : State) : Event → List Nat → Prop
  | stay {ev : Event} (hn : s'.nurb = s.nurb) (hs : s'.replies = s.replies) : Turn s l s' ev l
  | answer {x : Submit} {a : Answer} {r : Reply} (hn : s'.nurb = s.nurb + 1)
      (hr : r.answers true = some s.nurb) (hseq : r.seq = x.seq)
      (hnew : (s'.urb s.nurb).seq = x.seq) (hs : s'.sent = s.sent ++ [r]) :
      Turn s l s' (.submit x a) l
  | queue {x : Submit} {a : Answer} (hn : s'.nurb = s.nurb + 1)
      (hep : (s'.urb s.nurb).ep ≠ 0 ∧ (s'.urb s.nurb).ep.toNat < 8)
      (hnew : (s'.urb s.nurb).seq = x.seq) (hs : s'.sent = s.sent) :
      Turn s l s' (.submit x a) (s.nurb :: l)
  | takeBack {p q : List Nat} {n : Nat} {seq flags : BitVec 32} (hl : l = p ++ n :: q)
      (hf : l.find? (fun m => (s.urb m).seq = flags) = some n) (hn : s'.nurb = s.nurb)
      (hs : s'.replies = s.replies) : Turn s l s' (.unlink seq flags) (p ++ q)
  | finish {p q : List Nat} {n : Nat} {e : Bool × Nat} {r : Reply} (hl : l = p ++ n :: q)
      (hn : s'.nurb = s.nurb) (hr : r.answers true = some n) (hseq : r.seq = (s.urb n).seq)
      (hs : s'.sent = s.sent ++ [r]) : Turn s l s' (.ready e) (p ++ q)

/-- The list after a turn, with the pointers of the endpoints. -/
structure Turned (s s' : State) (l : List Nat) (ev : Event) (l' : List Nat) : Prop where
  turn : Turn s l s' ev l'
  frame : Frame s s'
  listed : Listed s' l'
  current : ∀ e n, (s'.endp e).urb = some n → n ∈ l' ∧ (s'.urb n).endp = e

namespace Queued

theorem ne (h : Queued s l) (hm : m ∈ l) : m ≠ s.nurb := (h.listed.lt m hm).ne

theorem turned (h : Queued s l) (ht : Turned s s' l ev l') : Queued s' l' := by
  have hold : ∀ m ∈ l, (s'.urb m).ep ≠ 0 ∧ (s'.urb m).ep.toNat < 8 := by
    intro m hm
    rw [ht.frame.ep m (h.ne hm)]
    exact h.data m hm
  refine ⟨ht.listed, ?_, ht.current⟩
  cases ht.turn with
  | stay | answer => exact hold
  | queue hn hep hnew hs =>
      intro m hm
      rcases List.mem_cons.mp hm with rfl | hm
      · exact hep
      · exact hold m hm
  | takeBack hl | finish hl =>
      subst hl
      exact fun m hm => hold m (((List.sublist_cons_self _ _).append_left _).subset hm)

end Queued

/-! ## The steps -/

/-- Nothing happens to the list. -/
theorem Turned.of_alike (h : Queued s l) (ha : Alike s s')
    (hseq : ∀ m, (s'.urb m).seq = (s.urb m).seq) : Turned s s' l ev l := by
  refine ⟨.stay ha.nurb (replies_congr ha.sent),
    ⟨fun m _ => ha.ep m, fun m _ => ha.dir m, fun m _ => hseq m⟩, ha.listed h.listed, ?_⟩
  intro e n hn
  rw [ha.current] at hn
  rw [ha.endp]
  exact h.current e n hn

/-- The device writes to the record of an endpoint. -/
theorem device_turned {c : UsbControl} {M : Mem} (h : Queued s l) :
    Turned s { s.setEndp e { s.endp e with toUsbControl := c } with mem := M } l ev l := by
  have ha : Alike s (s.setEndp e { s.endp e with toUsbControl := c }) := .setEndp rfl
  exact .of_alike h ⟨ha.ep, ha.dir, ha.current, ha.links, ha.urbList, ha.nurb, ha.sent⟩
    fun m => by rw [State.setEndp_urb]

theorem hcHandleDataUrb_seq : ((s.hcHandleDataUrb e n).2.urb m).seq = (s.urb m).seq := by
  have hset : ∀ (s₁ : State) (u : Urb), (s₁.urb m).seq = (s.urb m).seq →
      u.seq = (s₁.urb n).seq → ((s₁.setUrb n u).urb m).seq = (s.urb m).seq := by
    intro s₁ u hs hu
    show (Function.update s₁.urb n u m).seq = _
    rw [Function.update_apply]
    split
    · rename_i hm
      rw [hu, ← hm, hs]
    · exact hs
  rw [State.hcHandleDataUrb]
  simp only
  generalize (if (s.urb n).remain.toNat > 64 then 64 else (s.urb n).remain.toNat) = count
  split
  · have hw : (s.writeDataTransaction e (s.urb n) count).2.urb = s.urb := by
      rw [State.writeDataTransaction]
      simp only
      split <;> simp
    split
    · rw [hw]
    · exact hset _ _ (by rw [hw]) (by rw [hw])
  · have hr : ((s.readDataTransaction e n count).2.urb m).seq = (s.urb m).seq := by
      rw [State.readDataTransaction]
      exact hset _ _ (by simp) (by simp)
    split
    · exact hr
    · split
      · exact hset _ _ hr rfl
      · exact hset _ _ hr rfl

/-- An URB of the list, the list around it, and the next URB for its endpoint. -/
theorem Queued.next (h : Queued s l) (hc : (s.endp e).urb = some n) :
    ∃ p q o, l = p ++ n :: q ∧ (s.urb n).endp = e ∧ s.nextUrb n = some o ∧
      ∀ m, o = some m → m ∈ p ++ q ∧ (s.urb m).endp = e := by
  obtain ⟨hmem, he⟩ := h.current e n hc
  obtain ⟨p, q, rfl⟩ := List.append_of_mem hmem
  refine ⟨p, q, _, rfl, he, nextUrb_listed h.listed, fun m hm => ?_⟩
  obtain ⟨hm, hne⟩ := Option.filter_eq_some_iff.mp hm
  have hmem := List.mem_of_getLast? hm
  rw [List.mem_filter, decide_eq_true_iff] at hmem
  obtain ⟨hmem, hep, hdir⟩ := hmem
  rw [Urb.endp_congr hep hdir]
  refine ⟨?_, he⟩
  have hne : m ≠ n := of_decide_eq_true hne
  split at hmem
  · rcases List.mem_cons.mp hmem with heq | hmem
    · exact absurd heq hne
    · exact List.mem_append_right _ hmem
  · exact List.mem_append_left _ hmem

theorem usbipFinishUrb_sent {r : Int} : ∃ len data, (s.usbipFinishUrb n r).sent =
    s.sent ++ [.finish n (s.urb n).seq (if r < 0 then r else 0) len data] :=
  ⟨_, _, rfl⟩

@[simp] theorem usbipFinishUrb_urb {r : Int} : (s.usbipFinishUrb n r).urb = s.urb := rfl

@[simp] theorem usbipFinishUrb_endp {r : Int} : (s.usbipFinishUrb n r).endp = s.endp := rfl

@[simp] theorem usbipFinishUrb_nurb {r : Int} : (s.usbipFinishUrb n r).nurb = s.nurb := rfl

/-- `usbip_ep_ready` -/
theorem usbipEpReady_turned (h : Queued s l) (hs : s.usbipEpReady e = .ok s') :
    ∃ l', Turned s s' l (.ready e) l' := by
  rw [State.usbipEpReady] at hs
  split at hs
  · cases hs
    exact ⟨l, .of_alike h .refl fun _ => rfl⟩
  · rename_i n hn
    split at hs
    · cases hs
    · have hread : Alike s (s.setEndp e { s.endp e with eventfd := 0 }) := .setEndp rfl
      have ha : Alike s ((s.setEndp e { s.endp e with eventfd := 0 }).hcHandleDataUrb e n).2 :=
        hread.trans hcHandleDataUrb_alike
      have hseq : ∀ m, (((s.setEndp e { s.endp e with eventfd := 0 }).hcHandleDataUrb e n).2.urb
          m).seq = (s.urb m).seq := by
        intro m
        rw [hcHandleDataUrb_seq, State.setEndp_urb]
      simp only at hs
      generalize ((s.setEndp e { s.endp e with eventfd := 0 }).hcHandleDataUrb e n) = res at *
      obtain ⟨r, s₁⟩ := res
      have ht : Turned s s₁ l (.ready e) l := .of_alike h ha hseq
      obtain ⟨p, q, o, rfl, he, hnext, ho⟩ :=
        (h.turned ht).next ((ha.current e).trans hn)
      simp only [hnext] at hs
      split at hs
      · cases hs
        have hfin : Listed (s₁.usbipFinishUrb n r) (p ++ q) :=
          ht.listed.unlink.congr rfl rfl rfl
        obtain ⟨len, data, hsent⟩ := usbipFinishUrb_sent (s := s₁) (n := n) (r := r)
        rw [ha.sent] at hsent
        refine ⟨p ++ q, .finish rfl ?_ ?_ ?_ (State.setEndp_sent.trans hsent), ?_,
          hfin.congr (by simp) (by simp) (by simp), fun e' m hm => ?_⟩
        · simpa using ha.nurb
        · rfl
        · exact hseq n
        · refine ⟨fun m hm => ?_, fun m hm => ?_, fun m hm => ?_⟩
          · simpa using ht.frame.ep m hm
          · simpa using ht.frame.dir m hm
          · simpa using ht.frame.seq m hm
        · rw [State.endp_setEndp, usbipFinishUrb_endp] at hm
          simp only [State.setEndp_urb, usbipFinishUrb_urb]
          split at hm
          · rename_i he'
            rw [he']
            exact ho m hm
          · rename_i he'
            obtain ⟨hmem, hme⟩ := ht.current e' m hm
            refine ⟨?_, hme⟩
            have hne : m ≠ n := by
              rintro rfl
              exact he' (hme.symm.trans he)
            simpa [hne] using hmem
      · cases hs
        exact ⟨_, ht⟩

/-- `CMD_URB_UNLINK` -/
theorem usbipUnlinkUrb_turned {seq flags : BitVec 32} (h : Queued s l)
    (hs : s.usbipUnlinkUrb seq flags = .ok s') : ∃ l', Turned s s' l (.unlink seq flags) l' := by
  have hreplies : ∀ s₁ : State, ∀ st, s₁.sent = s.sent ++ [.unlink seq st] →
      s₁.replies = s.replies := by
    intro s₁ st hs₁
    funext n
    rw [replies_concat hs₁]
    exact List.append_nil _
  have hnone : Turned s { s with sent := s.sent ++ [.unlink seq 0] } l (.unlink seq flags) l :=
    ⟨.stay rfl (hreplies _ 0 rfl), .of_urb fun _ _ => rfl, h.listed.congr rfl rfl rfl, h.current⟩
  rcases usbipUnlinkUrb_cases h.listed hs with rfl | ⟨p, q, n, s₁, rfl, hf, hs₁, rfl⟩
  · exact ⟨l, hnone⟩
  · obtain ⟨hurb, hlinks, hlist, hnurb, hsent, hcur⟩ := unlinkUrbEp_spec hs₁
    have hun : Listed (s.unlinkUrb n) (p ++ q) := h.listed.unlink
    refine ⟨p ++ q, .takeBack rfl hf hnurb (hreplies _ econnreset ?_), .of_urb fun m _ => ?_,
      hun.congr hlinks hlist hnurb, fun e m hm => ?_⟩
    · exact congrArg (· ++ [Reply.unlink seq econnreset]) hsent
    · exact congrFun hurb m
    · rw [hurb]
      have hm' := (hcur e).symm.trans hm
      split at hm'
      · cases hm'
      · rename_i hne
        obtain ⟨hmem, he⟩ := h.current e m hm'
        refine ⟨?_, he⟩
        have hmn : m ≠ n := by
          rintro rfl
          exact hne ⟨he.symm, hm'⟩
        simpa [hmn] using hmem

/-! ## A submission -/

/-- What the server needs of a submission to answer it: the header is received, it does not ask
for too much, and if the rest is received, too, the number of the endpoint is one of those in
the arrays. -/
def Complete (x : Submit) : Prop :=
  ∃ cmd, x.cmd = some cmd ∧ cmd.len.toNat ≤ urbDataSize ∧
    (x.setup = none ∨ (cmd.dir = dirOut ∧ cmd.len ≠ 0 ∧ x.data = none) ∨ cmd.ep.toNat < 8)

/-- What a submission comes to: a reply, after which the list is as before, or a new URB in the
list. -/
inductive Submitted (s : State) (l : List Nat) (x : Submit) (cmd : MsgCmd) (s' : State) : Prop
  | failed {st : Int} (hst : st < 0) (hs : s'.sent = s.sent ++ [.fail s.nurb x.seq st])
      (hl : Listed s' l) (he : s'.endp = s.endp)
  | finished {r : Reply} (hf : ¬ Fails s x cmd) (hr : r.answers true = some s.nurb)
      (hseq : r.seq = x.seq) (hs : s'.sent = s.sent ++ [r]) (hl : Listed s' l)
      (he : s'.endp = s.endp)
  | queued (hf : ¬ Fails s x cmd) (hep : cmd.ep ≠ 0) (hlt : cmd.ep.toNat < 8)
      (hs : s'.sent = s.sent) (hl : Listed s' (s.nurb :: l))
      (he : ∀ e, s'.endp e =
        if e = cmd.endp ∧ (s.endp e).urb = none then { s.endp e with urb := some s.nurb }
        else s.endp e)

/-- The new URB. -/
structure NewUrb (s : State) (x : Submit) (cmd : MsgCmd) (s' : State) : Prop where
  urb : ∀ m, m ≠ s.nurb → s'.urb m = s.urb m
  ep : (s'.urb s.nurb).ep = cmd.ep
  dir : (s'.urb s.nurb).dir = cmd.dir
  seq : (s'.urb s.nurb).seq = x.seq
  nurb : s'.nurb = s.nurb + 1

namespace Started

variable {s₁ : State} {st : Int}

/-- A new URB is taken out with a reply. -/
theorem unlink (h : Started s cmd s₁) (hl : Listed s l) :
    Listed ({ s₁ with sent := s₁.sent ++ [r] }.unlinkUrb s.nurb) l := by
  have hun : Listed (s₁.unlinkUrb s.nurb) ([] ++ l) := (h.listed l hl).unlink
  exact hun.congr rfl rfl rfl

theorem newUrb (h : Started s cmd s₁) (hseq : (s₁.urb s.nurb).seq = x.seq) (hurb : s'.urb = s₁.urb)
    (hn : s'.nurb = s₁.nurb) : NewUrb s x cmd s' := by
  refine ⟨fun m hm => ?_, ?_, ?_, ?_, hn.trans h.nurb⟩
  · rw [hurb, h.urb m hm]
  · rw [hurb, h.ep]
  · rw [hurb, h.dir]
  · rw [hurb, hseq]

/-- The end of `usbip_handle_urb` for a command that fails. -/
theorem failed (h : Started s cmd s₁) (hl : Listed s l) (hseq : (s₁.urb s.nurb).seq = x.seq)
    (hst : st < 0) : NewUrb s x cmd (s₁.leave s.nurb st) ∧
      Submitted s l x cmd (s₁.leave s.nurb st) := by
  refine ⟨h.newUrb hseq rfl rfl, .failed hst ?_ (h.unlink hl) (funext h.endp)⟩
  rw [← h.sent, ← hseq]
  rfl

/-- `usbip_handle_data_urb`, and the end of `usbip_handle_urb`. -/
theorem dataUrb {res : Int × State} (h : Started s cmd s₁) (hl : Listed s l)
    (hseq : (s₁.urb s.nurb).seq = x.seq) (hep : cmd.ep ≠ 0) (hsetup : x.setup ≠ none)
    (hdata : ¬ (cmd.dir = dirOut ∧ cmd.len ≠ 0 ∧ x.data = none))
    (hs : s₁.usbipHandleDataUrb s.nurb = .ok res) :
    NewUrb s x cmd (if res.1 = 0 then res.2 else res.2.leave s.nurb res.1) ∧
      Submitted s l x cmd (if res.1 = 0 then res.2 else res.2.leave s.nurb res.1) := by
  have hf : (s.endp cmd.endp).state ≠ .disabled → (s.endp cmd.endp).state ≠ .stall →
      ¬ Fails s x cmd := by
    rintro hd hst (h | h | ⟨-, h | h⟩)
    · exact hsetup h
    · exact hdata h
    · exact hd h
    · exact hst h
  rw [State.usbipHandleDataUrb, h.endp_new, h.endp] at hs
  simp only at hs
  split at hs
  · cases hs
  · rename_i hlt
    rw [not_le] at hlt
    have hqueue : (s.endp cmd.endp).state ≠ .disabled → (s.endp cmd.endp).state ≠ .stall →
        NewUrb s x cmd (if (s.endp cmd.endp).urb = none then
          s₁.setEndp cmd.endp { s.endp cmd.endp with urb := some s.nurb } else s₁) ∧
        Submitted s l x cmd (if (s.endp cmd.endp).urb = none then
          s₁.setEndp cmd.endp { s.endp cmd.endp with urb := some s.nurb } else s₁) := by
      intro hd hst
      split
      · rename_i hnone
        refine ⟨h.newUrb hseq (by simp) (by simp), .queued (hf hd hst) hep hlt (by simp [h.sent])
          ((h.listed l hl).congr (by simp) (by simp) (by simp)) fun e => ?_⟩
        rw [State.endp_setEndp]
        by_cases he : e = cmd.endp
        · subst he
          rw [if_pos rfl, if_pos ⟨rfl, hnone⟩]
        · rw [if_neg he, if_neg fun hc => he hc.1, h.endp]
      · rename_i hsome
        refine ⟨h.newUrb hseq rfl rfl, .queued (hf hd hst) hep hlt h.sent (h.listed l hl)
          fun e => ?_⟩
        rw [if_neg, h.endp]
        rintro ⟨rfl, hc⟩
        exact hsome hc
    split at hs
    · cases hs
      exact h.failed hl hseq (show epipe < 0 by decide)
    · cases hs
      exact h.failed hl hseq (show epipe < 0 by decide)
    · rename_i hst
      cases hs
      exact hqueue (by rw [hst]; decide) (by rw [hst]; decide)
    · rename_i hst
      cases hs
      exact hqueue (by rw [hst]; decide) (by rw [hst]; decide)

end Started

/-- `usbip_handle_urb` -/
theorem usbipHandleUrb_submitted (hl : Listed s l) (hx : x.cmd = some cmd)
    (hs : s.usbipHandleUrb x a = .ok s') : NewUrb s x cmd s' ∧ Submitted s l x cmd s' := by
  have hst : Started s cmd (s.linkUrb.setUrb s.nurb (State.newUrb x.seq cmd x.setup x.data)) :=
    started
  have hseq : ((s.linkUrb.setUrb s.nurb (State.newUrb x.seq cmd x.setup x.data)).urb s.nurb).seq =
      x.seq := by
    simp [State.setUrb, State.newUrb]
  rw [State.usbipHandleUrb, hx] at hs
  simp only at hs
  generalize s.linkUrb.setUrb s.nurb (State.newUrb x.seq cmd x.setup x.data) = s₁ at hst hseq hs
  split at hs
  · cases hs
  · split at hs
    · cases hs
      exact hst.failed hl hseq (by decide)
    · rename_i hsetup
      split at hs
      · cases hs
        exact hst.failed hl hseq (by decide)
      · rename_i hdata
        split at hs
        · rename_i hep
          cases hs
          have hf : ¬ Fails s x cmd := by
            rintro (h | h | h)
            · exact hsetup h
            · exact hdata h
            · exact h.1 hep
          have hset : Started s cmd
              (s₁.setUrb s.nurb { s₁.urb s.nurb with len := a.len, data := a.data }) :=
            hst.setUrb rfl rfl
          have hseq' : ((s₁.setUrb s.nurb { s₁.urb s.nurb with len := a.len, data := a.data }).urb
              s.nurb).seq = x.seq := by
            rw [← hseq]
            simp [State.setUrb]
          rw [State.usbipHandleControlUrb]
          generalize s₁.setUrb s.nurb { s₁.urb s.nurb with len := a.len, data := a.data } = s₂ at *
          obtain ⟨len, data, hsent⟩ := usbipFinishUrb_sent (s := s₂) (n := s.nurb) (r := a.r)
          rw [hset.sent] at hsent
          refine ⟨hset.newUrb hseq' rfl rfl, .finished hf ?_ ?_ hsent (hset.unlink hl)
            (funext hset.endp)⟩
          · rfl
          · exact hseq'
        · rename_i hep
          obtain ⟨res, hres, rfl⟩ := map_ok hs
          exact hst.dataUrb hl hseq hep hsetup hdata hres

/-- A submission is answered at once or put into the list. -/
theorem usbipHandleUrb_turned (h : Queued s l) (hs : s.usbipHandleUrb x a = .ok s') :
    ∃ l', Turned s s' l (.submit x a) l' := by
  obtain ⟨cmd, hx⟩ : ∃ cmd, x.cmd = some cmd := by
    cases hx : x.cmd with
    | none =>
        rw [State.usbipHandleUrb, hx] at hs
        cases hs
    | some cmd => exact ⟨cmd, rfl⟩
  obtain ⟨hnew, hsub⟩ := usbipHandleUrb_submitted h.listed hx hs
  have hframe : Frame s s' := .of_urb hnew.urb
  have hcur : s'.endp = s.endp → ∀ e n, (s'.endp e).urb = some n → n ∈ l ∧ (s'.urb n).endp = e := by
    intro he e n hn
    rw [he] at hn
    obtain ⟨hmem, hend⟩ := h.current e n hn
    exact ⟨hmem, (hframe.endp (h.ne hmem)).trans hend⟩
  cases hsub with
  | failed hst hs hl he => exact ⟨l, .answer hnew.nurb rfl rfl hnew.seq hs, hframe, hl, hcur he⟩
  | finished hf hr hseq hs hl he =>
      exact ⟨l, .answer hnew.nurb hr hseq hnew.seq hs, hframe, hl, hcur he⟩
  | queued hf hep hlt hs hl he =>
      refine ⟨_, .queue hnew.nurb (by rw [hnew.ep]; exact ⟨hep, hlt⟩) hnew.seq hs, hframe, hl,
        fun e n hn => ?_⟩
      rw [he] at hn
      split at hn
      · rename_i hc
        cases hn
        exact ⟨List.mem_cons_self .., by rw [Urb.endp, hnew.ep, hnew.dir, hc.1]; rfl⟩
      · obtain ⟨hmem, hend⟩ := h.current e n hn
        exact ⟨List.mem_cons_of_mem _ hmem, (hframe.endp (h.ne hmem)).trans hend⟩

/-- **Step lemma.** -/
theorem step_turned (h : Queued s l) (hs : step s ev = .ok s') : ∃ l', Turned s s' l ev l' := by
  cases ev with
  | submit x a => exact usbipHandleUrb_turned h hs
  | unlink seq flags => exact usbipUnlinkUrb_turned h hs
  | ready e => exact usbipEpReady_turned h hs
  | device e c M =>
      cases hs
      exact ⟨l, device_turned h⟩

theorem queued_of_reach (h : Reach step anyEvent .init s) : ∃ l, Queued s l := by
  refine h.invariant (P := fun s => ∃ l, Queued s l)
    ⟨[], ⟨trivial, rfl, .nil, (by simp)⟩, (by simp), fun e n hn => ?_⟩ ?_
  · obtain ⟨i, k⟩ := e
    cases i <;> cases hn
  · rintro s ev s' ⟨l, hq⟩ - hs
    obtain ⟨l', ht⟩ := step_turned hq hs
    exact ⟨l', hq.turned ht⟩

/-- The record of the endpoint is one of the array. -/
theorem Started.dataUrb_ok {s₁ : State} (h : Started s cmd s₁) :
    (∃ res, s₁.usbipHandleDataUrb s.nurb = .ok res) ↔ cmd.ep.toNat < 8 := by
  rw [State.usbipHandleDataUrb, h.endp_new]
  simp only
  by_cases hep : 8 ≤ cmd.endp.2
  · rw [if_pos hep]
    exact iff_of_false (by simp) (not_lt.mpr hep)
  · rw [if_neg hep]
    refine iff_of_true ?_ (not_le.mp hep)
    split
    all_goals exact ⟨_, rfl⟩

/-- The server answers a submission or puts it into the list if and only if it is complete. -/
theorem usbipHandleUrb_ok : (∃ s', s.usbipHandleUrb x a = .ok s') ↔ Complete x := by
  rw [State.usbipHandleUrb, Complete]
  cases hx : x.cmd with
  | none => simp
  | some cmd =>
      simp only [Option.some.injEq, exists_eq_left']
      by_cases hlen : cmd.len.toNat > urbDataSize
      · rw [if_pos hlen]
        simp [not_le.mpr hlen]
      · rw [if_neg hlen]
        have hst : Started s cmd
            (s.linkUrb.setUrb s.nurb (State.newUrb x.seq cmd x.setup x.data)) := started
        generalize s.linkUrb.setUrb s.nurb (State.newUrb x.seq cmd x.setup x.data) = s₁ at hst
        have hlen' : cmd.len.toNat ≤ urbDataSize := not_lt.mp hlen
        by_cases hsetup : x.setup = none
        · rw [if_pos hsetup]
          exact iff_of_true ⟨_, rfl⟩ ⟨hlen', .inl hsetup⟩
        · rw [if_neg hsetup]
          by_cases hdata : cmd.dir = dirOut ∧ cmd.len ≠ 0 ∧ x.data = none
          · rw [if_pos hdata]
            exact iff_of_true ⟨_, rfl⟩ ⟨hlen', .inr (.inl hdata)⟩
          · rw [if_neg hdata]
            by_cases hep : cmd.ep = 0
            · rw [if_pos hep]
              exact iff_of_true ⟨_, rfl⟩ ⟨hlen', .inr (.inr (by rw [hep]; decide))⟩
            · rw [if_neg hep]
              have hres := hst.dataUrb_ok
              constructor
              · rintro ⟨s', hs⟩
                obtain ⟨res, hres', -⟩ := map_ok hs
                exact ⟨hlen', .inr (.inr (hres.mp ⟨res, hres'⟩))⟩
              · rintro ⟨-, h | h | h⟩
                · exact absurd h hsetup
                · exact absurd h hdata
                · obtain ⟨res, hres'⟩ := hres.mpr h
                  exact ⟨_, by rw [hres']; rfl⟩

/-! ## What becomes of an URB -/

/-- What has become of an URB with the sequence number `seq`: it is in the list, it has left it
with a reply, or without one. -/
inductive Fate (seq : BitVec 32) (n : Nat) (s : State) (l : List Nat) : Prop
  | waits (hn : n ∈ l) (hseq : (s.urb n).seq = seq) (hr : s.replies n = [])
  | answered {r : Reply} (hn : n ∉ l) (hseq : r.seq = seq) (hr : s.replies n = [r])
  | gone (hn : n ∉ l) (hr : s.replies n = [])

/-- A reply is sent for one URB only. -/
theorem Turned.replies_eq (h : l.Nodup) (ht : Turned s s' l ev l') (hn : n < s.nurb)
    (hmem : n ∉ l ∨ n ∈ l') : s'.replies n = s.replies n := by
  cases ht.turn with
  | stay hn' hs | takeBack hl hf hn' hs => rw [hs]
  | queue hn' hep hnew hs => rw [replies_congr hs]
  | answer hn' hr hseq hnew hs =>
      rw [replies_concat hs, hr, if_neg (by simpa using hn.ne'), List.append_nil]
  | finish hl hn' hr hseq hs =>
      rename_i p q m e r
      have hne : m ≠ n := by
        rintro rfl
        subst hl
        rcases hmem with hmem | hmem
        · exact hmem (by simp)
        · exact (List.nodup_cons.mp (List.nodup_middle.mp h)).1 hmem
      rw [replies_concat hs, hr, if_neg (by simpa using hne), List.append_nil]

/-- The URB is not the next one. -/
theorem Turned.nurb_le (ht : Turned s s' l ev l') : s.nurb ≤ s'.nurb := by
  cases ht.turn with
  | stay hn | takeBack _ _ hn | finish _ hn => exact hn.ge
  | queue hn | answer hn =>
      rw [hn]
      exact Nat.le_succ _

/-- No URB comes back into the list. -/
theorem Turned.notMem (ht : Turned s s' l ev l') (hn : n < s.nurb) (h : n ∉ l) : n ∉ l' := by
  cases ht.turn with
  | stay | answer => exact h
  | queue => simpa [hn.ne] using h
  | takeBack hl | finish hl =>
      subst hl
      simp only [List.mem_append, List.mem_cons, not_or] at h ⊢
      exact ⟨h.1, h.2.2⟩

theorem eq_of_removed (h : n ∈ p ++ m :: q) (h' : n ∉ p ++ q) : n = m := by
  by_contra hne
  rw [List.mem_append, List.mem_cons] at h
  exact h' (List.mem_append.mpr (h.imp_right fun h => h.resolve_left hne))

/-- An URB that is in the list and stays there. -/
theorem Fate.stays {seq : BitVec 32} (hq : Queued s l) (ht : Turned s s' l ev l') (hn : n ∈ l)
    (hn' : n ∈ l') (hseq : (s.urb n).seq = seq) (hr : s.replies n = []) : Fate seq n s' l' := by
  refine .waits hn' ((ht.frame.seq n (hq.ne hn)).trans hseq) ?_
  rw [ht.replies_eq hq.listed.circle.nodup (hq.listed.lt n hn) (.inr hn'), hr]

/-- One step in the fate of an URB. -/
theorem Fate.turned {seq : BitVec 32} (hq : Queued s l) (hn : n < s.nurb) (hf : Fate seq n s l)
    (ht : Turned s s' l ev l') : Fate seq n s' l' := by
  have hd := hq.listed.circle.nodup
  have hout : n ∉ l → s'.replies n = s.replies n := fun h => ht.replies_eq hd hn (.inl h)
  cases hf with
  | answered hmem hseq hr => exact .answered (ht.notMem hn hmem) hseq ((hout hmem).trans hr)
  | gone hmem hr => exact .gone (ht.notMem hn hmem) ((hout hmem).trans hr)
  | waits hmem hseq hr =>
      by_cases hmem' : n ∈ l'
      · exact .stays hq ht hmem hmem' hseq hr
      · cases ht.turn with
        | stay | answer => exact absurd hmem hmem'
        | queue => exact absurd (List.mem_cons_of_mem _ hmem) hmem'
        | takeBack hl hf hn' hs => exact .gone hmem' (by rw [hs, hr])
        | finish hl hn' hans hseq' hs =>
            rename_i p q m e r
            obtain rfl := eq_of_removed (hl ▸ hmem) hmem'
            refine .answered hmem' (hseq'.trans hseq) ?_
            rw [replies_concat hs, hr, if_pos hans, List.nil_append]

/-- An URB that is not taken back leaves the list with its reply. -/
theorem Turned.not_gone (hq : Queued s l) (ht : Turned s s' l ev l') (hev : ¬ TakesBack n s ev)
    (hmem : n ∈ l) (hmem' : n ∉ l') : s'.replies n ≠ [] := by
  cases ht.turn with
  | stay | answer => exact absurd hmem hmem'
  | queue => exact absurd (List.mem_cons_of_mem _ hmem) hmem'
  | takeBack hl hf hn' hs =>
      rename_i p q m seq flags
      obtain rfl := eq_of_removed (hl ▸ hmem) hmem'
      refine absurd ?_ hev
      rw [TakesBack, hq.listed.urbs_eq]
      exact hf
  | finish hl hn' hans hseq' hs =>
      rename_i p q m e r
      obtain rfl := eq_of_removed (hl ▸ hmem) hmem'
      rw [replies_concat hs, if_pos hans]
      simp

/-- **Run lemma.** -/
theorem Fate.steps {seq : BitVec 32} {ok : State → Event → Prop} (h : Steps step ok s s') :
    ∀ l, Queued s l → n < s.nurb → Fate seq n s l →
      ∃ l', Queued s' l' ∧ n < s'.nurb ∧ Fate seq n s' l' := by
  induction h with
  | refl => exact fun l hq hn hf => ⟨l, hq, hn, hf⟩
  | tail ev hr hok hs ih =>
      intro l hq hn hf
      obtain ⟨l₁, hq₁, hn₁, hf₁⟩ := ih l hq hn hf
      obtain ⟨l₂, ht⟩ := step_turned hq₁ hs
      exact ⟨l₂, hq₁.turned ht, hn₁.trans_le ht.nurb_le, hf₁.turned hq₁ hn₁ ht⟩

theorem notGone_steps (h : Steps step (fun s ev => ¬ TakesBack n s ev) s s') :
    ∀ l, Queued s l → n < s.nurb → (n ∉ l → s.replies n ≠ []) →
      ∃ l', Queued s' l' ∧ n < s'.nurb ∧ (n ∉ l' → s'.replies n ≠ []) := by
  induction h with
  | refl => exact fun l hq hn hne => ⟨l, hq, hn, hne⟩
  | tail ev hr hok hs ih =>
      intro l hq hn hne
      obtain ⟨l₁, hq₁, hn₁, hne₁⟩ := ih l hq hn hne
      obtain ⟨l₂, ht⟩ := step_turned hq₁ hs
      refine ⟨l₂, hq₁.turned ht, hn₁.trans_le ht.nurb_le, fun hmem' => ?_⟩
      by_cases hmem : n ∈ l₁
      · exact ht.not_gone hq₁ hok hmem hmem'
      · rw [ht.replies_eq hq₁.listed.circle.nodup hn₁ (.inl hmem)]
        exact hne₁ hmem

/-- There are no replies for an URB before it is submitted. -/
theorem replies_new (h : Reach step anyEvent .init s) : ∀ n, s.nurb ≤ n → s.replies n = [] := by
  refine h.invariant_of (I := fun s => ∃ l, Queued s l) (fun _ => queued_of_reach)
    (P := fun s => ∀ n, s.nurb ≤ n → s.replies n = []) (fun _ _ => rfl) ?_
  rintro s ev s' ⟨l, hq⟩ - h - hs n hn
  obtain ⟨l', ht⟩ := step_turned hq hs
  clear hs
  have hle := ht.nurb_le
  have hold := h n (hle.trans hn)
  cases ht.turn with
  | stay hn' hs | takeBack hl hf hn' hs => rw [hs, hold]
  | queue hn' hep hnew hs => rw [replies_congr hs, hold]
  | answer hn' hr hseq hnew hs =>
      rw [replies_concat hs, hold, hr, if_neg]
      · rfl
      · rw [Option.some.injEq]
        omega
  | finish hl hn' hr hseq hs =>
      rename_i p q m e r
      have hlt := hq.listed.lt m (by simp [hl])
      rw [replies_concat hs, hold, hr, if_neg]
      · rfl
      · rw [Option.some.injEq]
        omega

/-- There are none for an URB of the list. -/
theorem replies_waiting (h : Reach step anyEvent .init s) : ∀ n ∈ s.urbs, s.replies n = [] := by
  refine h.invariant_of (I := fun s => Reach step anyEvent .init s) (fun _ h => h)
    (P := fun s => ∀ n ∈ s.urbs, s.replies n = []) (fun _ _ => rfl) ?_
  rintro s ev s' hreach - h - hs n hn
  obtain ⟨l, hq⟩ := queued_of_reach hreach
  obtain ⟨l', ht⟩ := step_turned hq hs
  rw [hq.listed.urbs_eq] at h
  rw [ht.listed.urbs_eq] at hn
  have hnew := replies_new hreach s.nurb le_rfl
  by_cases hmem : n ∈ l
  · rw [ht.replies_eq hq.listed.circle.nodup (hq.listed.lt n hmem) (.inr hn), h n hmem]
  · clear hs
    cases ht.turn with
    | stay | answer => exact absurd hn hmem
    | queue hn' hep hnew' hs =>
        rcases List.mem_cons.mp hn with rfl | hn
        · rw [replies_congr hs, hnew]
        · exact absurd hn hmem
    | takeBack hl | finish hl =>
        subst hl
        exact absurd (((List.sublist_cons_self _ _).append_left _).subset hn) hmem

/-! ## The promise -/

/-- An URB waits in the list and has had no reply, or it has left the list and has had one reply,
with its sequence number. -/
def Accounted (seq : BitVec 32) (n : Nat) (s : State) : Prop :=
  (n ∈ s.urbs ∧ s.replies n = []) ∨ (n ∉ s.urbs ∧ ∃ r : Reply, r.seq = seq ∧ s.replies n = [r])

/-- **What `usbip_handle_urb` promises** for a submission, where `s'` is the state in which it
returns: a command that fails is answered at once, with a negative status, and leaves the list
as it was; an URB has one reply as soon as it leaves the list, unless it is taken back, and
never a second one. -/
structure AnsweredBy (s : State) (x : Submit) (s' : State) : Prop where
  failed : ∀ cmd, x.cmd = some cmd → Fails s x cmd →
    ∃ st < 0, s'.sent = s.sent ++ [.fail s.nurb x.seq st] ∧ s'.urbList = s.urbList ∧
      s'.urbs = s.urbs
  kept : ∀ s'', Steps step (fun s₁ ev => ¬ TakesBack s.nurb s₁ ev) s' s'' →
    Accounted x.seq s.nurb s''
  once : ∀ s'', Steps step anyEvent s' s'' → (s''.replies s.nurb).length ≤ 1

/-- The new URB after `usbip_handle_urb`. -/
theorem Turned.fate (hq : Queued s l) (ht : Turned s s' l (.submit x a) l')
    (hnew : s.replies s.nurb = []) (hlt : s.nurb < s'.nurb) :
    Fate x.seq s.nurb s' l' ∧ (s.nurb ∉ l' → s'.replies s.nurb ≠ []) := by
  have hfresh : s.nurb ∉ l := fun hm => lt_irrefl _ (hq.listed.lt _ hm)
  cases ht.turn with
  | stay hn => exact absurd hn hlt.ne'
  | answer hn hr hseq hnew' hs =>
      have hone := replies_concat (n := s.nurb) hs
      rw [hnew, if_pos hr, List.nil_append] at hone
      exact ⟨.answered hfresh hseq hone, fun _ => by simp [hone]⟩
  | queue hn hep hseq hs =>
      have hmem : s.nurb ∈ s.nurb :: l := List.mem_cons_self ..
      exact ⟨.waits hmem hseq (by rw [replies_congr hs, hnew]), fun h => absurd hmem h⟩

theorem Fate.length_le {seq : BitVec 32} (h : Fate seq n s l) : (s.replies n).length ≤ 1 := by
  cases h with
  | waits _ _ hr | gone _ hr =>
      rw [hr]
      exact Nat.zero_le _
  | answered _ _ hr =>
      rw [hr]
      exact Nat.le_refl _

theorem Fate.accounted {seq : BitVec 32} (hq : Queued s l) (h : Fate seq n s l)
    (hne : n ∉ l → s.replies n ≠ []) : Accounted seq n s := by
  rw [Accounted, hq.listed.urbs_eq]
  cases h with
  | waits hn hseq hr => exact .inl ⟨hn, hr⟩
  | answered hn hseq hr => exact .inr ⟨hn, _, hseq, hr⟩
  | gone hn hr => exact absurd hr (hne hn)

/-- The promise is kept where `usbip_handle_urb` returns. -/
theorem answeredBy (h : Reach step anyEvent .init s) (hs : s.usbipHandleUrb x a = .ok s') :
    AnsweredBy s x s' := by
  obtain ⟨l, hq⟩ := queued_of_reach h
  obtain ⟨l', ht⟩ := usbipHandleUrb_turned hq hs
  have hq' := hq.turned ht
  have hsubmitted : ∀ cmd, x.cmd = some cmd → NewUrb s x cmd s' ∧ Submitted s l x cmd s' :=
    fun cmd hx => usbipHandleUrb_submitted hq.listed hx hs
  have hlt : s.nurb < s'.nurb := by
    obtain ⟨cmd, hx, -⟩ := usbipHandleUrb_ok.mp ⟨s', hs⟩
    rw [(hsubmitted cmd hx).1.nurb]
    exact Nat.lt_succ_self _
  obtain ⟨hfate, hne⟩ := ht.fate hq (replies_new h _ le_rfl) hlt
  refine ⟨fun cmd hx hf => ?_, fun s'' hr => ?_, fun s'' hr => ?_⟩
  · cases (hsubmitted cmd hx).2 with
    | failed hst hs hl he =>
        exact ⟨_, hst, hs, by rw [hl.head, hq.listed.head], by rw [hl.urbs_eq, hq.listed.urbs_eq]⟩
    | finished hf' | queued hf' => exact absurd hf hf'
  · obtain ⟨l₁, hq₁, -, hfate₁⟩ := hfate.steps hr l' hq' hlt
    obtain ⟨l₂, hq₂, -, hne₂⟩ := notGone_steps hr l' hq' hlt hne
    have hl : l₁ = l₂ := hq₁.listed.urbs_eq.symm.trans hq₂.listed.urbs_eq
    exact hfate₁.accounted hq₁ (hl ▸ hne₂)
  · obtain ⟨l₁, hq₁, -, hfate₁⟩ := hfate.steps hr l' hq' hlt
    exact hfate₁.length_le

/-- **A submission is answered if and only if it is complete.** -/
theorem submit_answered_iff (s : State) (x : Submit) (a : Answer)
    (h : Reach step anyEvent .init s) :
    (∃ s', step s (.submit x a) = .ok s' ∧ AnsweredBy s x s') ↔ Complete x := by
  rw [← usbipHandleUrb_ok (s := s) (a := a)]
  exact ⟨fun ⟨s', hs, _⟩ => ⟨s', hs⟩, fun ⟨s', hs⟩ => ⟨s', hs, answeredBy h hs⟩⟩

/-- An URB for an endpoint that is not enabled is refused. -/
theorem submit_answered_refused : ∃ s' : State,
    step .init (submitIn1 10) = .ok s' ∧
      AnsweredBy .init ⟨10, some ⟨1, 1, 1, 0, 64⟩, some (List.replicate 8 0), none⟩ s' :=
  (submit_answered_iff .init _ _ (.refl _)).2 ⟨_, rfl, by decide, .inr (.inr (by decide))⟩

/-- A header that ends early, a length of 65536, and an URB for endpoint 8. -/
theorem submit_not_answered :
    (¬ ∃ s', step .init (.submit ⟨10, none, none, none⟩ ⟨0, 0, fun _ _ => 0⟩) = .ok s') ∧
      (¬ ∃ s', step .init (.submit ⟨10, some ⟨1, 1, 1, 0, 65536⟩, some (List.replicate 8 0), none⟩
        ⟨0, 0, fun _ _ => 0⟩) = .ok s') ∧
      ¬ ∃ s', step .init (.submit ⟨10, some ⟨1, 1, 8, 0, 64⟩, some (List.replicate 8 0), none⟩
        ⟨0, 0, fun _ _ => 0⟩) = .ok s' := by
  refine ⟨?_, ?_, ?_⟩
  all_goals
    rintro ⟨s', hs⟩
    cases hs

end Chopstx.Usb.Usbip.Server
