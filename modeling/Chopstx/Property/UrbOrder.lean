import Chopstx.Usb.UsbipServer

/-!
# The URBs of an endpoint are served one after another

The pointer of an endpoint is to the oldest URB in the list that is for it, and its URBs are
answered in the order of their submission.  This needs that the client does not take back the
URB that an endpoint is at while others wait for the same endpoint: the server then forgets
the endpoint, and the next URB that is submitted gets ahead.

* `Served`, `InOrder` - the law: which URB an endpoint is at, and the order of the answers.
* `Kept` - the condition on what the client takes back.
* `Listed` - the links of the list, with lemmas for `link` and `unlink`.
* `Ordered` - the queue of an endpoint; `Ordered.reply` to `Ordered.takeBack` are what a step can do
  to it.
* `usbipEpReady_inv`, `usbipUnlinkUrb_inv`, `usbipHandleUrb_inv` - the functions of the server.
* `step_inv`, `inv_of_reach` - the step lemma and the run lemma.
* `urbs_in_order` - the result about runs, and `urbs_in_order_one` one with one URB.
* `urb_passed` - a run in which one URB passes another.
-/

namespace Chopstx.Usb.Usbip.Server

open Transition

/-! ## The law -/

/-- Two URBs are for the same endpoint and direction. -/
def State.Same (s : State) (m n : Nat) : Prop :=
  (s.urb m).ep = (s.urb n).ep ∧ (s.urb m).dir = (s.urb n).dir

/-- For each URB in the list, its endpoint has a pointer to the oldest URB in the list for the
same endpoint and direction. -/
def Served (s : State) : Prop :=
  ∀ u ∈ s.urbs, ∃ c ∈ s.urbs, (s.endp (s.urb u).endp).urb = some c ∧ s.Same c u ∧
    ∀ v ∈ s.urbs, s.Same v u → c ≤ v

/-- The URB that a reply is for, if the URB was finished; with `full` also the one for which
the command failed. -/
def Reply.answers (full : Bool) : Reply → Option Nat
  | .finish n _ _ _ _ => some n
  | .fail n _ _ => if full then some n else none
  | .unlink _ _ => none

/-- The URBs for an endpoint that have been answered, in this order. -/
def State.answered (full : Bool) (s : State) (e : Bool × Nat) : List Nat :=
  (s.sent.filterMap (Reply.answers full)).filter fun n => (s.urb n).endp = e

/-- Where the endpoint of a command is. -/
def MsgCmd.endp (cmd : MsgCmd) : Bool × Nat := (cmd.dir ≠ dirOut, cmd.ep.toNat)

/-- The URB of the command is not put into the list for good: the rest of it is not received, or
its endpoint is disabled or stalled. -/
def Fails (s : State) (x : Submit) (cmd : MsgCmd) : Prop :=
  x.setup = none ∨ (cmd.dir = dirOut ∧ cmd.len ≠ 0 ∧ x.data = none) ∨
    (cmd.ep ≠ 0 ∧ ((s.endp cmd.endp).state = .disabled ∨ (s.endp cmd.endp).state = .stall))

/-- The steps that keep the order.  A submission has the same direction as those in the list
that share the record of the endpoint, and, with `full`, does not fail while there are some.
An `UNLINK` does not take the URB that an endpoint is at while others in the list are for the
same endpoint. -/
def Kept (full : Bool) (s : State) : Event → Prop
  | .submit x _ => ∀ cmd ∈ x.cmd, ∀ v ∈ s.urbs, (s.urb v).endp = cmd.endp →
      (s.urb v).dir = cmd.dir ∧ (full = true → ¬ Fails s x cmd)
  | .unlink _ flags => ∀ n ∈ s.urbs.find? (fun n => (s.urb n).seq = flags),
      (s.endp (s.urb n).endp).urb = some n → ∀ v ∈ s.urbs, s.Same v n → v = n
  | .ready _ | .device _ _ _ => True

/-! ## The list of URBs -/

/-- The links make a circle of the URBs `l`, the last one submitted first. -/
structure Listed (s : State) (l : List Nat) : Prop where
  circle : s.links.Circle l
  head : s.urbList = l.head?
  sorted : l.Pairwise (· > ·)
  lt : ∀ n ∈ l, n < s.nurb

namespace Listed

variable {s s' : State} {l p q : List Nat} {n : Nat}

theorem congr (h : Listed s l) (hlinks : s'.links = s.links) (hlist : s'.urbList = s.urbList)
    (hn : s'.nurb = s.nurb) : Listed s' l :=
  ⟨hlinks ▸ h.circle, hlist ▸ h.head, h.sorted, hn ▸ h.lt⟩

theorem length_le (h : Listed s l) : l.length ≤ s.nurb := by
  have hsub : l ⊆ List.range s.nurb := fun n hn => List.mem_range.mpr (h.lt n hn)
  simpa using (h.circle.nodup.subperm hsub).length_le

theorem urbs_eq (h : Listed s l) : s.urbs = l := by
  have hlen := h.length_le
  rw [State.urbs, h.head]
  cases l with
  | nil => rfl
  | cons a l =>
      have hd := List.nodup_cons.mp h.circle.nodup
      exact Links.nodes_eq (by simpa using hlen) hd.1 h.circle.2

/-- The loop over the list from its head. -/
theorem findNext_eq {a : Nat} (h : Listed s (a :: l)) (f : Nat → Bool) :
    s.links.findNext a f s.nurb a = some ((a :: l).find? f) := by
  have hd := List.nodup_cons.mp h.circle.nodup
  exact Links.findNext_eq (by simpa using h.length_le) hd.1 h.circle.2

/-- A new URB is the first one. -/
theorem link (h : Listed s l) : Listed s.linkUrb (s.nurb :: l) := by
  have hfresh : s.nurb ∉ l := fun hm => lt_irrefl _ (h.lt _ hm)
  refine ⟨?_, by simp, List.pairwise_cons.mpr ⟨h.lt, h.sorted⟩, fun n hn => ?_⟩
  · rw [State.linkUrb, h.head]
    cases l with
    | nil => exact .single (by simp) (by simp)
    | cons a l => exact h.circle.insert hfresh
  · rw [State.linkUrb_nurb]
    rcases List.mem_cons.mp hn with rfl | hn
    · exact Nat.lt_succ_self _
    · exact (h.lt n hn).trans (Nat.lt_succ_self _)

/-- `unlink_urb` takes the URB out. -/
theorem unlink (h : Listed s (p ++ n :: q)) : Listed (s.unlinkUrb n) (p ++ q) := by
  have hsub : (p ++ q).Sublist (p ++ n :: q) := (List.sublist_cons_self n q).append_left p
  refine ⟨h.circle.remove, ?_, h.sorted.sublist hsub, fun m hm => h.lt m (hsub.subset hm)⟩
  rw [State.unlinkUrb, h.head]
  cases p with
  | nil =>
      have hc := h.circle
      cases q with
      | nil =>
          have hnext : s.links.next n = n := (List.isChain_pair.mp hc.2).1
          simp [hnext]
      | cons b q =>
          have hnext : s.links.next n = b := (List.isChain_cons_cons.mp hc.2).1.1
          have hne : b ≠ n := by
            rintro rfl
            exact (List.nodup_cons.mp hc.nodup).1 (List.mem_cons_self ..)
          simp [hnext, hne]
  | cons a p =>
      have hne : a ≠ n := by
        rintro rfl
        exact (List.nodup_cons.mp h.circle.nodup).1 (by simp)
      simp [hne]

end Listed

/-! ## The queue of an endpoint -/

/-- The URBs of the list for an endpoint, the last one submitted first. -/
def State.waiting (s : State) (l : List Nat) (e : Bool × Nat) : List Nat :=
  l.filter fun n => (s.urb n).endp = e

/-- Each endpoint is at the oldest of the URBs that wait for it, and has answered older ones
only. -/
structure Ordered (full : Bool) (s : State) (l : List Nat) : Prop where
  data : ∀ n ∈ l, (s.urb n).ep ≠ 0
  dir : ∀ m ∈ l, ∀ n ∈ l, (s.urb m).endp = (s.urb n).endp → (s.urb m).dir = (s.urb n).dir
  current : ∀ e, (s.endp e).urb = (s.waiting l e).getLast?
  answered : ∀ e, (s.answered full e ++ (s.waiting l e).reverse).Pairwise (· < ·)
  sent : ∀ n ∈ s.sent.filterMap (Reply.answers full), n < s.nurb

/-- What the client and the endpoints have to do with the list is the same in two states. -/
structure Alike (s s' : State) : Prop where
  ep : ∀ n, (s'.urb n).ep = (s.urb n).ep
  dir : ∀ n, (s'.urb n).dir = (s.urb n).dir
  current : ∀ e, (s'.endp e).urb = (s.endp e).urb
  links : s'.links = s.links
  urbList : s'.urbList = s.urbList
  nurb : s'.nurb = s.nurb
  sent : s'.sent = s.sent

section

variable {full : Bool} {s s' s'' : State} {l p q : List Nat} {n : Nat} {e : Bool × Nat}

theorem Urb.endp_congr {u u' : Urb} (hep : u'.ep = u.ep) (hdir : u'.dir = u.dir) :
    u'.endp = u.endp := by
  rw [Urb.endp, Urb.endp, hep, hdir]

theorem waiting_congr (h : ∀ n ∈ l, (s'.urb n).endp = (s.urb n).endp) :
    s'.waiting l e = s.waiting l e := by
  refine List.filter_congr fun n hn => ?_
  rw [h n hn]

theorem mem_waiting : n ∈ s.waiting l e ↔ n ∈ l ∧ (s.urb n).endp = e := by
  rw [State.waiting, List.mem_filter, decide_eq_true_iff]

theorem waiting_cons : s.waiting (n :: l) e =
    (if (s.urb n).endp = e then [n] else []) ++ s.waiting l e := by
  rw [State.waiting, State.waiting, List.filter_cons]
  split
  · rename_i h
    rw [if_pos (of_decide_eq_true h)]
    rfl
  · rename_i h
    rw [if_neg (fun he => h (decide_eq_true he))]
    rfl

theorem waiting_append : s.waiting (p ++ q) e = s.waiting p e ++ s.waiting q e :=
  List.filter_append ..

theorem answered_congr (hs : s'.sent = s.sent)
    (h : ∀ n ∈ s.sent.filterMap (Reply.answers full), (s'.urb n).endp = (s.urb n).endp) :
    s'.answered full e = s.answered full e := by
  rw [State.answered, State.answered, hs]
  refine List.filter_congr fun n hn => ?_
  rw [h n hn]

/-- A reply is added to those of the endpoint that it is for. -/
theorem answered_concat {r : Reply} (hs : s'.sent = s.sent ++ [r])
    (h : ∀ n ∈ s.sent.filterMap (Reply.answers full), (s'.urb n).endp = (s.urb n).endp) :
    s'.answered full e = s.answered full e ++ s'.waiting (r.answers full).toList e := by
  have hold : (s.sent.filterMap (Reply.answers full)).filter (fun n => (s'.urb n).endp = e) =
      s.answered full e := by
    refine List.filter_congr fun n hn => ?_
    rw [h n hn]
  rw [State.answered, hs, List.filterMap_append, List.filter_append, hold, State.waiting]
  cases hr : r.answers full <;> simp [hr]

namespace Alike

theorem refl : Alike s s :=
  ⟨fun _ => rfl, fun _ => rfl, fun _ => rfl, rfl, rfl, rfl, rfl⟩

theorem trans (h : Alike s s') (h' : Alike s' s'') : Alike s s'' where
  ep n := (h'.ep n).trans (h.ep n)
  dir n := (h'.dir n).trans (h.dir n)
  current e := (h'.current e).trans (h.current e)
  links := h'.links.trans h.links
  urbList := h'.urbList.trans h.urbList
  nurb := h'.nurb.trans h.nurb
  sent := h'.sent.trans h.sent

theorem endp (h : Alike s s') (n : Nat) : (s'.urb n).endp = (s.urb n).endp :=
  Urb.endp_congr (h.ep n) (h.dir n)

/-- The record of an endpoint is written, but for its pointer. -/
theorem setEndp {c : Endp} (hc : c.urb = (s.endp e).urb) : Alike s (s.setEndp e c) := by
  refine ⟨fun n => by simp, fun n => by simp, fun e' => ?_, by simp, by simp, by simp, by simp⟩
  rw [State.endp_setEndp]
  split
  · rename_i he
    rw [he, hc]
  · rfl

/-- The record of an URB is written, but for its endpoint and direction. -/
theorem setUrb {u : Urb} (hep : u.ep = (s.urb n).ep) (hdir : u.dir = (s.urb n).dir) :
    Alike s (s.setUrb n u) := by
  refine ⟨fun m => ?_, fun m => ?_, fun _ => rfl, rfl, rfl, rfl, rfl⟩
  · show (Function.update s.urb n u m).ep = _
    rw [Function.update_apply]
    split
    · rename_i h
      rw [h, hep]
    · rfl
  · show (Function.update s.urb n u m).dir = _
    rw [Function.update_apply]
    split
    · rename_i h
      rw [h, hdir]
    · rfl

theorem listed (h : Alike s s') (hl : Listed s l) : Listed s' l :=
  hl.congr h.links h.urbList h.nurb

theorem ordered (h : Alike s s') (ho : Ordered full s l) : Ordered full s' l where
  data n hn := by
    rw [h.ep]
    exact ho.data n hn
  dir m hm n hn := by
    rw [h.endp, h.endp, h.dir, h.dir]
    exact ho.dir m hm n hn
  current e := by
    rw [h.current, ho.current, waiting_congr fun n _ => h.endp n]
  answered e := by
    rw [answered_congr h.sent fun n _ => h.endp n, waiting_congr fun n _ => h.endp n]
    exact ho.answered e
  sent := by
    rw [h.sent, h.nurb]
    exact ho.sent

end Alike

/-- A packet changes the data of the URB and the record of the endpoint only. -/
theorem hcHandleDataUrb_alike : Alike s (s.hcHandleDataUrb e n).2 := by
  rw [State.hcHandleDataUrb]
  simp only
  generalize (if (s.urb n).remain.toNat > 64 then 64 else (s.urb n).remain.toNat) = count
  split
  · have hw : ∀ u c, Alike s (s.writeDataTransaction e u c).2 := by
      intro u c
      rw [State.writeDataTransaction]
      simp only
      split
      · exact .setEndp rfl
      · have h := @Alike.setEndp s e { s.endp e with state := .nak, len := c } rfl
        exact ⟨h.ep, h.dir, h.current, h.links, h.urbList, h.nurb, h.sent⟩
    have h := hw (s.urb n) count
    split
    · exact h
    · refine h.trans (.setUrb ?_ ?_)
      · exact (h.ep n).symm
      · exact (h.dir n).symm
  · have hr : ∀ c, Alike s (s.readDataTransaction e n c).2 := by
      intro c
      rw [State.readDataTransaction]
      have h := @Alike.setEndp s e { s.endp e with state := .nak } rfl
      refine h.trans ?_
      have h' : Alike (s.setEndp e { s.endp e with state := .nak })
          ((s.setEndp e { s.endp e with state := .nak }).setUrb n { s.urb n with
            data := (s.urb n).data.write ⟨(), (s.urb n).dataP⟩ (s.mem.read (s.endp e).buf
              (if (s.endp e).len > c then c else (s.endp e).len)) }) :=
        .setUrb (by simp) (by simp)
      exact ⟨h'.ep, h'.dir, h'.current, h'.links, h'.urbList, h'.nurb, h'.sent⟩
    have h := hr count
    split
    · exact h
    · split
      · exact h.trans (.setUrb rfl rfl)
      · exact h.trans (.setUrb rfl rfl)

/-! ## What a step does to the queues -/

theorem waiting_remove : s.waiting (p ++ n :: q) e =
    s.waiting p e ++ (if (s.urb n).endp = e then [n] else []) ++ s.waiting q e := by
  rw [waiting_append, waiting_cons, List.append_assoc]

/-- Replies that were sent are not about a new URB. -/
theorem Ordered.sent_ne (h : Ordered full s l) (hn : n ∈ s.sent.filterMap (Reply.answers full)) :
    n ≠ s.nurb := (h.sent n hn).ne

theorem Ordered.answered_lt (h : Ordered full s l) (hn : n ∈ s.answered full e) : n < s.nurb :=
  h.sent n (List.mem_of_mem_filter hn)

theorem Ordered.answered_sorted (h : Ordered full s l) : (s.answered full e).Pairwise (· < ·) :=
  (List.pairwise_append.mp (h.answered e)).1

/-- **A new URB is answered at once.**  If the answer counts, no other one waits for its
endpoint. -/
theorem Ordered.reply {r : Reply} (h : Ordered full s l) (hl : Listed s l)
    (hurb : ∀ m, m ≠ s.nurb → s'.urb m = s.urb m) (hendp : ∀ e, s'.endp e = s.endp e)
    (hnurb : s'.nurb = s.nurb + 1) (hsent : s'.sent = s.sent ++ [r])
    (hr : ∀ m, r.answers full = some m → m = s.nurb ∧ s.waiting l (s'.urb m).endp = []) :
    Ordered full s' l := by
  have hold : ∀ m ∈ l, s'.urb m = s.urb m := fun m hm => hurb m (hl.lt m hm).ne
  have hw : ∀ e, s'.waiting l e = s.waiting l e :=
    fun e => waiting_congr fun m hm => by rw [hold m hm]
  have ha : ∀ e, s'.answered full e =
      s.answered full e ++ s'.waiting (r.answers full).toList e := fun e =>
    answered_concat hsent fun m hm => by rw [hurb m (h.sent_ne hm)]
  refine ⟨fun m hm => ?_, fun m hm k hk => ?_, fun e => ?_, fun e => ?_, fun m hm => ?_⟩
  · rw [hold m hm]
    exact h.data m hm
  · rw [hold m hm, hold k hk]
    exact h.dir m hm k hk
  · rw [hendp, hw]
    exact h.current e
  · rw [ha, hw]
    cases hans : r.answers full with
    | none => simpa [State.waiting] using h.answered e
    | some m =>
        obtain ⟨rfl, hempty⟩ := hr m hans
        rw [Option.toList_some, waiting_cons]
        split
        · rename_i he
          rw [← he, hempty]
          simp only [State.waiting, List.filter_nil, List.append_nil, List.reverse_nil]
          refine List.pairwise_append.mpr ⟨h.answered_sorted, List.pairwise_singleton .., ?_⟩
          intro a hm b hb
          rw [List.mem_singleton.mp hb]
          exact h.answered_lt hm
        · simpa [State.waiting] using h.answered e
  · rw [hsent, List.filterMap_append, List.mem_append] at hm
    rw [hnurb]
    rcases hm with hm | hm
    · exact (h.sent m hm).trans (Nat.lt_succ_self _)
    · simp only [List.filterMap_cons, List.filterMap_nil] at hm
      cases hans : r.answers full with
      | none => simp [hans] at hm
      | some k =>
          rw [hans, List.mem_singleton] at hm
          rw [hm, (hr k hans).1]
          exact Nat.lt_succ_self _

/-- **A new URB waits for its endpoint**, and is its current one if it is the only one. -/
theorem Ordered.accept (h : Ordered full s l) (hl : Listed s l)
    (hurb : ∀ m, m ≠ s.nurb → s'.urb m = s.urb m) (hep : (s'.urb s.nurb).ep ≠ 0)
    (hdir : ∀ m ∈ l, (s.urb m).endp = (s'.urb s.nurb).endp → (s.urb m).dir = (s'.urb s.nurb).dir)
    (hnurb : s'.nurb = s.nurb + 1) (hsent : s'.sent = s.sent)
    (hcur : ∀ e, (s'.endp e).urb =
      if e = (s'.urb s.nurb).endp ∧ (s.endp e).urb = none then some s.nurb else (s.endp e).urb) :
    Ordered full s' (s.nurb :: l) := by
  have hold : ∀ m ∈ l, s'.urb m = s.urb m := fun m hm => hurb m (hl.lt m hm).ne
  have hw : ∀ e, s'.waiting (s.nurb :: l) e =
      (if (s'.urb s.nurb).endp = e then [s.nurb] else []) ++ s.waiting l e := by
    intro e
    rw [waiting_cons]
    congr 1
    exact waiting_congr fun m hm => by rw [hold m hm]
  have ha : ∀ e, s'.answered full e = s.answered full e := fun e =>
    answered_congr hsent fun m hm => by rw [hurb m (h.sent_ne hm)]
  refine ⟨fun m hm => ?_, fun m hm k hk he => ?_, fun e => ?_, fun e => ?_, fun m hm => ?_⟩
  · rcases List.mem_cons.mp hm with rfl | hm
    · exact hep
    · rw [hold m hm]
      exact h.data m hm
  · rcases List.mem_cons.mp hm with rfl | hm <;> rcases List.mem_cons.mp hk with rfl | hk
    · rfl
    · rw [hold k hk] at he ⊢
      exact (hdir k hk he.symm).symm
    · rw [hold m hm] at he ⊢
      exact hdir m hm he
    · rw [hold m hm, hold k hk] at he ⊢
      exact h.dir m hm k hk he
  · rw [hcur, hw, List.getLast?_append, ← h.current e]
    by_cases he : (s'.urb s.nurb).endp = e
    · rw [if_pos he]
      cases hc : (s.endp e).urb with
      | none => rw [if_pos ⟨he.symm, rfl⟩]; rfl
      | some c => rw [if_neg (fun hb => Option.some_ne_none c hb.2)]; rfl
    · rw [if_neg he, if_neg (fun hb => he hb.1.symm)]
      cases (s.endp e).urb <;> rfl
  · rw [ha, hw, List.reverse_append, ← List.append_assoc]
    refine List.pairwise_append.mpr ⟨h.answered e, ?_, fun a hm b hb => ?_⟩
    · split <;> simp
    · have hb' : b = s.nurb := by
        split at hb
        · exact List.mem_singleton.mp hb
        · cases hb
      rw [hb']
      rcases List.mem_append.mp hm with hm | hm
      · exact h.answered_lt hm
      · exact hl.lt a (mem_waiting.mp (List.mem_reverse.mp hm)).1
  · rw [hsent] at hm
    rw [hnurb]
    exact (h.sent m hm).trans (Nat.lt_succ_self _)

/-- **The oldest URB of an endpoint is answered**, and the endpoint goes on with the next one. -/
theorem Ordered.serve {r : Reply} (h : Ordered full s (p ++ n :: q))
    (hl : Listed s (p ++ n :: q)) (hold : s.waiting q (s.urb n).endp = [])
    (hurb : s'.urb = s.urb) (hnurb : s'.nurb = s.nurb) (hsent : s'.sent = s.sent ++ [r])
    (hr : r.answers full = some n)
    (hcur : (s'.endp (s.urb n).endp).urb = (s.waiting p (s.urb n).endp).getLast?)
    (hother : ∀ e, e ≠ (s.urb n).endp → (s'.endp e).urb = (s.endp e).urb) :
    Ordered full s' (p ++ q) := by
  have hsub : (p ++ q).Sublist (p ++ n :: q) := (List.sublist_cons_self n q).append_left p
  have hw : ∀ l e, s'.waiting l e = s.waiting l e :=
    fun l e => waiting_congr fun m _ => by rw [hurb]
  refine ⟨fun m hm => ?_, fun m hm k hk => ?_, fun e => ?_, fun e => ?_, fun m hm => ?_⟩
  · rw [hurb]
    exact h.data m (hsub.subset hm)
  · rw [hurb]
    exact h.dir m (hsub.subset hm) k (hsub.subset hk)
  · rw [hw, waiting_append]
    by_cases he : e = (s.urb n).endp
    · rw [he, hcur, hold, List.append_nil]
    · rw [hother e he, h.current, waiting_remove, if_neg (Ne.symm he), List.append_nil]
  · have ha : s'.answered full e = s.answered full e ++ s.waiting [n] e := by
      rw [answered_concat hsent fun m _ => by rw [hurb], hr, Option.toList_some, hw]
    have hans := h.answered e
    rw [waiting_remove] at hans
    rw [ha, hw, waiting_append, waiting_cons]
    by_cases he : (s.urb n).endp = e
    · rw [if_pos he, ← he, hold] at hans ⊢
      simpa [State.waiting] using hans
    · rw [if_neg he] at hans ⊢
      simpa [State.waiting] using hans
  · rw [hsent, List.filterMap_append, List.mem_append] at hm
    rw [hnurb]
    rcases hm with hm | hm
    · exact h.sent m hm
    · simp only [List.filterMap_cons, hr, List.filterMap_nil, List.mem_singleton] at hm
      rw [hm]
      exact hl.lt n (by simp)

/-- **An URB is taken back**, which no endpoint is at, or which is the only one that waits for
its endpoint. -/
theorem Ordered.takeBack {r : Reply} (h : Ordered full s (p ++ n :: q))
    (hkept : (s.endp (s.urb n).endp).urb = some n → s.waiting (p ++ q) (s.urb n).endp = [])
    (hurb : s'.urb = s.urb) (hnurb : s'.nurb = s.nurb) (hsent : s'.sent = s.sent ++ [r])
    (hr : r.answers full = none)
    (hcur : ∀ e, (s'.endp e).urb = if (s.endp e).urb = some n then none else (s.endp e).urb) :
    Ordered full s' (p ++ q) := by
  have hsub : (p ++ q).Sublist (p ++ n :: q) := (List.sublist_cons_self n q).append_left p
  have hw : ∀ l e, s'.waiting l e = s.waiting l e :=
    fun l e => waiting_congr fun m _ => by rw [hurb]
  refine ⟨fun m hm => ?_, fun m hm k hk => ?_, fun e => ?_, fun e => ?_, fun m hm => ?_⟩
  · rw [hurb]
    exact h.data m (hsub.subset hm)
  · rw [hurb]
    exact h.dir m (hsub.subset hm) k (hsub.subset hk)
  · rw [hcur, hw]
    split
    · rename_i hc
      have he : (s.urb n).endp = e := by
        have hm : n ∈ s.waiting (p ++ n :: q) e := by
          rw [h.current] at hc
          exact List.mem_of_getLast? hc
        exact (mem_waiting.mp hm).2
      subst he
      rw [hkept hc]
      rfl
    · rename_i hc
      rw [h.current, waiting_remove] at hc
      rw [h.current, waiting_remove, waiting_append]
      by_cases he : (s.urb n).endp = e
      · rw [if_pos he] at hc ⊢
        rw [List.getLast?_append, List.getLast?_append] at hc ⊢
        rw [List.getLast?_append]
        cases hq : (s.waiting q e).getLast? with
        | none => simp [hq] at hc
        | some c => simp
      · rw [if_neg he, List.append_nil]
  · have ha : s'.answered full e = s.answered full e := by
      rw [answered_concat hsent fun m _ => by rw [hurb], hr]
      simp [State.waiting]
    rw [ha, hw]
    have hwsub : (s.waiting (p ++ q) e).reverse.Sublist (s.waiting (p ++ n :: q) e).reverse :=
      (hsub.filter _).reverse
    exact (h.answered e).sublist (hwsub.append_left _)
  · rw [hsent, List.filterMap_append, List.mem_append] at hm
    rw [hnurb]
    rcases hm with hm | hm
    · exact h.sent m hm
    · simp [hr] at hm

/-! ## The steps -/

/-- Both invariants, for some list. -/
def Inv (full : Bool) (s : State) : Prop := ∃ l, Listed s l ∧ Ordered full s l

theorem Alike.inv (h : Alike s s') (hi : Inv full s) : Inv full s' := by
  obtain ⟨l, hl, ho⟩ := hi
  exact ⟨l, h.listed hl, h.ordered ho⟩

/-- In the list, the endpoint says which URBs are the same as one. -/
theorem Ordered.same_iff {m : Nat} (h : Ordered full s l) (hm : m ∈ l) (hn : n ∈ l) :
    s.Same m n ↔ (s.urb m).endp = (s.urb n).endp := by
  constructor
  · rintro ⟨hep, hdir⟩
    exact Urb.endp_congr hep hdir
  · intro he
    exact ⟨BitVec.eq_of_toNat_eq (congrArg Prod.snd he), h.dir m hm n hn he⟩

theorem find?_reverse_eq {α : Type*} {f : α → Bool} {l : List α} :
    l.reverse.find? f = (l.filter f).getLast? := by
  rw [← List.head?_filter, List.filter_reverse, List.head?_reverse]

/-- The loop of `usbip_ep_ready` comes to the head of the list, and finds the oldest URB on the
way that is for the same endpoint and direction. -/
theorem nextUrb_listed (hl : Listed s (p ++ n :: q)) :
    s.nextUrb n = some ((((if p = [] then n :: q else p).filter fun m =>
      (s.urb m).ep = (s.urb n).ep ∧ (s.urb m).dir = (s.urb n).dir).getLast?).filter (· ≠ n)) := by
  have hlen := hl.length_le
  rw [State.nextUrb, hl.head]
  cases p with
  | nil =>
      obtain ⟨z, hz⟩ : ∃ z, (n :: q).getLast? = some z := ⟨_, List.getLast?_cons⟩
      have hprev : s.links.prev n = z := (hl.circle.adj_last hz).2
      have hfind := Links.findPrev_eq (f := fun m =>
        (s.urb m).ep = (s.urb n).ep ∧ (s.urb m).dir = (s.urb n).dir) (by simpa using hlen)
        hl.circle.nodup hl.circle.chain hz
      rw [hprev, List.nil_append, List.head?_cons, hfind, find?_reverse_eq]
      rfl
  | cons a p =>
      obtain ⟨z, hz⟩ : ∃ z, (a :: p).getLast? = some z := ⟨_, List.getLast?_cons⟩
      have hchain : (a :: p ++ n :: q).IsChain s.links.Adj := hl.circle.chain
      obtain ⟨hp, -, hadj⟩ := List.isChain_append.mp hchain
      have hprev : s.links.prev n = z := (hadj z hz n rfl).2
      obtain ⟨hd, -, -⟩ := List.nodup_append.mp hl.circle.nodup
      have hlen' : p.length < s.nurb := by
        rw [List.length_append, List.length_cons] at hlen
        omega
      have hfind := Links.findPrev_eq (f := fun m =>
        (s.urb m).ep = (s.urb n).ep ∧ (s.urb m).dir = (s.urb n).dir) hlen' hd hp hz
      rw [hprev, List.cons_append, List.head?_cons, hfind, find?_reverse_eq]
      rfl

/-- **The loop of `usbip_ep_ready`** finds the next URB that waits for the endpoint. -/
theorem nextUrb_eq (hl : Listed s (p ++ n :: q)) (h : Ordered full s (p ++ n :: q))
    (hold : s.waiting q (s.urb n).endp = []) :
    s.nextUrb n = some (s.waiting p (s.urb n).endp).getLast? := by
  have hmatch : ∀ k, k.Sublist (p ++ n :: q) →
      k.filter (fun m => (s.urb m).ep = (s.urb n).ep ∧ (s.urb m).dir = (s.urb n).dir) =
        s.waiting k (s.urb n).endp := by
    intro k hk
    refine List.filter_congr fun m hm => ?_
    rw [decide_eq_decide]
    exact h.same_iff (hk.subset hm) (by simp)
  rw [nextUrb_listed hl]
  cases p with
  | nil =>
      rw [if_pos rfl, hmatch (n :: q) (.refl _), waiting_cons, if_pos rfl, hold]
      simp [State.waiting]
  | cons a p =>
      obtain ⟨-, -, hne⟩ := List.nodup_append.mp hl.circle.nodup
      rw [if_neg (List.cons_ne_nil a p), hmatch _ (List.sublist_append_left ..),
        Option.some.injEq]
      cases hlast : (s.waiting (a :: p) (s.urb n).endp).getLast? with
      | none => rfl
      | some c =>
          have hc := (mem_waiting.mp (List.mem_of_getLast? hlast)).1
          have hcn : c ≠ n := hne c hc n (List.mem_cons_self ..)
          simp [hcn]

theorem map_ok {α β ε : Type*} {f : α → β} {x : Except ε α} {b : β} (h : x.map f = .ok b) :
    ∃ a, x = .ok a ∧ f a = b := by
  cases x with
  | error e => cases h
  | ok a => exact ⟨a, rfl, Except.ok.inj h⟩

/-- The current URB of an endpoint is for it. -/
theorem Ordered.current_endp (h : Ordered full s l) (hc : (s.endp e).urb = some n) :
    (s.urb n).endp = e := by
  rw [h.current] at hc
  exact (mem_waiting.mp (List.mem_of_getLast? hc)).2

/-- The current URB of an endpoint, in the list. -/
theorem Ordered.current_split (h : Ordered full s l) (hc : (s.endp e).urb = some n) :
    ∃ p q, l = p ++ n :: q ∧ (s.urb n).endp = e ∧ s.waiting q e = [] := by
  rw [h.current] at hc
  obtain ⟨hm, he⟩ := mem_waiting.mp (List.mem_of_getLast? hc)
  obtain ⟨w, hw⟩ := List.getLast?_eq_some_iff.mp hc
  obtain ⟨l₁, l₂, rfl, -, hl₂⟩ := List.filter_eq_append_iff.mp hw
  obtain ⟨m₁, q, rfl, -, -, hq⟩ := List.filter_eq_cons_iff.mp hl₂
  exact ⟨l₁ ++ m₁, q, (List.append_assoc ..).symm, he, hq⟩

/-- `usbip_ep_ready` -/
theorem usbipEpReady_inv (hi : Inv full s) (hs : s.usbipEpReady e = .ok s') : Inv full s' := by
  rw [State.usbipEpReady] at hs
  split at hs
  · cases hs
    exact hi
  · rename_i n hn
    split at hs
    · cases hs
    · have hread : Alike s (s.setEndp e { s.endp e with eventfd := 0 }) := .setEndp rfl
      have halike : Alike s
          ((s.setEndp e { s.endp e with eventfd := 0 }).hcHandleDataUrb e n).2 :=
        hread.trans hcHandleDataUrb_alike
      have hcur := (halike.current e).trans hn
      have hi' := halike.inv hi
      simp only at hs
      generalize ((s.setEndp e { s.endp e with eventfd := 0 }).hcHandleDataUrb e n) = res at *
      obtain ⟨r, s₁⟩ := res
      obtain ⟨l, hl, ho⟩ := hi'
      obtain ⟨p, q, rfl, rfl, hold⟩ := ho.current_split hcur
      simp only [nextUrb_eq hl ho hold] at hs
      split at hs
      · cases hs
        have hfin : Listed (s₁.usbipFinishUrb n r) (p ++ q) := hl.unlink.congr rfl rfl rfl
        refine ⟨p ++ q, hfin.congr (by simp) (by simp) (by simp), ?_⟩
        refine ho.serve hl hold (by simp [State.usbipFinishUrb]) (by simp [State.usbipFinishUrb])
          (by simp [State.usbipFinishUrb]; rfl) rfl (by simp) fun e he => ?_
        rw [State.endp_setEndp, if_neg he]
        rfl
      · cases hs
        exact ⟨_, hl, ho⟩

/-- `unlink_urb_ep` takes the pointer back if it is to the URB. -/
theorem unlinkUrbEp_spec (h : s.unlinkUrbEp n = .ok s') :
    s'.urb = s.urb ∧ s'.links = s.links ∧ s'.urbList = s.urbList ∧ s'.nurb = s.nurb ∧
      s'.sent = s.sent ∧ ∀ e, (s'.endp e).urb =
        if e = (s.urb n).endp ∧ (s.endp e).urb = some n then none else (s.endp e).urb := by
  rw [State.unlinkUrbEp] at h
  split at h
  · cases h
  · split at h
    · rename_i hc
      cases h
      refine ⟨by simp, by simp, by simp, by simp, by simp, fun e => ?_⟩
      rw [State.endp_setEndp]
      by_cases he : e = (s.urb n).endp
      · subst he
        rw [if_pos rfl, if_pos ⟨rfl, hc⟩]
      · rw [if_neg he, if_neg fun h => he h.1]
    · rename_i hc
      cases h
      refine ⟨rfl, rfl, rfl, rfl, rfl, fun e => ?_⟩
      rw [if_neg]
      rintro ⟨rfl, h⟩
      exact hc h

/-- What `CMD_URB_UNLINK` does to the list: nothing, or it takes the first URB with the number
out of it. -/
theorem usbipUnlinkUrb_cases {seq flags : BitVec 32} (hl : Listed s l)
    (hs : s.usbipUnlinkUrb seq flags = .ok s') :
    s' = { s with sent := s.sent ++ [.unlink seq 0] } ∨
    ∃ p q n s₁, l = p ++ n :: q ∧ l.find? (fun m => (s.urb m).seq = flags) = some n ∧
      (s.unlinkUrb n).unlinkUrbEp n = .ok s₁ ∧
      s' = { s₁ with sent := s₁.sent ++ [.unlink seq econnreset] } := by
  have hhead := hl.head
  rw [State.usbipUnlinkUrb] at hs
  split at hs
  · cases hs
    exact .inl rfl
  · rename_i a ha
    cases l with
    | nil =>
        rw [ha] at hhead
        cases hhead
    | cons b l =>
      rw [ha, List.head?_cons, Option.some.injEq] at hhead
      subst hhead
      rw [hl.findNext_eq] at hs
      split at hs
      · rename_i hf
        cases hf
      · cases hs
        exact .inl rfl
      · rename_i n hf
        rw [Option.some.injEq] at hf
        obtain ⟨p, q, hpq⟩ := List.append_of_mem (List.mem_of_find?_eq_some hf)
        obtain ⟨s₁, hs₁, rfl⟩ := map_ok hs
        exact .inr ⟨p, q, n, s₁, hpq, hf, hs₁, rfl⟩

/-- `CMD_URB_UNLINK` -/
theorem usbipUnlinkUrb_inv {seq flags : BitVec 32} (hi : Inv full s)
    (hk : Kept full s (.unlink seq flags)) (hs : s.usbipUnlinkUrb seq flags = .ok s') :
    Inv full s' := by
  obtain ⟨l, hl, ho⟩ := hi
  have hnone : ∀ rep : Reply, rep.answers full = none →
      Inv full { s with sent := s.sent ++ [rep] } := by
    intro rep hrep
    refine ⟨l, hl.congr rfl rfl rfl, ho.data, ho.dir, ho.current, fun e => ?_, fun m hm => ?_⟩
    · have hcat : { s with sent := s.sent ++ [rep] }.answered full e = _ :=
        answered_concat rfl fun _ _ => rfl
      rw [hcat, hrep]
      simpa [State.waiting] using ho.answered e
    · refine ho.sent m ?_
      simpa [hrep] using hm
  rcases usbipUnlinkUrb_cases hl hs with rfl | ⟨p, q, n, s₁, rfl, hf, hs₁, rfl⟩
  · exact hnone (.unlink seq 0) rfl
  · have hun : Listed (s.unlinkUrb n) (p ++ q) := hl.unlink
    have hkept : (s.endp (s.urb n).endp).urb = some n →
        s.waiting (p ++ q) (s.urb n).endp = [] := by
      intro hc
      have hone := hk n (by rw [hl.urbs_eq]; exact hf) hc
      rw [hl.urbs_eq] at hone
      refine List.eq_nil_iff_forall_not_mem.mpr fun v hv => ?_
      obtain ⟨hv, he⟩ := mem_waiting.mp hv
      have hsub : (p ++ q).Sublist (p ++ n :: q) :=
        (List.sublist_cons_self n q).append_left p
      have hvn := hone v (hsub.subset hv) ((ho.same_iff (hsub.subset hv) (by simp)).mpr he)
      have hd := hl.circle.nodup
      rw [List.nodup_middle, List.nodup_cons] at hd
      exact hd.1 (hvn ▸ hv)
    obtain ⟨hurb, hlinks, hlist, hnurb, hsent, hcur⟩ := unlinkUrbEp_spec hs₁
    refine ⟨p ++ q, hun.congr hlinks hlist hnurb,
      ho.takeBack hkept hurb hnurb (congrArg (· ++ _) hsent) rfl fun e => ?_⟩
    refine (hcur e).trans ?_
    by_cases hc : (s.endp e).urb = some n
    · rw [if_pos hc]
      exact if_pos ⟨(ho.current_endp hc).symm, hc⟩
    · rw [if_neg hc]
      exact if_neg fun h => hc h.2

/-- The first statements of `usbip_handle_urb` put a new URB in front. -/
structure Started (s : State) (cmd : MsgCmd) (s₁ : State) : Prop where
  urb : ∀ m, m ≠ s.nurb → s₁.urb m = s.urb m
  ep : (s₁.urb s.nurb).ep = cmd.ep
  dir : (s₁.urb s.nurb).dir = cmd.dir
  endp : ∀ e, s₁.endp e = s.endp e
  nurb : s₁.nurb = s.nurb + 1
  sent : s₁.sent = s.sent
  listed : ∀ l, Listed s l → Listed s₁ (s.nurb :: l)

theorem started {seq : BitVec 32} {cmd : MsgCmd} {setup data : Option (List Byte)} :
    Started s cmd (s.linkUrb.setUrb s.nurb (State.newUrb seq cmd setup data)) where
  urb m hm := by simp [State.setUrb, hm]
  ep := by simp [State.setUrb, State.newUrb]
  dir := by simp [State.setUrb, State.newUrb]
  endp e := congrFun State.linkUrb_endp e
  nurb := State.linkUrb_nurb
  sent := State.linkUrb_sent
  listed _ hl := hl.link.congr rfl rfl rfl

namespace Started

variable {cmd : MsgCmd} {s₁ : State}

theorem endp_new (h : Started s cmd s₁) : (s₁.urb s.nurb).endp = cmd.endp := by
  rw [Urb.endp, h.ep, h.dir, MsgCmd.endp]

/-- Its record is written, but for the endpoint and the direction. -/
theorem setUrb {u : Urb} (h : Started s cmd s₁) (hep : u.ep = (s₁.urb s.nurb).ep)
    (hdir : u.dir = (s₁.urb s.nurb).dir) : Started s cmd (s₁.setUrb s.nurb u) := by
  have hsame : Alike s₁ (s₁.setUrb s.nurb u) := .setUrb hep hdir
  refine ⟨fun m hm => ?_, (hsame.ep _).trans h.ep, (hsame.dir _).trans h.dir, h.endp, h.nurb,
    h.sent, fun l hl => (h.listed l hl).congr rfl rfl rfl⟩
  rw [← h.urb m hm]
  exact Function.update_of_ne hm ..

/-- It is taken out again with a reply. -/
theorem reply {r : Reply} (h : Started s cmd s₁) (hi : Inv full s)
    (hr : ∀ m, r.answers full = some m → m = s.nurb ∧ ∀ v ∈ s.urbs, (s.urb v).endp ≠ cmd.endp) :
    Inv full ({ s₁ with sent := s₁.sent ++ [r] }.unlinkUrb s.nurb) := by
  obtain ⟨l, hl, ho⟩ := hi
  have hun : Listed (s₁.unlinkUrb s.nurb) ([] ++ l) := (h.listed l hl).unlink
  refine ⟨l, hun.congr rfl rfl rfl, ho.reply (r := r) hl h.urb h.endp h.nurb ?_ fun m hm => ?_⟩
  · show s₁.sent ++ [r] = _
    rw [h.sent]
  obtain ⟨rfl, hno⟩ := hr m hm
  refine ⟨rfl, List.eq_nil_iff_forall_not_mem.mpr fun v hv => ?_⟩
  obtain ⟨hv, he⟩ := mem_waiting.mp hv
  exact hno v (hl.urbs_eq ▸ hv) (he.trans h.endp_new)

/-- It is refused. -/
theorem leave {x : Submit} {a : Answer} {r : Int} (h : Started s cmd s₁) (hi : Inv full s)
    (hk : Kept full s (.submit x a)) (hx : x.cmd = some cmd) (hf : Fails s x cmd) :
    Inv full (s₁.leave s.nurb r) := by
  refine h.reply hi fun m hm => ?_
  cases full with
  | false => cases hm
  | true =>
      cases hm
      exact ⟨rfl, fun v hv he => (hk cmd hx v hv he).2 rfl hf⟩

/-- `usbip_handle_control_urb` -/
theorem control {a : Answer} (h : Started s cmd s₁) (hi : Inv full s) (hep : cmd.ep = 0) :
    Inv full (s₁.usbipHandleControlUrb s.nurb a) := by
  have hset : Started s cmd
      (s₁.setUrb s.nurb { s₁.urb s.nurb with len := a.len, data := a.data }) := h.setUrb rfl rfl
  refine hset.reply hi fun m hm => ?_
  cases hm
  refine ⟨rfl, fun v hv he => ?_⟩
  obtain ⟨l, hl, ho⟩ := hi
  refine ho.data v (hl.urbs_eq ▸ hv) (BitVec.eq_of_toNat_eq ?_)
  rw [← hep]
  exact congrArg Prod.snd he

/-- `usbip_handle_data_urb` -/
theorem handleDataUrb {x : Submit} {a : Answer} {res : Int × State} (h : Started s cmd s₁)
    (hi : Inv full s) (hk : Kept full s (.submit x a)) (hx : x.cmd = some cmd) (hep : cmd.ep ≠ 0)
    (hs : s₁.usbipHandleDataUrb s.nurb = .ok res) :
    Inv full (if res.1 = 0 then res.2 else res.2.leave s.nurb res.1) := by
  rw [State.usbipHandleDataUrb] at hs
  split at hs
  · cases hs
  · have hfail : (s₁.endp (s₁.urb s.nurb).endp).state = .disabled ∨
        (s₁.endp (s₁.urb s.nurb).endp).state = .stall →
          Inv full (s₁.leave s.nurb epipe) := by
      intro hst
      rw [h.endp_new, h.endp] at hst
      exact h.leave hi hk hx (.inr (.inr ⟨hep, hst⟩))
    have haccept : Inv full (if (s₁.endp (s₁.urb s.nurb).endp).urb = none then
        s₁.setEndp (s₁.urb s.nurb).endp
          { s₁.endp (s₁.urb s.nurb).endp with urb := some s.nurb } else s₁) := by
      obtain ⟨l, hl, ho⟩ := hi
      have hdir : ∀ m ∈ l, (s.urb m).endp = cmd.endp → (s.urb m).dir = cmd.dir :=
        fun m hm he => (hk cmd hx m (hl.urbs_eq ▸ hm) he).1
      rw [← h.endp_new, ← h.dir] at hdir
      have hep' : (s₁.urb s.nurb).ep ≠ 0 := by
        rw [h.ep]
        exact hep
      split
      · rename_i hnone
        refine ⟨s.nurb :: l, (h.listed l hl).congr (by simp) (by simp) (by simp),
          ho.accept hl (by simpa using h.urb) (by simpa using hep') (by simpa using hdir)
            (by simpa using h.nurb) (by simpa using h.sent) fun e => ?_⟩
        rw [State.endp_setEndp, State.setEndp_urb]
        by_cases he : e = (s₁.urb s.nurb).endp
        · subst he
          rw [h.endp] at hnone
          rw [if_pos rfl, if_pos ⟨rfl, hnone⟩]
        · rw [if_neg he, if_neg fun hc => he hc.1, h.endp]
      · rename_i hsome
        refine ⟨s.nurb :: l, h.listed l hl, ho.accept hl h.urb hep' hdir h.nurb h.sent
          fun e => ?_⟩
        rw [if_neg, h.endp]
        rintro ⟨rfl, hc⟩
        rw [h.endp] at hsome
        exact hsome hc
    split at hs
    · rename_i hst
      cases hs
      exact hfail (.inl hst)
    · rename_i hst
      cases hs
      exact hfail (.inr hst)
    · cases hs
      exact haccept
    · cases hs
      exact haccept

end Started

/-- `usbip_handle_urb` -/
theorem usbipHandleUrb_inv {x : Submit} {a : Answer} (hi : Inv full s)
    (hk : Kept full s (.submit x a)) (hs : s.usbipHandleUrb x a = .ok s') : Inv full s' := by
  rw [State.usbipHandleUrb] at hs
  split at hs
  · cases hs
  · rename_i cmd hx
    split at hs
    · cases hs
    · have hst : Started s cmd (s.linkUrb.setUrb s.nurb (State.newUrb x.seq cmd x.setup x.data)) :=
        started
      simp only at hs
      split at hs
      · rename_i hf
        cases hs
        exact hst.leave hi hk hx (.inl hf)
      · split at hs
        · rename_i hf
          cases hs
          exact hst.leave hi hk hx (.inr (.inl hf))
        · split at hs
          · rename_i hep
            cases hs
            exact hst.control hi hep
          · rename_i hep
            obtain ⟨res, hres, rfl⟩ := map_ok hs
            exact hst.handleDataUrb hi hk hx hep hres

/-- **Step lemma.** -/
theorem step_inv {ev : Event} (hi : Inv full s) (hk : Kept full s ev) (hs : step s ev = .ok s') :
    Inv full s' := by
  cases ev with
  | submit x a => exact usbipHandleUrb_inv hi hk hs
  | unlink seq flags => exact usbipUnlinkUrb_inv hi hk hs
  | ready e => exact usbipEpReady_inv hi hs
  | device e c M =>
      cases hs
      have halike : Alike s (s.setEndp e { s.endp e with toUsbControl := c }) := .setEndp rfl
      exact Alike.inv ⟨halike.ep, halike.dir, halike.current, halike.links, halike.urbList,
        halike.nurb, halike.sent⟩ hi

theorem init_inv : Inv full .init := by
  refine ⟨[], ⟨trivial, rfl, .nil, by simp⟩, by simp, by simp, fun e => ?_, fun e => .nil,
    fun _ h => by cases h⟩
  obtain ⟨i, k⟩ := e
  cases i <;> rfl

theorem inv_of_reach (h : Reach step (Kept full) .init s) : Inv full s :=
  h.invariant init_inv fun _ _ _ => step_inv

/-! ## The law holds -/

theorem Inv.served (hi : Inv full s) : Served s := by
  obtain ⟨l, hl, ho⟩ := hi
  rw [Served, hl.urbs_eq]
  intro u hu
  have hmem : u ∈ s.waiting l (s.urb u).endp := mem_waiting.mpr ⟨hu, rfl⟩
  cases hc : (s.waiting l (s.urb u).endp).getLast? with
  | none =>
      rw [List.getLast?_eq_none_iff] at hc
      rw [hc] at hmem
      cases hmem
  | some c =>
      obtain ⟨hcl, hce⟩ := mem_waiting.mp (List.mem_of_getLast? hc)
      refine ⟨c, hcl, (ho.current _).trans hc, (ho.same_iff hcl hu).mpr hce, fun v hv hvu => ?_⟩
      have hvw : v ∈ s.waiting l (s.urb u).endp :=
        mem_waiting.mpr ⟨hv, (ho.same_iff hv hu).mp hvu⟩
      obtain ⟨w, hw⟩ := List.getLast?_eq_some_iff.mp hc
      have hsorted : (w ++ [c]).Pairwise (· > ·) := hw ▸ hl.sorted.filter _
      rw [hw] at hvw
      rcases List.mem_append.mp hvw with hvw | hvc
      · exact ((List.pairwise_append.mp hsorted).2.2 v hvw c (List.mem_singleton_self c)).le
      · exact (List.mem_singleton.mp hvc).ge

/-- The replies to the URBs of an endpoint are in the order of their submission, and no URB in
the list is older than one that was answered. -/
def InOrder (full : Bool) (s : State) : Prop :=
  ∀ e, (s.answered full e).Pairwise (· < ·) ∧
    ∀ n ∈ s.answered full e, ∀ v ∈ s.urbs, (s.urb v).endp = e → n < v

theorem Inv.inOrder (hi : Inv full s) : InOrder full s := by
  obtain ⟨l, hl, ho⟩ := hi
  intro e
  obtain ⟨hsorted, -, hlt⟩ := List.pairwise_append.mp (ho.answered e)
  refine ⟨hsorted, fun n hn v hv he => hlt n hn v ?_⟩
  rw [hl.urbs_eq] at hv
  exact List.mem_reverse.mpr (mem_waiting.mpr ⟨hv, he⟩)

/-- **The URBs of an endpoint are served in order**, in every run whose steps keep the order. -/
theorem urbs_in_order (h : Reach step (Kept full) .init s) : Served s ∧ InOrder full s :=
  ⟨(inv_of_reach h).served, (inv_of_reach h).inOrder⟩

/-- The loops over the list end. -/
theorem Inv.no_loop {ev : Event} (hi : Inv full s) : step s ev ≠ .error .loop := by
  obtain ⟨l, hl, ho⟩ := hi
  intro hs
  cases ev with
  | submit x a =>
      change s.usbipHandleUrb x a = _ at hs
      rw [State.usbipHandleUrb] at hs
      split at hs
      · cases hs
      · simp only at hs
        split at hs
        · cases hs
        · split at hs
          · cases hs
          · split at hs
            · cases hs
            · split at hs
              · cases hs
              · rw [State.usbipHandleDataUrb] at hs
                split at hs
                · cases hs
                · split at hs <;> cases hs
  | unlink seq flags =>
      change s.usbipUnlinkUrb seq flags = _ at hs
      have hhead := hl.head
      rw [State.usbipUnlinkUrb] at hs
      split at hs
      · cases hs
      · rename_i a ha
        cases l with
        | nil =>
            rw [ha] at hhead
            cases hhead
        | cons b l =>
            rw [ha, List.head?_cons, Option.some.injEq] at hhead
            subst hhead
            rw [hl.findNext_eq] at hs
            split at hs
            · rename_i hf
              cases hf
            · cases hs
            · rw [State.unlinkUrbEp] at hs
              split at hs
              · cases hs
              · split at hs <;> cases hs
  | ready e =>
      change s.usbipEpReady e = _ at hs
      rw [State.usbipEpReady] at hs
      split at hs
      · cases hs
      · rename_i n hn
        split at hs
        · cases hs
        · have hread : Alike s (s.setEndp e { s.endp e with eventfd := 0 }) := .setEndp rfl
          have halike := hread.trans (hcHandleDataUrb_alike (e := e) (n := n))
          have hcur := (halike.current e).trans hn
          have hl' := halike.listed hl
          have ho' := halike.ordered ho
          simp only at hs
          generalize ((s.setEndp e { s.endp e with eventfd := 0 }).hcHandleDataUrb e n) = res at *
          obtain ⟨r, s₁⟩ := res
          obtain ⟨p, q, rfl, rfl, hold⟩ := ho'.current_split hcur
          simp only [nextUrb_eq hl' ho' hold] at hs
          split at hs <;> cases hs
  | device e c M => cases hs

end

/-! ## Where it fails -/

instance {s : State} {m n : Nat} : Decidable (s.Same m n) :=
  inferInstanceAs (Decidable (_ ∧ _))

instance {s : State} : Decidable (Served s) :=
  inferInstanceAs (Decidable (∀ u ∈ s.urbs, ∃ c ∈ s.urbs, _))

instance {s : State} {x : Submit} {cmd : MsgCmd} : Decidable (Fails s x cmd) :=
  inferInstanceAs (Decidable (_ ∨ _))

instance {full : Bool} {s : State} : DecidablePred (Kept full s)
  | .submit x _ => inferInstanceAs (Decidable (∀ cmd ∈ x.cmd, ∀ v ∈ s.urbs, _ → _))
  | .unlink _ _ => inferInstanceAs (Decidable (∀ n ∈ List.find? _ s.urbs, _ → ∀ v ∈ s.urbs, _ → _))
  | .ready _ => .isTrue trivial
  | .device _ _ _ => .isTrue trivial

/-- The device enables endpoint 1 IN, and has sent as many packets of 3 bytes to it. -/
def enableIn1 (packets : Nat) : Event :=
  .device (true, 1) ⟨packets, if packets = 0 then .nak else .ready, Region.app.ptr, 3⟩ fun _ _ => 7

/-- The client submits an URB of 64 bytes for endpoint 1 IN. -/
def submitIn1 (seq : BitVec 32) : Event :=
  .submit ⟨seq, some ⟨1, 1, 1, 0, 64⟩, some (List.replicate 8 0), none⟩ ⟨0, 0, fun _ _ => 0⟩

/-- **The URB that an endpoint is at is taken back** while another one waits: the endpoint is at
none of them, and the one that waits is passed by the next one. -/
theorem urb_passed :
    (∃ s : State, Reach step anyEvent .init s ∧ ¬ Served s) ∧
      ∃ s : State, Reach step anyEvent .init s ∧ s.answered false (true, 1) = [2] ∧
        1 ∈ s.urbs ∧ (s.urb 1).endp = (true, 1) := by
  have hstrand : runTest step (fun _ _ => true) (fun s => decide (¬ Served s)) .init
      [enableIn1 0, submitIn1 10, submitIn1 11, .unlink 12 10] = true := by
    decide +kernel
  have hpass : runTest step (fun _ _ => true)
      (fun s => decide (s.answered false (true, 1) = [2] ∧ 1 ∈ s.urbs ∧
        (s.urb 1).endp = (true, 1))) .init
      [enableIn1 0, submitIn1 10, submitIn1 11, .unlink 12 10, submitIn1 13, enableIn1 1,
        .ready (true, 1)] = true := by
    decide +kernel
  obtain ⟨s, hs, hp⟩ := reach_any_of_runTest hstrand
  obtain ⟨s', hs', hp'⟩ := reach_any_of_runTest hpass
  exact ⟨⟨s, hs, of_decide_eq_true hp⟩, s', hs', of_decide_eq_true hp'⟩

/-- Three URBs of endpoint 1, of which the second is taken back, and one packet. -/
theorem urbs_in_order_one : ∃ s : State,
    s.answered true (true, 1) = [0] ∧ s.urbs = [2] ∧ Served s ∧ InOrder true s := by
  have hrun : runTest step (fun s e => decide (Kept true s e))
      (fun s => decide (s.answered true (true, 1) = [0] ∧ s.urbs = [2])) .init
      [enableIn1 0, submitIn1 10, submitIn1 11, submitIn1 12, .unlink 13 11, enableIn1 1,
        .ready (true, 1)] = true := by
    decide +kernel
  obtain ⟨s, hs, hp⟩ := reach_of_runTest hrun
  obtain ⟨hans, hurbs⟩ := of_decide_eq_true hp
  exact ⟨s, hans, hurbs, urbs_in_order (hs.mono fun _ _ => of_decide_eq_true)⟩

end Chopstx.Usb.Usbip.Server
