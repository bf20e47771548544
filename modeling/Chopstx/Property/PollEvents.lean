import Chopstx.Property.Join
import Chopstx.Run.Board

/-!
# The events that `chopstx_poll` reports

A thread that sleeps in `chopstx_poll` is registered for the events of all its descriptors, and
nothing has happened yet (`poll_asleep_registered`).  When the call returns, no proxy of it is
linked any more, and its result tells whether a descriptor is ready (`poll_reports_ready`).

* `Kernel.Registered` - the thread is registered with a descriptor.
* `poll_asleep_registered` - the first result, from the invariant of `Chopstx.Run.Proxies`.
* `BoardAt`, `BoardAt.step` - the proxies of a call at each of its points, and the step lemma.
* `Reports`, `Reports.result` - what the counter says of the descriptors.
* `poll_reports_ready` - the second result.
* `main_asleep_registered`, `main_reports_ready` - runs of `main` with a descriptor.
-/

namespace Chopstx

open Kernel Transition EventBoard

variable {cfg : Config} {s₀ s s' : State} {e : Event} {t : Tid} {P : Poll} {pt : PollPt}
  {rest fs : List Frame} {n : Nat} {pds : List PdId} {k : Kernel}

/-! ## The sleep -/

/-- The proxy of the descriptor is where the event of the descriptor is looked for, and it is the
thread that is going to be woken up. -/
def Kernel.Registered (cfg : Config) (k : Kernel) (t : Tid) (p : PxId) (d : PdId) : Prop :=
  ∃ q, .proxy p ∈ k.queue q ∧ (cfg.pd d).Awaits q (k.px p).v ∧ (k.px p).master = t

/-- While a thread sleeps in a call, all its descriptors are registered. -/
theorem WatchInv.registered (h : WatchInv cfg s)
    (hf : (s.ctx t).frames = .schedRet :: .poll P pt :: rest) (hsh : Shape cfg n (s.ctx t).frames)
    (hst : (s.k.thread t).state = .waitPoll) {j : Nat} {d : PdId} (hd : P.pds[j]? = some d) :
    s.k.Registered cfg t (P.px j) d := by
  have hw := h.watches t P pt (by simp [hf])
  have hz := h.asleep t P pt rest hf hst
  have hlt := (List.getElem?_eq_some_iff.1 hd).1
  have hpt : pt.inited P.pds.length = P.pds.length ∧ pt.hooked P.pds.length = P.pds.length ∧
      ∀ j < P.pds.length, s.k.Queued (P.px j) := by
    rw [hf] at hsh
    cases hsh.below with
    | schedRet hsl =>
        cases hsl with
        | poll | snooze => exact ⟨rfl, rfl, hw.waits hz⟩
  obtain ⟨q, hq⟩ := hpt.2.2 j hlt
  obtain ⟨-, kd, hkd, ha⟩ := hw.linked j q hq
  rw [Poll.pd, hd, Option.map_some] at hkd
  cases hkd
  exact ⟨q, hq, ha, hw.master j (by rw [hpt.1]; exact hlt)⟩

/-- **No event is lost while a thread sleeps in `chopstx_poll`**: the counter of the call is 0, and
each of its descriptors is registered; the step that takes one of its proxies out of the queue, as
the event has come, wakes the thread up. -/
theorem poll_asleep_registered (h : Reach (step cfg) anyEvent (init cfg) s)
    (hf : (s.ctx t).frames = .schedRet :: .poll P pt :: rest)
    (hst : (s.k.thread t).state = .waitPoll) :
    s.k.counter P.call = 0 ∧
      (∀ (j : Nat) (d : PdId), P.pds[j]? = some d → s.k.Registered cfg t (P.px j) d) ∧
      ∀ e s', step cfg s e = .ok s' → ∀ j < P.pds.length, ¬ s'.k.Queued (P.px j) →
        (s'.k.thread t).state = .ready ∨ (s'.k.thread t).state = .running := by
  have hi := machineInv_of_reach h
  have hw := watchInv_of_reach h
  refine ⟨hw.asleep t P pt rest hf hst, fun j d hd => hw.registered hf (hi.shape t) hst hd, ?_⟩
  intro e s' hs j hj hout
  have hs' : Reach (step cfg) anyEvent (init cfg) s' := h.tail e trivial hs
  have hlt : t < s.k.nthread := by
    by_contra hge
    rw [hi.fresh t (not_lt.1 hge)] at hf
    cases hf
  have hne : ∀ c lags, e = .run c lags → s.k.running ≠ some t := by
    rintro c lags rfl hr
    cases step_stepTo hs with
    | run hb hr' hf' hn hk =>
        have hrun := (hi.section hb hr' hf' hn).runs.2
        cases hr.symm.trans hr'
        cases hrun.symm.trans hst
  have hctx := ctx_of_others hs hne
  by_contra hna
  have hst' : (s'.k.thread t).state = .waitPoll := by
    cases hi.drift hs hlt hne with
    | same _ hs' => exact hs'.trans hst
    | active _ ha | woken _ ha => exact absurd ha hna
    | ended he => exact absurd he (by rw [hst]; simp [ThreadState.Ended])
  obtain ⟨d, hd⟩ : ∃ d, P.pds[j]? = some d := ⟨_, List.getElem?_eq_getElem hj⟩
  obtain ⟨q, hq, -⟩ := (watchInv_of_reach hs').registered (hctx ▸ hf)
    ((machineInv_of_reach hs').shape t) hst' hd
  exact hout ⟨q, hq⟩

/-! ## The result -/

/-- The thread is in the call above `rest`, and the board of the call is in order. -/
def BoardAt (n : Nat) (pds : List PdId) (t : Tid) (rest : List Frame) (s : State) : Prop :=
  ∃ l P pt, s.At t l P pt rest ∧ P.call = n ∧ P.pds = pds ∧ pt.Sound s.k n pds

/-- The call has returned, and its clean-up loop has gone through all descriptors. -/
structure Reports (n : Nat) (pds : List PdId) (t : Tid) (rest : List Frame) (s : State) :
    Prop where
  frames : (s.ctx t).frames = rest
  ret : (s.ctx t).ret = s.k.counter n
  board : ∃ i, pds.length ≤ i ∧ (s.k.board n pds).Ok i pds.length

/-- **A step of the machine while the thread is in the call.** -/
theorem BoardAt.step (hb : BoardAt n pds t rest s) (hi : MachineInv cfg s) (hc : CallsInv s)
    (hnd : pds.Nodup) (ha : ¬ s.InCode n e → Apart cfg n pds s) (hs : step cfg s e = .ok s') :
    BoardAt n pds t rest s' ∨ (s'.ctx t).frames = [.exitStart chopstxCanceled] ∨
      Reports n pds t rest s' := by
  obtain ⟨l, P, pt, hat, rfl, rfl, hsound⟩ := hb
  have hn : P.call < s.k.ncall := hc.lt t _ hat.mem
  by_cases hin : s.InCode P.call e
  · obtain ⟨hr, rfl, c, lags, rfl⟩ := hat.inCode hc hin
    cases step_stepTo hs with
    | run hbp hr' hf hnext hk =>
        cases hr.symm.trans hr'
        have hsec := hi.section hbp hr hf hnext
        cases hf.symm.trans hat
        cases hnext with
        | poll hp =>
            simp only [BoardAt, State.At, Function.update_self]
            have hsound' : pt.Sound (s.k.setLags lags) P.call P.pds :=
              ⟨hsound.board, hsound.hooked, hsound.named⟩
            rcases hp.sound hsec.kernel hsec.runs hn hnd hsound' with
              hgo | hx | ⟨hf', hret, rfl, hok⟩
            · exact .inl hgo
            · exact .inr (.inl hx)
            · refine .inr (.inr ⟨?_, ?_, hok⟩)
              · simpa only [Function.update_self] using hf'
              · simpa only [Function.update_self] using hret
  · obtain ⟨F, -, hsound'⟩ := hsound.fires hi hs hn hin hnd (ha hin)
    by_cases hrun : ∃ c lags, e = .run c lags ∧ s.k.running = some t
    · obtain ⟨c, lags, rfl, hr⟩ := hrun
      cases step_stepTo hs with
      | run hbp hr' hf hnext hk =>
          cases hr.symm.trans hr'
          have hfr := hf.symm.trans hat
          cases l with
          | nil =>
              cases hfr
              exact absurd ⟨t, _, State.top_eq hr hf, rfl⟩ hin
          | cons g gs =>
              have hsh := hi.shape t
              rw [hat] at hsh
              have hg := hsh.helpers g (List.mem_cons_self ..)
              cases hfr
              simp only [BoardAt, State.At, Function.update_self]
              rcases hnext.helper hg with ⟨fs, hfs⟩ | ⟨-, -, -, -, hx⟩
              · exact .inl ⟨fs ++ gs, P, pt, by simpa using hfs, rfl, rfl, hsound'⟩
              · exact .inr (.inl hx)
    · have hctx := ctx_of_others hs fun c lags he hr => hrun ⟨c, lags, he, hr⟩
      exact .inl ⟨l, P, pt, by rw [State.At, hctx]; exact hat, rfl, rfl, hsound'⟩

/-- The call begins: nothing is linked, and nothing is counted. -/
theorem pollCall_boardAt {s₁ : State} {c : Choice} {lags : List Nat} {usec : Option Nat}
    (hi : MachineInv cfg s₀) (hp : ProxiesInv s₀) (hr : s₀.k.running = some t)
    (hf : (s₀.ctx t).frames = .pollCall usec pds :: rest)
    (hs : Chopstx.step cfg s₀ (.run c lags) = .ok s₁) : BoardAt s₀.k.ncall pds t rest s₁ := by
  have hnew : ∀ j q, .proxy ⟨s₀.k.ncall, j⟩ ∉ s₁.k.queue q := fun j q => by
    refine hi.unlinked hs ?_ (hp.begun _ le_rfl) q
    rintro ⟨u, f, htop, hcall⟩
    cases htop.symm.trans (State.top_eq hr hf)
    cases hcall
  cases step_stepTo hs with
  | run hb hr' hf' hnext hk =>
      cases hr.symm.trans hr'
      cases hf.symm.trans hf'
      cases hnext with
      | pollCall =>
          refine ⟨[], ⟨_, pds, usec⟩, .init 0, ?_, rfl, rfl, ?_, Nat.zero_le _,
            fun j hj => absurd hj (Nat.not_lt_zero j)⟩
          · simp only [State.At, Function.update_self]
            rfl
          · exact Board.ok_empty (fun j hj => hj.elim fun q hq => hnew j q hq)
              (Function.update_self ..)

/-- The reports of a board, counted in the list of the descriptors. -/
theorem card_reports : ((k.board n pds).reports pds.length).card = pds.countP k.ready := by
  have key : ∀ l : List PdId, Nat.count (fun j => (l[j]?).any k.ready = true) l.length =
      l.countP k.ready := by
    intro l
    induction l with
    | nil => rfl
    | cons d l ih =>
        rw [List.length_cons, Nat.count_succ', List.countP_cons]
        simp only [List.getElem?_cons_succ, List.getElem?_cons_zero, Option.any_some]
        rw [ih]
  rw [← key pds, Nat.count_eq_card_filter_range]
  rfl

theorem Reports.result (h : Reports n pds t rest s) :
    (∀ j, ¬ s.k.Queued ⟨n, j⟩) ∧ (s.ctx t).ret ≤ (pds.countP s.k.ready : Int) ∧
      (0 < (s.ctx t).ret ↔ ∃ d ∈ pds, s.k.ready d = true) := by
  obtain ⟨i, hle, hok⟩ := h.board
  refine ⟨fun j hj => ?_, ?_, ?_⟩
  · obtain ⟨hij, hlt, -⟩ := hok.linked j hj
    omega
  · rw [h.ret, ← card_reports (k := s.k) (n := n)]
    exact_mod_cast hok.le
  · rw [h.ret]
    refine (Iff.trans ?_ hok.pos_iff).trans ⟨?_, ?_⟩
    · exact Int.natCast_pos
    · rintro ⟨j, hj, hr⟩
      rw [board_ready (List.getElem?_eq_getElem hj)] at hr
      exact ⟨_, List.getElem_mem hj, hr⟩
    · rintro ⟨d, hd, hr⟩
      obtain ⟨j, hj, rfl⟩ := List.getElem_of_mem hd
      exact ⟨j, hj, (board_ready (List.getElem?_eq_getElem hj)).trans hr⟩

/-- **What `chopstx_poll` returns**, where no other code touches its descriptors, which are
different: no proxy of the call is linked any more, the result is at most the number of
descriptors that are ready, and it is positive just when one is. -/
theorem poll_reports_ready {s₁ : State} {c : Choice} {lags : List Nat} {usec : Option Nat}
    (h : Reach (step cfg) anyEvent (init cfg) s₀) (hr : s₀.k.running = some t)
    (hf : (s₀.ctx t).frames = .pollCall usec pds :: rest)
    (hs₀ : step cfg s₀ (.run c lags) = .ok s₁) (hnd : pds.Nodup)
    (hrun : Steps (step cfg) (fun s e => InCall t rest s e ∧
      (¬ s.InCode s₀.k.ncall e → Apart cfg s₀.k.ncall pds s)) s₁ s)
    (hret : (s.ctx t).frames = rest) :
    (∀ j, ¬ s.k.Queued ⟨s₀.k.ncall, j⟩) ∧ (s.ctx t).ret ≤ (pds.countP s.k.ready : Int) ∧
      (0 < (s.ctx t).ret ↔ ∃ d ∈ pds, s.k.ready d = true) := by
  have hi := machineInv_of_reach h
  have h₁ : Reach (step cfg) anyEvent (init cfg) s₁ := h.tail _ trivial hs₀
  have hshape := hi.shape t
  rw [hf] at hshape
  obtain ⟨fs, rfl⟩ : ∃ fs, rest = .user :: fs := by
    cases rest with
    | nil => exact absurd rfl (hshape.ne_nil id)
    | cons g fs =>
        cases hshape.below with
        | called => exact ⟨fs, rfl⟩
  have key := hrun.keeps (P := fun s => Reach (step cfg) anyEvent (init cfg) s ∧
    (BoardAt s₀.k.ncall pds t (.user :: fs) s ∨ (s.ctx t).frames = [.exitStart chopstxCanceled] ∨
      Reports s₀.k.ncall pds t (.user :: fs) s)) ?_ ⟨h₁, .inl ?_⟩
  · rcases key.2 with ⟨l, P, pt, hat, -⟩ | hx | hrep
    · have hlen := congrArg List.length (hat.symm.trans hret)
      simp only [List.length_append, List.length_cons] at hlen
      omega
    · rw [hret] at hx
      cases hx
    · exact hrep.result
  · rintro s e s' ⟨hreach, hcase⟩ ⟨hin, ha⟩ hs
    refine ⟨hreach.tail e trivial hs, ?_⟩
    rcases hcase with hb | hx | hrep
    · exact hb.step (machineInv_of_reach hreach) (callsInv_of_reach hreach) hnd ha hs
    · rw [InCall, hx] at hin
      simp at hin
    · rw [InCall, hrep.frames] at hin
      exact absurd hin (lt_irrefl _)
  · exact pollCall_boardAt hi (proxiesInv_of_reach h) hr hf hs₀

/-! ## A run -/

/-- The machine is in the only call, of `main`, and its code is the only one that runs. -/
def onlyCall (s : State) (_ : Event) : Bool :=
  decide (s.k.ncall = 1 ∧ 1 < (s.ctx 0).frames.length) &&
    match s.top with
    | none => true
    | some (_, .poll P _) => decide (P.call = 0)
    | some (_, .testcancel) | some (_, .schedRet) => true
    | _ => false

theorem apart_of_onlyCall (h : Reach (step cfg) anyEvent (init cfg) s) (ho : onlyCall s e = true) :
    InCall 0 [.user] s e ∧ Apart cfg 0 pds s := by
  rw [onlyCall, Bool.and_eq_true, decide_eq_true_eq] at ho
  obtain ⟨⟨hn, hlen⟩, htop⟩ := ho
  refine ⟨hlen, fun u f hf hne d _ b hmay => ?_, fun p q hp hcall => absurd hp ?_⟩
  · rw [hf] at htop
    cases f with
    | poll P pt => exact hne (congrArg some (of_decide_eq_true htop))
    | testcancel | schedRet => exact hmay.elim
    | _ => cases htop
  · refine (proxiesInv_of_reach h).begun p ?_ q
    omega

/-- `main` sleeps in its call. -/
theorem main_asleep_registered : ∃ s : State, (s.k.thread 0).state = .waitPoll ∧
    s.k.counter 0 = 0 ∧ s.k.Registered plainConfig 0 ⟨0, 0⟩ 0 := by
  have htest : runTest (step plainConfig) (fun _ _ => true)
      (fun s => decide ((s.ctx 0).frames = [.schedRet, .poll ⟨0, [0], none⟩ .wake, .user] ∧
        (s.k.thread 0).state = .waitPoll)) (init plainConfig)
      (.run (.call (.poll none [0])) [] :: runs 9) = true := by
    decide +kernel
  obtain ⟨s, h, hp⟩ := reach_any_of_runTest htest
  obtain ⟨hf, hst⟩ := of_decide_eq_true hp
  obtain ⟨hz, hreg, -⟩ := poll_asleep_registered h hf hst
  exact ⟨s, hst, hz, hreg 0 0 rfl⟩

/-- An interrupt that `main` waits for comes. -/
theorem main_reports_ready : ∃ s : State, (s.ctx 0).frames = [.user] ∧ (s.ctx 0).ret = 1 ∧
    (∀ j, ¬ s.k.Queued ⟨0, j⟩) ∧ ∃ d ∈ [0], s.k.ready d = true := by
  have htest : runTest (step plainConfig) (fun _ _ => true)
      (fun s₀ => decide (s₀.k.running = some 0 ∧ s₀.k.ncall = 0 ∧
          (s₀.ctx 0).frames = [.pollCall none [0], .user]) &&
        stepTest (step plainConfig) (fun s₁ => runTest (step plainConfig) onlyCall
          (fun s => decide ((s.ctx 0).frames = [.user] ∧ (s.ctx 0).ret = 1)) s₁
          (runs 7 ++ [.irq 0 [], .pendsv []] ++ runs 4)) s₀ (.run .none []))
      (init plainConfig)
      (.run (.call (.claimIrq 0)) [] :: runs 1 ++ .run (.call (.poll none [0])) [] :: runs 1) =
        true := by
    decide +kernel
  obtain ⟨s₀, h, hp⟩ := reach_any_of_runTest htest
  rw [Bool.and_eq_true] at hp
  obtain ⟨hp, ht⟩ := hp
  obtain ⟨hr, hn, hf⟩ := of_decide_eq_true hp
  obtain ⟨s₁, hs₀, ht⟩ := of_stepTest ht
  obtain ⟨s, hrun, hp⟩ := steps_of_runTest ht
  obtain ⟨hret, hone⟩ := of_decide_eq_true hp
  have h₁ : Reach (step plainConfig) anyEvent (init plainConfig) s₁ := h.tail _ trivial hs₀
  have hruns := hrun.reach (fun _ _ _ => trivial) h₁
  obtain ⟨hnone, -, hiff⟩ := poll_reports_ready h hr hf hs₀ (by decide) (hruns.mono
    fun s e hok => by
      have h : InCall 0 [.user] s e ∧ Apart plainConfig 0 [0] s := apart_of_onlyCall hok.2 hok.1
      exact ⟨h.1, fun _ => hn ▸ h.2⟩) hret
  rw [hn] at hnone
  exact ⟨s, hret, hone, hnone, hiff.1 (by rw [hone]; exact zero_lt_one)⟩

end Chopstx
