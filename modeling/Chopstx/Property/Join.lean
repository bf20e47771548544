import Chopstx.Property.Queues

/-!
# The result of `chopstx_join`

A thread that comes to `chopstx_join` after its target has exited takes the result with it
and returns 0.  A thread that comes earlier sleeps in `q_join`, and its waker does not say
that all is well: `chx_exit` wakes it by `chx_wakeup`, which stores 1 like for any other thread,
so `chopstx_join` returns 1 and leaves the result of the target where it is.

* `JoinEarly`, `JoinLate` - the places in a call, for a target that has exited and for one that has
  not.
* `join_section` - the critical section of the call decides which it is.
* `JoinEarly.step`, `JoinLate.step` - the step lemmas: other threads and the interrupts change
  nothing, and the thread goes on.
* `Joins`, `chopstxJoin_joins` - what a joiner gets, in every run.
* `chopstxJoin_joins_exited`, `chopstxJoin_early` - a target that has exited before the call, and
  one that exits after it.
-/

namespace Chopstx

open Kernel Transition

variable {cfg : Config} {t tp : Tid} {rp : Option Nat} {rest : List Frame} {r : Int} {x : Nat}
  {s₀ s₁ s s' : State} {e : Event} {c : Choice} {lags : List Nat}

/-! ## The places in a call -/

/-- The target has exited before the section of the call: where the thread is in the call above
`rest`, and what it has got in the end. -/
inductive JoinLate (s : State) (t tp : Tid) (rp : Option Nat) (rest : List Frame) : Prop
  | joinRet : (s.ctx t).frames = .joinRet tp rp 0 :: rest → JoinLate s t tp rp rest
  | done : (s.ctx t).frames = rest → (s.ctx t).ret = 0 →
      (∀ a, rp = some a → s.k.mem a = (s.k.thread tp).v) →
      (s.k.thread tp).state = .finished → JoinLate s t tp rp rest

/-- The thread has gone to sleep in the section of the call. -/
inductive JoinEarly (s : State) (t tp : Tid) (rp : Option Nat) (rest : List Frame) : Prop
  | asleep : (s.ctx t).frames = .schedRet :: .joinWake tp rp :: rest → JoinEarly s t tp rp rest
  | wake : (s.ctx t).frames = .joinWake tp rp :: rest → JoinEarly s t tp rp rest
  | joinRet {r : Int} : r ≠ 0 → (s.ctx t).frames = .joinRet tp rp r :: rest →
      JoinEarly s t tp rp rest
  | done : (s.ctx t).frames = rest → (s.ctx t).ret ≠ 0 → JoinEarly s t tp rp rest
  | canceled : (s.ctx t).frames = [.exitStart chopstxCanceled] → JoinEarly s t tp rp rest

/-- The call above `rest` goes on. -/
def InCall (t : Tid) (rest : List Frame) (s : State) (_ : Event) : Prop :=
  rest.length < (s.ctx t).frames.length

/-- A step of another thread, or an exception, leaves the stack of a thread alone. -/
theorem ctx_of_others (hs : step cfg s e = .ok s')
    (hne : ∀ c lags, e = .run c lags → s.k.running ≠ some t) : s'.ctx t = s.ctx t := by
  cases step_stepTo hs with
  | tick | systick | irq | pendsv => rfl
  | run hb hr hf hn hk =>
      rename_i c lags u f fs k' ctx
      refine Function.update_of_ne ?_ ..
      rintro rfl
      exact hne c lags rfl hr

/-- **The section of the call** decides which of the two it is. -/
theorem join_section (hi : MachineInv cfg s₀) (hr : s₀.k.running = some t)
    (hf : (s₀.ctx t).frames = .join tp rp :: rest)
    (hd : (s₀.k.thread tp).flagDetached = false) (hs : step cfg s₀ (.run c lags) = .ok s₁) :
    (s₀.k.thread tp).state = .exited ∧ (s₁.ctx t).frames = .joinRet tp rp 0 :: rest ∨
      (s₀.k.thread tp).state ≠ .exited ∧
        (s₁.ctx t).frames = .schedRet :: .joinWake tp rp :: rest := by
  cases step_stepTo hs with
  | run hb hr' hf' hn hk =>
      cases hr.symm.trans hr'
      cases hf.symm.trans hf'
      have hsec := hi.section hb hr hf hn
      simp only [Function.update_self]
      cases hn with
      | joinFatal hdet => exact absurd (hd.symm.trans hdet) (by simp)
      | joinSleep _ hj =>
          rcases chopstxJoin_cases hsec.kernel hsec.runs hj with ⟨hb, -⟩ | ⟨-, hne, -⟩
          · cases hb
          · exact .inr ⟨hne, rfl⟩
      | joinDone _ hj =>
          rcases chopstxJoin_cases hsec.kernel hsec.runs hj with ⟨-, he, -⟩ | ⟨hb, -⟩
          · exact .inl ⟨he, rfl⟩
          · cases hb

/-- A step while the thread is in a call to a target that had exited. -/
theorem JoinLate.step (h : JoinLate s t tp rp rest) (hok : InCall t rest s e)
    (hs : step cfg s e = .ok s') : JoinLate s' t tp rp rest := by
  cases h with
  | done hf => exact absurd hok (by rw [InCall, hf]; exact lt_irrefl _)
  | joinRet hf =>
      by_cases hrun : ∃ c lags, e = .run c lags ∧ s.k.running = some t
      · obtain ⟨c, lags, rfl, hr⟩ := hrun
        cases step_stepTo hs with
        | run hb hr' hf' hn hk =>
            cases hr.symm.trans hr'
            cases hf.symm.trans hf'
            cases hn with
            | joinCancel hneg => exact absurd hneg (lt_irrefl _)
            | joinLate hpos => exact absurd hpos (lt_irrefl _)
            | joined hm =>
                subst hm
                refine .done ?_ ?_ ?_ ?_
                · simp only [Function.update_self]
                · simp only [Function.update_self]
                · rintro a rfl
                  simp
                · simp
      · refine .joinRet ?_
        rw [ctx_of_others hs fun c lags he hr => hrun ⟨c, lags, he, hr⟩, hf]

/-- A step while the thread is in a call in which it has gone to sleep. -/
theorem JoinEarly.step (h : JoinEarly s t tp rp rest) (hi : MachineInv cfg s)
    (hrest : rest ≠ []) (hok : InCall t rest s e) (hs : step cfg s e = .ok s') :
    JoinEarly s' t tp rp rest := by
  by_cases hrun : ∃ c lags, e = .run c lags ∧ s.k.running = some t
  · obtain ⟨c, lags, rfl, hr⟩ := hrun
    have htop := hi.top t (hi.kernel.born t hr)
    cases step_stepTo hs with
    | run hb hr' hf' hn hk =>
        cases hr.symm.trans hr'
        cases h with
        | asleep hf =>
            cases hf.symm.trans hf'
            cases hn
            exact .wake (by simp only [Function.update_self])
        | wake hf =>
            cases hf.symm.trans hf'
            rw [hf] at htop
            cases hn
            exact .joinRet htop.2 (by simp only [Function.update_self])
        | joinRet hne hf =>
            cases hf.symm.trans hf'
            cases hn with
            | joinCancel hneg => exact .canceled (by simp only [Function.update_self])
            | joined hm => exact absurd rfl hne
            | joinLate hpos =>
                exact .done (by simp only [Function.update_self])
                  (by simpa only [Function.update_self] using hpos.ne')
        | done hf => exact absurd hok (by rw [InCall, hf]; exact lt_irrefl _)
        | canceled hf =>
            have hlen := List.length_pos_of_ne_nil hrest
            rw [InCall, hf, List.length_singleton] at hok
            omega
  · have hctx := ctx_of_others hs fun c lags he hr => hrun ⟨c, lags, he, hr⟩
    cases h with
    | asleep hf => exact .asleep (hctx ▸ hf)
    | wake hf => exact .wake (hctx ▸ hf)
    | joinRet hne hf => exact .joinRet hne (hctx ▸ hf)
    | done hf hne => exact .done (hctx ▸ hf) (hctx ▸ hne)
    | canceled hf => exact .canceled (hctx ▸ hf)

/-! ## The result -/

/-- What a call owes to the thread that waits: 0, the value with which the target has ended, and
a target that is finished with. -/
def Joins (s : State) (t tp : Tid) (rp : Option Nat) (x : Nat) : Prop :=
  (s.ctx t).ret = 0 ∧ (∀ a, rp = some a → s.k.mem a = x) ∧ (s.k.thread tp).state = .finished

/-- The next step of the thread is one that it can take, and ends the call. -/
def ReturnsNext (cfg : Config) (s : State) (t : Tid) (rest : List Frame) : Prop :=
  s.k.running = some t → ∀ c lags, ∃ s', threadStep cfg s c lags = .ok s' ∧
    (s'.ctx t).frames = rest

/-- The end of a call in time is no sleep and needs nobody else. -/
theorem JoinLate.returns (h : JoinLate s t tp rp rest)
    (hok : rest.length < (s.ctx t).frames.length) : ReturnsNext cfg s t rest := by
  intro hr c lags
  cases h with
  | done hf => exact absurd hok (by rw [hf]; exact lt_irrefl _)
  | joinRet hf =>
      have hstep : ∃ k', frameStep cfg (s.k.setLags lags) t (.joinRet tp rp 0) rest
          (s.ctx t).ret c = .ok (k', ⟨rest, 0⟩) := ⟨_, rfl⟩
      obtain ⟨k', hk⟩ := hstep
      refine ⟨⟨k', Function.update s.ctx t ⟨rest, 0⟩⟩, ?_, ?_⟩
      · rw [threadStep, hr]
        simp only [hf, hk]
        rfl
      · simp only [Function.update_self]

/-- The application has made the call. -/
theorem MachineInv.join_rest (hi : MachineInv cfg s) (hf : (s.ctx t).frames = .join tp rp :: rest) :
    ∃ fs, rest = .user :: fs := by
  have hshape := hi.shape t
  rw [hf] at hshape
  cases rest with
  | nil => exact absurd rfl (hshape.ne_nil id)
  | cons g fs =>
      cases hshape.below with
      | called => exact ⟨fs, rfl⟩

/-- **`chopstx_join` joins a thread if and only if that has exited before its section.**  It then
returns with the next step of the thread, and otherwise its result is never 0. -/
theorem chopstxJoin_joins (h : Reach (step cfg) anyEvent (init cfg) s₀)
    (hr : s₀.k.running = some t) (hf : (s₀.ctx t).frames = .join tp rp :: rest)
    (hd : (s₀.k.thread tp).flagDetached = false) (hs : step cfg s₀ (.run c lags) = .ok s₁)
    (hrun : Steps (step cfg) (InCall t rest) s₁ s) :
    ((s₀.k.thread tp).state = .exited → (s.ctx t).frames ≠ rest → ReturnsNext cfg s t rest) ∧
      ∀ x, (s.ctx t).frames = rest → (s.ctx tp).frames = [.exited x] →
        (Joins s t tp rp x ↔ (s₀.k.thread tp).state = .exited) := by
  have hi := machineInv_of_reach h
  have h₁ : Reach (step cfg) anyEvent (init cfg) s₁ := h.tail _ trivial hs
  obtain ⟨fs, rfl⟩ := hi.join_rest hf
  have hreach : Reach (step cfg) anyEvent (init cfg) s :=
    h₁.steps (hrun.mono fun _ _ _ => trivial)
  rcases join_section hi hr hf hd hs with ⟨he, hf₁⟩ | ⟨hne, hf₁⟩
  · have hlate : JoinLate s t tp rp (.user :: fs) := hrun.keeps
      (P := fun s => JoinLate s t tp rp (.user :: fs))
      (fun s e s' hl hok hs => hl.step hok hs) (.joinRet hf₁)
    refine ⟨fun _ hne => ?_, fun x hret hx => ⟨fun _ => he, fun _ => ?_⟩⟩
    · cases hlate with
      | done hf => exact absurd hf hne
      | joinRet hf =>
          refine (JoinLate.joinRet hf).returns ?_
          rw [hf]
          exact Nat.lt_succ_self _
    · cases hlate with
      | joinRet hf =>
          rw [hret] at hf
          exact absurd (List.cons.inj hf).1 (by simp)
      | done _ hz hmem hfin =>
          refine ⟨hz, fun a ha => ?_, hfin⟩
          have htp : tp < s.k.nthread := by
            by_contra hge
            rw [(machineInv_of_reach hreach).fresh tp (not_lt.1 hge)] at hx
            cases hx
          have htop := (machineInv_of_reach hreach).top tp htp
          rw [hx] at htop
          exact (hmem a ha).trans htop.2
  · have hearly : Reach (step cfg) anyEvent (init cfg) s ∧
        JoinEarly s t tp rp (.user :: fs) := by
      refine hrun.keeps (P := fun s => Reach (step cfg) anyEvent (init cfg) s ∧
        JoinEarly s t tp rp (.user :: fs)) (fun s e s' hl hok hs => ?_) ⟨h₁, .asleep hf₁⟩
      exact ⟨hl.1.tail e trivial hs, hl.2.step (machineInv_of_reach hl.1) (by simp) hok hs⟩
    refine ⟨fun he => absurd he hne, fun x hret hx => ⟨fun hj => ?_, fun he => absurd he hne⟩⟩
    cases hearly.2 with
    | done _ hnz => exact absurd hj.1 hnz
    | asleep hf | wake hf | joinRet _ hf | canceled hf =>
        rw [hret] at hf
        exact absurd (List.cons.inj hf).1 (by simp)

/-! ## Runs -/

/-- The run goes on with the section of `main`, and with these events while its call goes on, to
a state that passes the test. -/
def joinTest (cfg : Config) (p : State → Bool) (es : List Event) (s : State) : Bool :=
  stepTest (step cfg)
    (fun s₁ => runTest (step cfg) (fun s _ => decide (1 < (s.ctx 0).frames.length)) p s₁ es) s
    (.run .none [])

theorem of_joinTest {p : State → Bool} {es : List Event} (h : joinTest cfg p es s = true) :
    ∃ s₁ s', step cfg s (.run .none []) = .ok s₁ ∧
      Steps (step cfg) (InCall 0 [.user]) s₁ s' ∧ p s' = true := by
  obtain ⟨s₁, hs, h⟩ := of_stepTest h
  obtain ⟨s', hrun, hp⟩ := steps_of_runTest h
  refine ⟨s₁, s', hs, hrun.mono fun s e hok => ?_, hp⟩
  exact (of_decide_eq_true hok : 1 < (s.ctx 0).frames.length)

/-- The thread 1 calls `chopstx_exit` with 7. -/
def exitsWithSeven : List Event := .run (.call (.exit 7)) [] :: runs 4

/-- `main` joins a thread that has exited before. -/
theorem chopstxJoin_joins_exited : ∃ s : State, Joins s 0 1 (some 0) 7 := by
  have htest : runTest (step plainConfig) (fun _ _ => true)
      (fun s => decide (s.k.running = some 0 ∧ (s.ctx 0).frames = [.join 1 (some 0), .user] ∧
          (s.k.thread 1).flagDetached = false ∧ (s.k.thread 1).state = .exited) &&
        joinTest plainConfig
          (fun s => decide ((s.ctx 0).frames = [.user] ∧ (s.ctx 1).frames = [.exited 7]))
          (runs 1) s)
      (init plainConfig) (.run (.call (.create 2)) [] :: runs 1 ++ exitsWithSeven ++
        .run (.call (.join 1 (some 0))) [] :: runs 1) = true := by decide +kernel
  obtain ⟨s₀, hr, hp⟩ := reach_any_of_runTest htest
  rw [Bool.and_eq_true, decide_eq_true_eq] at hp
  obtain ⟨⟨hrun, hf, hd, he⟩, hp⟩ := hp
  obtain ⟨s₁, s, hs, hsteps, hp⟩ := of_joinTest hp
  obtain ⟨hret, hx⟩ := of_decide_eq_true hp
  exact ⟨s, ((chopstxJoin_joins hr hrun hf hd hs hsteps).2 7 hret hx).2 he⟩

/-- **`main` joins a thread that exits after the call**: it gets 1, the result of the thread is
not stored, and the thread is not finished with.  Nobody has canceled `main`. -/
theorem chopstxJoin_early : ∃ s₀ s₁ s : State,
    Reach (step plainConfig) anyEvent (init plainConfig) s₀ ∧ s₀.k.running = some 0 ∧
    (s₀.ctx 0).frames = [.join 1 (some 0), .user] ∧ (s₀.k.thread 1).flagDetached = false ∧
    step plainConfig s₀ (.run .none []) = .ok s₁ ∧
    Steps (step plainConfig) (InCall 0 [.user]) s₁ s ∧
    (s.ctx 0).frames = [.user] ∧ (s.ctx 1).frames = [.exited 7] ∧
    (s.k.thread 0).flagGotCancel = false ∧ s.k.ghost.wake 0 = some (.others none, 1) ∧
    (s.ctx 0).ret = 1 ∧ s.k.mem 0 = 0 ∧ (s.k.thread 1).state = .exited ∧
    ¬ Joins s 0 1 (some 0) 7 := by
  have htest : runTest (step plainConfig) (fun _ _ => true)
      (fun s => decide (s.k.running = some 0 ∧ (s.ctx 0).frames = [.join 1 (some 0), .user] ∧
          (s.k.thread 1).flagDetached = false) &&
        joinTest plainConfig
          (fun s => decide ((s.ctx 0).frames = [.user] ∧ (s.ctx 1).frames = [.exited 7] ∧
            (s.k.thread 0).flagGotCancel = false ∧
            s.k.ghost.wake 0 = some (.others none, 1) ∧ (s.ctx 0).ret = 1 ∧ s.k.mem 0 = 0 ∧
            (s.k.thread 1).state = .exited))
          (exitsWithSeven ++ runs 3) s)
      (init plainConfig) (.run (.call (.create 0)) [] :: runs 1 ++
        .run (.call (.join 1 (some 0))) [] :: runs 1) = true := by decide +kernel
  obtain ⟨s₀, hr, hp⟩ := reach_any_of_runTest htest
  rw [Bool.and_eq_true, decide_eq_true_eq] at hp
  obtain ⟨⟨hrun, hf, hd⟩, hp⟩ := hp
  obtain ⟨s₁, s, hs, hsteps, hp⟩ := of_joinTest hp
  obtain ⟨hf', hx, hc, hw, hret, hmem, hst⟩ := of_decide_eq_true hp
  refine ⟨s₀, s₁, s, hr, hrun, hf, hd, hs, hsteps, hf', hx, hc, hw, hret, hmem, hst, ?_⟩
  rintro ⟨hz, -⟩
  rw [hret] at hz
  cases hz

end Chopstx
