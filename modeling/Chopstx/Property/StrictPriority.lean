import Chopstx.Property.Boost
import Chopstx.Run.Highest

/-!
# Strict priority

Every switch is to a thread with the highest priority of those that are ready.  Such a thread
goes on as the highest, unless PendSV is going to switch, or it releases its mutexes in
`chopstx_exit`.  The condition is that a thread releases a mutex with a priority that is its
own, or lent by a thread that waits for one of its mutexes: `chx_mutex_unlock` compares the
priority of the running thread with the one that it wakes up only.  This is so in every run
without `chopstx_join`.

* `MachineInv.switches`, `switches_to_highest` - every switch, with the queues sorted.
* `lends` - the condition on the thread that releases a mutex.
* `Highest`, `Highest.step`, `highest_of_reach` - the invariant, its step lemma and its run lemma.
* `highest_runs` - the result about runs.
* `LentInv`, `LentInv.step` - the donors of a run without `chopstx_join`.
* `highest_runs_without_join` - the result about these runs.
* `main_runs_highest`, `main_lent` - a run with a lock, a loan and a release, and one with a loan.
-/

namespace Chopstx

open Kernel Transition Donation

variable {cfg : Config} {s s' : State} {e : Event} {k k' : Kernel} {t u : Tid} {m : Mid}
  {f : Frame} {D : Donors Tid Nat}

/-! ## Every switch is to the highest thread -/

theorem chxHandleIntr_keeps (cfg : Config) {n : Irq} (h : KernelInv none k)
    (hi : k.chxHandleIntr n = .ok k') :
    k'.running = k.running ∧ (k.pendsv = true → k'.pendsv = true) := by
  have hp : Path cfg (Op.Handles n) (none, k) (none, k') := chxHandleIntr_path h hi
  have key := hp.keeps
    (I := fun a => KernelInv a.1 a.2 ∧ a.2.running = k.running ∧
      (k.pendsv = true → a.2.pendsv = true)) ?_ ⟨h, rfl, id⟩
  · exact key.2
  · rintro op ⟨off, k₁⟩ ⟨off', k₂⟩ hop hm ⟨hk₁, hr, hp⟩
    refine ⟨hk₁.move hm, (hm.running hop.quiet hk₁).1.trans hr, fun hpend => ?_⟩
    cases hop with
    | pend =>
        cases hm
        rfl
    | wakes hw =>
        rw [hm.pendsv hk₁ (by rintro b rfl; cases hw) (by rintro rfl; cases hw)]
        exact hp hpend
    | irq =>
        rw [hm.pendsv hk₁ (by simp) (by simp)]
        exact hp hpend

/-- PendSV switches to the highest thread. -/
theorem MachineInv.preempt_top {lags : List Nat} (hi : MachineInv cfg s) (hs : s.k.Sorted)
    (hk : (s.k.setLags lags).preempt cfg = .ok k') : k'.Top := by
  have hk₀ := setLags_inv hi.kernel lags
  have hact : ∀ t, (s.k.setLags lags).running = some t →
      ((s.k.setLags lags).thread t).state = .running ∨
        ((s.k.setLags lags).thread t).state = .ready ∧
          ((s.k.setLags lags).thread t).flagSchedRr = true := fun t ht =>
    (hi.run.active t ht).imp id fun h => ⟨h.1, h.2.1⟩
  obtain ⟨k₁, hp₁, -, -, rfl⟩ := preempt_cases hk₀ hact hk
  refine switchThread_top cfg (hk₀.path hp₁) (hp₁.sorted hk₀ ?_ hs)
  intro op hop
  cases hop <;> trivial

/-- **A step switches to another thread only as the highest.** -/
theorem MachineInv.switches (hi : MachineInv cfg s) (hsort : s.k.Sorted)
    (hs : step cfg s e = .ok s') : s'.k.Top ∨ s'.k.running = s.k.running := by
  cases step_stepTo hs with
  | tick => exact .inr rfl
  | systick => exact .inr (chxTimerExpired_expired (setLags_inv hi.kernel _)).running
  | irq _ _ hk => exact .inr (chxHandleIntr_keeps cfg (setLags_inv hi.kernel _) hk).1
  | pendsv _ _ hk => exact .inl (hi.preempt_top hsort hk)
  | run hb hr hf hn =>
      have hsec := hi.section hb hr hf hn
      have hgives := hn.givesWay hsec.kernel hsec.runs hsort hsec.fits hsec.path
      exact hgives.switches.imp id fun h => h.trans hr.symm

/-- **The queues are sorted, and every switch is to the highest thread**: in every reachable state
of every run `q_ready`, and the queue of each mutex and of each condition variable, have their
entries in the order of their present priorities, and if a step ends with another thread running,
or with none, no thread that is ready outranks that one. -/
theorem switches_to_highest (cfg : Config) (s : State)
    (h : Reach (step cfg) anyEvent (init cfg) s) :
    (∀ q, q.Sorts → (s.k.queue q).Pairwise fun x y => s.k.pqPrio y ≤ s.k.pqPrio x) ∧
    ∀ e s', step cfg s e = .ok s' → s'.k.running ≠ s.k.running → ∀ u,
      (s'.k.thread u).state = .ready →
        ∃ t, s'.k.running = some t ∧ (s'.k.thread u).prio ≤ (s'.k.thread t).prio := by
  refine ⟨fun q hq => hq.pairwise (sorted_of_reach h), fun e s' hs hne u hu => ?_⟩
  rcases (machineInv_of_reach h).switches (sorted_of_reach h) hs with ht | hr
  · exact outranks_eq_false.1 (ht u hu)
  · exact absurd hr hne

/-- `main` gives way to a thread that it has created with a greater priority. -/
theorem main_switches_to_highest : ∃ s : State,
    (∃ e s', step plainConfig s e = .ok s' ∧ s'.k.running ≠ s.k.running) ∧
    (∀ q, q.Sorts → (s.k.queue q).Pairwise fun x y => s.k.pqPrio y ≤ s.k.pqPrio x) ∧
    ∀ e s', step plainConfig s e = .ok s' → s'.k.running ≠ s.k.running → ∀ u,
      (s'.k.thread u).state = .ready →
        ∃ t, s'.k.running = some t ∧ (s'.k.thread u).prio ≤ (s'.k.thread t).prio := by
  have htest : runTest (step plainConfig) (fun _ _ => true)
      (fun s => stepTest (step plainConfig) (fun s' => decide (s'.k.running ≠ s.k.running)) s
        (.run .none [])) (init plainConfig) [.run (.call (.create 5)) []] = true := by
    decide +kernel
  obtain ⟨s, hr, hp⟩ := reach_any_of_runTest htest
  obtain ⟨s', hs, hne⟩ := of_stepTest hp
  exact ⟨s, ⟨_, s', hs, of_decide_eq_true hne⟩, switches_to_highest plainConfig s hr⟩

/-! ## Running on as the highest -/

/-- The running thread releases its mutexes in `chopstx_exit`. -/
def State.Exiting (s : State) : Prop := ∃ t f, s.top = some (t, f) ∧ f.exiting = true

/-- A mutex is released with a priority that is lent by those who wait, or the thread's own. -/
def lends (s : State) : Event → Prop
  | .run _ _ => ∀ t m, s.top = some (t, .mutexUnlock m) → s.k.Lent t
  | _ => True

/-- PendSV is pending, or the running thread is the highest, or it is in `chopstx_exit`. -/
def Highest (s : State) : Prop := s.k.pendsv = true ∨ s.k.Top ∨ s.Exiting

theorem State.Exiting.keep (h : s.Exiting) (hr : s'.k.running = s.k.running) (hc : s'.ctx = s.ctx) :
    s'.Exiting := by
  obtain ⟨t, f, htop, hf⟩ := h
  refine ⟨t, f, ?_, hf⟩
  rw [State.top] at htop ⊢
  rw [hr, hc]
  exact htop

/-- A handler that sets PendSV or leaves the running thread the highest. -/
theorem Highest.handler (h : Highest s) (hp : s.k.pendsv = true → s'.k.pendsv = true)
    (ht : s.k.Top → s'.k.pendsv = true ∨ s'.k.Top) (hr : s'.k.running = s.k.running)
    (hc : s'.ctx = s.ctx) : Highest s' := by
  rcases h with h | h | h
  · exact .inl (hp h)
  · exact (ht h).imp id .inl
  · exact .inr (.inr (h.keep hr hc))

/-- **Every step keeps the running thread the highest.** -/
theorem Highest.step (h : Highest s) (hi : MachineInv cfg s) (hl : LockInv cfg s)
    (hsort : s.k.Sorted) (hok : lends s e) (hs : step cfg s e = .ok s') : Highest s' := by
  have hpath := hi.path hs
  cases step_stepTo hs with
  | tick => exact h.handler id .inr rfl rfl
  | @systick lags hp hm =>
      have hex := chxTimerExpired_expired (setLags_inv hi.kernel lags)
      have hprio : ∀ t, (((s.k.setLags lags).setSystick
          { (s.k.setLags lags).systick with pending := false }).thread t).prio ≤ 256 :=
        fun t => (hi.kernel.prio t).le
      exact h.handler hex.pendsv (fun ht => chxTimerExpired_top hprio ht) hex.running rfl
  | @irq n lags k' hirq hm hk =>
      have hk₀ := setLags_inv hi.kernel lags
      obtain ⟨hr, hp⟩ := chxHandleIntr_keeps cfg hk₀ hk
      exact h.handler hp (fun ht => chxHandleIntr_top cfg hk₀ ht hk) hr rfl
  | @pendsv lags k' hp hm hk => exact .inr (.inl (hi.preempt_top hsort hk))
  | @run c lags t f rest k' ctx hb hr hf hn hk =>
      have hsec := hi.section hb hr hf hn
      cases hx : f.exiting with
      | true =>
          rcases hn.exiting hsec.kernel hsec.runs hsort hx with ht | ⟨hr', g, rest', hg, hx⟩
          · exact .inr (.inl ht)
          · refine .inr (.inr ⟨t, g, ?_, hx⟩)
            exact State.top_eq hr'.1 (by simpa using hg)
      | false =>
          have htop : s.k.Top := by
            rcases h with h | h | ⟨t', f', htop, hx'⟩
            · rw [(hi.run.runs hb hr).2] at h
              cases h
            · exact h
            · rw [State.top_eq hr hf] at htop
              cases htop
              rw [hx] at hx'
              cases hx'
          have hheld := hl.top t
          rw [hf] at hheld
          have hrel : Releases (s.k.setLags lags) t f := by
            rintro m rfl
            exact ⟨hl.agree, hheld, hok t m (State.top_eq hr hf)⟩
          have hgives := hn.givesWay hsec.kernel hsec.runs hsort hsec.fits hsec.path
          exact .inr (.inl (hgives.top ⟨hx, htop, hrel⟩))

theorem init_top : (init cfg).k.Top := by
  intro u hu
  have hm := (initKernel_inv cfg).mem_ready_of_state (by simp) hu
  have hnil : (init cfg).k.queue .ready = [] := initKernel_queue (by simp)
  rw [show (initKernel cfg).queue .ready = [] from hnil] at hm
  cases hm

theorem highest_of_reach
    (h : Reach (step cfg) (fun s e => lifo s e = true ∧ lends s e) (init cfg) s) : Highest s := by
  refine Reach.invariant_of (P := Highest)
    (I := fun s => MachineInv cfg s ∧ LockInv cfg s ∧ s.k.Sorted)
    (fun _ h => ⟨machineInv_of_reach h, lockInv_of_reach (h.mono fun _ _ hok => hok.1),
      sorted_of_reach h⟩) (.inr (.inl init_top))
    (fun s e s' hi _ hh hok hs => hh.step hi.1 hi.2.1 hi.2.2 hok.2 hs) h

/-- **The highest thread runs**: in every run in which mutexes are released in reverse order, and
with a priority that is the thread's own or lent by those who wait for its mutexes, no thread that
is ready has a greater priority than the running one, unless PendSV is pending or the running
thread is in the middle of `chopstx_exit`. -/
theorem highest_runs (cfg : Config) (s : State)
    (h : Reach (step cfg) (fun s e => lifo s e = true ∧ lends s e) (init cfg) s)
    (hp : s.k.pendsv = false) (hx : ¬ s.Exiting) (u : Tid) (hu : (s.k.thread u).state = .ready) :
    ∃ t, s.k.running = some t ∧ (s.k.thread u).prio ≤ (s.k.thread t).prio := by
  rcases highest_of_reach h with h | h | h
  · rw [hp] at h
    cases h
  · exact outranks_eq_false.1 (h u hu)
  · exact absurd h hx

/-- The test of `lends`, where the mutex that is released is the one that is waited for. -/
def lendsTest (s : State) : Bool :=
  match s.top with
  | some (t, .mutexUnlock m) =>
      decide ((s.k.thread t).prio ≤ (s.k.thread t).prioOrig) ||
        decide ((s.k.mutex m).owner = some t) && (s.k.queue (.mtx m)).any fun x => match x with
          | .thread u => decide ((s.k.thread t).prio ≤ (s.k.thread u).prio)
          | _ => false
  | _ => true

theorem lends_of_test (h : lendsTest s = true) : lends s e := by
  cases e with
  | run c lags =>
      intro t m htop
      rw [lendsTest, htop] at h
      simp only [Bool.or_eq_true, Bool.and_eq_true, decide_eq_true_eq, List.any_eq_true] at h
      rcases h with h | ⟨ho, x, hx, hle⟩
      · exact .inl h
      · cases x with
        | thread u => exact .inr ⟨m, u, ho, hx, of_decide_eq_true hle⟩
        | proxy p => cases hle
  | _ => trivial

/-- The application runs in the innermost frame. -/
def inUser (s : State) : Bool :=
  match s.top with
  | some (_, .user) => true
  | _ => false

theorem not_exiting_of_inUser (h : inUser s = true) : ¬ s.Exiting := by
  rintro ⟨t, f, htop, hf⟩
  rw [inUser, htop] at h
  cases f with
  | user => cases hf
  | _ => cases h

/-- `main` locks a mutex and creates a thread of a greater priority, which waits for the mutex and
lends its priority; then `main` releases the mutex. -/
def lendAndRelease : List Event :=
  .run (.call (.mutexLock 0)) [] :: runs 1 ++ .run (.call (.create 5)) [] :: runs 1 ++
    .run (.call (.mutexLock 0)) [] :: runs 1 ++
    .run (.call (.mutexUnlock 0)) [] :: runs 3

/-- The thread that has waited runs with the mutex, and `main` has its own priority again. -/
theorem main_runs_highest : ∃ s : State, (s.k.mutex 0).owner = some 1 ∧
    (s.k.thread 0).state = .ready ∧
    ∃ t, s.k.running = some t ∧ (s.k.thread 0).prio ≤ (s.k.thread t).prio := by
  have htest : runTest (step plainConfig) (fun s e => lifo s e && lendsTest s)
      (fun s => decide ((s.k.mutex 0).owner = some 1 ∧ (s.k.thread 0).state = .ready) &&
        !s.k.pendsv && inUser s) (init plainConfig) lendAndRelease = true := by
    decide +kernel
  obtain ⟨s, hr, hp⟩ := reach_of_runTest htest
  rw [Bool.and_eq_true, Bool.and_eq_true, decide_eq_true_eq, Bool.not_eq_true'] at hp
  obtain ⟨⟨⟨ho, hs⟩, hpend⟩, huser⟩ := hp
  refine ⟨s, ho, hs, highest_runs plainConfig s (hr.mono fun s e hok => ?_) hpend
    (not_exiting_of_inUser huser) 0 hs⟩
  rw [Bool.and_eq_true] at hok
  exact ⟨hok.1, lends_of_test hok.2⟩

/-! ## Runs without `chopstx_join` -/

/-- The frames of `chopstx_join`. -/
def Frame.joins : Frame → Bool
  | .join _ _ | .joinWake _ _ | .joinRet _ _ _ => true
  | _ => false

/-- The application does not call `chopstx_join`. -/
def noJoin : Event → Bool
  | .run (.call (.join _ _)) _ => false
  | _ => true

/-- No thread is in `chopstx_join`, and every priority is the thread's own or lent by those who
wait for its mutexes. -/
structure LentInv (s : State) : Prop where
  frames : ∀ t, ∀ f ∈ (s.ctx t).frames, f.joins = false
  own : ∀ u, s.k.donors.orig u ≤ s.k.donors.prio u
  lent : ∀ u, s.k.donors.Lent u

/-- A thread that waits for the exit of another one is in `chopstx_join`. -/
theorem LentInv.not_waitExit (h : LentInv s) (hi : MachineInv cfg s) (u : Tid) :
    (s.k.thread u).state ≠ .waitExit := by
  intro hs
  by_cases hu : u < s.k.nthread
  · obtain ⟨g, rest, hf, hg⟩ := (hi.top u hu).asleep (by simp [hs, ThreadState.Active])
      (by simp [hs, ThreadState.Ended])
    have hjoins := h.frames u g (by rw [hf]; simp)
    rw [Asleep, hs] at hg
    cases hg
    cases hjoins
  · rw [(hi.kernel.unborn u (not_lt.1 hu)).1] at hs
    cases hs

theorem DonorsTo.lent (hd : DonorsTo k t f D) (hk : KernelInv none k) (hr : Runs k t)
    (ho : ∀ u, k.donors.orig u ≤ k.donors.prio u) (hl : ∀ u, k.donors.Lent u)
    (hf : f.frees k t = none) : ∀ u, D.Lent u := by
  have hwaits : k.donors.waits t = none := hr.waitsFor
  have hlink : ∀ x u, (k.donors.link t u).Lent x := fun x u => (hl x).redirect fun y hy hw => by
    rw [of_decide_eq_true hy, hwaits] at hw
    cases hw
  cases hd with
  | keep | release => exact hl
  | create =>
      intro u
      by_cases hu : u = k.nthread
      · exact .inl (by simp [hu])
      · refine (hl u).assign (waitsFor_eq_none (not_waits_of (hk.unborn _ le_rfl).1 ?_)) hu
        simp
  | @acquire m b hown =>
      refine fun u => (hl u).redirect fun x hx hw => ?_
      -- the mutex was free, so its waiters waited for nobody
      obtain ⟨hs, hp⟩ := hk.queuedOn_iff.1 hx
      change k.waitsFor x = some u at hw
      rw [waitsFor, hs, hp] at hw
      cases hown.symm.trans hw
  | @block m b u D hown hlift =>
      have hlift' : Donors.Lift (k.thread t).prio (k.donors.link t u) (some u) (D.link t u) :=
        hlift.redirect fun y hy => by rw [of_decide_eq_true hy]; exact le_rfl
      refine hlift'.lent (u := t) (fun x => hlink x u) le_rfl fun x hx => ?_
      cases hx
      simp [Donors.link]
  | @join tp rp D hlift =>
      refine hlift.lent (u := t) (fun x => hlink x tp) le_rfl fun x hx => ?_
      cases hx
      simp [Donors.link]
  | @handOver f m p hrel hown hq hp =>
      have hqueued : ∀ x, k.queuedOn m x = true → k.donors.waits x = some t := fun x hx =>
        hk.waitsFor_eq_some.2 (.inl ⟨m, hown, of_decide_eq_true hx⟩)
      have hfree : (k.donors.redirect (k.queuedOn m) none).waits t = none := by
        rw [Donors.redirect_waits, hwaits, ite_self]
      intro u
      by_cases hu : u = t
      · subst hu
        rcases hp.cause with hp | ⟨n, x, hn, hown', hx, hp⟩
        · exact .inl (by simp [hp])
        · -- the first waiter of another mutex still waits for the thread
          have hxu : k.donors.waits x = some u := hk.waitsFor_eq_some.2 (.inl ⟨n, hown', hx⟩)
          have hxm : k.queuedOn m x = false := by
            refine decide_eq_false fun hxm => hn ?_
            have := (hk.isIn_of_mem hx).1.symm.trans (hk.isIn_of_mem hxm).1
            exact Qh.mtx.inj (Option.some.inj this)
          have hne : x ≠ u := by
            rintro rfl
            rw [hwaits] at hxu
            cases hxu
          refine .inr ⟨x, ?_, ?_⟩
          · change (if k.queuedOn m x = true then none else k.donors.waits x) = some u
            rw [hxm]
            exact hxu
          · simp [hne, hp, donors]
      · refine ((hl u).redirect fun x hx hw => hu ?_).assign hfree hu
        exact Option.some.inj (hw.symm.trans (hqueued x hx))
  | @setpriority prio =>
      intro u
      by_cases hu : u = t
      · subst hu
        have hself := ho u
        change (k.thread u).prioOrig ≤ (k.thread u).prio at hself
        by_cases heq : (k.thread u).prio = (k.thread u).prioOrig
        · exact .inl (by simp [heq])
        · rw [if_neg heq]
          split
          · exact .inl (by simp)
          · -- the priority was inherited, and stays
            rcases hl u with h | ⟨x, hx, hle⟩
            · exact absurd (le_antisymm h hself) heq
            · have hne : x ≠ u := by
                rintro rfl
                rw [hwaits] at hx
                cases hx
              refine .inr ⟨x, hx, ?_⟩
              rw [Donors.assign_prio, Function.update_self, Donors.assign_prio,
                Function.update_of_ne hne]
              exact hle
      · exact (hl u).assign hwaits hu
  | free hfree =>
      rw [hf] at hfree
      cases hfree

/-- The code of a thread goes into `chopstx_join` by a call of the application only. -/
theorem Next.joins {rest : List Frame} {ret : Int} {ctx : Ctx}
    (hn : Next cfg k t rest ret f k' ctx) (hf : f.joins = false)
    (hr : ∀ g ∈ rest, g.joins = false) :
    (∀ g ∈ ctx.frames, g.joins = false) ∨
      ∃ tp rp, f = .user ∧ ctx.frames = .testcancel :: .join tp rp :: .user :: rest := by
  have hnil : ∀ g ∈ ([] : List Frame), g.joins = false := by simp
  have hone : ∀ {g : Frame} {fs : List Frame}, g.joins = false → (∀ g ∈ fs, g.joins = false) →
      ∀ e ∈ g :: fs, e.joins = false := fun hg hfs => List.forall_mem_cons.2 ⟨hg, hfs⟩
  cases hn with
  | @call c hv hc =>
      cases c with
      | join tp rp => exact .inr ⟨tp, rp, rfl, rfl⟩
      | ret rv => exact absurd rfl (hc rv)
      | _ => exact .inl (by first
          | exact hone rfl (hone rfl hr)
          | exact hone rfl (hone rfl (hone rfl hr)))
  | joinFatal | joinSleep | joinDone | joinWake | joinCancel | joined | joinLate => cases hf
  | poll hp =>
      left
      cases hp with
      | exit => exact hone rfl hnil
      | done => exact hr
      | _ => first | exact hone rfl hr | exact hone rfl (hone rfl hr)
  | endless | entryRet | canceled | condCancel | exitStart | exitMutexes | exitMutex | exitEnd
  | exitUnlock | exit => exact .inl (hone rfl hnil)
  | exitRoutine => exact .inl (hone rfl (hone rfl hnil))
  | _ => exact .inl (by first
      | exact hr
      | exact hone rfl hr
      | exact hone rfl (hone rfl hr))

/-- **Every step leaves each priority lent by those who wait for a mutex**, if nobody calls
`chopstx_join`. -/
theorem LentInv.step (h : LentInv s) (hi : MachineInv cfg s) (hl : LockInv cfg s)
    (hok : lifo s e = true) (hj : noJoin e = true) (hs : step cfg s e = .ok s') : LentInv s' := by
  have hown := step_own hi hl hok hs h.own
  refine ⟨?_, hown, ?_⟩
  · cases step_stepTo hs with
    | tick | systick | irq | pendsv => exact h.frames
    | @run c lags t f rest k' ctx hb hr hf hn hk =>
        intro u g hg
        by_cases hu : u = t
        · subst hu
          simp only [Function.update_self] at hg
          have hmem := h.frames u
          rw [hf] at hmem
          rcases hn.joins (hmem f (by simp)) fun g hg => hmem g (by simp [hg]) with
            hj' | ⟨tp, rp, rfl, hfr⟩
          · exact hj' g hg
          · -- the application has called it
            obtain ⟨call, rfl, -, -, hc⟩ := frameStep_user hk
            rcases hc with ⟨-, hc⟩ | ⟨-, ⟨-, hc⟩ | hc | ⟨rv, hc⟩⟩
            · have hcall := hfr.symm.trans hc
              cases call with
              | join tp' rp' => cases hj
              | _ => simp [Call.frames] at hcall
            · have hlen := congrArg List.length (hfr.symm.trans hc)
              simp at hlen
              omega
            · rw [hfr] at hc
              cases hc
            · rw [hfr] at hc
              cases hc
        · simp only [Function.update_of_ne hu] at hg
          exact h.frames u g hg
  · rcases step_donors hi hl hok hs with ⟨-, hd⟩ | ⟨c, lags, t, f, rfl, htop, hr, hd⟩
    · rw [hd]
      exact h.lent
    · refine hd.lent (setLags_inv hi.kernel lags) hr h.own h.lent ?_
      have hw : ∀ u, ((s.k.setLags lags).thread u).state ≠ .waitExit := h.not_waitExit hi
      cases f with
      | cancel tp => exact if_neg fun hc => hw tp hc.2
      | exit rv =>
          have hjoin : ∀ u, (s.k.setLags lags).joiner t ≠ some (.thread u) := fun u hu => by
            rw [joiner] at hu
            split at hu
            · exact hw u ((setLags_inv hi.kernel lags).holds_of_mem (List.mem_of_find?_eq_some hu))
            · cases hu
          rw [Frame.frees]
          split
          · rename_i u hu
            exact absurd hu (hjoin u)
          · rfl
      | _ => rfl

theorem lentInv_of_reach
    (h : Reach (step cfg) (fun s e => lifo s e = true ∧ noJoin e = true) (init cfg) s) :
    LentInv s := by
  refine Reach.invariant_of (P := LentInv) (I := fun s => MachineInv cfg s ∧ LockInv cfg s)
    (fun _ h => ⟨machineInv_of_reach h, lockInv_of_reach (h.mono fun _ _ hok => hok.1)⟩)
    ⟨fun t f hf => ?_, fun u => (init_prio cfg u).ge, fun u => .inl (init_prio cfg u).le⟩
    (fun s e s' hi _ hl hok hs => hl.step hi.1 hi.2 hok.1 hok.2 hs) h
  rw [List.mem_singleton.1 hf]
  rfl

theorem LentInv.lent_iff (h : LentInv s) (hi : MachineInv cfg s) (t : Tid) : s.k.Lent t := by
  refine (h.lent t).imp id ?_
  rintro ⟨u, hu, hle⟩
  rcases hi.kernel.waitsFor_eq_some.1 hu with ⟨m, ho, hm⟩ | ⟨hs, -⟩
  · exact ⟨m, u, ho, hm, hle⟩
  · exact absurd hs (h.not_waitExit hi u)

/-- **Without `chopstx_join`, priorities are strict and lent directly**: if mutexes are released
in reverse order, a thread has no more than its own priority, or than that of a thread which waits
for one of its mutexes, and no thread that is ready has more than the running one, unless PendSV
is pending or the running thread is in the middle of `chopstx_exit`. -/
theorem highest_runs_without_join (cfg : Config) (s : State)
    (h : Reach (step cfg) (fun s e => lifo s e = true ∧ noJoin e = true) (init cfg) s) :
    (∀ t, (s.k.thread t).prio ≤ (s.k.thread t).prioOrig ∨ ∃ m u, (s.k.mutex m).owner = some t ∧
      .thread u ∈ s.k.queue (.mtx m) ∧ (s.k.thread t).prio ≤ (s.k.thread u).prio) ∧
    (s.k.pendsv = false → ¬ s.Exiting → ∀ u, (s.k.thread u).state = .ready →
      ∃ t, s.k.running = some t ∧ (s.k.thread u).prio ≤ (s.k.thread t).prio) := by
  have hi := machineInv_of_reach h
  refine ⟨fun t => (lentInv_of_reach h).lent_iff hi t, fun hp hx u hu => ?_⟩
  have hh : Highest s := by
    refine Reach.invariant_of (P := Highest)
      (I := fun s => MachineInv cfg s ∧ LockInv cfg s ∧ s.k.Sorted ∧ LentInv s)
      (fun _ h => ⟨machineInv_of_reach h, lockInv_of_reach (h.mono fun _ _ hok => hok.1),
        sorted_of_reach h, lentInv_of_reach h⟩) (.inr (.inl init_top))
      (fun s e s' hi _ hh hok hs => hh.step hi.1 hi.2.1 hi.2.2.1 ?_ hs) h
    cases e with
    | run c lags => exact fun t m _ => hi.2.2.2.lent_iff hi.1 t
    | _ => trivial
  rcases hh with h | h | h
  · rw [hp] at h
    cases h
  · exact outranks_eq_false.1 (h u hu)
  · exact absurd h hx

/-- A thread with a greater priority waits for the mutex that `main` has locked. -/
def mainLocked : List Event :=
  .run (.call (.mutexLock 0)) [] :: runs 1 ++ .run (.call (.create 5)) [] :: runs 1 ++
    .run (.call (.mutexLock 0)) [] :: runs 1

/-- `main` has the priority of the thread that waits. -/
theorem main_lent : ∃ s : State, (s.k.thread 0).prioOrig < (s.k.thread 0).prio ∧
    (∀ t, (s.k.thread t).prio ≤ (s.k.thread t).prioOrig ∨ ∃ m u, (s.k.mutex m).owner = some t ∧
      .thread u ∈ s.k.queue (.mtx m) ∧ (s.k.thread t).prio ≤ (s.k.thread u).prio) ∧
    (s.k.pendsv = false → ¬ s.Exiting → ∀ u, (s.k.thread u).state = .ready →
      ∃ t, s.k.running = some t ∧ (s.k.thread u).prio ≤ (s.k.thread t).prio) := by
  have htest : runTest (step plainConfig) (fun s e => lifo s e && noJoin e)
      (fun s => decide ((s.k.thread 0).prioOrig < (s.k.thread 0).prio)) (init plainConfig)
      mainLocked = true := by
    decide +kernel
  obtain ⟨s, hr, hp⟩ := reach_of_runTest htest
  refine ⟨s, of_decide_eq_true hp, highest_runs_without_join plainConfig s
    (hr.mono fun s e hok => ?_)⟩
  rwa [Bool.and_eq_true] at hok

end Chopstx
