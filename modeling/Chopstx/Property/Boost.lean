import Chopstx.Property.Mutex
import Chopstx.Run.Donors

/-!
# Priorities that are lent and taken back

A thread that blocks on a mutex or in `chopstx_join` lends its priority to the thread that
it waits for, and so on along the chain.  `chx_mutex_unlock` computes the priority of the
running thread anew, from the mutexes that it still owns.  Nothing takes a priority back
when a thread leaves `chopstx_join`: by a cancellation, or because its target exits.  So no
priority outlives its cause as long as each thread that leaves `chopstx_join` can be spared,
because whoever it has lent its priority to has the priority for another reason as well.

* `BlockedOn`, `BoostsCaused` - who is blocked on whom, and what it means that every priority has a
  cause.
* `KernelInv.boostsCaused_iff` - the same with the donors of `Chopstx.Library.Donation`.
* `Spares`, `spares` - whoever is blocked on the thread can be spared; so can the one that the step
  takes out of `chopstx_join`.
* `DonorsTo.caused_iff`, `step_donors` - the step lemma: which steps leave every priority with a
  cause.
* `boosts_caused_iff` - the result about runs.  It is exact: the first step at which a thread cannot
  be spared leaves a priority without a cause.
* `boost_without_cause` - `main` cancels the thread that has joined it.
-/

namespace Chopstx

open Kernel Transition Donation Relation

variable {cfg : Config} {s s' : State} {e : Event} {k k' : Kernel} {t u j : Tid} {m : Mid}
  {f : Frame} {D : Donors Tid Nat}

/-! ## Who is blocked on whom -/

namespace Kernel

/-- The thread `u` is queued on a mutex that `t` owns, or waits in `chopstx_join` for the exit
of `t`. -/
def BlockedOn (k : Kernel) (u t : Tid) : Prop :=
  (∃ m, (k.mutex m).owner = some t ∧ .thread u ∈ k.queue (.mtx m)) ∨
    (k.thread u).state = .waitExit ∧ (k.thread u).v = t

/-- Every priority has a cause: it is the thread's own one, or a thread that is blocked on this
thread, directly or through others, has as much. -/
def BoostsCaused (k : Kernel) : Prop :=
  ∀ t, (k.thread t).prio ≤ (k.thread t).prioOrig ∨
    ∃ u, TransGen k.BlockedOn u t ∧ (k.thread t).prio ≤ (k.thread u).prio

/-- Every thread that `j` is blocked on, directly or through others, has its priority for
another reason too: it is its own one, or that of a thread which is not blocked on it through
`j`. -/
def Spares (k : Kernel) (j : Tid) : Prop :=
  ∀ t, TransGen k.BlockedOn j t → (k.thread t).prio ≤ (k.thread t).prioOrig ∨
    ∃ u, TransGen (fun a b => a ≠ j ∧ k.BlockedOn a b) u t ∧ (k.thread t).prio ≤ (k.thread u).prio

end Kernel

theorem KernelInv.blocked_eq (h : KernelInv none k) : k.donors.Blocked = k.BlockedOn := by
  funext u t
  exact propext h.waitsFor_eq_some

theorem KernelInv.boostsCaused_iff (h : KernelInv none k) :
    k.BoostsCaused ↔ ∀ t, k.donors.Caused t := by
  simp only [BoostsCaused, Donors.Caused, h.blocked_eq]
  rfl

theorem KernelInv.spares_iff (h : KernelInv none k) : k.Spares j ↔ k.donors.Spares j := by
  simp only [Kernel.Spares, Donors.Spares, h.blocked_eq]
  rfl

/-! ## A step of a thread -/

theorem Frame.frees_of_releases (h : f.releases = some m) : f.frees k t = none := by
  cases f <;> first | rfl | cases h

/-- No thread falls below its own priority. -/
theorem DonorsTo.own (hd : DonorsTo k t f D) (h : ∀ u, k.donors.orig u ≤ k.donors.prio u) :
    ∀ u, D.orig u ≤ D.prio u := by
  have hassign : ∀ (E : Donors Tid Nat) (x : Tid) (p po : Nat), (∀ u, E.orig u ≤ E.prio u) →
      po ≤ p → ∀ u, (E.assign x p po).orig u ≤ (E.assign x p po).prio u := by
    intro E x p po hE hp u
    by_cases hu : u = x
    · subst hu
      simpa using hp
    · simpa [hu] using hE u
  cases hd with
  | keep | acquire | release | free => exact h
  | create => exact hassign _ _ _ _ h le_rfl
  | block ho hl => exact hl.own h
  | join hl => exact hl.own h
  | handOver hf ho hq hp => exact hassign _ _ _ _ h hp.orig
  | setpriority =>
      refine hassign _ _ _ _ h ?_
      split
      · exact le_rfl
      · split <;> omega

/-- **Which steps leave every priority with a cause.** -/
theorem DonorsTo.caused_iff (hd : DonorsTo k t f D) (hk : KernelInv none k) (hr : Runs k t)
    (ho : ∀ u, k.donors.orig u ≤ k.donors.prio u) (hc : ∀ u, k.donors.Caused u) :
    (∀ u, D.Caused u) ↔ ∀ j, f.frees k t = some j → k.donors.Spares j := by
  have hwaits : k.donors.waits t = none := hr.waitsFor
  -- all but the wake-up of a thread in `chopstx_join` leave every priority with a cause
  have hkeep : f.frees k t = none → (∀ u, D.Caused u) →
      ((∀ u, D.Caused u) ↔ ∀ j, f.frees k t = some j → k.donors.Spares j) := by
    intro hf hD
    refine ⟨fun _ j hj => ?_, fun _ => hD⟩
    rw [hf] at hj
    cases hj
  have hassign : ∀ (x : Tid) (p po : Nat), k.donors.waits x = none →
      (k.donors.assign x p po).Caused x → ∀ u, (k.donors.assign x p po).Caused u := by
    intro x p po hx hself u
    by_cases hu : u = x
    · exact hu ▸ hself
    · exact (hc u).assign hx hu
  cases hd with
  | keep _ _ _ hf => exact hkeep hf hc
  | create =>
      refine hkeep rfl (hassign _ _ _ (waitsFor_eq_none (not_waits_of
        (hk.unborn _ le_rfl).1 (by simp))) (.inl (by simp)))
  | @acquire m b hown =>
      refine hkeep rfl fun u => (hc u).redirect fun x hx => ?_
      -- the mutex was free, so its waiters waited for nobody
      obtain ⟨hs, hp⟩ := hk.queuedOn_iff.1 hx
      change k.waitsFor x = none
      rw [waitsFor, hs, hp]
      exact hown
  | @block m b u D hown hl =>
      refine hkeep rfl ?_
      have hlink : ∀ x, (k.donors.link t u).Caused x := fun x => (hc x).redirect fun y hy => by
        rwa [of_decide_eq_true hy]
      have hl' : Donors.Lift (k.thread t).prio (k.donors.link t u) (some u) (D.link t u) :=
        hl.redirect fun y hy => by rw [of_decide_eq_true hy]; exact le_rfl
      refine hl'.caused hlink (u := t) le_rfl fun x hx => .single ?_
      cases hx
      simp [Donors.Blocked, Donors.link]
  | @join tp rp D hl =>
      refine hkeep rfl ?_
      have hlink : ∀ x, (k.donors.link t tp).Caused x := fun x => (hc x).redirect fun y hy => by
        rwa [of_decide_eq_true hy]
      refine hl.caused hlink (u := t) le_rfl fun x hx => .single ?_
      cases hx
      simp [Donors.Blocked, Donors.link]
  | release hf hq => exact hkeep (Frame.frees_of_releases hf) hc
  | @handOver f m p hf hown hq hp =>
      refine hkeep (Frame.frees_of_releases hf) fun u => ?_
      have hqueued : ∀ x, k.queuedOn m x = true → k.donors.waits x = some t := fun x hx =>
        hk.waitsFor_eq_some.2 (.inl ⟨m, hown, of_decide_eq_true hx⟩)
      have hfree : (k.donors.redirect (k.queuedOn m) none).waits t = none := by
        rw [Donors.redirect_waits, hwaits, ite_self]
      by_cases hu : u = t
      · subst hu
        rcases hp.cause with hp | ⟨n, x, hn, hown', hx, hp⟩
        · exact .inl (by simp [hp])
        · -- the first waiter of another mutex is still blocked on the thread
          have hxu : k.donors.waits x = some u := hk.waitsFor_eq_some.2 (.inl ⟨n, hown', hx⟩)
          have hxm : k.queuedOn m x = false := by
            refine decide_eq_false fun hxm => hn ?_
            have := (hk.isIn_of_mem hx).1.symm.trans (hk.isIn_of_mem hxm).1
            exact Qh.mtx.inj (Option.some.inj this)
          have hne : x ≠ u := by
            rintro rfl
            rw [hwaits] at hxu
            cases hxu
          refine .inr ⟨x, .single ?_, ?_⟩
          · change (if k.queuedOn m x = true then none else k.donors.waits x) = some u
            rw [hxm]
            exact hxu
          · simp [hne, hp, donors]
      · exact ((hc u).release hqueued hwaits hu).assign hfree hu
  | @setpriority prio =>
      refine hkeep rfl (hassign _ _ _ hwaits ?_)
      have hself := ho t
      change (k.thread t).prioOrig ≤ (k.thread t).prio at hself
      by_cases heq : (k.thread t).prio = (k.thread t).prioOrig
      · exact .inl (by simp [heq])
      · rw [if_neg heq]
        split
        · exact .inl (by simp)
        · -- the priority was inherited, and stays
          rcases hc t with h | ⟨u, hu, hle⟩
          · exact absurd (le_antisymm h hself) heq
          · have hne : u ≠ t := by
              rintro rfl
              exact Donors.not_transGen hwaits hu
            refine .inr ⟨u, hu, ?_⟩
            rw [Donors.assign_prio, Function.update_self, Donors.assign_prio,
              Function.update_of_ne hne]
            exact hle
  | @free f j hf =>
      rw [Donors.caused_free_iff hc]
      refine ⟨fun hs i hi => ?_, fun hs => hs j hf⟩
      rw [hf] at hi
      cases hi
      exact hs

/-! ## Steps of the machine -/

/-- A thread that the step takes out of `chopstx_join` can be spared. -/
def spares (s : State) : Event → Prop
  | .run _ _ => ∀ t f j, s.top = some (t, f) → f.frees s.k t = some j → s.k.Spares j
  | _ => True

/-- A step changes nothing for the donors, or it is one of the running thread. -/
theorem step_donors (hi : MachineInv cfg s) (hl : LockInv cfg s) (hok : lifo s e = true)
    (hs : step cfg s e = .ok s') :
    ((∀ c lags, e ≠ .run c lags) ∧ s'.k.donors = s.k.donors) ∨
      ∃ c lags t f, e = .run c lags ∧ s.top = some (t, f) ∧ Runs (s.k.setLags lags) t ∧
        DonorsTo (s.k.setLags lags) t f s'.k.donors := by
  have hpath := hi.path hs
  cases step_stepTo hs with
  | tick => exact .inl ⟨(by simp), rfl⟩
  | systick hp hm =>
      refine .inl ⟨(by simp), hpath.donors hi.kernel fun op hop => ?_⟩
      rcases hop with rfl | rfl <;> trivial
  | irq hirq hm hk =>
      have hd := chxHandleIntr_donors cfg (setLags_inv hi.kernel _) hk
      exact .inl ⟨(by simp), hd⟩
  | pendsv hp hm hk =>
      refine .inl ⟨(by simp), hpath.donors hi.kernel fun op hop => ?_⟩
      rcases hop with rfl | hop
      · trivial
      · cases hop <;> trivial
  | run hb hr hf hnext hstep =>
      rename_i c lags t f rest k' ctx
      have hsec := hi.section hb hr hf hnext
      have htop := hl.top t
      rw [hf] at htop
      exact .inr ⟨c, lags, t, f, rfl, State.top_eq hr hf, hsec.runs,
        hnext.donors hsec.kernel hsec.runs hsec.fits hl.agree fun m hm => htop.releases hm⟩

/-- The priorities of a run in which every thread that leaves `chopstx_join` can be spared. -/
structure BoostInv (s : State) : Prop where
  own : ∀ u, s.k.donors.orig u ≤ s.k.donors.prio u
  caused : ∀ u, s.k.donors.Caused u

theorem step_own (hi : MachineInv cfg s) (hl : LockInv cfg s) (hok : lifo s e = true)
    (hs : step cfg s e = .ok s') (h : ∀ u, s.k.donors.orig u ≤ s.k.donors.prio u) :
    ∀ u, s'.k.donors.orig u ≤ s'.k.donors.prio u := by
  rcases step_donors hi hl hok hs with ⟨-, hd⟩ | ⟨c, lags, t, f, -, -, -, hd⟩
  · rwa [hd]
  · exact hd.own h

theorem BoostInv.step_iff (h : BoostInv s) (hi : MachineInv cfg s) (hl : LockInv cfg s)
    (hok : lifo s e = true) (hs : step cfg s e = .ok s') :
    (∀ u, s'.k.donors.Caused u) ↔ spares s e := by
  rcases step_donors hi hl hok hs with ⟨he, hd⟩ | ⟨c, lags, t, f, rfl, htop, hr, hd⟩
  · rw [hd]
    refine ⟨fun _ => ?_, fun _ => h.caused⟩
    cases e with
    | run c lags => exact absurd rfl (he c lags)
    | _ => trivial
  · have hk := setLags_inv hi.kernel lags
    refine (hd.caused_iff hk hr h.own h.caused).trans
      ⟨fun hs t' f' j htop' hj => ?_, fun hs j hj => ?_⟩
    · rw [htop] at htop'
      cases htop'
      exact hi.kernel.spares_iff.2 (hs j hj)
    · exact hi.kernel.spares_iff.1 (hs t f j htop hj)

/-- Every thread starts with its own priority. -/
theorem init_prio (cfg : Config) (u : Tid) :
    (init cfg).k.donors.prio u = (init cfg).k.donors.orig u := by
  obtain ⟨v, q, hth⟩ := initKernel_thread cfg u
  change ((initKernel cfg).thread u).prio = ((initKernel cfg).thread u).prioOrig
  rw [hth]
  change ((mainKernel cfg).thread u).prio = ((mainKernel cfg).thread u).prioOrig
  by_cases hu : u = 0
  · rw [hu]
    rfl
  · rw [mainKernel_thread_of_ne hu]

theorem boostInv_of_reach
    (h : Reach (step cfg) (fun s e => lifo s e = true ∧ spares s e) (init cfg) s) :
    BoostInv s := by
  refine Reach.invariant_of (P := BoostInv)
    (fun s hr => And.intro (machineInv_of_reach hr)
      (lockInv_of_reach (hr.mono fun _ _ hok => hok.1)))
    ⟨fun u => ?_, fun u => .inl ?_⟩ (fun s e s' hs _ hb hok hstep => ?_) h
  · exact (init_prio cfg u).ge
  · exact (init_prio cfg u).le
  · exact ⟨step_own hs.1 hs.2 hok.1 hstep hb.own, (hb.step_iff hs.1 hs.2 hok.1 hstep).2 hok.2⟩

/-- **No priority outlives its cause** in a run in which every thread that leaves `chopstx_join`
can be spared, and the first step in which one cannot leaves a priority without a cause. -/
theorem boosts_caused_iff (cfg : Config) (s : State)
    (h : Reach (step cfg) (fun s e => lifo s e = true ∧ spares s e) (init cfg) s) :
    s.k.BoostsCaused ∧ ∀ e s', lifo s e = true → step cfg s e = .ok s' →
      (s'.k.BoostsCaused ↔ spares s e) := by
  have hi := machineInv_of_reach h.any
  have hl := lockInv_of_reach (h.mono fun _ _ hok => hok.1)
  have hb := boostInv_of_reach h
  refine ⟨hi.kernel.boostsCaused_iff.2 hb.caused, fun e s' hok hs => ?_⟩
  rw [(hi.keeps hs).kernel.boostsCaused_iff]
  exact hb.step_iff hi hl hok hs

/-! ## A thread that nobody can spare -/

/-- `main` creates a thread with a greater priority, which joins `main`. -/
def mainJoined : List Event :=
  .run (.call (.create 5)) [] :: runs 1 ++ .run (.call (.join 0 none)) [] :: runs 2

/-- No thread that has been created waits for `t`. -/
def Kernel.unblocks (k : Kernel) (t : Tid) : Bool :=
  (List.range k.nthread).all fun u => decide (k.waitsFor u ≠ some t)

theorem KernelInv.not_transGen_of_unblocks (h : KernelInv none k) (ht : k.unblocks t = true) :
    ¬ TransGen k.BlockedOn u t := by
  intro hu
  obtain ⟨x, -, hx⟩ := TransGen.tail'_iff.1 hu
  rw [← h.blocked_eq] at hx
  have hlt : x < k.nthread := by
    refine h.lt_of_state fun hs => ?_
    have : k.waitsFor x = none := waitsFor_eq_none (not_waits_of hs (by simp))
    rw [Donors.Blocked, show k.donors.waits x = none from this] at hx
    cases hx
  have := List.all_eq_true.1 ht x (List.mem_range.2 hlt)
  exact of_decide_eq_true this hx

/-- **`main` cancels the thread that has joined it**, and keeps the priority of that thread. -/
theorem boost_without_cause : ∃ s : State,
    Reach (step plainConfig) (fun s e => lifo s e = true) (init plainConfig) s ∧
      ¬ s.k.BoostsCaused := by
  have htest : runTest (step plainConfig) lifo
      (fun s => decide ((s.k.thread 0).prioOrig < (s.k.thread 0).prio) && s.k.unblocks 0)
      (init plainConfig) (mainJoined ++ .run (.call (.cancel 1)) [] :: runs 1) = true := by
    decide +kernel
  obtain ⟨s, hr, hp⟩ := reach_of_runTest htest
  rw [Bool.and_eq_true, decide_eq_true_eq] at hp
  refine ⟨s, hr, fun hb => ?_⟩
  rcases hb 0 with hle | ⟨u, hu, -⟩
  · exact absurd hp.1 (not_lt.2 hle)
  · exact (machineInv_of_reach hr).kernel.not_transGen_of_unblocks hp.2 hu

/-- The code of the thread is at no cancellation and at no exit. -/
def neitherCancelsNorExits (s : State) : Bool :=
  match s.top with
  | some (_, .cancel _) | some (_, .exit _) => false
  | _ => true

/-- While the thread waits, the priority of `main` has its cause. -/
theorem boosts_caused_joined : ∃ s : State, (s.k.thread 0).prioOrig < (s.k.thread 0).prio ∧
    s.k.BoostsCaused ∧ ∀ e s', lifo s e = true → step plainConfig s e = .ok s' →
      (s'.k.BoostsCaused ↔ spares s e) := by
  have htest : runTest (step plainConfig)
      (fun s e => lifo s e && neitherCancelsNorExits s)
      (fun s => decide ((s.k.thread 0).prioOrig < (s.k.thread 0).prio))
      (init plainConfig) mainJoined = true := by
    decide +kernel
  obtain ⟨s, hr, hp⟩ := reach_of_runTest htest
  refine ⟨s, of_decide_eq_true hp, boosts_caused_iff plainConfig s (hr.mono fun s e hok => ?_)⟩
  rw [Bool.and_eq_true] at hok
  refine ⟨hok.1, ?_⟩
  cases e with
  | run c lags =>
      intro t f j htop hj
      rw [neitherCancelsNorExits, htop] at hok
      cases f with
      | cancel | exit => cases hok.2
      | _ => cases hj
  | _ => trivial

end Chopstx
