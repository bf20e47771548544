import Chopstx.Property.Queues

/-!
# Requests for cancellation

`chopstx_cancel` sets a flag of its target, and wakes the target if it sleeps at a
cancellation point.  The target tests the flag before it goes to sleep there, but outside of
the critical section in which it goes to sleep.  If the target is preempted in between, the
request is not noticed before the next test, and the target sleeps.

* `pastTest` - the thread goes to sleep at a cancellation point without another test, and
  `noLateCancel` that nobody asks such a thread to end.
* `Next.past`, `Next.sleeps` - how a thread gets past its last test, and that it sleeps only there.
* `Next.sameFlags` - the steps that leave the flags for cancellation alone.
* `Prompt`, `Prompt.step` - the invariant: a request does not wait for a thread that sleeps at a
  cancellation point.
* `cancel_not_lost` - the result about runs.
* `cancel_lost` - a run in which the request comes between the test and the critical section.
-/

namespace Chopstx

open Kernel Transition

variable {cfg : Config} {s s' : State} {e : Event} {k k' : Kernel} {t u tp : Tid} {P : Poll}
  {pt : PollPt} {f g : Frame} {rest fs : List Frame} {ret : Int} {ctx : Ctx}
  {off off' : Option Tid} {op : Op} {Q : Op → Prop} {w : Flag}

/-- The thread was asked to end, and may be ended. -/
def Thread.Canceled (th : Thread) : Prop :=
  th.flagGotCancel = true ∧ th.flagCancelable = true

/-- The thread sleeps at a cancellation point. -/
def ThreadState.AtPoint : ThreadState → Prop
  | .waitCnd | .waitTime | .waitExit | .waitPoll => True
  | _ => False

/-! ## Past the last test -/

/-- The call goes to sleep without another test from this point on, unless an event comes. -/
def PollPt.past (P : Poll) : PollPt → Bool
  | .init _ => P.usec.isNone && decide (P.pds.length ≤ 0)
  | .hook i => P.usec.isNone && decide (P.pds.length ≤ i)
  | .condHook i | .condCheck i | .condLoad i | .condStore i _ | .condReady i | .condClear i
  | .condEnqueue i | .condEnd i | .intrHook i | .joinHook i =>
      P.usec.isNone && decide (P.pds.length ≤ i + 1)
  | .main => P.usec.isNone
  | .snooze => decide (P.usec.getD 0 ≠ 0)
  | .wake | .loop | .snoozeWake _ | .cleanup _ _ => false

/-- The thread goes to sleep at a cancellation point without another test. -/
def pastTest : List Frame → Bool
  | .usecSnooze usec :: _ => decide (usec ≠ 0)
  | .condWait _ _ :: _ | .join _ _ :: _ => true
  | .pollCall usec pds :: _ => usec.isNone && decide (pds.length ≤ 0)
  | .poll P pt :: _ | .mutexLock _ _ :: .poll P pt :: _
  | .schedRet :: .mutexLock _ _ :: .poll P pt :: _ | .mutexUnlock _ :: .poll P pt :: _ => pt.past P
  | _ => false

/-- No thread is asked to end when it has tested the flag already and is going to sleep. -/
def noLateCancel (s : State) : Event → Bool
  | .run _ _ =>
      match s.top with
      | some (_, .cancel tp) => !((s.k.thread tp).flagCancelable && pastTest (s.ctx tp).frames)
      | _ => true
  | _ => true

/-- A request does not wait for a thread that sleeps at a cancellation point, or is going to. -/
def Prompt (s : State) : Prop :=
  ∀ t, (s.k.thread t).Canceled →
    ¬ (s.k.thread t).state.AtPoint ∧ pastTest (s.ctx t).frames = false

/-! ## The flags -/

/-- The flags for cancellation are as before. -/
def SameFlags (k k' : Kernel) (u : Tid) : Prop :=
  (k'.thread u).flagGotCancel = (k.thread u).flagGotCancel ∧
    (k'.thread u).flagCancelable = (k.thread u).flagCancelable

theorem SameFlags.canceled (h : SameFlags k k' u) (hc : (k'.thread u).Canceled) :
    (k.thread u).Canceled := by
  rw [Thread.Canceled, h.1, h.2] at hc
  exact hc

/-- A value that depends on the flags for cancellation and the clean-up list only. -/
def Thread.Words {α : Type*} (g : Thread → α) : Prop :=
  ∀ th th' : Thread, th.flagGotCancel = th'.flagGotCancel →
    th.flagCancelable = th'.flagCancelable → th.clp = th'.clp → g th = g th'

/-- Only flags change such a value.  A new thread has the one of an empty record. -/
theorem Move.keepsWords {α : Type*} {g : Thread → α} (hg : Thread.Words g)
    (hm : Move cfg op (off, k) (off', k')) (h : KernelInv off k)
    (hu : u < k.nthread ∨ g (k.thread u) = g {})
    (hop : ∀ w, op = .flags u w → g (w.set (k.thread u)) = g (k.thread u)) :
    g (k'.thread u) = g (k.thread u) := by
  by_cases ho : op.KeepsRecords
  · rw [hm.record h ho u]
    exact hg _ _ rfl rfl rfl
  · have hupdate : ∀ {K : Kernel} {t : Tid} {th : Thread},
        K.thread = Function.update k.thread t th → (u = t → g th = g (k.thread t)) →
        g (K.thread u) = g (k.thread u) := by
      intro K t th hK hth
      rw [hK]
      by_cases hut : u = t
      · subst hut
        rw [Function.update_self]
        exact hth rfl
      · rw [Function.update_of_ne hut]
    cases hm with
    | flags w =>
        refine hupdate rfl ?_
        rintro rfl
        exact hop w rfl
    | prio => exact hupdate rfl fun _ => hg _ _ rfl rfl rfl
    | raise =>
        rename_i t q p hs hp hlt hst
        by_cases hut : u = t
        · subst hut
          refine hg _ _ ?_ ?_ ?_ <;> simp [llPrioEnqueue_thread, setPrio_thread]
        · refine hg _ _ ?_ ?_ ?_ <;> simp [llPrioEnqueue_thread, setPrio_thread, hut]
    | acquire => exact hupdate acquire_thread fun _ => hg _ _ rfl rfl rfl
    | drop => exact hupdate dropMutex_thread fun _ => hg _ _ rfl rfl rfl
    | create fp =>
        rw [chxReadyEnqueue_thread]
        by_cases hut : u = k.nthread
        · subst hut
          rw [hu.resolve_left (lt_irrefl _)]
          exact hg _ _ (by simp [newThread]) (by simp [newThread]) (by simp [newThread])
        · exact hg _ _ (by simp [hut]) (by simp [hut]) (by simp [hut])
    | _ => exact absurd trivial ho

theorem Move.sameFlags (hm : Move cfg op (off, k) (off', k')) (h : KernelInv off k)
    (hu : u < k.nthread) (hop : ∀ w, op = .flags u w → w = .join) : SameFlags k k' u := by
  have hwords : Thread.Words fun th => (th.flagGotCancel, th.flagCancelable) :=
    fun _ _ hg hc _ => Prod.ext hg hc
  refine Prod.mk.inj (hm.keepsWords hwords h (.inl hu) fun w hw => ?_)
  rw [hop w hw]
  rfl

theorem Path.sameFlags (hp : Path cfg Q (off, k) (off', k')) (h : KernelInv off k)
    (hu : u < k.nthread) (hQ : ∀ w, Q (.flags u w) → w = .join) : SameFlags k k' u := by
  have key := hp.keeps (I := fun a => KernelInv a.1 a.2 ∧ u < a.2.nthread ∧ SameFlags k a.2 u) ?_
    ⟨h, hu, rfl, rfl⟩
  · exact key.2.2
  · rintro op ⟨off, k₁⟩ ⟨off', k₂⟩ hop hm ⟨hk, hlt, hs⟩
    have hs' := hm.sameFlags hk hlt fun w hw => hQ w (hw ▸ hop)
    exact ⟨hk.move hm, hlt.trans_le (hm.nthread_le hk), hs'.1.trans hs.1, hs'.2.trans hs.2⟩

/-- The frames that set a flag for cancellation, or write the word it is in. -/
def Frame.SetsFlags : Frame → Prop
  | .cleanupPush _ | .cleanupPop _ | .setcancelstate _ | .exitStart _ | .cancel _ => True
  | _ => False

theorem Frame.May.flags_join (h : f.May cfg t (.flags u w)) (hf : ¬ f.SetsFlags) : w = .join := by
  cases f with
  | cleanupPush | cleanupPop | setcancelstate | exitStart | cancel => exact absurd trivial hf
  | poll P pt => cases pt <;> simp only [Frame.May, PollPt.May] at h <;> grind
  | _ =>
      simp only [Frame.May] at h
      grind

/-- Two operations change the flags for cancellation. -/
theorem Next.sameFlags (hn : Next cfg k t rest ret f k' ctx) (h : KernelInv none k)
    (hr : Runs k t) (hf : f.Fits k) (hu : u < k.nthread) (hc : f ≠ .cancel u)
    (hs : u = t → ∀ b, f ≠ .setcancelstate b) : SameFlags k k' u := by
  have hp := (hn.path h hr hf).1
  have hupdate : ∀ {g : Thread → Thread},
      (u = t → (g (k.thread t)).flagGotCancel = (k.thread t).flagGotCancel ∧
        (g (k.thread t)).flagCancelable = (k.thread t).flagCancelable) →
      SameFlags k (k.modThread t g) u := by
    intro g hg
    by_cases hut : u = t
    · subst hut
      simpa [SameFlags] using hg rfl
    · simp [SameFlags, hut]
  cases hn with
  | cleanupPush | cleanupPop | cleanupExecute | exitStart => exact hupdate fun _ => ⟨rfl, rfl⟩
  | cleanupNone => exact ⟨rfl, rfl⟩
  | setcancelstate => exact hupdate fun hut => absurd rfl (hs hut _)
  | cancel =>
      refine hp.sameFlags h hu fun w hw => ?_
      cases hw with
      | flags => exact absurd rfl hc
      | ends hw => cases hw
  | _ => exact hp.sameFlags h hu fun w hw => hw.flags_join id

/-! ## Steps of a thread -/

/-- Nothing lies above the frame of a thread that sleeps. -/
theorem Above.ne_schedRet (h : Above cfg f g) : g ≠ .schedRet := by
  rintro rfl
  cases h with
  | testcancel h => cases h
  | schedRet h => cases h

/-- What a frame that returns leaves on top is past the last test only if the frame was. -/
theorem pastTest_pop {n : Nat} (h : Shape cfg n (f :: rest)) (hf : f ≠ .testcancel)
    (hff : f ≠ .fatal) (hp : pastTest rest = true) : pastTest (f :: rest) = true := by
  cases rest with
  | nil => cases hp
  | cons g rest =>
      cases h.below with
      | testcancel => exact absurd rfl hf
      | schedRet hs =>
          cases hs with
          | mutex =>
              cases rest with
              | nil => cases hp
              | cons e rest => cases e <;> exact hp
          | _ => cases hp
      | hookLock | hookUnlock => exact hp
      | joinFatal | hookFatal => exact absurd rfl hff
      | _ => cases hp

theorem chxSnooze_ne_zero {st : ThreadState} {usec usec0 : Nat}
    (hz : k.chxSnooze cfg t st usec = .ok (k', some usec0)) : usec ≠ 0 := by
  rintro rfl
  rw [chxSnooze, if_pos rfl] at hz
  cases hz

theorem PollNext.past (hn : PollNext cfg k t P rest ret pt k' ctx)
    (hsh : Shape cfg k.nthread (.poll P pt :: rest)) (hp : pastTest ctx.frames = true) :
    pt.past P = true := by
  have hlen : ∀ {i : Nat} {c : Cid} {m : Option Mid}, P.pd cfg i = some (.cond c m) →
      i < P.pds.length := by
    intro i c m hd
    obtain ⟨d, hd, -⟩ := Option.map_eq_some_iff.1 hd
    exact (List.getElem?_eq_some_iff.1 hd).1
  cases hn with
  | hookEnd hd =>
      have hle := List.getElem?_eq_none_iff.1 hd
      have hu : P.usec.isNone = true := hp
      simp [PollPt.past, hu, hle]
  | done => exact pastTest_pop hsh (by simp) (by simp) hp
  | hook | joinFatal | mainReady | mainSleep | mainLoop | wake | loop | snoozeReady | snoozeEnd
  | snoozeSleep | snoozeAgain | snoozeDone | cleanup | exit => cases hp
  | _ => exact hp

/-- **A step goes past the last test** only if the thread was past it, or tests the flag. -/
theorem Next.past (hn : Next cfg k t rest ret f k' ctx) (hsh : Shape cfg k.nthread (f :: rest))
    (hp : pastTest ctx.frames = true) :
    pastTest (f :: rest) = true ∨ f = .testcancel ∧ ¬ (k.thread t).Canceled := by
  cases hn with
  | testcancel hc => exact .inr ⟨rfl, fun h => hc h.symm⟩
  | call hv hc =>
      rename_i c
      cases c <;> cases hp
  | blocked =>
      left
      cases rest with
      | nil => cases hp
      | cons e rest => cases e <;> exact hp
  | pollCall => exact .inl hp
  | poll hn =>
      exact .inl (hn.past hsh hp)
  | endless | entryRet | canceled | usecWait | usecSleep | usecAgain | condWait | condRelock
  | condNoLock | condCancel | cleanupExecute | setcancelstate | joinFatal | joinSleep | joinDone
  | joinWake | joinCancel | exitStart | exitMutexes | exitRoutine | exitMutex | exitEnd
  | exitUnlock | exit => cases hp
  | _ => exact .inl (pastTest_pop hsh (by simp) (by simp) hp)

/-- **A thread goes to sleep at a cancellation point** only past the last test. -/
theorem Next.sleeps {fs : List Frame} (hn : Next cfg k t rest ret f k' ctx)
    (hsh : Shape cfg k.nthread (f :: rest)) (hs : ctx.frames = .schedRet :: g :: fs)
    (hg : ∀ m b, g ≠ .mutexLock m b) : pastTest (f :: rest) = true := by
  have hpop : rest = .schedRet :: g :: fs → pastTest (f :: rest) = true := by
    rintro rfl
    exact absurd rfl hsh.below.ne_schedRet
  cases hn with
  | call hv hc =>
      rename_i c
      cases c <;> cases hs
  | usecSleep hz => exact decide_eq_true (chxSnooze_ne_zero hz)
  | condWait | joinSleep => rfl
  | blocked =>
      cases hs
      exact absurd rfl (hg _ _)
  | poll hn =>
      cases hn with
      | mainSleep hc hu => simp [pastTest, PollPt.past, hu]
      | snoozeSleep hc hz => exact decide_eq_true (chxSnooze_ne_zero hz)
      | done => exact hpop hs
      | _ => cases hs
  | endless | entryRet | canceled | usecWait | usecAgain | condRelock
  | condNoLock | condCancel | cleanupExecute | setcancelstate | joinFatal | joinDone
  | joinWake | joinCancel | exitStart | exitMutexes | exitRoutine | exitMutex | exitEnd
  | exitUnlock | exit | pollCall => cases hs
  | _ => exact hpop hs

/-! ## The state of a thread -/

theorem ThreadState.AtPoint.not_active {s : ThreadState} (h : s.AtPoint) : ¬ s.Active := by
  rintro (rfl | rfl) <;> exact h

theorem ThreadState.AtPoint.not_ended {s : ThreadState} (h : s.AtPoint) : ¬ s.Ended := by
  rintro (rfl | rfl) <;> exact h

theorem Drift.atPoint (hd : Drift k k' u) (h : (k'.thread u).state.AtPoint) :
    (k.thread u).state.AtPoint := by
  cases hd with
  | same hn hs => rwa [hs] at h
  | active hs hs' => exact absurd hs' h.not_active
  | ended hs hs' => exact absurd hs' h.not_ended
  | woken hb hs' => exact absurd hs' h.not_active

/-- A thread that sleeps at a cancellation point is going to return from `chx_sched` there. -/
theorem TopOk.atPoint (h : TopOk k t ret fs) (hs : (k.thread t).state.AtPoint) :
    ∃ g rest, fs = .schedRet :: g :: rest ∧ ∀ m b, g ≠ .mutexLock m b := by
  unfold TopOk at h
  split at h
  · rename_i g rest
    refine ⟨g, rest, rfl, ?_⟩
    rcases h with ha | hw
    · rintro m b rfl
      rw [Asleep] at ha
      generalize (k.thread t).state = st, (k.thread t).parent = q at ha hs
      cases ha
      exact hs
    · exact absurd hw.1 hs.not_active
  · exact absurd h.1 hs.not_ended
  · exact absurd h.1 hs.not_active
  · exact absurd h.1 hs.not_active
  · exact absurd h hs.not_active

/-- A thread that sleeps at a cancellation point is taken out of its queue. -/
theorem cancelDequeue_atPoint (hs : (k.thread tp).state.AtPoint) :
    k.cancelDequeue tp ≠ .ok none := by
  intro hd
  rw [cancelDequeue] at hd
  split at hd
  · cases hd
  · cases hd
  · obtain ⟨r, -, hd⟩ := res_bind_eq_ok.1 hd
    cases hd
  · split at hd
    · obtain ⟨r, -, hd⟩ := res_bind_eq_ok.1 hd
      cases hd
    · cases hd
  · rename_i h₁ h₂ h₃ h₄
    generalize (k.thread tp).state = st at hs h₁ h₂ h₃ h₄
    cases st with
    | waitCnd => exact h₁ rfl
    | waitExit => exact h₂ rfl
    | waitTime => exact h₃ rfl
    | waitPoll => exact h₄ rfl
    | _ => exact hs

/-- `chopstx_cancel` wakes its target if it sleeps at a cancellation point. -/
theorem chopstxCancel_active (h : KernelInv none k) (hr : Runs k t)
    (hc : k.chopstxCancel cfg t tp = .ok k') (hcan : (k.thread tp).flagCancelable = true)
    (hs : (k.thread tp).state.AtPoint) : (k'.thread tp).state.Active := by
  rw [chopstxCancel] at hc
  set k₀ := k.chxCpuSchedLock.modThread tp fun th => { th with flagGotCancel := true } with hk₀
  have hm : Move cfg (.flags tp .cancel) (none, k.chxCpuSchedLock) (none, k₀) := .flags .cancel
  have h₀ : KernelInv none k₀ := (lock_inv h).move hm
  have hr₀ : Runs k₀ t := (hm.runs trivial (lock_inv h) hr.lock).1
  have hcan₀ : (k₀.thread tp).flagCancelable = true := by simpa [hk₀] using hcan
  have hs₀ : (k₀.thread tp).state.AtPoint := by simpa [hk₀] using hs
  simp only [hcan₀, if_true] at hc
  obtain ⟨o, hd, hc⟩ := res_bind_eq_ok.1 hc
  cases o with
  | none => exact absurd hd (cancelDequeue_atPoint hs₀)
  | some k₁ =>
      have hm₁ := cancelDequeue_move cfg h₀ hd
      have h₁ := h₀.move hm₁
      have hlt : tp < (k₁.resume tp .cancel minusOne).nthread := by
        by_contra hlt
        have hst := (h₁.unborn tp (not_lt.1 hlt)).1
        rw [resume_thread, Function.update_self] at hst
        cases hst
      have hp := (yieldOrUnlock_path cfg h₁ (hm₁.runs trivial h₀ hr₀).1 hc).1
      refine (hp.drift h₁ (fun op hop => hop.not_connects) hlt).active_of ?_
      rw [resume_thread, Function.update_self]
      exact .inl rfl

/-- `chopstx_cancel` leaves it to the target whether it may be ended. -/
theorem chopstxCancel_cancelable (h : KernelInv none k) (hr : Runs k t)
    (hc : k.chopstxCancel cfg t tp = .ok k') (hlt : tp < k.nthread) :
    (k'.thread tp).flagCancelable = (k.thread tp).flagCancelable := by
  rw [chopstxCancel] at hc
  set k₀ := k.chxCpuSchedLock.modThread tp fun th => { th with flagGotCancel := true } with hk₀
  have hm : Move cfg (.flags tp .cancel) (none, k.chxCpuSchedLock) (none, k₀) := .flags .cancel
  have h₀ : KernelInv none k₀ := (lock_inv h).move hm
  have hr₀ : Runs k₀ t := (hm.runs trivial (lock_inv h) hr.lock).1
  have hsame : (k₀.thread tp).flagCancelable = (k.thread tp).flagCancelable := by simp [hk₀]
  simp only at hc
  split at hc
  · obtain ⟨o, hd, hc⟩ := res_bind_eq_ok.1 hc
    cases o with
    | none =>
        cases hc
        exact hsame
    | some k₁ =>
        have hm₁ := cancelDequeue_move cfg h₀ hd
        have h₁ := h₀.move hm₁
        have hlt₀ : tp < k₀.nthread := hlt
        have hp := (yieldOrUnlock_path cfg h₁ (hm₁.runs trivial h₀ hr₀).1 hc).1
        have hf₁ := hm₁.sameFlags (u := tp) h₀ hlt₀ (by simp)
        have hf₂ := hp.sameFlags (u := tp) h₁ (hlt₀.trans_le (hm₁.nthread_le h₀))
          (fun w hw => by cases hw)
        exact (hf₂.2.trans hf₁.2).trans hsame
  · cases hc
    exact hsame

/-! ## The invariant -/

/-- A step of the thread itself. -/
theorem Prompt.self (hk : Prompt s) (h : MachineInv cfg s) (hs : step cfg s e = .ok s')
    (hx : ∃ c lags, e = .run c lags) (hr : s.k.running = some t)
    (hc : (s'.k.thread t).Canceled) :
    ¬ (s'.k.thread t).state.AtPoint ∧ pastTest (s'.ctx t).frames = false := by
  have h' := h.keeps hs
  cases step_stepTo hs with
  | run hb hr' hf hn hstep =>
      rename_i c lags t' f rest k' ctx
      cases hr.symm.trans hr'
      have hsec := h.section hb hr hf hn
      have hlt : t < s.k.nthread := hsec.runs.lt hsec.kernel
      have hshape := h.shape t
      have htop' := h'.top t (hlt.trans_le (hsec.path.nthread_le hsec.kernel))
      rw [hf] at hshape
      simp only [Function.update_self] at htop' ⊢
      -- asleep, or past the last test, only if the thread was past it
      have hpast : (k'.thread t).state.AtPoint ∨ pastTest ctx.frames = true →
          pastTest (f :: rest) = true ∨ f = .testcancel ∧ ¬ (s.k.thread t).Canceled := by
        rintro (hat | hp)
        · obtain ⟨g, fs, hfs, hg⟩ := htop'.atPoint hat
          exact .inl (hn.sleeps hshape hfs hg)
        · exact hn.past hshape hp
      by_contra hne
      have hne' : (k'.thread t).state.AtPoint ∨ pastTest ctx.frames = true := by
        by_contra hno
        rw [not_or, Bool.not_eq_true] at hno
        exact hne hno
      rcases hpast hne' with hp | ⟨rfl, hnc⟩
      · have hflags : SameFlags (s.k.setLags lags) k' t := by
          refine hn.sameFlags hsec.kernel hsec.runs hsec.fits hlt ?_ fun _ b => ?_ <;>
          · rintro rfl
            cases hp
        have hcan : (s.k.thread t).Canceled := hflags.canceled hc
        have := (hk t hcan).2
        rw [hf, hp] at this
        cases this
      · cases hn with
        | testcancel => exact hnc hc
        | canceled => exact hnc hc
  | _ =>
      obtain ⟨c, lags, he⟩ := hx
      cases he

/-- A step that is not one of the thread. -/
theorem Prompt.other (hk : Prompt s) (h : MachineInv cfg s) (hok : noLateCancel s e = true)
    (hs : step cfg s e = .ok s') (hu : u < s.k.nthread)
    (hne : ∀ c lags, e = .run c lags → s.k.running ≠ some u) (hc : (s'.k.thread u).Canceled) :
    ¬ (s'.k.thread u).state.AtPoint ∧ pastTest (s'.ctx u).frames = false := by
  have hd := h.drift hs hu hne
  have hflags : SameFlags s.k s'.k u → s'.ctx u = s.ctx u →
      ¬ (s'.k.thread u).state.AtPoint ∧ pastTest (s'.ctx u).frames = false := by
    intro hf hctx
    obtain ⟨hs, hp⟩ := hk u (hf.canceled hc)
    exact ⟨fun hat => hs (hd.atPoint hat), hctx ▸ hp⟩
  have hpath := h.path hs
  cases hst : step_stepTo hs with
  | tick => exact hflags ⟨rfl, rfl⟩ rfl
  | systick =>
      refine hflags (hpath.sameFlags h.kernel hu fun w hw => ?_) rfl
      rcases hw with hw | hw <;> cases hw
  | irq =>
      refine hflags (hpath.sameFlags h.kernel hu fun w hw => ?_) rfl
      rcases hw with hw | _ | hw | _
      · cases hw
      · cases hw
  | pendsv =>
      refine hflags (hpath.sameFlags h.kernel hu fun w hw => ?_) rfl
      rcases hw with hw | hw <;> cases hw
  | run hb hr hf hn hstep =>
      rename_i c lags t f rest k' ctx
      have hut : u ≠ t := by
        rintro rfl
        exact hne c lags rfl hr
      have hsec := h.section hb hr hf hn
      have hctx : Function.update s.ctx t ctx u = s.ctx u := Function.update_of_ne hut _ _
      by_cases hfc : f = .cancel u
      · subst hfc
        cases hn with
        | cancel hcancel =>
            have hcan : (s.k.thread u).flagCancelable = true := by
              have hsame := chopstxCancel_cancelable hsec.kernel hsec.runs hcancel hu
              exact hsame.symm.trans hc.2
            have hp : pastTest (s.ctx u).frames = false := by
              simpa [noLateCancel, State.top_eq hr hf, hcan] using hok
            refine ⟨fun hat => ?_, ?_⟩
            · have hact := chopstxCancel_active hsec.kernel hsec.runs hcancel hcan (hd.atPoint hat)
              exact hat.not_active hact
            · simp only [hctx]
              exact hp
      · have hs := hn.sameFlags hsec.kernel hsec.runs hsec.fits hu hfc fun hut' => absurd hut' hut
        exact hflags hs hctx

/-- **Every step keeps the invariant**, if no request comes late. -/
theorem Prompt.step (hk : Prompt s) (h : MachineInv cfg s) (hok : noLateCancel s e = true)
    (hs : step cfg s e = .ok s') : Prompt s' := by
  intro u hc
  by_cases hself : (∃ c lags, e = .run c lags) ∧ s.k.running = some u
  · exact hk.self h hs hself.1 hself.2 hc
  by_cases hu : u < s.k.nthread
  · refine hk.other h hok hs hu (fun c lags he hr => hself ⟨⟨c, lags, he⟩, hr⟩) hc
  · -- a thread that is new is in its entry function
    have h' := h.keeps hs
    have hctx : s'.ctx u = {} := by
      refine Eq.trans ?_ (h.fresh u (not_lt.1 hu))
      cases step_stepTo hs with
      | run hb hr hf hn hstep =>
          refine Function.update_of_ne ?_ _ _
          rintro rfl
          exact hu (h.kernel.born u hr)
      | _ => rfl
    refine ⟨fun hat => ?_, by rw [hctx]; rfl⟩
    by_cases hu' : u < s'.k.nthread
    · have htop := h'.top u hu'
      rw [hctx] at htop
      exact hat.not_active htop
    · rw [(h'.kernel.unborn u (not_lt.1 hu')).1] at hat
      exact hat

theorem init_prompt (cfg : Config) : Prompt (init cfg) := by
  rintro t ⟨hgot, -⟩
  obtain ⟨v, q, hth⟩ := initKernel_thread cfg t
  rw [show (init cfg).k = initKernel cfg from rfl, hth] at hgot
  by_cases ht : t = 0
  · subst ht
    cases hgot
  · rw [mainKernel_thread_of_ne ht] at hgot
    cases hgot

theorem prompt_of_reach (h : Reach (step cfg) (fun s e => noLateCancel s e = true) (init cfg) s) :
    Prompt s :=
  Reach.invariant_of (P := Prompt) (fun _ => machineInv_of_reach) (init_prompt cfg)
    (fun _ _ _ hi _ hk hok hs => hk.step hi hok hs) h

/-! ## Blocked -/

/-- **No request for cancellation is lost by blocking**, in every run in which no thread is
asked to end when it is past its last test. -/
theorem cancel_not_lost (cfg : Config) (s : State) (t : Tid)
    (h : Reach (step cfg) (fun s e => noLateCancel s e = true) (init cfg) s)
    (hgot : (s.k.thread t).flagGotCancel = true)
    (hcan : (s.k.thread t).flagCancelable = true) :
    (s.k.thread t).state ≠ .waitCnd ∧ (s.k.thread t).state ≠ .waitTime ∧
      (s.k.thread t).state ≠ .waitExit ∧ (s.k.thread t).state ≠ .waitPoll := by
  have hat := (prompt_of_reach h t ⟨hgot, hcan⟩).1
  refine ⟨?_, ?_, ?_, ?_⟩ <;>
  · intro hs
    rw [hs] at hat
    exact hat trivial

/-- The main thread is preempted in `chopstx_cond_wait` behind the test, is asked to end, and
goes to sleep. -/
theorem cancel_lost : ∃ s : State,
    Reach (step { sliceConfig with mainSchedRr := false }) anyEvent
      (init { sliceConfig with mainSchedRr := false }) s ∧
    (s.k.thread 0).flagGotCancel = true ∧ (s.k.thread 0).flagCancelable = true ∧
    (s.k.thread 0).state = .waitCnd := by
  have htest : runTest (step { sliceConfig with mainSchedRr := false }) (fun _ _ => true)
      (fun s => decide ((s.k.thread 0).flagGotCancel = true ∧
        (s.k.thread 0).flagCancelable = true ∧ (s.k.thread 0).state = .waitCnd))
      (init { sliceConfig with mainSchedRr := false })
      (.run (.call (.create 2)) [] :: runs 1 ++ .run (.call (.usecWait 1)) [] :: runs 3 ++
        .run (.call (.condWait 0 none)) [] :: runs 1 ++ [.tick, .systick [], .pendsv []] ++
        runs 5 ++ .run (.call (.cancel 0)) [] :: runs 1 ++
        .run (.call (.condWait 1 none)) [] :: runs 2 ++ runs 1) = true := by decide +kernel
  obtain ⟨s, hr, hp⟩ := reach_any_of_runTest htest
  exact ⟨s, hr, of_decide_eq_true hp⟩

/-- A thread that sleeps is asked to end and is woken up. -/
theorem cancel_not_lost_asleep : ∃ s : State,
    (s.k.thread 0).flagGotCancel = true ∧ (s.k.thread 0).state = .ready ∧
    (s.k.thread 0).state ≠ .waitCnd := by
  have htest : runTest (step { sliceConfig with mainSchedRr := false }) noLateCancel
      (fun s => decide ((s.k.thread 0).flagGotCancel = true ∧
        (s.k.thread 0).flagCancelable = true ∧ (s.k.thread 0).state = .ready))
      (init { sliceConfig with mainSchedRr := false })
      (.run (.call (.create 2)) [] :: runs 1 ++ .run (.call (.usecWait 1)) [] :: runs 3 ++
        .run (.call (.condWait 0 none)) [] :: runs 2 ++ [.tick, .systick [], .pendsv []] ++
        runs 5 ++ .run (.call (.cancel 0)) [] :: runs 1) = true := by decide +kernel
  obtain ⟨s, hr, hp⟩ := reach_of_runTest htest
  obtain ⟨hgot, hcan, hs⟩ := of_decide_eq_true hp
  exact ⟨s, hgot, hs, (cancel_not_lost _ s 0 hr hgot hcan).1⟩

end Chopstx
