import Chopstx.Property.UsecWait
import Chopstx.Property.Join
import Chopstx.Run.Calls

/-!
# `chopstx_poll` returns 0 on timeout only

The counter of a call says how many events have happened, and `chopstx_poll` does not sleep
unless it is 0.  A thread that sleeps there is made ready by an event, by the timer or by
`chopstx_cancel`, and only the last two leave the counter as it is.  The code tells them apart
by the value with which the thread comes back, which a round-robin thread does not get; and
`chopstx_mutex_lock` hands a priority on to a polling thread by waking it up for nothing.

* `pollSleep_asleep`, `chxSnooze_asleep`, `chxSnooze_none` - going to sleep, with a timeout and
  without one.
* `WokenForReason` - the thread is woken by an event, by the timer or by a cancellation.
* `PollSleep`, `ZeroAt` - what holds at each point of the call.
* `ZeroAt.next`, `ZeroAt.step` - the step lemmas, for the thread and for the machine.
* `ReturnsRight`, `poll_zero` - the result about runs, and `poll_zero_timeout` a call that times
  out.
* `poll_zero_handed` - a run with a wake-up for nothing.
-/

namespace Chopstx

open Kernel Transition

variable {cfg : Config} {k k' : Kernel} {t u : Tid} {off off' : Option Tid} {op : Op}
  {R : Op → Prop} {f : Frame} {pre rest fs : List Frame} {P : Poll} {pt : PollPt} {ret : Int}
  {ctx : Ctx} {s s' s₀ : State} {e : Event} {n : Nat} {b : Bool} {F : List Nat}

/-! ## Threads that are not round-robin -/

/-- For a thread that is not round-robin the field `parent` is always right where it is read. -/
def Kernel.PlainHonest (k : Kernel) : Prop :=
  ∀ u, (k.thread u).flagSchedRr = false → (k.place u).Honest

theorem Kernel.PlainHonest.move (h : k.PlainHonest) (hm : Move cfg op (off, k) (off', k'))
    (hk : KernelInv off k) : k'.PlainHonest := by
  intro u hrr
  by_cases hu : u < k.nthread
  · have hrr' : (k.thread u).flagSchedRr = false := (hm.schedRr hk hu) ▸ hrr
    exact (h u hrr').move hm hk fun _ => hrr'
  · have hst := (hk.unborn u (not_lt.1 hu)).1
    have hu' : (k.place u).Honest := by
      refine .of_state ?_ ?_ <;> simp [hst]
    refine hu'.move hm hk ?_
    rintro rfl
    cases hm with
    | pollSleep hs =>
        rw [hs] at hst
        cases hst

theorem plainHonest_of_reach {ok : State → Event → Prop} (h : Reach (step cfg) ok (init cfg) s) :
    s.k.PlainHonest := by
  refine Reach.invariant_of (P := fun s => s.k.PlainHonest) (fun _ => machineInv_of_reach)
    (fun u _ => initKernel_honest cfg u) (fun s e s' hi _ hh _ hs => ?_) h
  have key := (hi.path hs).keeps (I := fun a => KernelInv a.1 a.2 ∧ a.2.PlainHonest) ?_
    ⟨hi.kernel, hh⟩
  · exact key.2
  · rintro op ⟨off, k⟩ ⟨off', k'⟩ - hm ⟨hk, hh⟩
    exact ⟨hk.move hm, hh.move hm hk⟩

/-- A thread that runs and is not round-robin does not believe that it is in `q_timer`. -/
theorem Kernel.PlainHonest.parent (h : k.PlainHonest) (hk : KernelInv none k) (hr : Runs k t)
    (hrr : (k.thread t).flagSchedRr = false) : (k.thread t).parent ≠ some .timer := by
  intro hp
  have hin := h t hrr hp (.inr ⟨hr.2, hrr⟩)
  have hout := (hk.place' t).running hr.2
  rw [place_schedRr, hrr, if_neg Bool.false_ne_true] at hout
  exact notMem_of_isOut hout (mem_of_isIn hin)

/-! ## Going to sleep -/

/-- A context switch leaves a thread that waits where it is. -/
theorem switch_stays (h : KernelInv none k) (hr : k.running = some t)
    (hs : (k.thread t).state = .waitPoll) : ((k.switchThread cfg).thread t).state = .waitPoll ∧
      ((k.switchThread cfg).thread t).parent = (k.thread t).parent := by
  have hm : Move cfg .switch (none, k) (none, k.switchThread cfg) := .switch (h.notRunning
    fun u hu => by
      cases hr.symm.trans hu
      rw [hs]
      simp)
  have hna : ¬ (k.thread t).state.Active := by
    rw [hs]
    simp [ThreadState.Active]
  have hstays := hm.stays h (u := t) id (by simp) (by simp) hna (by
    rw [hs]
    simp [ThreadState.Ended])
  refine ⟨hstays.trans hs, ?_⟩
  cases hm.drift h (u := t) id (h.born t hr) with
  | same _ _ hp _ _ => exact hp
  | active ha => exact absurd ha hna
  | ended he => exact absurd he (by rw [hs]; simp [ThreadState.Ended])
  | woken _ ha => exact absurd (hstays ▸ ha) hna

theorem pollSleep_asleep (h : KernelInv none k) (hr : Runs k t)
    (hz : k.pollSleep cfg t = .ok k') : (k'.thread t).state = .waitPoll ∧
      ((k.thread t).flagSchedRr = false → (k'.thread t).parent = (k.thread t).parent) := by
  obtain ⟨k₁, he, hz⟩ := res_bind_eq_ok.1 hz
  cases hz
  obtain ⟨hms, hk₁, hr₁⟩ := slice_move cfg h hr he
  have hm : Move cfg (.pollSleep t) (some t, k₁) (none, _) := .pollSleep hr₁.2
  obtain ⟨hst, hp⟩ := switch_stays (hk₁.move hm) hr₁.1 (by simp)
  refine ⟨hst, fun hrr => ?_⟩
  rw [endSlice, hrr] at he
  cases he
  exact hp.trans (by simp)

theorem chxSnooze_asleep {usec usec0 : Nat} (h : KernelInv none k) (hr : Runs k t)
    (hz : k.chxSnooze cfg t .waitPoll usec = .ok (k', some usec0)) :
    (k'.thread t).state = .waitPoll := by
  rcases chxSnooze_cases h hr (.inr rfl) hz with ⟨ho, -⟩ | ⟨_, -, hs⟩
  · cases ho
  · obtain ⟨k₁, k₂, k₃, k₄, hp₁, hm₁, hm₂, hp₂, rfl⟩ := hs.steps
    have h₁ := h.path hp₁
    have hr₁ := (hp₁.runs (fun _ ho => ho.elim) h hr).1
    have h₂ := h₁.move hm₁
    have hr₂ : Runs k₂ t := by
      cases hm₁ with
      | slice hr' hs' he => exact (slice_move cfg h₁ hr₁ he).2.2
    have hst := hm₂.sleep_state h₂
    obtain ⟨hrun, -⟩ := hm₂.connected rfl h₂ hr₂
    cases Relation.ReflTransGen.cases_tail hp₂ with
    | inl heq =>
        cases heq
        exact (switch_stays (h₂.move hm₂) hrun hst).1
    | inr hlast =>
        obtain ⟨_, -, op, hop, -⟩ := hlast
        exact hop.elim

theorem chxSnooze_none {st : ThreadState} {usec : Nat}
    (hz : k.chxSnooze cfg t st usec = .ok (k', none)) : usec = 0 := by
  rw [chxSnooze] at hz
  split at hz
  · assumption
  · obtain ⟨k₁, -, hz⟩ := res_bind_eq_ok.1 hz
    cases hz

/-! ## A thread that sleeps in a call -/

/-- Without a timeout a thread is not woken by the timer. -/
theorem Path.not_timer (hp : Path cfg R (off, k) (off', k')) (h : KernelInv off k)
    (hc : ∀ op, R op → ¬ op.Connects u) (hu : u < k.nthread)
    (hs : (k.thread u).state = .waitPoll) (hpar : (k.thread u).parent ≠ some .timer) :
    (k'.thread u).state = .waitPoll ∧ (k'.thread u).parent ≠ some .timer ∨
      (k'.thread u).state.Active ∧ ∃ w v, k'.ghost.wake u = some (w, v) ∧ w ≠ .timer := by
  have key := hp.keeps (I := fun a => KernelInv a.1 a.2 ∧ u < a.2.nthread ∧
    ((a.2.thread u).state = .waitPoll ∧ (a.2.thread u).parent ≠ some .timer ∨
      (a.2.thread u).state.Active ∧ ∃ w v, a.2.ghost.wake u = some (w, v) ∧ w ≠ .timer)) ?_
    ⟨h, hu, .inl ⟨hs, hpar⟩⟩
  · exact key.2.2
  · rintro op ⟨off, k⟩ ⟨off', k'⟩ hop hm ⟨hk, hu, hI⟩
    refine ⟨hk.move hm, hu.trans_le (hm.nthread_le hk), ?_⟩
    have hd := hm.drift hk (hc op hop) hu
    rcases hI with ⟨hs, hpar⟩ | ⟨ha, w, v, hw, hne⟩
    · have hna : ¬ (k.thread u).state.Active := by
        rw [hs]
        simp [ThreadState.Active]
      have hne : ¬ (k.thread u).state.Ended := by
        rw [hs]
        simp [ThreadState.Ended]
      cases hd with
      | same _ hs' hp' _ _ => exact .inl ⟨hs'.trans hs, hp' ▸ hpar⟩
      | active ha => exact absurd ha hna
      | ended he => exact absurd he hne
      | woken hb ha hw =>
          refine .inr ⟨ha, _, _, hw, ?_⟩
          rintro rfl
          by_cases hex : op = .expire
          · subst hex
            cases hm with
            | expire hp hr =>
                have he := chxTimerExpired_expired hk
                by_cases hmem : .thread u ∈ k.expired
                · exact hpar (hk.isIn_of_mem (he.mem _ hmem)).1
                · rw [he.others u hmem] at ha
                  exact hna ha
          · by_cases hwk : ∃ w, op = .wake u w
            · obtain ⟨w, rfl⟩ := hwk
              cases hm with
              | wakeTimed hs hd hwt =>
                  cases (Function.update_self u _ _).symm.trans hw
                  cases hwt
              | wakeQueued hq hwq =>
                  cases (Function.update_self u _ _).symm.trans hw
                  cases hwq with
                  | cnd c hwu => cases hwu
                  | join hwu => cases hwu
              | wakeLoose hs hp hwu =>
                  cases (Function.update_self u _ _).symm.trans hw
                  cases hwu
            · have hstays := hm.stays hk (hc op hop) (fun w ho => hwk ⟨w, ho⟩) hex hna hne
              exact hna (hstays ▸ ha)
    · cases hd with
      | same hn => exact absurd ha hn
      | active _ ha' hw' => exact .inr ⟨ha', w, v, hw'.trans hw, hne⟩
      | ended he => exact absurd ha he.not_active
      | woken hb => exact absurd ha hb.not_active

/-- The thread sleeps in the call `n`, with a timeout or without one, or has been woken up
there: by an event, or by someone whom its value names. -/
structure PollSleep (k : Kernel) (t : Tid) (n : Nat) (timed : Bool) : Prop where
  asleep : ¬ (k.thread t).state.Active → (k.thread t).state = .waitPoll ∧
    (timed = false → (k.thread t).flagSchedRr = false → (k.thread t).parent ≠ some .timer)
  woken : (k.thread t).state.Active → 0 < k.counter n ∨ (k.thread t).flagSchedRr = false ∧
    ∃ w v, k.ghost.wake t = some (w, v) ∧ (w = .cancel ∨ timed = true ∧ w = .timer)

/-- A step wakes the thread `t` out of the call `n` for a reason: an event happens to one of
the proxies of the call, or the thread is not round-robin and its time is over or it is
canceled. -/
def WokenForReason (cfg : Config) (t : Tid) (n : Nat) (s : State) (e : Event) : Prop :=
  ∀ s', step cfg s e = .ok s' → (s.k.thread t).state = .waitPoll →
    (s'.k.thread t).state ≠ .waitPoll →
    (∃ i q, .proxy ⟨n, i⟩ ∈ s.k.queue q ∧ .proxy ⟨n, i⟩ ∉ s'.k.queue q) ∨
      (s.k.thread t).flagSchedRr = false ∧
        ∃ w v, s'.k.ghost.wake t = some (w, v) ∧ (w = .timer ∨ w = .cancel)

/-- A step that is not one of the thread. -/
theorem PollSleep.others {timed : Bool} (hsl : PollSleep s.k t n timed) (hi : MachineInv cfg s)
    (ht : t < s.k.nthread) (hs : step cfg s e = .ok s')
    (hne : ∀ c lags, e = .run c lags → s.k.running ≠ some t) (hF : Fires n F s.k s'.k)
    (hok : WokenForReason cfg t n s e) : PollSleep s'.k t n timed := by
  have hd := hi.drift hs ht hne
  have hrr : (s'.k.thread t).flagSchedRr = (s.k.thread t).flagSchedRr :=
    (hi.path hs).schedRr hi.kernel ht
  by_cases ha : (s.k.thread t).state.Active
  · have ha' := hd.active_of ha
    have hw : s'.k.ghost.wake t = s.k.ghost.wake t := by
      cases hd with
      | same hn => exact absurd ha hn
      | active _ _ hw => exact hw
      | ended he => exact absurd ha he.not_active
      | woken hb => exact absurd ha hb.not_active
    refine ⟨fun hn => absurd ha' hn, fun _ => ?_⟩
    rcases hsl.woken ha with hpos | ⟨hplain, hwake⟩
    · exact .inl (hpos.trans_le hF.counter_le)
    · rw [hrr, hw]
      exact .inr ⟨hplain, hwake⟩
  · obtain ⟨hst, hpar⟩ := hsl.asleep ha
    refine ⟨fun hn => ?_, fun ha' => ?_⟩
    · cases hd with
      | same _ hs' hp' _ _ =>
          refine ⟨hs'.trans hst, fun htm hplain => ?_⟩
          rw [hp']
          exact hpar htm (hrr ▸ hplain)
      | active ha'' => exact absurd ha'' ha
      | ended he =>
          rw [hst] at he
          exact absurd he (by simp [ThreadState.Ended])
      | woken _ ha' => exact absurd ha' hn
    · have hleft : (s'.k.thread t).state ≠ .waitPoll := by
        intro hst'
        rw [hst'] at ha'
        simp [ThreadState.Active] at ha'
      rcases hok s' hs hst hleft with ⟨i, q, hm, hn⟩ | ⟨hplain, w, v, hw, hwho⟩
      · exact .inl (hF.counter_pos hm hn)
      · refine .inr ⟨hrr.trans hplain, w, v, hw, ?_⟩
        cases timed with
        | true => exact hwho.symm.imp_right fun h => ⟨rfl, h⟩
        | false =>
            have hc : ∀ op, s.May cfg e op → ¬ op.Connects t := fun op hop hcon => by
              obtain ⟨hr, c, lags, he⟩ := hop.connects hcon
              exact hne c lags he hr
            rcases (hi.path hs).not_timer hi.kernel hc ht hst (hpar rfl hplain) with
              ⟨hst', -⟩ | ⟨-, w', v', hw', hnt⟩
            · exact absurd hst' hleft
            · cases hw.symm.trans hw'
              exact .inl (hwho.resolve_left hnt)

/-! ## The points of a call -/

@[simp] theorem pollCleanup_counter {p : PxId} {d : PdId} :
    (k.pollCleanup cfg p d).counter = k.counter := by
  rw [pollCleanup]
  split
  · rfl
  · cases cfg.pd d <;> rfl

/-- The point comes back from a sleep, with a timeout or without one. -/
def PollPt.back : PollPt → Option Bool
  | .wake => some false
  | .snoozeWake _ => some true
  | _ => none

/-- The point lies before the clean-up loop, and not directly behind a sleep. -/
def PollPt.Before : PollPt → Prop
  | .wake | .snoozeWake _ | .cleanup _ _ => False
  | _ => True

/-- The point is in the loop with timeout. -/
def PollPt.Timed : PollPt → Prop
  | .loop | .snooze => True
  | _ => False

/-- Where the thread is in the call `n` above `rest`, and what is known of the counter there; the
call has a timeout if `b` is set. -/
inductive ZeroAt (n : Nat) (b : Bool) (rest : List Frame) (k : Kernel) (t : Tid) (ret : Int) :
    List Frame → Prop
  | code {l : List Frame} {P : Poll} {pt : PollPt} (hn : P.call = n) (hb : P.usec.isSome = b)
      (hpt : pt.Before) (htm : pt.Timed → b = true) :
      ZeroAt n b rest k t ret (l ++ .poll P pt :: rest)
  | sleep {P : Poll} {pt : PollPt} {timed : Bool} (hn : P.call = n) (hb : P.usec.isSome = b)
      (hpt : pt.back = some timed) (htm : timed = true → b = true)
      (hsl : PollSleep k t n timed) : ZeroAt n b rest k t ret (.schedRet :: .poll P pt :: rest)
  | back {P : Poll} {pt : PollPt} {timed : Bool} (hn : P.call = n) (hb : P.usec.isSome = b)
      (hpt : pt.back = some timed) (htm : timed = true → b = true)
      (hz : 0 < k.counter n ∨ ret < 0 ∨ timed = true ∧ ret = 0) :
      ZeroAt n b rest k t ret (.poll P pt :: rest)
  | cleanup {P : Poll} {i : Nat} {r : Int} (hn : P.call = n) (hb : P.usec.isSome = b)
      (hz : 0 ≤ r → 0 < k.counter n ∨ P.usec = some 0) :
      ZeroAt n b rest k t ret (.poll P (.cleanup i r) :: rest)

theorem ZeroAt.length_lt (h : ZeroAt n b rest k t ret fs) : rest.length < fs.length := by
  cases h <;> simp only [List.length_append, List.length_cons] <;> omega

/-- The call returns: with 0 only if there is a timeout, and it is over. -/
def ReturnsRight (n : Nat) (b : Bool) (rest : List Frame) (f : Frame) (ctx : Ctx) : Prop :=
  ctx.frames = rest ∧
    (ctx.ret = 0 → ∃ P pt, f = .poll P pt ∧ P.call = n ∧ P.usec.isSome = b ∧ P.usec = some 0)

/-- What is known when nothing is above the code of the call. -/
theorem ZeroAt.inv (h : ZeroAt n b rest k t ret (.poll P pt :: rest)) :
    P.call = n ∧ P.usec.isSome = b ∧ (pt.Before ∧ (pt.Timed → b = true) ∨
      (∃ timed, pt.back = some timed ∧ (timed = true → b = true) ∧
        (0 < k.counter n ∨ ret < 0 ∨ timed = true ∧ ret = 0)) ∨
      ∃ i r, pt = .cleanup i r ∧ (0 ≤ r → 0 < k.counter n ∨ P.usec = some 0)) := by
  generalize hl : Frame.poll P pt :: rest = l at h
  cases h with
  | @code pre P' pt' hn hb hpt htm =>
      cases pre with
      | nil =>
          cases hl
          exact ⟨hn, hb, .inl ⟨hpt, htm⟩⟩
      | cons g gs =>
          have hlen := congrArg List.length hl
          simp only [List.length_cons, List.length_append] at hlen
          omega
  | sleep => cases hl
  | back hn hb hpt htm hz =>
      cases hl
      exact ⟨hn, hb, .inr (.inl ⟨_, hpt, htm, hz⟩)⟩
  | cleanup hn hb hz =>
      cases hl
      exact ⟨hn, hb, .inr (.inr ⟨_, _, rfl, hz⟩)⟩

section Next

variable (h : KernelInv none k) (hr : Runs k t)

include h hr

/-- A step of the code of the call. -/
theorem ZeroAt.pollNext (hz : ZeroAt n b rest k t ret (.poll P pt :: rest)) (hp : k.PlainHonest)
    (hn : PollNext cfg k t P rest ret pt k' ctx) :
    ZeroAt n b rest k' t ctx.ret ctx.frames ∨ ctx.frames = [.exitStart chopstxCanceled] ∨
      ReturnsRight n b rest (.poll P pt) ctx := by
  obtain ⟨hcall, hb, hfacts⟩ := hz.inv
  have hat : ∀ {l : List Frame} {pt' : PollPt}, pt'.Before → (pt'.Timed → b = true) →
      ZeroAt n b rest k' t ctx.ret (l ++ .poll P pt' :: rest) := fun hpt htm =>
    .code hcall hb hpt htm
  have hclean : ∀ {i : Nat} {r : Int}, (0 ≤ r → 0 < k'.counter n ∨ P.usec = some 0) →
      ZeroAt n b rest k' t ctx.ret (.poll P (.cleanup i r) :: rest) := fun hr =>
    .cleanup hcall hb hr
  cases hn with
  | init | initEnd | hookEnd | condHook | checkTrue | checkFalse | condLoad | condStore
  | condReady | condClear | condEnqueue | condEnd | intrHook | joinHook =>
      exact .inl (hat (l := []) trivial (by simp [PollPt.Timed]))
  | condLock | condUnlock | joinFatal =>
      exact .inl (hat (l := [_]) trivial (by simp [PollPt.Timed]))
  | @hook i d hd =>
      refine .inl (hat (l := [_]) ?_ ?_) <;>
        cases cfg.pd d <;> simp [PdKind.hookPt, PollPt.Before, PollPt.Timed]
  | mainReady hc | snoozeReady hc =>
      exact .inl (hclean fun _ => .inl (Nat.pos_of_ne_zero (hcall ▸ hc)))
  | mainLoop hc hu =>
      refine .inl (hat (l := []) trivial fun _ => ?_)
      rw [← hb, hu]
      rfl
  | mainSleep hc hu hs =>
      obtain ⟨hst, hpar⟩ := pollSleep_asleep (lock_inv h) hr.lock hs
      refine .inl (.sleep hcall hb (show PollPt.back _ = some false from rfl) (by simp)
        ⟨fun _ => ⟨hst, ?_⟩, ?_⟩)
      · intro _ hrr
        have hpath := (pollSleep_sleeps (lock_inv h) hr.lock hs).path rfl (fun _ ho => ho.elim)
          (fun _ ho => ho.elim) (lock_inv h) hr.lock
        have hrr' : (k.thread t).flagSchedRr = false :=
          (hpath.1.schedRr (lock_inv h) (hr.lt h)) ▸ hrr
        rw [hpar hrr']
        exact hp.parent h hr hrr'
      · rw [hst]
        simp [ThreadState.Active]
  | wake =>
      obtain ⟨hf, -⟩ | ⟨timed, hbk, -, hz⟩ | ⟨i, r, hpt, -⟩ := hfacts
      · exact hf.elim
      · cases hbk
        refine .inl (hclean fun hr => .inl ?_)
        rcases hz with hz | hz | ⟨hz, -⟩
        · exact hz
        · exact absurd hr (not_le.2 hz)
        · cases hz
      · cases hpt
  | loop =>
      obtain ⟨-, htm⟩ | ⟨timed, hbk, -⟩ | ⟨i, r, hpt, -⟩ := hfacts
      · exact .inl (hat (l := [_]) trivial fun _ => htm trivial)
      · cases hbk
      · cases hpt
  | snoozeEnd hc hs =>
      obtain ⟨-, htm⟩ | ⟨timed, hbk, -⟩ | ⟨i, r, hpt, -⟩ := hfacts
      · refine .inl (hclean fun _ => .inr ?_)
        have hsome : P.usec.isSome = true := hb.trans (htm trivial)
        obtain ⟨usec, husec⟩ := Option.isSome_iff_exists.1 hsome
        have hzero := chxSnooze_none hs
        rw [husec] at hzero ⊢
        exact congrArg some hzero
      · cases hbk
      · cases hpt
  | snoozeSleep hc hs =>
      obtain ⟨-, htm⟩ | ⟨timed, hbk, -⟩ | ⟨i, r, hpt, -⟩ := hfacts
      · have hst := chxSnooze_asleep (lock_inv h) hr.lock hs
        refine .inl (.sleep hcall hb (show PollPt.back _ = some true from rfl)
          (fun _ => htm trivial) ⟨fun _ => ⟨hst, by simp⟩, ?_⟩)
        rw [hst]
        simp [ThreadState.Active]
      · cases hbk
      · cases hpt
  | snoozeAgain hres =>
      obtain ⟨hf, -⟩ | ⟨timed, hbk, htm, -⟩ | ⟨i, r, hpt, -⟩ := hfacts
      · exact hf.elim
      · cases hbk
        have hbt := htm rfl
        exact .inl (.code (l := []) hcall hbt.symm trivial fun _ => hbt)
      · cases hpt
  | @snoozeDone usec0 m r hne hres =>
      obtain ⟨hf, -⟩ | ⟨timed, hbk, htm, hz⟩ | ⟨i, r, hpt, -⟩ := hfacts
      · exact hf.elim
      · cases hbk
        have hbt := htm rfl
        refine .inl (.cleanup hcall hbt.symm fun hr => .inl ?_)
        rcases hz with hz | hz | ⟨-, hz⟩
        · exact hz
        · rw [snoozeResult, if_neg (by omega), if_neg (by omega)] at hres
          cases hres
          omega
        · rw [snoozeResult, if_pos hz] at hres
          cases hres
          exact absurd rfl hne
      · cases hpt
  | cleanup hd =>
      obtain ⟨hf, -⟩ | ⟨timed, hbk, -⟩ | ⟨i, r, hpt, hz⟩ := hfacts
      · exact hf.elim
      · cases hbk
      · cases hpt
        refine .inl (hclean fun hr => ?_)
        rw [pollCleanup_counter]
        exact hz hr
  | exit => exact .inr (.inl rfl)
  | done hd hr' =>
      obtain ⟨hf, -⟩ | ⟨timed, hbk, -⟩ | ⟨i, r, hpt, hz⟩ := hfacts
      · exact hf.elim
      · cases hbk
      · cases hpt
        refine .inr (.inr ⟨rfl, fun hret => ⟨P, _, rfl, hcall, hb, ?_⟩⟩)
        refine (hz hr').resolve_left fun hpos => ?_
        have hzero : (k.counter P.call : Int) = 0 := hret
        rw [hcall] at hzero
        exact hpos.ne' (by exact_mod_cast hzero)

omit h in
/-- What the value of a thread that comes back from its sleep says. -/
theorem PollSleep.value {timed : Bool} (hsl : PollSleep k t n timed) (hv : ValueInv none k)
    (hst : k.WakeStores) : 0 < k.counter n ∨ toInt (k.thread t).v < 0 ∨
      timed = true ∧ toInt (k.thread t).v = 0 := by
  rcases hsl.woken hr.active with hpos | ⟨hrr, w, v, hw, hwho⟩
  · exact .inl hpos
  · rw [hv.plain t hr.active hrr w v hw]
    have hs := hst t w v hw
    rcases hwho with rfl | ⟨htm, rfl⟩
    · cases hs
      exact .inr (.inl (by simp))
    · cases hs
      exact .inr (.inr ⟨htm, rfl⟩)

/-- **A step of the thread in its call.** -/
theorem ZeroAt.next (hz : ZeroAt n b rest k t ret (f :: fs)) (hp : k.PlainHonest)
    (hv : ValueInv none k) (hst : k.WakeStores) (hsh : Shape cfg k.nthread (f :: fs))
    (hn : Next cfg k t fs ret f k' ctx) :
    ZeroAt n b rest k' t ctx.ret ctx.frames ∨ ctx.frames = [.exitStart chopstxCanceled] ∨
      ReturnsRight n b rest f ctx := by
  generalize hl : f :: fs = l at hz
  have hz' := hz
  cases hz with
  | @code pre P pt hcall hb hpt htm =>
      cases pre with
      | nil =>
          cases hl
          cases hn with
          | poll hn => exact hz'.pollNext h hr hp hn
      | cons g gs =>
          cases hl
          have hsh' : Shape cfg k.nthread ((f :: gs) ++ .poll P pt :: rest) := hsh
          have hg : f.Helper := hsh'.helpers f (List.mem_cons_self ..)
          rcases hn.helper hg with ⟨gs', hfs⟩ | ⟨-, -, -, -, hfs⟩
          · have hall : ctx.frames = (gs' ++ gs) ++ .poll P pt :: rest := by
              rw [hfs, List.append_assoc]
              rfl
            rw [hall]
            exact .inl (.code hcall hb hpt htm)
          · exact .inr (.inl hfs)
  | sleep hcall hb hpt htm hsl =>
      cases hl
      cases hn
      exact .inl (.back hcall hb hpt htm (hsl.value hr hv hst))
  | back | cleanup =>
      cases hl
      cases hn with
      | poll hn => exact hz'.pollNext h hr hp hn

end Next

/-! ## Runs -/

/-- The steps of the machine while the call `n` of the thread `t` above `rest` goes on. -/
def InPollCall (cfg : Config) (t : Tid) (n : Nat) (rest : List Frame) (s : State) (e : Event) :
    Prop :=
  InCall t rest s e ∧ WokenForReason cfg t n s e

/-- The code of the call is in the stack. -/
theorem ZeroAt.at (hz : ZeroAt n b rest s.k t ret (s.ctx t).frames) :
    ∃ pre P pt, s.At t pre P pt rest ∧ P.call = n := by
  generalize hl : (s.ctx t).frames = l at hz
  cases hz with
  | code hn => exact ⟨_, _, _, hl, hn⟩
  | sleep hn => exact ⟨[_], _, _, hl, hn⟩
  | back hn | cleanup hn => exact ⟨[], _, _, hl, hn⟩

theorem ZeroAt.lags (hz : ZeroAt n b rest k t ret fs) (lags : List Nat) :
    ZeroAt n b rest (k.setLags lags) t ret fs := by
  cases hz with
  | code hn hb hpt htm => exact .code hn hb hpt htm
  | sleep hn hb hpt htm hsl => exact .sleep hn hb hpt htm ⟨hsl.asleep, hsl.woken⟩
  | back hn hb hpt htm hz => exact .back hn hb hpt htm hz
  | cleanup hn hb hz => exact .cleanup hn hb hz

theorem ZeroAt.others (hz : ZeroAt n b rest s.k t ret fs) (hi : MachineInv cfg s)
    (ht : t < s.k.nthread) (hs : step cfg s e = .ok s')
    (hne : ∀ c lags, e = .run c lags → s.k.running ≠ some t) (hF : Fires n F s.k s'.k)
    (hok : WokenForReason cfg t n s e) : ZeroAt n b rest s'.k t ret fs := by
  cases hz with
  | code hn hb hpt htm => exact .code hn hb hpt htm
  | sleep hn hb hpt htm hsl => exact .sleep hn hb hpt htm (hsl.others hi ht hs hne hF hok)
  | back hn hb hpt htm hz => exact .back hn hb hpt htm (hz.imp_left (·.trans_le hF.counter_le))
  | cleanup hn hb hz =>
      exact .cleanup hn hb fun hr => (hz hr).imp_left (·.trans_le hF.counter_le)

/-- **A step of the machine while the thread is in the call.** -/
theorem ZeroAt.step (hz : ZeroAt n b rest s.k t (s.ctx t).ret (s.ctx t).frames)
    (h : Reach (Chopstx.step cfg) anyEvent (init cfg) s) (ht : t < s.k.nthread)
    (hn : n < s.k.ncall) (hok : WokenForReason cfg t n s e) (hs : Chopstx.step cfg s e = .ok s') :
    ZeroAt n b rest s'.k t (s'.ctx t).ret (s'.ctx t).frames ∨
      (s'.ctx t).frames = [.exitStart chopstxCanceled] ∨
      ∃ f, s.top = some (t, f) ∧ ReturnsRight n b rest f (s'.ctx t) := by
  have hi := machineInv_of_reach h
  by_cases hrun : ∃ c lags, e = .run c lags ∧ s.k.running = some t
  · obtain ⟨c, lags, rfl, hr⟩ := hrun
    cases step_stepTo hs with
    | run hb hr' hf hnext hk =>
        cases hr.symm.trans hr'
        have hsec := hi.section hb hr hf hnext
        have hsh := hi.shape t
        rw [hf] at hz hsh
        simp only [Function.update_self]
        have hp : (s.k.setLags lags).PlainHonest := plainHonest_of_reach h
        have hv : ValueInv none (s.k.setLags lags) :=
          ⟨hi.value.fresh, hi.value.plain, hi.value.slice⟩
        rcases (hz.lags lags).next hsec.kernel hsec.runs hp hv (wakeStores_of_reach h) hsh hnext
          with hz | hx | hret
        · exact .inl hz
        · exact .inr (.inl hx)
        · exact .inr (.inr ⟨_, State.top_eq hr hf, hret⟩)
  · have hne : ∀ c lags, e = .run c lags → s.k.running ≠ some t :=
      fun c lags he hr => hrun ⟨c, lags, he, hr⟩
    obtain ⟨pre, P, pt, hat, hcall⟩ := hz.at
    have hin : ¬ s.InCode n e := by
      intro hin
      obtain ⟨hr, -, c, lags, he⟩ := hat.inCode (callsInv_of_reach h) (hcall ▸ hin)
      exact hne c lags he hr
    obtain ⟨F, hF⟩ := hi.fires hs hn hin
    rw [ctx_of_others hs hne]
    exact .inl (hz.others hi ht hs hne hF hok)

/-- **`chopstx_poll` returns 0 on timeout only**: where the thread is woken up for a reason each
time it sleeps in the call, there is a timeout and no microsecond of it is left. -/
theorem poll_zero {pds : List PdId} {usec : Option Nat}
    (h : Reach (step cfg) anyEvent (init cfg) s₀)
    (hf : (s₀.ctx t).frames = .poll ⟨n, pds, usec⟩ (.init 0) :: rest)
    (hrun : Steps (step cfg) (InPollCall cfg t n rest) s₀ s) (hok : InPollCall cfg t n rest s e)
    (hs : step cfg s e = .ok s') (hret : (s'.ctx t).frames = rest) (hz : (s'.ctx t).ret = 0) :
    usec ≠ none ∧ ∃ P pt, s.top = some (t, .poll P pt) ∧ P.call = n ∧ P.usec = some 0 := by
  have hi := machineInv_of_reach h
  have hlt : t < s₀.k.nthread := by
    by_contra hge
    rw [hi.fresh t (not_lt.1 hge)] at hf
    cases hf
  have hcall : n < s₀.k.ncall := (callsInv_of_reach h).lt t n (by
    rw [hf, calls_cons_of_some (n := n) rfl]
    exact List.mem_cons_self ..)
  have hshape := hi.shape t
  rw [hf] at hshape
  obtain ⟨fs, rfl⟩ : ∃ fs, rest = .user :: fs := by
    cases rest with
    | nil => exact absurd rfl (hshape.ne_nil id)
    | cons g fs =>
        cases hshape.below with
        | called => exact ⟨fs, rfl⟩
  have key := hrun.keeps (P := fun s => Reach (step cfg) anyEvent (init cfg) s ∧
    t < s.k.nthread ∧ n < s.k.ncall ∧ ((Frame.user :: fs).length < (s.ctx t).frames.length →
      ZeroAt n usec.isSome (.user :: fs) s.k t (s.ctx t).ret (s.ctx t).frames)) ?_ ?_
  · obtain ⟨hr, ht, hn, hat⟩ := key
    rcases (hat hok.1).step hr ht hn hok.2 hs with hat' | hx | ⟨f, htop, -, hzero⟩
    · have hlen := hat'.length_lt
      rw [hret] at hlen
      exact absurd hlen (lt_irrefl _)
    · rw [hret] at hx
      cases hx
    · obtain ⟨P, pt, rfl, hP, hb, hu⟩ := hzero hz
      refine ⟨?_, P, pt, htop, hP, hu⟩
      rintro rfl
      rw [hu] at hb
      cases hb
  · rintro s e s' ⟨hr, ht, hn, hat⟩ hok hs
    have hi := machineInv_of_reach hr
    have hpath := hi.path hs
    refine ⟨hr.tail e trivial hs, ht.trans_le (hpath.nthread_le hi.kernel),
      hn.trans_le (hpath.ncall_le hi.kernel), fun hlen => ?_⟩
    rcases (hat hok.1).step hr ht hn hok.2 hs with hat' | hx | ⟨f, -, hf, -⟩
    · exact hat'
    · rw [hx] at hlen
      simp at hlen
    · rw [hf] at hlen
      exact absurd hlen (lt_irrefl _)
  · refine ⟨h, hlt, hcall, fun _ => ?_⟩
    rw [hf]
    exact .code (l := []) rfl rfl trivial (by simp [PollPt.Timed])

/-- The test of `InPollCall` for `main`, whose call lies directly above its entry function and
in which only the timer wakes it. -/
def inPollTest (cfg : Config) (s : State) (e : Event) : Bool :=
  decide (1 < (s.ctx 0).frames.length) &&
    match step cfg s e with
    | .ok s' => decide ((s.k.thread 0).state = .waitPoll → (s'.k.thread 0).state ≠ .waitPoll →
        (s.k.thread 0).flagSchedRr = false ∧ (s'.k.ghost.wake 0).map Prod.fst = some .timer)
    | .error _ => true

theorem inPollCall_of_test (h : inPollTest cfg s e = true) : InPollCall cfg 0 n [.user] s e := by
  rw [inPollTest, Bool.and_eq_true] at h
  obtain ⟨hlen, h⟩ := h
  refine ⟨(of_decide_eq_true hlen : 1 < (s.ctx 0).frames.length), fun s' hs hst hst' => ?_⟩
  rw [hs] at h
  obtain ⟨hrr, hw⟩ := of_decide_eq_true h hst hst'
  obtain ⟨⟨w, v⟩, hw, hx⟩ := Option.map_eq_some_iff.1 hw
  exact .inr ⟨hrr, w, v, hw, .inl hx⟩

/-- The run goes on with these events, while the call of `main` goes on, to a state in which the
step of `main` that ends the call gives 0. -/
def zeroTest (cfg : Config) (ok : State → Event → Bool) (es : List Event) (s : State) : Bool :=
  runTest (step cfg) ok
    (fun s => ok s (.run .none []) &&
      stepTest (step cfg) (fun s' => decide ((s'.ctx 0).frames = [.user] ∧ (s'.ctx 0).ret = 0 ∧
        (s'.k.thread 0).flagGotCancel = false)) s (.run .none [])) s es

theorem of_zeroTest {ok : State → Event → Bool} {es : List Event} {s₀ : State}
    (h : zeroTest cfg ok es s₀ = true) : ∃ s s', Steps (step cfg) (fun s e => ok s e = true) s₀ s ∧
      ok s (.run .none []) = true ∧ step cfg s (.run .none []) = .ok s' ∧
      (s'.ctx 0).frames = [.user] ∧ (s'.ctx 0).ret = 0 ∧
      (s'.k.thread 0).flagGotCancel = false := by
  obtain ⟨s, hrun, hp⟩ := steps_of_runTest h
  rw [Bool.and_eq_true] at hp
  obtain ⟨hok, hp⟩ := hp
  obtain ⟨s', hs, hp⟩ := of_stepTest hp
  exact ⟨s, s', hrun, hok, hs, of_decide_eq_true hp⟩

/-- `main` waits for an interrupt for five microseconds, and none comes. -/
theorem poll_zero_timeout : ∃ (s : State) (P : Poll) (pt : PollPt),
    s.top = some (0, .poll P pt) ∧ P.call = 0 ∧ P.usec = some 0 := by
  have htest : runTest (step plainConfig) (fun _ _ => true)
      (fun s => decide ((s.ctx 0).frames = [.poll ⟨0, [0], some 5⟩ (.init 0), .user]) &&
        zeroTest plainConfig (inPollTest plainConfig)
          (runs 10 ++ List.replicate 5 .tick ++ [.systick [], .pendsv []] ++ runs 6) s)
      (init plainConfig) (.run (.call (.poll (some 5) [0])) [] :: runs 2) = true := by
    decide +kernel
  obtain ⟨s₀, hr, hp⟩ := reach_any_of_runTest htest
  rw [Bool.and_eq_true, decide_eq_true_eq] at hp
  obtain ⟨hf, hp⟩ := hp
  obtain ⟨s, s', hrun, hok, hs, hret, hz, -⟩ := of_zeroTest hp
  obtain ⟨-, P, pt, htop, hP, hu⟩ := poll_zero hr hf
    (hrun.mono fun _ _ => inPollCall_of_test) (inPollCall_of_test hok) hs hret hz
  exact ⟨s, P, pt, htop, hP, hu⟩

/-- **`chopstx_poll` returns 0 without a timeout**: `main` has locked a mutex and waits for an
interrupt; a thread of a greater priority wants to lock the mutex.  No descriptor is ready, and
nobody has canceled `main`. -/
theorem poll_zero_handed : ∃ s₀ s s' : State,
    Reach (step plainConfig) anyEvent (init plainConfig) s₀ ∧
    (s₀.ctx 0).frames = [.poll ⟨0, [0], none⟩ (.init 0), .user] ∧
    Steps (step plainConfig) (InCall 0 [.user]) s₀ s ∧
    step plainConfig s (.run .none []) = .ok s' ∧ (s'.ctx 0).frames = [.user] ∧
    (s'.ctx 0).ret = 0 ∧ (s'.k.thread 0).flagGotCancel = false := by
  have htest : runTest (step plainConfig) (fun _ _ => true)
      (fun s => decide ((s.ctx 0).frames = [.poll ⟨0, [0], none⟩ (.init 0), .user]) &&
        zeroTest plainConfig (fun s _ => decide (1 < (s.ctx 0).frames.length))
          (runs 7 ++ List.replicate 5 .tick ++ [.systick [], .pendsv []] ++ runs 5 ++
            .run (.call (.mutexLock 0)) [] :: runs 4) s)
      (init plainConfig) (.run (.call (.mutexLock 0)) [] :: runs 1 ++
        .run (.call (.create 2)) [] :: runs 1 ++ .run (.call (.usecWait 5)) [] :: runs 3 ++
        .run (.call (.intrWait 0)) [] :: runs 2) = true := by
    decide +kernel
  obtain ⟨s₀, hr, hp⟩ := reach_any_of_runTest htest
  rw [Bool.and_eq_true, decide_eq_true_eq] at hp
  obtain ⟨hf, hp⟩ := hp
  obtain ⟨s, s', hrun, -, hs, hret, hz, hc⟩ := of_zeroTest hp
  refine ⟨s₀, s, s', hr, hf, hrun.mono fun s e hok => ?_, hs, hret, hz, hc⟩
  exact (of_decide_eq_true hok : 1 < (s.ctx 0).frames.length)

end Chopstx
