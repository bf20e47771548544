import Chopstx.Property.Cancel
import Chopstx.Property.Snooze
import Chopstx.Property.Deadlines

/-!
# The time that `chopstx_usec_wait` takes

A long wait is made of slices, and whether there is another one depends on the value with
which the thread comes back from the last.  Where the timer ends a slice its time has passed,
and the value is 0.  A thread that is handed a priority while it sleeps comes back with the
ticks that were left, and a round-robin thread comes back with the delta of the slice in which it
runs again: `chopstx_usec_wait` returns.

* `InSlice`, `move`, `chxSnooze_slice` - a thread in a slice of its wait, and what begins one.
* `chopstxCancel_spares`, `Canceled` - the requests that do nothing, and the one that ends a wait.
* `Slice`, `Waited` - the slices of a wait, one after the other, and what they come to.
* `WaitAt` - the points of a call; `WaitAt.next`, `WaitAt.others` and `WaitAt.step` are the step
  lemmas.
* `LeftAlone` - the condition: no other thread makes the sleeping thread ready.
* `WaitDone`, `usecWait_not_early` - the result about runs, and `usecWait_not_early_ten` one with a
  request that the thread does not look at.
* `round_ends_wait`, `usecWait_early` - a round-robin thread, and a thread that is handed a
  priority.
-/

namespace Chopstx

open Kernel Transition

variable {cfg : Config} {k k' : Kernel} {t u : Tid} {off off' : Option Tid} {op : Op}
  {P : Op → Prop} {f g : Frame} {rest fs : List Frame} {ret r : Int} {ctx : Ctx} {s s' : State}
  {e : Event} {usec usec0 n due : Nat}

/-! ## A slice across moves -/

/-- The thread sleeps until `due`, or it was woken up: by the timer, or by others. -/
structure InSlice (k : Kernel) (u : Tid) (due : Nat) : Prop where
  alive : ¬ (k.thread u).state.Ended
  asleep : ¬ (k.thread u).state.Active → (k.thread u).state = .waitTime ∧ k.ghost.due u = due
  /-- If no ticks were left, the time has passed. -/
  woken : (k.thread u).state.Active → ∃ w v, k.ghost.wake u = some (w, v) ∧ w ≠ .cancel ∧
    (w = .timer ∨ ∃ left, w = .others left) ∧
    (v = 0 → k.ghost.lateEdit = false → due ≤ k.systick.now)

namespace InSlice

theorem lt (h : InSlice k u due) (hk : KernelInv off k) : u < k.nthread := by
  refine hk.lt_of_state fun hs => h.alive ?_
  rw [hs]
  exact .inl rfl

/-- The time has passed for a thread that `chx_timer_expired` makes ready. -/
theorem due_of_expired (hi : k.DueInv) (hl : k.ghost.lateEdit = false)
    (hp : k.systick.pending = true) (hm : .thread u ∈ k.expired) (h : k.ghost.due u = due) :
    due ≤ k.systick.now := by
  rw [← h]
  exact hi.expired hl hp hm

/-- No tick is left of a slice whose time has passed. -/
theorem due_of_left {k₁ : Kernel} (hk : KernelInv none k) (hi : k.DueInv)
    (hl : k.ghost.lateEdit = false) (hd : k.chxTimerDequeue u = .ok (k₁, 0))
    (h : k.ghost.due u = due) : due ≤ k₁.systick.now := by
  obtain ⟨front, back, hq, rfl, hz⟩ := chxTimerDequeue_ok hk.timer hd
  obtain ⟨d, hd', -, hnow⟩ := dueIn_setSystick k.systick.elapse_later (dueIn_left hq)
  have hle := (hi hl).2 u d hd'
  have hlater : k.systick.elapse.now ≤ (k.dequeued u front back).systick.now := by
    have hsys : (k.dequeued u front back).systick = k.dequeueSystick u front back := by
      simp [dequeued]
    rw [hsys, dequeueSystick]
    split
    · exact k.systick.elapse.elapse_later.now
    · exact le_rfl
  omega

/-- Who ends a slice. -/
theorem woken_of_move (hm : Move cfg op (off, k) (off', k')) (h : KernelInv off k)
    (hi : k.DueInv) (hc : ¬ op.Connects u) (hcan : op ≠ .wake u .cancel)
    (hst : (k.thread u).state = .waitTime) (hdue : k.ghost.due u = due)
    (ha : (k'.thread u).state.Active) : ∃ w v, k'.ghost.wake u = some (w, v) ∧ w ≠ .cancel ∧
      (w = .timer ∨ ∃ left, w = .others left) ∧
      (v = 0 → k'.ghost.lateEdit = false → due ≤ k'.systick.now) := by
  have hclock := (hm.passes h).1
  have hna : ¬ (k.thread u).state.Active := by
    rw [hst]
    simp [ThreadState.Active]
  by_cases hex : op = .expire
  · subst hex
    cases hm with
    | expire hp hr =>
        have he := chxTimerExpired_expired h
        by_cases hmem : .thread u ∈ k.expired
        · have hrun : k.running ≠ some u := fun hrun => hna (hr u hrun).symm
          have hw := he.wake u
          rw [if_pos ⟨hmem, hrun⟩] at hw
          refine ⟨.timer, 0, hw, by simp, .inl rfl, fun _ hl => ?_⟩
          exact (due_of_expired hi (hclock.late hl) hp hmem hdue).trans hclock.now
        · rw [he.others u hmem] at ha
          exact absurd ha hna
  by_cases hwake : ∃ w, op = .wake u w
  · obtain ⟨w, rfl⟩ := hwake
    cases hm with
    | wakeTimed hs hd hw =>
        cases hw with
        | cancel => exact absurd rfl hcan
        | others =>
            refine ⟨_, _, Function.update_self .., by simp, .inr ⟨_, rfl⟩, ?_⟩
            rintro rfl hl
            have hle := due_of_left h hi (hclock.late hl) hd hdue
            exact hle
    | wakeQueued hq hw =>
        have hholds := (h.place' u).holds hq
        cases hw <;> exact absurd (hst.symm.trans hholds) (by simp)
    | wakeLoose hs => exact absurd (hst.symm.trans hs) (by simp)
  · have hstays := hm.stays h hc (fun w hw => hwake ⟨w, hw⟩) hex hna (by
      rw [hst]
      simp [ThreadState.Ended])
    rw [hstays] at ha
    exact absurd ha hna

/-- **A thread that does nothing itself stays in its slice**, or is woken up there, unless it
is canceled. -/
theorem move (hm : Move cfg op (off, k) (off', k')) (h : KernelInv off k) (hi : k.DueInv)
    (hc : ¬ op.Connects u) (hcan : op ≠ .wake u .cancel) (hs : InSlice k u due) :
    InSlice k' u due := by
  obtain ⟨hclock, hages⟩ := hm.passes h
  have hd := hm.drift h hc (hs.lt h)
  by_cases ha : (k.thread u).state.Active
  · obtain ⟨w, v, hw, hne, hby, hdue⟩ := hs.woken ha
    cases hd with
    | active _ ha' hw' =>
        refine ⟨fun he => he.not_active ha', fun hn => absurd ha' hn, fun _ => ?_⟩
        refine ⟨w, v, hw'.trans hw, hne, hby, fun hv hl => ?_⟩
        exact (hdue hv (hclock.late hl)).trans hclock.now
    | same hn _ _ _ _ => exact absurd ha hn
    | ended he _ _ => exact absurd ha he.not_active
    | woken hb _ _ => exact absurd ha hb.not_active
  · obtain ⟨hst, hdue⟩ := hs.asleep ha
    cases hd with
    | same _ hs' _ _ _ =>
        have hage : Ages k k' u := by
          refine hages u ⟨?_, fun _ hr => ha (.inl hr)⟩
          rintro st rfl
          exact hc rfl
        exact ⟨hs' ▸ hs.alive, fun _ => ⟨hs'.trans hst, hage.due.trans hdue⟩,
          fun ha' => absurd (hs' ▸ ha') ha⟩
    | active ha' _ _ => exact absurd ha' ha
    | ended he _ _ => exact absurd he hs.alive
    | woken _ ha' _ =>
        exact ⟨fun he => he.not_active ha', fun hn => absurd ha' hn, fun _ =>
          woken_of_move hm h hi hc hcan hst hdue ha'⟩

theorem path (hp : Path cfg P (off, k) (off', k')) (h : KernelInv off k) (hi : k.DueInv)
    (hc : ∀ op, P op → ¬ op.Connects u) (hcan : ¬ P (.wake u .cancel)) (hs : InSlice k u due) :
    InSlice k' u due := by
  have key := hp.keeps (I := fun a => KernelInv a.1 a.2 ∧ a.2.DueInv ∧ InSlice a.2 u due) ?_
    ⟨h, hi, hs⟩
  · exact key.2.2
  · rintro op ⟨off, k⟩ ⟨off', k'⟩ hop hm ⟨hk, hi, hs⟩
    refine ⟨hk.move hm, hm.dueInv hk hi, hs.move hm hk hi (hc op hop) ?_⟩
    rintro rfl
    exact hcan hop

end InSlice

/-- **`chx_snooze` begins a slice.** -/
theorem chxSnooze_slice (h : KernelInv none k) (hr : Runs k t)
    (hz : k.chxSnooze cfg t .waitTime usec = .ok (k', some usec0)) :
    0 < usec ∧ usec0 = min usec (maxUsecForTimer cfg) ∧ (k'.thread t).state = .waitTime ∧
      ∃ start, k.systick.now ≤ start ∧ start ≤ k'.systick.now ∧
        k'.ghost.due t = start + usec0 * cfg.mhz := by
  rw [chxSnooze] at hz
  split at hz
  · cases hz
  rename_i hpos
  obtain ⟨k₁, he, hk⟩ := res_bind_eq_ok.1 hz
  obtain ⟨hms, hk₁, hr₁⟩ := slice_move cfg h hr he
  have hmin : (if maxUsecForTimer cfg < usec then maxUsecForTimer cfg else usec) =
      min usec (maxUsecForTimer cfg) := by
    split <;> omega
  rw [hmin] at hk
  clear hz
  cases hk
  have hmax : 0 < maxUsecForTimer cfg := maxUsecForTimer_pos
  have hle : min usec (maxUsecForTimer cfg) ≤ maxUsecForTimer cfg := Nat.min_le_right ..
  obtain ⟨hticks, hticks'⟩ := usecToTicks_le (by omega) hle
  have hm : Move cfg (.sleep t .waitTime) (some t, k₁) (none, _) :=
    .sleep hr₁.2 (.inl rfl) hticks hticks'
  have hstate := hm.sleep_state hk₁
  obtain ⟨hrun, hnot⟩ := hm.connected rfl hk₁ hr₁
  have hk₂ := hk₁.move hm
  -- the context switch leaves the thread where it is
  have hsw : Move cfg .switch (none, _) (none, _) := .switch (hk₂.notRunning fun u hu => by
    rw [hrun] at hu
    cases hu
    exact hnot)
  have hna : ¬ ThreadState.waitTime.Active := by simp [ThreadState.Active]
  obtain ⟨hclock, hages⟩ := hsw.passes hk₂
  have hage := hages t ⟨by simp, fun _ hs => by rw [hstate] at hs; cases hs⟩
  have hT : TimerInv (k₁.modThread t fun th => { th with state := .waitTime }) :=
    hk₁.timer_modThread
  refine ⟨Nat.pos_of_ne_zero hpos, rfl, ?_, k₁.systick.elapse.now, ?_, ?_, ?_⟩
  · refine (hsw.stays hk₂ id (by simp) (by simp) ?_ ?_).trans hstate
    · rw [hstate]
      exact hna
    · rw [hstate]
      simp [ThreadState.Ended]
  · exact (hms.passes h).1.now.trans k₁.systick.elapse_later.now
  · exact (chxTimerInsert_now hT).trans hclock.now
  · refine hage.due.trans ?_
    change (Kernel.chxTimerInsert cfg _ t _).ghost.due t = _
    rw [chxTimerInsert_due hT, Function.update_self, usecToTicks_eq hle]
    rfl

/-! ## Cancellation -/

/-- Only `chopstx_cancel` wakes a thread to cancel it. -/
theorem Frame.May.wake_cancel (h : f.May cfg t (.wake u .cancel)) : f = .cancel u := by
  cases f with
  | cancel tp =>
      simp only [Frame.May] at h
      grind
  | poll P pt => cases pt <;> simp only [Frame.May, PollPt.May] at h <;> grind
  | _ =>
      simp only [Frame.May] at h
      grind

theorem State.May.wake_cancel (h : s.May cfg e (.wake u .cancel)) :
    (∃ c lags, e = .run c lags) ∧ ∃ t, s.top = some (t, .cancel u) := by
  cases e with
  | tick => cases h
  | systick => rcases h with h | h <;> cases h
  | irq => rcases h with h | h <;> grind [Op.Handles]
  | pendsv => rcases h with h | h <;> cases h
  | run =>
      rcases h with h | ⟨t, f, rest, hr, hf, hmay⟩
      · cases h
      · rw [hmay.wake_cancel] at hf
        exact ⟨⟨_, _, rfl⟩, t, State.top_eq hr hf⟩

/-- A thread that does not sleep at a cancellation point stays where it is. -/
theorem cancelDequeue_none (hs : ¬ (k.thread u).state.AtPoint) : k.cancelDequeue u = .ok none := by
  rw [cancelDequeue]
  generalize (k.thread u).state = st at hs
  cases st with
  | waitCnd | waitExit | waitTime | waitPoll => exact absurd trivial hs
  | _ => rfl

/-- **`chopstx_cancel` only sets the flag** of a thread that is not cancelable, or does not sleep
at a cancellation point. -/
theorem chopstxCancel_spares (hc : k.chopstxCancel cfg t u = .ok k')
    (hs : (k.thread u).state.AtPoint → (k.thread u).flagCancelable = false) :
    k' = (k.chxCpuSchedLock.modThread u fun th =>
      { th with flagGotCancel := true }).chxCpuSchedUnlock := by
  rw [chopstxCancel] at hc
  set k₀ := k.chxCpuSchedLock.modThread u fun th => { th with flagGotCancel := true } with hk₀
  have hstate : (k₀.thread u).state = (k.thread u).state := by simp [hk₀]
  have hflag : (k₀.thread u).flagCancelable = (k.thread u).flagCancelable := by simp [hk₀]
  simp only at hc
  split at hc
  · rename_i hcan
    have hnot : ¬ (k₀.thread u).state.AtPoint := by
      rw [hstate]
      intro hp
      rw [← hflag, hcan] at hs
      cases hs hp
    rw [cancelDequeue_none hnot] at hc
    cases hc
    rfl
  · cases hc
    rfl

/-- The step cancels the thread: it finds a request in its test, or it is cancelable, and
`chopstx_cancel` takes it out of its sleep. -/
def Canceled (t : Tid) (s : State) : Event → Prop
  | .run _ _ => (s.top = some (t, .testcancel) ∧ (s.k.thread t).Canceled) ∨
      ((∃ u, s.top = some (u, .cancel t)) ∧ (s.k.thread t).flagCancelable = true ∧
        (s.k.thread t).state = .waitTime)
  | _ => False

/-! ## The slices of a wait -/

/-- A slice: its microseconds, and the ticks at which it began and ended. -/
structure Slice where
  usec : Nat
  start : Nat
  stop : Nat
  deriving DecidableEq, Repr

/-- The ticks that have passed in a slice. -/
def Slice.ticks (x : Slice) : Nat := x.stop - x.start

/-- The slice of the thread that a step ends. -/
def sliceEnd (cfg : Config) (t : Tid) (s : State) (e : Event) : List Slice :=
  match (s.ctx t).frames, step cfg s e with
  | .schedRet :: .usecWake _ usec0 :: _, .ok s' =>
      if (s.k.thread t).state = .waitTime ∧ (s'.k.thread t).state ≠ .waitTime then
        [⟨usec0, s.k.ghost.due t - usec0 * cfg.mhz, s'.k.systick.now⟩]
      else []
  | _, _ => []

/-- One slice after another, from the tick `a` to the tick `b`. -/
def InOrder (a : Nat) : List Slice → Nat → Prop
  | [], b => a ≤ b
  | x :: l, b => a ≤ x.start ∧ x.start ≤ x.stop ∧ InOrder x.stop l b

section Order

variable {a b c : Nat} {l : List Slice} {x : Slice}

theorem InOrder.mono (h : InOrder a l b) (hb : b ≤ c) : InOrder a l c := by
  induction l generalizing a with
  | nil => exact h.trans hb
  | cons x l ih => exact ⟨h.1, h.2.1, ih h.2.2⟩

theorem InOrder.append (h : InOrder a l b) (hb : b ≤ x.start) (hx : x.start ≤ x.stop)
    (hc : x.stop ≤ c) : InOrder a (l ++ [x]) c := by
  induction l generalizing a with
  | nil => exact ⟨h.trans hb, hx, hc⟩
  | cons y l ih => exact ⟨h.1, h.2.1, ih h.2.2⟩

/-- The ticks of slices that lie one after another have passed. -/
theorem InOrder.sum_le (h : InOrder a l b) : a + (l.map Slice.ticks).sum ≤ b := by
  induction l generalizing a with
  | nil => simpa [InOrder] using h
  | cons x l ih =>
      obtain ⟨ha, hx, hl⟩ := h
      have hle := ih hl
      simp only [List.map_cons, List.sum_cons, Slice.ticks] at hle ⊢
      omega

end Order

/-- After the slices `l`, all of them whole, `n` of the `usec` microseconds are left at the
tick `b`. -/
structure Waited (cfg : Config) (usec n a : Nat) (l : List Slice) (b : Nat) : Prop where
  sum : (l.map Slice.usec).sum + n = usec
  whole : ∀ x ∈ l, x.usec * cfg.mhz ≤ x.ticks
  order : InOrder a l b

namespace Waited

variable {a b c : Nat} {l : List Slice}

theorem start (h : a ≤ b) : Waited cfg usec usec a [] b :=
  ⟨by simp, by simp, h⟩

theorem mono (h : Waited cfg usec n a l b) (hb : b ≤ c) : Waited cfg usec n a l c :=
  ⟨h.sum, h.whole, h.order.mono hb⟩

/-- One more whole slice. -/
theorem slice (h : Waited cfg usec n a l b) (hle : usec0 ≤ n) (hb : b + usec0 * cfg.mhz ≤ c) :
    Waited cfg usec (n - usec0) a (l ++ [⟨usec0, b, c⟩]) c := by
  have hbc : b ≤ c := (Nat.le_add_right _ _).trans hb
  refine ⟨?_, fun x hx => ?_, h.order.append le_rfl hbc le_rfl⟩
  · have hsum := h.sum
    simp only [List.map_append, List.map_cons, List.map_nil, List.sum_append, List.sum_cons,
      List.sum_nil]
    omega
  · rcases List.mem_append.1 hx with hx | hx
    · exact h.whole x hx
    · rw [List.mem_singleton.1 hx]
      exact Nat.le_sub_of_add_le' hb

/-- The ticks of all microseconds but those that are left have passed. -/
theorem ticks_le (h : Waited cfg usec n a l b) :
    usec * cfg.mhz ≤ (l.map Slice.ticks).sum + n * cfg.mhz := by
  obtain ⟨hsum, hwhole, -⟩ := h
  have key : (l.map Slice.usec).sum * cfg.mhz ≤ (l.map Slice.ticks).sum := by
    clear hsum
    induction l with
    | nil => simp
    | cons x l ih =>
        have hx := hwhole x (List.mem_cons_self ..)
        have hl := ih fun y hy => hwhole y (List.mem_cons_of_mem _ hy)
        simp only [List.map_cons, List.sum_cons, Nat.add_mul]
        omega
  rw [← hsum, Nat.add_mul]
  omega

end Waited

/-! ## A call of `chopstx_usec_wait` -/

/-- Where the thread `t` is in the call above `rest` that has begun at the tick `a`. -/
inductive WaitAt (cfg : Config) (usec a : Nat) (rest : List Frame) (l : List Slice) (k : Kernel)
    (t : Tid) : Int → List Frame → Prop
  | loop {n : Nat} {ret : Int} : Waited cfg usec n a l k.systick.now →
      WaitAt cfg usec a rest l k t ret (.usecWait n :: rest)
  | testcancel {n : Nat} {ret : Int} : Waited cfg usec n a l k.systick.now →
      WaitAt cfg usec a rest l k t ret (.testcancel :: .usecSnooze n :: rest)
  | snooze {n : Nat} {ret : Int} : Waited cfg usec n a l k.systick.now →
      WaitAt cfg usec a rest l k t ret (.usecSnooze n :: rest)
  | asleep {n usec0 start : Nat} {ret : Int} : Waited cfg usec n a l start →
      Asked cfg n usec0 → start ≤ k.systick.now → (k.thread t).state = .waitTime →
      k.ghost.due t = start + usec0 * cfg.mhz →
      WaitAt cfg usec a rest l k t ret (.schedRet :: .usecWake n usec0 :: rest)
  | woken {n usec0 : Nat} {ret : Int} {w : Waker} :
      Waited cfg usec (n - usec0) a l k.systick.now → n ≤ usec → Asked cfg n usec0 →
      (k.thread t).state.Active → k.ghost.wake t = some (w, 0) →
      WaitAt cfg usec a rest l k t ret (.schedRet :: .usecWake n usec0 :: rest)
  | awake {n usec0 : Nat} {ret : Int} : Waited cfg usec (n - usec0) a l k.systick.now →
      n ≤ usec → Asked cfg n usec0 → ((k.thread t).flagSchedRr = false → ret = 0) →
      WaitAt cfg usec a rest l k t ret (.usecWake n usec0 :: rest)

/-- The thread is back from the call, and all its slices were whole. -/
structure WaitDone (cfg : Config) (usec a : Nat) (rest : List Frame) (l : List Slice)
    (k : Kernel) (fs : List Frame) : Prop where
  waited : Waited cfg usec 0 a l k.systick.now
  frames : fs = rest

theorem Path.now_le (hp : Path cfg P (off, k) (off', k')) (h : KernelInv off k) :
    k.systick.now ≤ k'.systick.now := by
  have key := hp.keeps (I := fun a => KernelInv a.1 a.2 ∧ k.systick.now ≤ a.2.systick.now) ?_
    ⟨h, le_rfl⟩
  · exact key.2
  · rintro op ⟨off, k₁⟩ ⟨off', k₂⟩ - hm ⟨hk, hle⟩
    exact ⟨hk.move hm, hle.trans (hm.passes hk).1.now⟩

section Call

variable {a : Nat} {l : List Slice} {c : Choice}

/-- A slice that the timer has ended: what is left is decided by the value 0, and nothing is
left of the wait of a round-robin thread. -/
theorem usecWake_next (hw : Waited cfg usec (n - usec0) a l k.systick.now)
    (ha : Asked cfg n usec0) (hn : n ≤ usec)
    (hrr : (k.thread t).flagSchedRr = true → usec ≤ maxUsecForTimer cfg)
    (hret : (k.thread t).flagSchedRr = false → ret = 0)
    (hk : frameStep cfg k t (.usecWake n usec0) rest ret c = .ok (k', ctx)) :
    WaitAt cfg usec a rest l k' t ctx.ret ctx.frames ∨
      WaitDone cfg usec a rest l k' ctx.frames := by
  have hsub : sub32 n usec0 = n - usec0 := sub32_of_le ha.word ha.le
  rw [frameStep] at hk
  simp only at hk
  by_cases hz : ret = 0
  · rw [snoozeResult, if_pos hz, if_pos rfl, hsub] at hk
    cases hk
    exact .inl (.loop hw)
  · have hround : (k.thread t).flagSchedRr = true := by
      by_contra hf
      exact hz (hret (by simpa using hf))
    have heq : n - usec0 = 0 := by
      have hmax := hrr hround
      rw [ha.eq]
      omega
    have hne : (snoozeResult cfg n usec0 ret).1 ≠ 0 := by
      rw [snoozeResult, if_neg hz]
      split
      · exact one_ne_zero
      · exact hz
    rw [if_neg hne] at hk
    cases hk
    rw [heq] at hw
    exact .inr ⟨hw, rfl⟩

/-- **A step of the thread itself.** -/
theorem WaitAt.next (hat : WaitAt cfg usec a rest l k t ret (f :: fs)) (h : KernelInv none k)
    (hv : ValueInv none k) (hr : Runs k t) (hp : f.Fits k)
    (hrr : (k.thread t).flagSchedRr = true → usec ≤ maxUsecForTimer cfg)
    (hword : ∀ f' ∈ f :: fs, f'.Word) (hcan : f = .testcancel → ¬ (k.thread t).Canceled)
    (hn : Next cfg k t fs ret f k' ctx) (hk : frameStep cfg k t f fs ret c = .ok (k', ctx)) :
    WaitAt cfg usec a rest l k' t ctx.ret ctx.frames ∨
      WaitDone cfg usec a rest l k' ctx.frames := by
  have hnow : k.systick.now ≤ k'.systick.now := (hn.path h hr hp).1.now_le h
  cases hat with
  | loop hw =>
      cases hn with
      | usecWait => exact .inl (.testcancel hw)
  | testcancel hw =>
      cases hn with
      | canceled hc hg => exact absurd ⟨hg, hc⟩ (hcan rfl)
      | testcancel => exact .inl (.snooze hw)
  | @snooze n _ hw =>
      cases hn with
      | usecEnd hz =>
          have hzero : n = 0 := snooze_end hz
          subst hzero
          exact .inr ⟨hw.mono hnow, rfl⟩
      | usecSleep hz =>
          obtain ⟨hpos, heq, hst, start, hle, hle', hdue⟩ := chxSnooze_slice (lock_inv h) hr.lock hz
          have hlt : n < 4294967296 := hword _ (List.mem_cons_self ..)
          exact .inl (.asleep (hw.mono hle) ⟨hlt, hpos, heq⟩ hle' hst hdue)
  | asleep _ _ _ hst => exact absurd (hr.2.symm.trans hst) (by simp)
  | woken hw hle ha hact hwake =>
      cases hn with
      | schedRet =>
          refine .inl (.awake hw hle ha fun hf => ?_)
          have hz := hv.plain t hact hf _ _ hwake
          rw [hz]
          rfl
  | awake hw hle ha hret => exact usecWake_next hw ha hle hrr hret hk

/-- Nobody else makes the thread ready while ticks of its slice are left: no
`chopstx_mutex_lock` and no `chopstx_join` hands a priority on to it. -/
def LeftAlone (cfg : Config) (t : Tid) (s : State) (e : Event) : Prop :=
  ∀ s' left v, step cfg s e = .ok s' → (s.k.thread t).state = .waitTime →
    (s'.k.thread t).state ≠ .waitTime → s'.k.ghost.wake t = some (.others left, v) → v = 0

/-- A step that is not one of the thread ends no slice unless it wakes the thread. -/
theorem sliceEnd_of_state (h : (s'.k.thread t).state = (s.k.thread t).state)
    (hs : step cfg s e = .ok s') : sliceEnd cfg t s e = [] := by
  rw [sliceEnd, hs]
  split
  · rename_i heq
    cases heq
    rw [if_neg]
    rintro ⟨hst, hne⟩
    exact hne (h.trans hst)
  · rfl

theorem sliceEnd_of_ne (h : (s.k.thread t).state ≠ .waitTime) : sliceEnd cfg t s e = [] := by
  rw [sliceEnd]
  split
  · rw [if_neg fun hst => h hst.1]
  · rfl

/-- **A step of somebody else.** -/
theorem WaitAt.others (hat : WaitAt cfg usec a rest l s.k t (s.ctx t).ret (s.ctx t).frames)
    (hi : MachineInv cfg s) (hst : s'.k.WakeStores) (hd : s.k.DueInv)
    (hl : s'.k.ghost.lateEdit = false) (hlt : t < s.k.nthread) (hok : LeftAlone cfg t s e)
    (hne : ∀ c lags, e = .run c lags → s.k.running ≠ some t) (hs : step cfg s e = .ok s')
    (hcan : ∀ c lags u, e = .run c lags → s.top ≠ some (u, .cancel t)) :
    WaitAt cfg usec a rest (l ++ sliceEnd cfg t s e) s'.k t (s.ctx t).ret (s.ctx t).frames := by
  have hpath := hi.path hs
  have hnow := hpath.now_le hi.kernel
  have hc : ∀ op, s.May cfg e op → ¬ op.Connects t := by
    intro op hop hc
    obtain ⟨hr, c, lags, he⟩ := hop.connects hc
    exact hne c lags he hr
  have hquiet : (s.k.thread t).state.Active → l ++ sliceEnd cfg t s e = l := by
    intro ha
    rw [sliceEnd_of_ne, List.append_nil]
    rintro hst
    rw [hst] at ha
    simp [ThreadState.Active] at ha
  have htop := hi.top t hlt
  generalize hf : (s.ctx t).frames = fs, hr : (s.ctx t).ret = r at hat htop ⊢
  cases hat with
  | loop hw =>
      rw [hquiet htop]
      exact .loop (hw.mono hnow)
  | testcancel hw =>
      rw [hquiet htop]
      exact .testcancel (hw.mono hnow)
  | snooze hw =>
      rw [hquiet htop]
      exact .snooze (hw.mono hnow)
  | awake hw hle ha hret =>
      rw [hquiet htop]
      refine .awake (hw.mono hnow) hle ha fun hrr => hret ?_
      rw [← hpath.schedRr hi.kernel hlt, hrr]
  | woken hw hle ha hact hwake =>
      rw [hquiet hact]
      cases hpath.drift hi.kernel hc hlt with
      | active _ hact' hwake' =>
          exact .woken (hw.mono hnow) hle ha hact' (hwake'.trans hwake)
      | same hn _ _ _ _ => exact absurd hact hn
      | ended he _ _ => exact absurd hact he.not_active
      | woken hb _ _ => exact absurd hact hb.not_active
  | @asleep n usec0 start _ hw ha hle hstate hdue =>
      have hin : InSlice s.k t (start + usec0 * cfg.mhz) := by
        refine ⟨?_, fun _ => ⟨hstate, hdue⟩, fun hact => ?_⟩
        · rw [hstate]
          simp [ThreadState.Ended]
        · rw [hstate] at hact
          simp [ThreadState.Active] at hact
      have hin' := hin.path hpath hi.kernel hd hc fun hop => by
        obtain ⟨⟨c, lags, he⟩, u, hu⟩ := hop.wake_cancel
        exact hcan c lags u he hu
      by_cases hact : (s'.k.thread t).state.Active
      · obtain ⟨w, v, hwake, -, hby, htime⟩ := hin'.woken hact
        have hne' : (s'.k.thread t).state ≠ .waitTime := by
          intro hst'
          rw [hst'] at hact
          simp [ThreadState.Active] at hact
        have hv : v = 0 := by
          rcases hby with rfl | ⟨left, rfl⟩
          · cases hst t _ _ hwake
            rfl
          · exact hok s' left v hs hstate hne' hwake
        subst hv
        have hend : sliceEnd cfg t s e = [⟨usec0, start, s'.k.systick.now⟩] := by
          rw [sliceEnd, hf, hs]
          simp [hstate, hne', hdue]
        rw [hend]
        have hsum := hw.sum
        exact .woken (hw.slice ha.le (htime rfl hl)) (by omega) ha hact hwake
      · obtain ⟨hst', hdue'⟩ := hin'.asleep hact
        rw [sliceEnd_of_state (hst'.trans hstate.symm) hs, List.append_nil]
        exact .asleep hw ha (hle.trans hnow) hst' hdue'

/-- The frames of the call lie above `rest`. -/
theorem WaitAt.length_lt (hat : WaitAt cfg usec a rest l k t ret fs) :
    rest.length < fs.length := by
  cases hat <;> simp only [List.length_cons] <;> omega

theorem WaitAt.congr (hat : WaitAt cfg usec a rest l k t ret fs)
    (hnow : k'.systick.now = k.systick.now) (hst : (k'.thread t).state = (k.thread t).state)
    (hrr : (k'.thread t).flagSchedRr = (k.thread t).flagSchedRr) (hg : k'.ghost = k.ghost) :
    WaitAt cfg usec a rest l k' t ret fs := by
  cases hat with
  | loop hw => exact .loop (hnow ▸ hw)
  | testcancel hw => exact .testcancel (hnow ▸ hw)
  | snooze hw => exact .snooze (hnow ▸ hw)
  | asleep hw ha hle hs hdue =>
      exact .asleep hw ha (hnow ▸ hle) (hst.trans hs) (by rw [hg, hdue])
  | woken hw hle ha hact hwake =>
      exact .woken (hnow ▸ hw) hle ha (by rw [hst]; exact hact) (by rw [hg, hwake])
  | awake hw hle ha hret =>
      exact .awake (hnow ▸ hw) hle ha fun hf => hret (hrr.symm.trans hf)

/-- A thread that sleeps in the call sleeps in one of its slices. -/
theorem WaitAt.state_of_atPoint
    (hat : WaitAt cfg usec a rest l s.k t (s.ctx t).ret (s.ctx t).frames)
    (hi : MachineInv cfg s) (hlt : t < s.k.nthread) (hp : (s.k.thread t).state.AtPoint) :
    (s.k.thread t).state = .waitTime := by
  have hna : ¬ (s.k.thread t).state.Active := by
    generalize (s.k.thread t).state = st at hp
    cases st with
    | waitCnd | waitExit | waitTime | waitPoll => simp [ThreadState.Active]
    | _ => exact absurd hp id
  have htop := hi.top t hlt
  generalize (s.ctx t).frames = fs, (s.ctx t).ret = r at hat htop
  cases hat with
  | loop | testcancel | snooze | awake => exact absurd htop hna
  | asleep _ _ _ hst => exact hst
  | woken _ _ _ hact => exact absurd hact hna

/-- The times in the frames of a thread are words, in every run. -/
theorem word_of_reach {ok : State → Event → Prop} (h : Reach (step cfg) ok (init cfg) s) (t : Tid) :
    ∀ f ∈ (s.ctx t).frames, f.Word := by
  refine Reach.invariant (P := fun s => ∀ t, ∀ f ∈ (s.ctx t).frames, f.Word) ?_ ?_ h t
  · intro t f hf
    rw [show (init cfg).ctx t = {} from rfl] at hf
    rw [List.mem_singleton.1 hf]
    trivial
  · intro s e s' hw hok hs u
    cases step_stepTo hs with
    | tick | systick | irq | pendsv => exact hw u
    | run hb hr hf hn hk =>
        rename_i c lags t f rest k' ctx
        have hword := hw t
        rw [hf] at hword
        show ∀ f ∈ (Function.update s.ctx t ctx u).frames, f.Word
        by_cases hut : u = t
        · subst hut
          rw [Function.update_self]
          exact hn.word hk hword
        · rw [Function.update_of_ne hut]
          exact hw u

/-- The steps of the machine while the call above `rest` goes on. -/
def InWait (cfg : Config) (t : Tid) (rest : List Frame) (s : State) (e : Event) : Prop :=
  InTime cfg s e ∧ LeftAlone cfg t s e ∧ ¬ Canceled t s e ∧
    rest.length < (s.ctx t).frames.length

/-- **A step of the machine while a thread is in the call.** -/
theorem WaitAt.step (hat : WaitAt cfg usec a rest l s.k t (s.ctx t).ret (s.ctx t).frames)
    (h : Reach (Chopstx.step cfg) (InTime cfg) (init cfg) s) (hlt : t < s.k.nthread)
    (hrr : (s.k.thread t).flagSchedRr = true → usec ≤ maxUsecForTimer cfg)
    (hok : InWait cfg t rest s e) (hs : Chopstx.step cfg s e = .ok s') :
    WaitAt cfg usec a rest (l ++ sliceEnd cfg t s e) s'.k t (s'.ctx t).ret (s'.ctx t).frames ∨
      WaitDone cfg usec a rest (l ++ sliceEnd cfg t s e) s'.k (s'.ctx t).frames := by
  have hi := machineInv_of_reach h
  have h' : Reach (Chopstx.step cfg) (InTime cfg) (init cfg) s' := h.tail e hok.1 hs
  obtain ⟨-, halone, hcancel, -⟩ := hok
  have hothers : (∀ c lags, e = .run c lags → s.k.running ≠ some t) →
      (∀ c lags u, e = .run c lags → s.top ≠ some (u, .cancel t)) → s'.ctx t = s.ctx t →
      WaitAt cfg usec a rest (l ++ sliceEnd cfg t s e) s'.k t (s'.ctx t).ret (s'.ctx t).frames := by
    intro hne hcan hctx
    rw [hctx]
    exact hat.others hi (wakeStores_of_reach h') (dueInv_of_reach h) (lateEdit_of_reach h') hlt
      halone hne hs hcan
  have hstate := hat.state_of_atPoint hi hlt
  cases step_stepTo hs with
  | tick | systick | irq | pendsv =>
      exact .inl (hothers (by simp) (by simp) rfl)
  | run hb hr hf hn hk =>
      rename_i c lags u f fs k' ctx
      have hsec := hi.section hb hr hf hn
      by_cases hut : t = u
      · subst hut
        have hquiet : sliceEnd cfg t s (.run c lags) = [] := by
          refine sliceEnd_of_ne fun hst => ?_
          rw [show (s.k.thread t).state = .running from hsec.runs.2] at hst
          cases hst
        have hword := word_of_reach h t
        rw [hquiet, List.append_nil]
        rw [hf] at hat hword
        simp only [Function.update_self]
        refine WaitAt.next (k := s.k.setLags lags) (hat.congr rfl rfl rfl rfl) hsec.kernel
          ⟨hi.value.fresh, hi.value.plain, hi.value.slice⟩ hsec.runs hsec.fits hrr hword
          (fun hft hcan => hcancel (.inl ⟨?_, hcan⟩)) hn hk
        rw [State.top_eq hr hf, hft]
      · have hctx : Function.update s.ctx u ctx t = s.ctx t := Function.update_of_ne hut ..
        by_cases hcan : f = .cancel t
        · subst hcan
          cases hn with
          | cancel hc =>
              -- the flag is set, and the thread goes on as before
              have hspared := chopstxCancel_spares hc fun hp => by
                by_contra hno
                exact hcancel (.inr ⟨⟨u, State.top_eq hr hf⟩, Bool.not_eq_false _ ▸ hno, hstate hp⟩)
              subst hspared
              have hlags : (s.k.setLags lags).thread = s.k.thread := rfl
              rw [sliceEnd_of_state (by simp [hlags]) hs, List.append_nil]
              simp only [hctx]
              exact .inl (hat.congr rfl (by simp [hlags]) (by simp [hlags]) rfl)
        · refine .inl (hothers (fun c' lags' he hr' => ?_) (fun c' lags' v he htop => ?_) hctx)
          · cases hr.symm.trans hr'
            exact hut rfl
          · rw [State.top_eq hr hf] at htop
            cases htop
            exact hcan rfl

end Call

/-- **A wait is not over early** where the thread is not canceled in it: the ticks of the slices
are those of the microseconds, if no other thread makes the sleeping thread ready in between and
the thread is not round-robin, or needs one slice only. -/
theorem usecWait_not_early {s₀ : State} {l : List Slice}
    (h : Reach (step cfg) (InTime cfg) (init cfg) s₀)
    (hf : (s₀.ctx t).frames = .usecWait usec :: rest)
    (hrr : (s₀.k.thread t).flagSchedRr = true → usec ≤ maxUsecForTimer cfg)
    (hl : Logged (step cfg) (InWait cfg t rest) (sliceEnd cfg t) s₀ l s)
    (hret : (s.ctx t).frames.length ≤ rest.length) :
    (s.ctx t).frames = rest ∧ usec * cfg.mhz ≤ (l.map Slice.ticks).sum ∧
      InOrder s₀.k.systick.now l s.k.systick.now := by
  have hlt : t < s₀.k.nthread := by
    by_contra hge
    have hfresh := (machineInv_of_reach h).fresh t (not_lt.1 hge)
    rw [hfresh] at hf
    cases hf
  have key := hl.keeps
    (I := fun s => Reach (step cfg) (InTime cfg) (init cfg) s ∧ t < s.k.nthread ∧
      ((s.k.thread t).flagSchedRr = true → usec ≤ maxUsecForTimer cfg))
    (P := fun l s => WaitAt cfg usec s₀.k.systick.now rest l s.k t (s.ctx t).ret (s.ctx t).frames ∨
      WaitDone cfg usec s₀.k.systick.now rest l s.k (s.ctx t).frames) ?_ ?_ ?_
  · rcases key with hat | hdone
    · exact absurd hret (not_le.2 hat.length_lt)
    · have hticks := hdone.waited.ticks_le
      rw [Nat.zero_mul, Nat.add_zero] at hticks
      exact ⟨hdone.frames, hticks, hdone.waited.order⟩
  · intro s₁ hs₁
    refine hs₁.keeps (P := fun s => Reach (step cfg) (InTime cfg) (init cfg) s ∧
      t < s.k.nthread ∧ ((s.k.thread t).flagSchedRr = true → usec ≤ maxUsecForTimer cfg)) ?_
      ⟨h, hlt, hrr⟩
    rintro s e s' ⟨hr, hlt, hrr⟩ hok hs
    have hi := machineInv_of_reach hr
    have hpath := hi.path hs
    refine ⟨hr.tail e hok.1 hs, hlt.trans_le (hpath.nthread_le hi.kernel), ?_⟩
    rw [hpath.schedRr hi.kernel hlt]
    exact hrr
  · rintro l s e s' ⟨hr, hlt, hrr⟩ - hat hok hs
    rcases hat with hat | hdone
    · exact hat.step hr hlt hrr hok hs
    · have hlen := hok.2.2.2
      rw [hdone.frames] at hlen
      exact absurd hlen (lt_irrefl _)
  · rw [hf]
    exact .inl (.loop (.start le_rfl))

/-- **A round-robin thread waits for one slice only**: it comes back with the delta of the slice
in which it runs, and this is not 0, so the call returns whatever is left. -/
theorem round_ends_wait {c : Choice} {lags : List Nat}
    (h : Reach (step cfg) anyEvent (init cfg) s) (hr : s.k.running = some t)
    (hrr : (s.k.thread t).flagSchedRr = true)
    (hf : (s.ctx t).frames = .schedRet :: .usecWake n usec0 :: rest)
    (hs : step cfg s (.run c lags) = .ok s') :
    (s'.ctx t).frames = .usecWake n usec0 :: rest ∧ ∀ c',
      frameStep cfg s'.k t (.usecWake n usec0) rest (s'.ctx t).ret c' =
        .ok (s'.k, ⟨rest, (s'.ctx t).ret⟩) := by
  have hi := machineInv_of_reach h
  cases step_stepTo hs with
  | run hb hr' hf' hn hk =>
      cases hr.symm.trans hr'
      cases hf.symm.trans hf'
      have hruns := (hi.run.runs hb hr).1
      obtain ⟨hpos, hle⟩ := hi.slice_v hruns hrr
      have hv : 0 < toInt (s.k.thread t).v := by
        rw [toInt_of_le hle]
        exact_mod_cast hpos
      cases hn
      simp only [Function.update_self]
      refine ⟨trivial, fun c' => ?_⟩
      change frameStep cfg _ t _ rest (toInt (s.k.thread t).v) c' =
        .ok (_, ⟨rest, toInt (s.k.thread t).v⟩)
      generalize toInt (s.k.thread t).v = r at hv
      have hres : (snoozeResult cfg n usec0 r).1 ≠ 0 := by
        rw [snoozeResult, if_neg hv.ne', if_pos hv]
        exact one_ne_zero
      rw [frameStep]
      simp only [if_neg hres]
      rfl

/-- The test of `LeftAlone`. -/
def leftAloneTest (cfg : Config) (t : Tid) (s : State) (e : Event) : Bool :=
  match step cfg s e with
  | .ok s' => !((s.k.thread t).state = .waitTime && (s'.k.thread t).state ≠ .waitTime) ||
      (s'.k.ghost.wake t).all fun x => x.2 = 0
  | .error _ => true

theorem leftAlone_of_test (h : leftAloneTest cfg t s e = true) : LeftAlone cfg t s e := by
  intro s' left v hs hst hst' hw
  rw [leftAloneTest, hs] at h
  simpa [hst, hst', hw] using h

/-- The test of `Canceled`. -/
def canceledTest (t : Tid) (s : State) : Event → Bool
  | .run _ _ =>
      match s.top with
      | some (u, .testcancel) => decide (u = t) && (s.k.thread t).flagGotCancel &&
          (s.k.thread t).flagCancelable
      | some (_, .cancel tp) => decide (tp = t) && (s.k.thread t).flagCancelable &&
          decide ((s.k.thread t).state = .waitTime)
      | _ => false
  | _ => false

theorem not_canceled_of_test (h : canceledTest t s e = false) : ¬ Canceled t s e := by
  cases e with
  | run c lags =>
      rintro (⟨htop, hg, hc⟩ | ⟨⟨u, htop⟩, hc, hst⟩)
      · simp [canceledTest, htop, hg, hc] at h
      · simp [canceledTest, htop, hc, hst] at h
  | tick | systick | irq | pendsv => exact id

/-- The test of `InWait` for `main`, whose call lies directly above its entry function. -/
def inWaitTest (cfg : Config) (s : State) (e : Event) : Bool :=
  inTimeTest cfg s e && leftAloneTest cfg 0 s e && !canceledTest 0 s e &&
    decide (1 < (s.ctx 0).frames.length)

theorem inWait_of_test (h : inWaitTest cfg s e = true) : InWait cfg 0 [.user] s e := by
  simp only [inWaitTest, Bool.and_eq_true, Bool.not_eq_true', decide_eq_true_eq] at h
  obtain ⟨⟨⟨htime, halone⟩, hcan⟩, hlen⟩ := h
  exact ⟨inTime_of_test htime, leftAlone_of_test halone, not_canceled_of_test hcan, hlen⟩

/-- `main` is not cancelable and waits for ten microseconds; a thread of a greater priority asks
it to end after five. -/
def protectedWait : List Event :=
  .run (.call (.setcancelstate true)) [] :: runs 2 ++ .run (.call (.create 2)) [] :: runs 1 ++
    .run (.call (.usecWait 5)) [] :: runs 3 ++ [.run (.call (.usecWait 10)) []]

/-- `main` sleeps all of its ten microseconds. -/
theorem usecWait_not_early_ten : ∃ s₀ s : State, (s₀.ctx 0).frames = [.usecWait 10, .user] ∧
    (s.ctx 0).frames = [.user] ∧ (s.k.thread 0).flagGotCancel = true ∧
    10 * plainConfig.mhz ≤ ([⟨10, 0, 10⟩].map Slice.ticks).sum ∧
    InOrder s₀.k.systick.now [⟨10, 0, 10⟩] s.k.systick.now := by
  have htest : runTest (step plainConfig) (inTimeTest plainConfig)
      (fun s => decide ((s.ctx 0).frames = [.usecWait 10, .user] ∧
          (s.k.thread 0).flagSchedRr = false) &&
        logTest (step plainConfig) (inWaitTest plainConfig) (sliceEnd plainConfig 0)
          (fun l s => decide (l = [⟨10, 0, 10⟩] ∧ (s.ctx 0).frames = [.user] ∧
            (s.k.thread 0).flagGotCancel = true)) [] s
          (runs 3 ++ List.replicate 5 .tick ++ [.systick [], .pendsv []] ++ runs 5 ++
            .run (.call (.cancel 0)) [] :: runs 1 ++ .run (.call (.usecWait 100)) [] :: runs 3 ++
            List.replicate 5 .tick ++ [.systick [], .pendsv []] ++ runs 5))
      (init plainConfig) protectedWait = true := by decide +kernel
  obtain ⟨s₀, hr, hp⟩ := reach_of_runTest htest
  rw [Bool.and_eq_true, decide_eq_true_eq] at hp
  obtain ⟨⟨hf, hrr⟩, hp⟩ := hp
  obtain ⟨l, s, hl, hp⟩ := logged_of_logTest (.refl s₀) hp
  obtain ⟨rfl, hf', hg⟩ := of_decide_eq_true hp
  have hdone := usecWait_not_early (hr.mono fun _ _ => inTime_of_test) hf
    (by rw [hrr]; exact Bool.noConfusion) (hl.mono fun _ _ => inWait_of_test) (by rw [hf'])
  exact ⟨s₀, s, hf, hdone.1, hg, hdone.2⟩

/-- `main` has locked a mutex and waits for 100 microseconds; a thread of a greater priority
locks the mutex after five. -/
def lockedWait : List Event :=
  .run (.call (.mutexLock 0)) [] :: runs 1 ++ .run (.call (.create 2)) [] :: runs 1 ++
    .run (.call (.usecWait 5)) [] :: runs 3 ++ [.run (.call (.usecWait 100)) []]

/-- **`chopstx_usec_wait` returns after 5 of 100 ticks**: the owner of the mutex is handed a
priority while it sleeps. -/
theorem usecWait_early : ∃ (s₀ s : State) (l : List Slice),
    Reach (step plainConfig) anyEvent (init plainConfig) s₀ ∧
    (s₀.ctx 0).frames = [.usecWait 100, .user] ∧
    Logged (step plainConfig) anyEvent (sliceEnd plainConfig 0) s₀ l s ∧
    (s.ctx 0).frames = [.user] ∧ (s.k.thread 0).flagGotCancel = false ∧
    (l.map Slice.ticks).sum < 100 * plainConfig.mhz := by
  have htest : runTest (step plainConfig) (fun _ _ => true)
      (fun s => decide ((s.ctx 0).frames = [.usecWait 100, .user]) &&
        logTest (step plainConfig) (fun _ _ => true) (sliceEnd plainConfig 0)
          (fun l s => decide (l = [⟨100, 0, 5⟩] ∧ (s.ctx 0).frames = [.user] ∧
            (s.k.thread 0).flagGotCancel = false)) [] s
          (runs 3 ++ List.replicate 5 .tick ++ [.systick [], .pendsv []] ++ runs 5 ++
            .run (.call (.mutexLock 0)) [] :: runs 3))
      (init plainConfig) lockedWait = true := by decide +kernel
  obtain ⟨s₀, hr, hp⟩ := reach_any_of_runTest htest
  rw [Bool.and_eq_true, decide_eq_true_eq] at hp
  obtain ⟨hf, hp⟩ := hp
  obtain ⟨l, s, hl, hp⟩ := logged_of_logTest (.refl s₀) hp
  obtain ⟨rfl, hf', hc⟩ := of_decide_eq_true hp
  exact ⟨s₀, s, _, hr, hf, hl.mono fun _ _ _ => trivial, hf', hc, by decide⟩

end Chopstx
