import Chopstx.Linux.Sched
import Chopstx.Property.Queues

/-!
# The value of a wake-up on GNU/Linux

`chx_sched` of the emulation loads `v` from the thread that it switches to, before the
switch, and returns it to the thread that it switches from, when that one is resumed.  The
Cortex-M port loads the field `v` of the thread that is resumed.  So a thread that slept
gets the value with which another thread was woken up, or 0.

* `Switches` - the switches that a section of `Chopstx.Linux.Sched` makes, as a path of moves.
* `Slept`, `Inv` - each thread that sleeps has the value of its waker in `v`; the invariant of a
  run.
* `Inv.step`, `inv_of_reach` - one step, and any number of them.
* `headValue`, `chxSched_value` - the value that is loaded: that of the head of `q_ready`.
* `saved_run` - it is kept until the thread is resumed.
* `linuxSched_returns` - the result: whose value a sleeper gets, and when it is its own.
* `linuxSched_returns_idle`, `linuxSched_returns_other` - a run for each case.
-/

namespace Chopstx.Linux

open Kernel

variable {cfg : Config} {k k' : Kernel} {t u : Tid} {off off' : Option Tid} {op : Op}
  {s s' s₁ : State} {e : Event} {v prio : Nat} {ok : Event → Prop}

/-! ## Switches as moves -/

/-- The switch is the one of the Cortex-M port, apart from the mask of interrupts. -/
theorem switchTo_eq (cfg : Config) (k : Kernel) : (switchTo cfg k).1 =
    { k.switchThread cfg with masked := (switchTo cfg k).1.masked } := by
  cases hp : k.chxReadyPop with
  | none => simp only [switchTo, switchThread, hp]
  | some r => simp only [switchTo, switchThread, hp]

theorem switchTo_path {P : Op → Prop} (h : KernelInv none k)
    (hs : ∀ u, (k.thread u).state ≠ .running) (hsw : P .switch) (haux : P .aux) :
    Path cfg P (none, k) (none, (switchTo cfg k).1) ∧ Settled (switchTo cfg k).1 := by
  rw [switchTo_eq]
  have hmove : Move cfg .switch (none, k) (none, k.switchThread cfg) := .switch hs
  exact ⟨(hmove.path hsw).tail (.aux _ _ _ _ le_rfl fun _ _ => rfl) haux, (h.switch hs).2⟩

/-- The moves of a switch. -/
inductive Switches : Op → Prop
  | aux : Switches .aux
  | slice (t : Tid) : Switches (.slice t)
  | yield (t : Tid) : Switches (.yield t)
  | norun (t : Tid) : Switches (.norun t)
  | switch : Switches .switch

theorem Switches.not_connects (h : Switches op) : ¬ op.Connects u := by
  cases h <;> exact id

/-- The end of a switch away from a thread that may run on. -/
theorem switchTo_leave (h : KernelInv none k) (hp : Path cfg Switches (off, k') (none, k))
    (hr : k.running = none) :
    Path cfg Switches (off, k') (none, (switchTo cfg k).1) ∧ Settled (switchTo cfg k).1 := by
  have hs : ∀ u, (k.thread u).state ≠ .running := by
    intro u hu
    have hru := h.one u hu
    rw [hr] at hru
    cases hru
  have hsw := @switchTo_path cfg k Switches h hs .switch .aux
  exact ⟨hp.trans hsw.1, hsw.2⟩

theorem chxSched_sleep_path (h : KernelInv none k) (hr : k.running = some t)
    (hs : ¬ (k.thread t).state.Active) (hk : chxSched cfg k t false = .ok (k', v)) :
    Path cfg Switches (none, k) (none, k') ∧ Settled k' := by
  have hk' : k' = (switchTo cfg k).1 := (congrArg Prod.fst (Except.ok.inj hk)).symm
  subst hk'
  refine switchTo_path h (h.notRunning fun u hu hrun => ?_) .switch .aux
  rw [hr] at hu
  cases hu
  exact hs (.inr hrun)

theorem chxSched_yield_path (h : KernelInv none k) (hr : k.running = some t)
    (hs : (k.thread t).state = .running) (hk : chxSched cfg k t true = .ok (k', v)) :
    Path cfg Switches (none, k) (none, k') ∧ Settled k' := by
  rw [chxSched, if_pos rfl] at hk
  obtain ⟨k₁, he, hk⟩ := res_bind_eq_ok.1 hk
  have hk' := congrArg Prod.fst (Except.ok.inj hk)
  subst hk'
  have hm₁ : Move cfg (.slice t) (none, k) (some t, k₁) := .slice hr hs he
  have hs₁ : (k₁.thread t).state = .running := by
    rw [(h.slice hs he).2.2.2 t]
    exact hs
  have hm₂ : Move cfg (.yield t) (some t, k₁) _ := .yield hs₁
  exact switchTo_leave ((h.move hm₁).move hm₂) ((hm₁.path (.slice t)).tail hm₂ (.yield t)) rfl

theorem chxRequestPreemption_path (h : KernelInv none k)
    (hr : ∀ t, k.running = some t → (k.thread t).state = .running ∨
      (k.thread t).state = .ready ∧ (k.thread t).flagSchedRr = true)
    (hk : chxRequestPreemption cfg k prio = .ok k') :
    Path cfg Switches (none, k) (none, k') ∧ Settled k' := by
  rw [chxRequestPreemption] at hk
  split at hk
  · rename_i hrun
    cases hk
    exact switchTo_leave h .refl hrun
  · rename_i t hrun
    split at hk
    · cases hk
    · split at hk
      · rename_i hrr
        split at hk
        · rename_i hs
          obtain ⟨⟨k₁, n⟩, hd, hk⟩ := res_bind_eq_ok.1 hk
          cases hk
          have he : k.endSlice t = .ok k₁ := by
            rw [endSlice, if_pos hrr, hd]
            rfl
          have hm₁ : Move cfg (.slice t) (none, k) (some t, k₁) := .slice hrun hs he
          have hs₁ : (k₁.thread t).state = .running := by
            rw [(h.slice hs he).2.2.2 t]
            exact hs
          have hm₂ : Move cfg (.yield t) (some t, k₁) _ := .yield hs₁
          exact switchTo_leave ((h.move hm₁).move hm₂)
            ((hm₁.path (.slice t)).tail hm₂ (.yield t)) rfl
        · rename_i hs
          cases hk
          have hready : (k.thread t).state = .ready := by
            rcases hr t hrun with h' | h'
            · exact absurd h' hs
            · exact h'.1
          have hm₁ : Move cfg (.norun t) (none, k) _ := .norun hrun hready
          exact switchTo_leave (h.move hm₁) (hm₁.path (.norun t)) rfl
      · rename_i hrr
        cases hk
        have hs : (k.thread t).state = .running := by
          rcases hr t hrun with h' | h'
          · exact h'
          · exact absurd h'.2 hrr
        have hm₁ : Move cfg (.yield t) (none, k) _ := .push hrun hs (by simpa using hrr)
        exact switchTo_leave (h.move hm₁) (hm₁.path (.yield t)) rfl

/-! ## Sleepers -/

/-- The thread still sleeps, or it has been woken up. -/
def Slept (k : Kernel) (t : Tid) : Prop :=
  ¬ (k.thread t).state.Active ∨ ∃ w v, k.ghost.wake t = some (w, v)

theorem Slept.drift (h : Slept k t) (hd : Drift k k' t) : Slept k' t := by
  cases hd with
  | same hn hs hp hv hw => exact .inl (hs ▸ hn)
  | active hs hs' hw =>
      rcases h with h | h
      · exact absurd hs h
      · exact .inr (hw ▸ h)
  | ended hs hs' hv => exact .inl hs'.not_active
  | woken hb hs' hw => exact .inr ⟨_, _, hw⟩

/-- What every run keeps. -/
structure Inv (s : State) : Prop where
  kernel : KernelInv s.off s.k
  value : ValueInv s.off s.k
  born : ∀ t, s.saved t ≠ .code → t < s.k.nthread
  runs : ∀ t, s.k.running = some t → s.saved t ≠ .code → (s.k.thread t).state = .running
  slept : ∀ t v, s.saved t = .sched false v → Slept s.k t

/-- The code of `chopstx.c` runs on. -/
theorem running_code (hm : Move cfg op (off, k) (off', k')) (h : KernelInv off k)
    (hop : IsCode op) : k'.running = k.running := by
  cases hm with
  | wakeTimed hs hd hw =>
      obtain ⟨front, back, -, rfl, -⟩ := chxTimerDequeue_ok h.timer hd
      rfl
  | slice hr hs he => exact (h.slice hs he).2.1
  | sleep hs hst hpos hle => exact chxTimerInsert_running h.timer.threads
  | expire hp hr => exact (chxTimerExpired_expired h).running
  | yield | push | norun | switch => exact hop.elim
  | _ => rfl

theorem init_inv (cfg : Config) : Inv (init cfg) := by
  have h := Chopstx.init_inv cfg
  have hm : Move cfg .aux (none, initKernel cfg) (none, (init cfg).k) :=
    .aux false _ _ _ le_rfl fun _ _ => rfl
  refine ⟨h.kernel.move hm, h.value.move hm h.kernel, ?_, ?_, ?_⟩
  · intro t ht
    exact absurd rfl ht
  · intro t _ ht
    exact absurd rfl ht
  · intro t v ht
    cases ht

/-- The kernel goes on by moves, which connect no thread that is in `chx_sched`. -/
theorem Inv.path {P : Op → Prop} {saved : Tid → Saved} (h : Inv s)
    (hp : Path cfg P (s.off, s.k) (off', k'))
    (hc : ∀ op t, P op → op.Connects t → saved t = .code)
    (hsaved : ∀ t, saved t = s.saved t ∨ s.k.running = some t ∧
      ∀ v, saved t = .sched false v → ¬ (s.k.thread t).state.Active)
    (hruns : ∀ t, k'.running = some t → saved t ≠ .code → (k'.thread t).state = .running) :
    Inv ⟨off', k', saved⟩ := by
  have hborn : ∀ t, saved t ≠ .code → t < s.k.nthread := by
    intro t ht
    rcases hsaved t with he | ⟨hr, -⟩
    · exact h.born t (he ▸ ht)
    · exact h.kernel.born t hr
  refine ⟨h.kernel.path hp, h.value.path hp h.kernel, fun t ht => ?_, hruns, fun t v ht => ?_⟩
  · exact (hborn t ht).trans_le (hp.nthread_le h.kernel)
  · have hne : saved t ≠ .code := by
      intro he
      cases he.symm.trans ht
    have hslept : Slept s.k t := by
      rcases hsaved t with he | ⟨-, ha⟩
      · exact h.slept t v (he.symm.trans ht)
      · exact .inl (ha v ht)
    exact hslept.drift (hp.drift h.kernel (fun op hop hcon => hne (hc op t hop hcon)) (hborn t hne))

/-- The thread that a move connects to something is running. -/
theorem running_of_connects (hm : Move cfg op (off, k) (off', k')) (h : KernelInv off k)
    (hc : op.Connects t) : k.running = some t := by
  cases hm with
  | block hs | sleep hs | pollSleep hs | die hs =>
      cases hc
      exact h.one _ hs
  | _ => exact hc.elim

theorem Inv.kernel' (h : Inv s) (hoff : s.off = none) : KernelInv none s.k :=
  hoff ▸ h.kernel

/-- A step of the thread `t` into `chx_sched`, or a signal. -/
theorem Inv.switch {saved : Tid → Saved} (h : Inv s) (hoff : s.off = none)
    (hp : Path cfg Switches (none, s.k) (none, k') ∧ Settled k')
    (hsaved : ∀ t, saved t = s.saved t ∨ s.k.running = some t ∧
      ∀ v, saved t = .sched false v → ¬ (s.k.thread t).state.Active) :
    Inv { s with k := k', saved := saved } := by
  obtain ⟨off, k, saved₀⟩ := s
  cases hoff
  refine h.path hp.1 (fun op t hop hc => ?_) hsaved fun t ht _ => hp.2 t ht
  exact absurd hc hop.not_connects

/-- A thread goes on with its code. -/
theorem Inv.resume (h : Inv s) (hr : s.k.running = some t) :
    Inv { s with saved := Function.update s.saved t .code } := by
  have hsame : ∀ {u}, Function.update s.saved t .code u ≠ .code →
      Function.update s.saved t .code u = s.saved u := by
    intro u hu
    refine Function.update_of_ne ?_ _ _
    rintro rfl
    rw [Function.update_self] at hu
    exact hu rfl
  refine ⟨h.kernel, h.value, fun u hu => ?_, fun u hru hu => ?_, fun u v hu => ?_⟩
  · exact h.born u (hsame hu ▸ hu)
  · exact h.runs u hru (hsame hu ▸ hu)
  · have hne : Function.update s.saved t .code u ≠ .code := by
      intro he
      cases he.symm.trans hu
    exact h.slept u v ((hsame hne).symm.trans hu)

/-- **One step keeps the invariant.** -/
theorem Inv.step (h : Inv s) (hs : Step cfg s e s') : Inv s' := by
  cases hs with
  | code hx hop hm =>
      rename_i op off k
      refine h.path (hm.path (P := (· = op)) rfl) ?_ (fun _ => .inl rfl) ?_
      · rintro _ t rfl hc
        exact hx t (running_of_connects hm h.kernel hc)
      · intro t ht hne
        rw [running_code hm h.kernel hop] at ht
        exact absurd (hx t ht) hne
  | sleep hx hoff hr hs hk =>
      rename_i t k v
      refine h.switch hoff (chxSched_sleep_path (h.kernel' hoff) hr hs hk) fun u => ?_
      by_cases hut : u = t
      · subst hut
        exact .inr ⟨hr, fun _ _ => hs⟩
      · exact .inl (Function.update_of_ne hut _ _)
  | yield hx hoff hr hs hk =>
      rename_i t k v
      refine h.switch hoff (chxSched_yield_path (h.kernel' hoff) hr hs hk) fun u => ?_
      by_cases hut : u = t
      · subst hut
        refine .inr ⟨hr, fun v hv => ?_⟩
        rw [Function.update_self] at hv
        cases hv
      · exact .inl (Function.update_of_ne hut _ _)
  | preempt hx hoff hs hk =>
      refine h.switch hoff (chxRequestPreemption_path (h.kernel' hoff) hs hk) fun u => ?_
      cases hr : s.k.running with
      | none => exact .inl rfl
      | some t =>
          by_cases hut : u = t
          · subst hut
            refine .inr ⟨rfl, fun v hv => ?_⟩
            simp only [Function.update_self] at hv
            cases hv
          · exact .inl (Function.update_of_ne hut _ _)
  | back hr hsv => exact h.resume hr
  | ret hr hsv => exact h.resume hr

theorem Run.inv (h : Run cfg ok s s') (hi : Inv s) : Inv s' := by
  induction h with
  | refl => exact hi
  | tail _ _ hs ih => exact ih.step hs

/-- **The invariant holds in every reachable state.** -/
theorem inv_of_reach (h : Reach cfg s) : Inv s :=
  Run.inv h (init_inv cfg)

/-! ## The value returned -/

/-- The field `v` of the first thread of `q_ready`, or 0 if there is none. -/
def headValue (k : Kernel) : Nat :=
  match k.queue .ready with
  | .thread u :: _ => (k.thread u).v
  | _ => 0

/-- The local variable `v` belongs to the thread that is switched to. -/
theorem switchTo_value (cfg : Config) (k : Kernel) : (switchTo cfg k).2 = headValue k := by
  rw [switchTo, chxReadyPop, llPop, headValue]
  cases k.queue .ready with
  | nil => rfl
  | cons p rest =>
      cases p with
      | proxy p => rfl
      | thread u => simp

theorem chxSched_value (hk : chxSched cfg k t false = .ok (k', v)) : v = headValue k := by
  have hv : v = (switchTo cfg k).2 := (congrArg Prod.snd (Except.ok.inj hk)).symm
  rw [hv, switchTo_value]

/-- A thread in `chx_sched` stays there, with its `v`, until `chx_sched` returns. -/
theorem saved_step {yield : Bool} (hs : Step cfg s e s') (hsv : s.saved t = .sched yield v)
    (hret : ∀ n, e ≠ .ret t n) : s'.saved t = .sched yield v := by
  have hother : ∀ {u x}, s.saved u = x → x ≠ .sched yield v → t ≠ u := by
    rintro u x hu hx rfl
    exact hx (hu.symm.trans hsv)
  cases hs with
  | code => exact hsv
  | sleep hx hoff hr =>
      exact (Function.update_of_ne (hother (hx _ hr) (by simp)) _ _).trans hsv
  | yield hx hoff hr =>
      exact (Function.update_of_ne (hother (hx _ hr) (by simp)) _ _).trans hsv
  | preempt hx =>
      cases hr : s.k.running with
      | none => exact hsv
      | some u => exact (Function.update_of_ne (hother (hx _ hr) (by simp)) _ _).trans hsv
  | back hr hu => exact (Function.update_of_ne (hother hu (by simp)) _ _).trans hsv
  | ret hr hu =>
      refine (Function.update_of_ne ?_ _ _).trans hsv
      rintro rfl
      exact hret _ rfl

theorem saved_run {yield : Bool} (h : Run cfg (fun e => ∀ n, e ≠ .ret t n) s s')
    (hsv : s.saved t = .sched yield v) : s'.saved t = .sched yield v := by
  induction h with
  | refl => exact hsv
  | tail _ hok hs ih => exact saved_step hs ih hok

/-- The value is the one in the field `v` of the thread, and its waker has stored it. -/
def OwnValue (k : Kernel) (t : Tid) (n : Nat) : Prop :=
  n = (k.thread t).v ∧ ∃ w, k.ghost.wake t = some (w, n)

/-- **A thread that sleeps in `chx_sched` gets the value that its own waker stored if and
only if this is the value that the thread at the head of `q_ready` had when the first one
went to sleep.** -/
theorem linuxSched_returns (cfg : Config) (s₀ s₁ s₂ s₃ : State) (t : Tid) (n : Nat)
    (h : Reach cfg s₀) (hsleep : Step cfg s₀ (.sched t false) s₁)
    (hrun : Run cfg (fun e => ∀ n, e ≠ .ret t n) s₁ s₂) (hret : Step cfg s₂ (.ret t n) s₃)
    (hrr : (s₂.k.thread t).flagSchedRr = false) :
    OwnValue s₂.k t n ↔ ∃ w, s₂.k.ghost.wake t = some (w, headValue s₀.k) := by
  have hsv : s₁.saved t = .sched false (headValue s₀.k) := by
    cases hsleep with
    | sleep hx hoff hr hs hk =>
        rw [← chxSched_value hk]
        exact Function.update_self ..
  have hsv₂ := saved_run hrun hsv
  have hn : n = headValue s₀.k := by
    cases hret with
    | ret hr hu =>
        cases hu.symm.trans hsv₂
        rfl
  have hr : s₂.k.running = some t := by
    cases hret with
    | ret hr hu => exact hr
  have hi : Inv s₂ := hrun.inv ((inv_of_reach h).step hsleep)
  have hstate : (s₂.k.thread t).state = .running := hi.runs t hr (by rw [hsv₂]; simp)
  obtain ⟨w, v, hw⟩ := (hi.slept t _ hsv₂).resolve_left (not_not.2 (.inr hstate))
  have hown := hi.value.plain t (.inr hstate) hrr w v hw
  rw [← hn]
  constructor
  · exact fun ho => ho.2
  · rintro ⟨w', hw'⟩
    cases hw.symm.trans hw'
    exact ⟨hown.symm, w, hw⟩

/-! ## Runs -/

theorem State.Executing.of_code (hr : s.k.running = some t) (h : s.saved t = .code) :
    s.Executing := by
  intro u hu
  cases hr.symm.trans hu
  exact h

theorem State.Executing.of_idle (hr : s.k.running = none) : s.Executing := by
  intro u hu
  cases hr.symm.trans hu

theorem Run.code (h : Run cfg ok s s₁) (hm : Move cfg op (s₁.off, s₁.k) (off, k))
    (hok : ok (.code op)) (hop : IsCode op) (hx : s₁.Executing) :
    Run cfg ok s { s₁ with off := off, k := k } :=
  h.tail hok (.code hx hop hm)

theorem Run.sleep (_ : Run cfg ok s s₁) (hx : s₁.Executing) (hoff : s₁.off = none)
    (hr : s₁.k.running = some t) (hs : ¬ (s₁.k.thread t).state.Active)
    (hk : chxSched cfg s₁.k t false = .ok (k', v)) : Step cfg s₁ (.sched t false)
      { s₁ with k := k', saved := Function.update s₁.saved t (.sched false v) } :=
  .sleep hx hoff hr hs hk

/-- A run that starts after a step. -/
theorem Step.run (_ : Step cfg s e s') : Run cfg ok s' s' := .refl s'

/-- `main` calls `chopstx_usec_wait (100)` while no other thread is ready, and its time runs
out. -/
theorem linuxSched_returns_idle : ∃ s : State, OwnValue s.k 0 0 := by
  have h₀ : Reach plainConfig (init plainConfig) := .refl _
  have h₁ := h₀.code (.slice rfl rfl rfl) trivial trivial (.of_code rfl rfl)
  have h₂ := h₁.code (@Move.sleep plainConfig _ 0 .waitTime 100 rfl (.inl rfl) (by decide)
    (by decide)) trivial trivial (.of_code rfl rfl)
  have hs := h₂.sleep (.of_code rfl rfl) rfl rfl
    (by rintro (h | h) <;> exact absurd h (by decide)) rfl
  have hr₀ : Run plainConfig (fun e => ∀ n, e ≠ .ret 0 n) _ _ := hs.run
  have hr₁ := hr₀.code (.pass (Systick.advance_later _ 100)) (by simp) trivial (.of_idle rfl)
  have hr₂ := hr₁.code (.expire rfl (by rintro u ⟨⟩)) (by simp) trivial (.of_idle rfl)
  have hr₃ := hr₂.tail (e := .preempt 255) (by simp)
    (.preempt (.of_idle rfl) rfl (by rintro u ⟨⟩) rfl)
  have hiff := linuxSched_returns plainConfig _ _ _ _ 0 0 h₂ hs hr₃ (.ret rfl rfl) rfl
  exact ⟨_, hiff.2 ⟨.timer, rfl⟩⟩

/-- `main` creates a thread of lower priority and calls `chopstx_usec_wait (100)`; the other
thread cancels it.  The result of `chx_sched` is not -1 but the 0 of the other thread. -/
theorem linuxSched_returns_other : ∃ s₀ s₁ s₂ s₃ : State, Reach plainConfig s₀ ∧
    Step plainConfig s₀ (.sched 0 false) s₁ ∧
    Run plainConfig (fun e => ∀ n, e ≠ .ret 0 n) s₁ s₂ ∧ Step plainConfig s₂ (.ret 0 0) s₃ ∧
    (s₂.k.thread 0).flagSchedRr = false ∧ s₂.k.ghost.wake 0 = some (.cancel, minusOne) ∧
    ¬ OwnValue s₂.k 0 0 := by
  have h₀ : Reach plainConfig (init plainConfig) := .refl _
  have h₁ := h₀.code (.create 0) trivial trivial (.of_code rfl rfl)
  have h₂ := h₁.code (.slice rfl rfl rfl) trivial trivial (.of_code rfl rfl)
  have h₃ := h₂.code (@Move.sleep plainConfig _ 0 .waitTime 100 rfl (.inl rfl) (by decide)
    (by decide)) trivial trivial (.of_code rfl rfl)
  have hs := h₃.sleep (.of_code rfl rfl) rfl rfl
    (by rintro (h | h) <;> exact absurd h (by decide)) rfl
  have hr₀ : Run plainConfig (fun e => ∀ n, e ≠ .ret 0 n) _ _ := hs.run
  have hr₁ := hr₀.code (.flags (t := 0) .cancel) (by simp) trivial (.of_code rfl rfl)
  have hr₂ := hr₁.code (.wakeTimed (t := 0) (.inl rfl) rfl .cancel) (by simp) trivial
    (.of_code rfl rfl)
  have hr₃ := hr₂.tail (by simp) (.yield (t := 1) (.of_code rfl rfl) rfl rfl rfl rfl)
  refine ⟨_, _, _, _, h₃, hs, hr₃, .ret rfl rfl, rfl, rfl, ?_⟩
  rintro ⟨-, w, hw⟩
  cases hw

end Chopstx.Linux
