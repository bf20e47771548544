import Chopstx.Run.Path

/-!
# What a step of the machine can be

`StepTo` lists the outcomes of `step`, and `State.May` the moves of the section or of
the handler that a step consists of.

* `StepTo`, `step_stepTo` - the outcomes of a step, and that there are no others.
* `State.May`, `Event.lags` - the moves of a step, and the time that passes at its accesses to the
  SysTick registers.
* `RunInv` - `running` names a thread that runs, or one whose slice is over and that PendSV is
  going to take the processor from.
* `runs` - a number of steps of the running thread, for runs that are computed.
-/

namespace Chopstx

open Kernel

/-- The running thread with its innermost frame. -/
def State.top (s : State) : Option (Tid × Frame) :=
  match s.k.running with
  | none => none
  | some t => (s.ctx t).frames.head?.map (t, ·)

theorem State.top_eq {s : State} {t : Tid} {f : Frame} {rest : List Frame}
    (hr : s.k.running = some t) (hf : (s.ctx t).frames = f :: rest) : s.top = some (t, f) := by
  rw [State.top, hr]
  simp [hf]

/-- `n` steps of the running thread, in which it calls nothing. -/
def runs (n : Nat) : List Event := List.replicate n (.run .none [])

/-- The outcomes of `step`. -/
inductive StepTo (cfg : Config) (s : State) : Event → State → Prop
  | tick : StepTo cfg s .tick ⟨s.k.setSystick (s.k.systick.advance 1), s.ctx⟩
  | systick {lags : List Nat} (hp : s.k.systick.pending = true) (hm : s.k.masked = false) :
      StepTo cfg s (.systick lags)
        ⟨((s.k.setLags lags).setSystick
          { (s.k.setLags lags).systick with pending := false }).chxTimerExpired, s.ctx⟩
  | irq {n : Irq} {lags : List Nat} {k' : Kernel} (hi : s.k.irq n = true)
      (hm : s.k.masked = false) (hk : (s.k.setLags lags).chxHandleIntr n = .ok k') :
      StepTo cfg s (.irq n lags) ⟨k', s.ctx⟩
  | pendsv {lags : List Nat} {k' : Kernel} (hp : s.k.pendsv = true) (hm : s.k.masked = false)
      (hk : (s.k.setLags lags).preempt cfg = .ok k') : StepTo cfg s (.pendsv lags) ⟨k', s.ctx⟩
  | run {c : Choice} {lags : List Nat} {t : Tid} {f : Frame} {rest : List Frame} {k' : Kernel}
      {ctx : Ctx} (hb : (s.k.systick.pending = true ∨ s.k.pendsv = true) → s.k.masked = true)
      (hr : s.k.running = some t) (hf : (s.ctx t).frames = f :: rest)
      (hn : Next cfg (s.k.setLags lags) t rest (s.ctx t).ret f k' ctx)
      (hk : frameStep cfg (s.k.setLags lags) t f rest (s.ctx t).ret c = .ok (k', ctx)) :
      StepTo cfg s (.run c lags) ⟨k', Function.update s.ctx t ctx⟩

variable {cfg : Config} {s s' : State} {e : Event} {k k' : Kernel} {t u : Tid}

/-- **Every step of the machine is one of these.** -/
theorem step_stepTo (h : step cfg s e = .ok s') : StepTo cfg s e s' := by
  cases e with
  | tick =>
      cases h
      exact .tick
  | systick lags =>
      simp only [step] at h
      split at h
      · rename_i hc
        cases h
        exact .systick hc.1 (by simpa using hc.2)
      · cases h
  | irq n lags =>
      simp only [step] at h
      split at h
      · rename_i hc
        obtain ⟨k₁, hk, h⟩ := res_bind_eq_ok.1 h
        cases h
        exact .irq hc.1 (by simpa using hc.2) hk
      · cases h
  | pendsv lags =>
      simp only [step] at h
      split at h
      · rename_i hc
        obtain ⟨k₁, hk, h⟩ := res_bind_eq_ok.1 h
        cases h
        exact .pendsv hc.1 (by simpa using hc.2.2) hk
      · cases h
  | run c lags =>
      simp only [step] at h
      split at h
      · cases h
      · rename_i hb
        rw [threadStep] at h
        split at h
        · cases h
        · rename_i t hr
          split at h
          · cases h
          · rename_i f rest hf
            obtain ⟨⟨k₁, ctx⟩, hk, h⟩ := res_bind_eq_ok.1 h
            cases h
            refine .run (fun hp => ?_) hr hf (frameStep_next hk) hk
            by_contra hm
            exact hb ⟨hp, hm⟩

/-- The moves of a step. -/
def State.May (cfg : Config) (s : State) : Event → Op → Prop
  | .tick => (· = .pass)
  | .systick _ => fun op => op = .pass ∨ op = .expire
  | .irq n _ => fun op => op = .pass ∨ op.Handles n
  | .pendsv _ => fun op => op = .pass ∨ op.Preempts
  | .run _ _ => fun op => op = .pass ∨ ∃ t f rest, s.k.running = some t ∧
      (s.ctx t).frames = f :: rest ∧ f.May cfg t op

/-- The time that passes at the accesses to the SysTick registers. -/
def Event.lags : Event → List Nat
  | .tick => []
  | .run _ lags | .systick lags | .irq _ lags | .pendsv lags => lags

/-- Only time passes. -/
theorem setLags_move {off : Option Tid} {lags : List Nat} :
    Move cfg .pass (off, k) (off, k.setLags lags) := by
  obtain ⟨h₁, h₂, h₃, h₄, h₅, h₆, h₇⟩ := Systick.Later.refl k.systick
  exact .pass (s := { k.systick with lags := lags }) ⟨h₁, h₂, h₃, h₄, h₅, h₆, h₇⟩

theorem setLags_inv (h : KernelInv none k) (lags : List Nat) :
    KernelInv none (k.setLags lags) :=
  h.congr rfl rfl rfl rfl rfl rfl

theorem tick_move {off : Option Tid} :
    Move cfg .pass (off, k) (off, k.setSystick (k.systick.advance 1)) :=
  .pass (Systick.advance_later _ _)

/-- `running` names a thread that runs, or one whose slice is over and that PendSV is
going to take the processor from. -/
structure RunInv (k : Kernel) : Prop where
  active : ∀ t, k.running = some t → (k.thread t).state = .running ∨
    (k.thread t).state = .ready ∧ (k.thread t).flagSchedRr = true ∧ k.pendsv = true
  unmasked : k.pendsv = true → k.masked = false

theorem RunInv.of_settled (h : Settled k) (hp : k.pendsv = false) : RunInv k :=
  ⟨fun t ht => .inl (h t ht), fun hp' => by rw [hp] at hp'; cases hp'⟩

/-- A thread that makes a step runs, and PendSV is not pending. -/
theorem RunInv.runs (h : RunInv k)
    (hb : (k.systick.pending = true ∨ k.pendsv = true) → k.masked = true)
    (hr : k.running = some t) : Runs k t ∧ k.pendsv = false := by
  have hp : k.pendsv = false := by
    by_contra hp
    have hp' : k.pendsv = true := by simpa using hp
    have := hb (.inr hp')
    rw [h.unmasked hp'] at this
    cases this
  refine ⟨⟨hr, ?_⟩, hp⟩
  rcases h.active t hr with hs | ⟨-, -, hp'⟩
  · exact hs
  · rw [hp] at hp'
    cases hp'

end Chopstx
