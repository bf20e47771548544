import Mathlib.Tactic

/-!
# Runs of a machine with a partial step function

A machine takes an event to the next state, or refuses it.  `Reach ok init s` says
that `s` is the state after some events, each of which the machine accepted and
`ok` allowed in the state before it; `Steps` is the same between two states.  The
rules are the induction over a run, for an invariant that the machine keeps and
for a family of runs inside a larger one.

* `Reach.invariant`, `Steps.keeps`, `Logged.keeps` - the induction over the states that are
  reached, over a run from any state, and over a run with a log of what its steps show.
* `Steps.mono`, `Steps.reach`, `Logged.mono` - runs with fewer events allowed.
* `runTest`, `stepTest`, `logTest` - a list of events as a run that can be computed, with
  `steps_of_runTest`, `reach_any_of_runTest` and `logged_of_logTest`.
* `Eventually`, `Terminal` - what every run comes to, whatever its events.
* `Forced`, `ForcedRun` - steps without a choice, and runs of them (`ForcedRun.unique`,
  `ForcedRun.eventually`).
-/

namespace Transition

variable {S E F : Type*}

/-- The states after zero or more events, each allowed by `ok`. -/
inductive Steps (step : S → E → Except F S) (ok : S → E → Prop) : S → S → Prop
  | refl (s : S) : Steps step ok s s
  | tail {s s₁ s₂ : S} (e : E) : Steps step ok s s₁ → ok s₁ e → step s₁ e = .ok s₂ →
      Steps step ok s s₂

/-- The states reached from `init`. -/
def Reach (step : S → E → Except F S) (ok : S → E → Prop) (init s : S) : Prop :=
  Steps step ok init s

/-- Every event is allowed. -/
def anyEvent (_ : S) (_ : E) : Prop := True

variable {step : S → E → Except F S} {ok ok' : S → E → Prop} {s s₁ s₂ init : S}

theorem Steps.trans (h₁ : Steps step ok s s₁) (h₂ : Steps step ok s₁ s₂) :
    Steps step ok s s₂ := by
  induction h₂ with
  | refl => exact h₁
  | tail e _ hok hs ih => exact ih.tail e hok hs

theorem Steps.mono (hle : ∀ s e, ok s e → ok' s e) (h : Steps step ok s s₁) :
    Steps step ok' s s₁ := by
  induction h with
  | refl => exact .refl _
  | tail e _ hok hs ih => exact ih.tail e (hle _ _ hok) hs

theorem Reach.steps (h : Reach step ok init s) (h' : Steps step ok s s₁) :
    Reach step ok init s₁ :=
  Steps.trans h h'

/-- A predicate that the allowed steps keep holds along a run that starts with it. -/
theorem Steps.keeps {P : S → Prop}
    (hstep : ∀ s e s', P s → ok s e → step s e = .ok s' → P s')
    (h : Steps step ok s s₁) (h₀ : P s) : P s₁ := by
  induction h with
  | refl => exact h₀
  | tail e _ hok hs ih => exact hstep _ e _ ih hok hs

/-- **The invariant rule.**  An invariant that holds initially and is kept by every
allowed step holds in every reachable state. -/
theorem Reach.invariant {P : S → Prop} (h₀ : P init)
    (hstep : ∀ s e s', P s → ok s e → step s e = .ok s' → P s')
    (h : Reach step ok init s) : P s :=
  h.keeps hstep h₀

/-- The invariant rule relative to an invariant known already. -/
theorem Reach.invariant_of {I P : S → Prop} (hI : ∀ s, Reach step ok init s → I s) (h₀ : P init)
    (hstep : ∀ s e s', I s → I s' → P s → ok s e → step s e = .ok s' → P s')
    (h : Reach step ok init s) : P s := by
  have key : ∀ s₁, Steps step ok init s₁ → P s₁ := by
    intro s₁ h₁
    induction h₁ with
    | refl => exact h₀
    | tail e hr hok hs ih => exact hstep _ e _ (hI _ hr) (hI _ (hr.tail e hok hs)) ih hok hs
  exact key s h

theorem Reach.mono (hle : ∀ s e, ok s e → ok' s e) (h : Reach step ok init s) :
    Reach step ok' init s :=
  Steps.mono hle h

theorem Reach.any (h : Reach step ok init s) : Reach step anyEvent init s :=
  h.mono fun _ _ _ => trivial

/-- A run from a reachable state goes through reachable states only. -/
theorem Steps.reach (hle : ∀ s e, ok' s e → ok s e) (h₀ : Reach step ok init s)
    (h : Steps step ok' s s₁) :
    Steps step (fun s e => ok' s e ∧ Reach step ok init s) s s₁ := by
  induction h with
  | refl => exact .refl _
  | tail e hrun hok hs ih => exact ih.tail e ⟨hok, h₀.steps (hrun.mono hle)⟩ hs

/-! ## Runs as lists of events -/

/-- The machine accepts the event, and the next state passes the test `p`. -/
def stepTest (step : S → E → Except F S) (p : S → Bool) (s : S) (e : E) : Bool :=
  match step s e with
  | .ok s' => p s'
  | .error _ => false

theorem of_stepTest {p : S → Bool} (h : stepTest step p s e = true) :
    ∃ s', step s e = .ok s' ∧ p s' = true := by
  rw [stepTest] at h
  split at h
  · rename_i s' hs
    exact ⟨s', hs, h⟩
  · cases h

/-- The machine accepts the events one after another, each in a state where `ok` allows
it, and the last state passes the test `p`. -/
def runTest (step : S → E → Except F S) (ok : S → E → Bool) (p : S → Bool) : S → List E → Bool
  | s, [] => p s
  | s, e :: es =>
      ok s e &&
        match step s e with
        | .ok s => runTest step ok p s es
        | .error _ => false

theorem steps_of_runTest {ok : S → E → Bool} {p : S → Bool} {es : List E}
    (h : runTest step ok p s es = true) :
    ∃ s₁, Steps step (fun s e => ok s e = true) s s₁ ∧ p s₁ = true := by
  induction es generalizing s with
  | nil => exact ⟨s, .refl s, h⟩
  | cons e es ih =>
      rw [runTest, Bool.and_eq_true] at h
      obtain ⟨hok, h⟩ := h
      split at h
      · rename_i s' hs
        obtain ⟨s₁, hr, hp⟩ := ih h
        exact ⟨s₁, ((Steps.refl s).tail e hok hs).trans hr, hp⟩
      · cases h

/-- A list of events that passes its test is a run to a state that passes it. -/
theorem reach_of_runTest {ok : S → E → Bool} {p : S → Bool} {es : List E}
    (h : runTest step ok p init es = true) :
    ∃ s, Reach step (fun s e => ok s e = true) init s ∧ p s = true :=
  steps_of_runTest h

/-- The same, where every event is allowed. -/
theorem reach_any_of_runTest {p : S → Bool} {es : List E}
    (h : runTest step (fun _ _ => true) p init es = true) :
    ∃ s, Reach step anyEvent init s ∧ p s = true := by
  obtain ⟨s, hr, hp⟩ := reach_of_runTest h
  exact ⟨s, hr.any, hp⟩

/-! ## Runs that show something -/

/-- A run, with what its steps show in their order. -/
inductive Logged {A : Type*} (step : S → E → Except F S) (ok : S → E → Prop)
    (shows : S → E → List A) : S → List A → S → Prop
  | refl (s : S) : Logged step ok shows s [] s
  | tail {s s₁ s₂ : S} {l : List A} (e : E) : Logged step ok shows s l s₁ → ok s₁ e →
      step s₁ e = .ok s₂ → Logged step ok shows s (l ++ shows s₁ e) s₂

section Logged

variable {A : Type*} {shows : S → E → List A} {l : List A}

theorem Logged.steps (h : Logged step ok shows s l s₁) : Steps step ok s s₁ := by
  induction h with
  | refl => exact .refl _
  | tail e _ hok hs ih => exact ih.tail e hok hs

/-- A relation between the log and the state that the allowed steps keep holds along a run. -/
theorem Logged.keeps {I : S → Prop} {P : List A → S → Prop}
    (hI : ∀ s₁, Steps step ok s s₁ → I s₁)
    (hstep : ∀ l s e s', I s → I s' → P l s → ok s e → step s e = .ok s' → P (l ++ shows s e) s')
    (h : Logged step ok shows s l s₁) (h₀ : P [] s) : P l s₁ := by
  induction h with
  | refl => exact h₀
  | tail e hr hok hs ih =>
      exact hstep _ _ e _ (hI _ hr.steps) (hI _ (hr.steps.tail e hok hs)) ih hok hs

/-- The run of a list of events, with a test of the log and of the state at its end. -/
def logTest (step : S → E → Except F S) (ok : S → E → Bool) (shows : S → E → List A)
    (p : List A → S → Bool) : List A → S → List E → Bool
  | l, s, [] => p l s
  | l, s, e :: es =>
      ok s e &&
        match step s e with
        | .ok s' => logTest step ok shows p (l ++ shows s e) s' es
        | .error _ => false

theorem logged_of_logTest {ok : S → E → Bool} {p : List A → S → Bool} {es : List E}
    (hl : Logged step (fun s e => ok s e = true) shows s l s₁)
    (h : logTest step ok shows p l s₁ es = true) :
    ∃ l' s₂, Logged step (fun s e => ok s e = true) shows s l' s₂ ∧ p l' s₂ = true := by
  induction es generalizing l s₁ with
  | nil => exact ⟨l, s₁, hl, h⟩
  | cons e es ih =>
      rw [logTest, Bool.and_eq_true] at h
      obtain ⟨hok, h⟩ := h
      split at h
      · rename_i s' hs
        exact ih (hl.tail e hok hs) h
      · cases h

theorem Logged.mono (hle : ∀ s e, ok s e → ok' s e) (h : Logged step ok shows s l s₁) :
    Logged step ok' shows s l s₁ := by
  induction h with
  | refl => exact .refl _
  | tail e _ hok hs ih => exact ih.tail e (hle _ _ hok) hs

end Logged

/-! ## What every run comes to -/

/-- Every run from `s`, whatever its events, comes to a state with `P`, and all states up to
it have `Q`. -/
inductive Eventually (step : S → E → Except F S) (Q P : S → Prop) : S → Prop
  | here {s : S} : Q s → P s → Eventually step Q P s
  | next {s : S} : Q s → (∃ e s₁, step s e = .ok s₁) →
      (∀ e s₁, step s e = .ok s₁ → Eventually step Q P s₁) → Eventually step Q P s

/-- The machine accepts no event. -/
def Terminal (step : S → E → Except F S) (s : S) : Prop :=
  ∀ e s₁, step s e ≠ .ok s₁

variable {P Q : S → Prop}

/-- A run that starts where every run comes to an end with `P` is on the way there, or is
there. -/
theorem Eventually.steps (h : Eventually step Q P s) (hP : ∀ x, P x → Terminal step x)
    (hr : Steps step anyEvent s s₁) : Eventually step Q P s₁ := by
  induction hr with
  | refl => exact h
  | tail e _ _ hs ih =>
      cases ih with
      | here _ hp => exact absurd hs (hP _ hp _ _)
      | next _ _ hnext => exact hnext e _ hs

/-- All states have `Q`. -/
theorem Eventually.always (h : Eventually step Q P s) (hP : ∀ x, P x → Terminal step x)
    (hr : Steps step anyEvent s s₁) : Q s₁ := by
  cases h.steps hP hr with
  | here hq _ => exact hq
  | next hq _ _ => exact hq

/-- The end of a run has `P`. -/
theorem Eventually.terminal (h : Eventually step Q P s) (hP : ∀ x, P x → Terminal step x)
    (hr : Steps step anyEvent s s₁) (ht : Terminal step s₁) : P s₁ := by
  cases h.steps hP hr with
  | here _ hp => exact hp
  | next _ he _ =>
      obtain ⟨e, s₂, hs⟩ := he
      exact absurd hs (ht e s₂)

/-- The machine accepts one event in `s` and no other, and goes to `s₁`. -/
def Forced (step : S → E → Except F S) (s s₁ : S) : Prop :=
  ∃ e, step s e = .ok s₁ ∧ ∀ e' s₂, step s e' = .ok s₂ → e' = e

/-- Forced steps, from states that have `Q`. -/
inductive ForcedRun (step : S → E → Except F S) (Q : S → Prop) : S → S → Prop
  | refl (s : S) : ForcedRun step Q s s
  | head {s s₁ s₂ : S} : Q s → Forced step s s₁ → ForcedRun step Q s₁ s₂ → ForcedRun step Q s s₂

theorem ForcedRun.trans (h : ForcedRun step Q s s₁) (h' : ForcedRun step Q s₁ s₂) :
    ForcedRun step Q s s₂ := by
  induction h with
  | refl => exact h'
  | head hq hf _ ih => exact .head hq hf (ih h')

theorem ForcedRun.eventually (h : ForcedRun step Q s s₁) (he : Eventually step Q P s₁) :
    Eventually step Q P s := by
  induction h with
  | refl => exact he
  | head hq hf _ ih =>
      obtain ⟨e, hs, hone⟩ := hf
      refine .next hq ⟨e, _, hs⟩ fun e' s₂ hs' => ?_
      cases hone e' s₂ hs'
      cases hs.symm.trans hs'
      exact ih he

theorem Forced.unique (h : Forced step s s₁) (h' : Forced step s s₂) : s₁ = s₂ := by
  obtain ⟨e, hs, hone⟩ := h
  obtain ⟨e', hs', -⟩ := h'
  cases hone e' s₂ hs'
  exact Except.ok.inj (hs.symm.trans hs')

/-- Forced steps come to one first state that does not have `Q`. -/
theorem ForcedRun.unique (h : ForcedRun step Q s s₁) (h' : ForcedRun step Q s s₂) (hq : ¬ Q s₁)
    (hq' : ¬ Q s₂) : s₁ = s₂ := by
  induction h with
  | refl =>
      cases h' with
      | refl => rfl
      | head hs => exact absurd hs hq
  | head hs hf _ ih =>
      cases h' with
      | refl => exact absurd hs hq'
      | head _ hf' h' =>
          cases hf.unique hf'
          exact ih h' hq

theorem ForcedRun.steps (h : ForcedRun step Q s s₁) : Steps step anyEvent s s₁ := by
  induction h with
  | refl => exact .refl _
  | head _ hf _ ih =>
      obtain ⟨e, hs, -⟩ := hf
      exact ((Steps.refl _).tail e trivial hs).trans ih

end Transition
