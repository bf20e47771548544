import Chopstx.Property.Mutex

/-!
# Mutual exclusion

A thread is inside of a mutex from its return from `chopstx_mutex_lock`, or from
`chopstx_cond_wait` with this mutex, until it releases the mutex.  It is the owner all
that time, whatever the other threads do.  A thread that was cancelled in
`chopstx_cond_wait` has locked the mutex again before it goes to `chopstx_exit`, so it
is inside when its clean-up routines start.

* `Inside` - a thread is inside of a mutex, as an inductive predicate on the runs.
* `State.Executes`, `State.Releases` - the frames that it is defined with.
* `LocksTo.owner_keep`, `LockInv.owner_lock`, `LockInv.owner_condWait` - the owner, step by step.
* `Inside.owner` - the invariant, by induction on `Inside`.
* `mutual_exclusion` - the result, and `mutual_exclusion_canceled` a run with a cancellation in
  `chopstx_cond_wait`.
-/

namespace Chopstx

open Kernel Transition

variable {cfg : Config} {s s' : State} {e : Event} {k k' : Kernel} {t u : Tid} {m : Mid}
  {f : Frame} {rest fs : List Frame} {r : Int}

/-! ## Inside of a mutex -/

/-- The event is a step of the thread `t`, which has the frame `f` on top. -/
def State.Executes (s : State) (t : Tid) (f : Frame) (rest : List Frame) : Event → Prop
  | .run _ _ => s.k.running = some t ∧ (s.ctx t).frames = f :: rest
  | _ => False

/-- The event is a step in which the thread `t` releases the mutex. -/
def State.Releases (s : State) (t : Tid) (m : Mid) (e : Event) : Prop :=
  ∃ f rest, s.Executes t f rest e ∧ f.releases = some m

/-- The thread `t` has returned from `chopstx_mutex_lock (m)` or from `chopstx_cond_wait`
with this mutex, in a run in which mutexes are released in reverse order, and has not
released the mutex since. -/
inductive Inside (cfg : Config) (t : Tid) (m : Mid) : State → Prop
  | lock {s s' : State} {e : Event} {b : Bool} {rest : List Frame}
      (h : Reach (step cfg) (fun s e => lifo s e = true) (init cfg) s) (hok : lifo s e = true)
      (hs : step cfg s e = .ok s') (hx : s.Executes t (.mutexLock m b) rest e)
      (hr : (s'.ctx t).frames = rest) : Inside cfg t m s'
  | condWait {s s' : State} {e : Event} {r : Int} {rest : List Frame}
      (h : Reach (step cfg) (fun s e => lifo s e = true) (init cfg) s) (hok : lifo s e = true)
      (hs : step cfg s e = .ok s') (hx : s.Executes t (.condRet (some m) r) rest e) :
      Inside cfg t m s'
  | keep {s s' : State} {e : Event} (h : Inside cfg t m s) (hok : lifo s e = true)
      (hs : step cfg s e = .ok s') (hn : ¬ s.Releases t m e) : Inside cfg t m s'

theorem Inside.reach (h : Inside cfg t m s) :
    Reach (step cfg) (fun s e => lifo s e = true) (init cfg) s := by
  induction h with
  | lock h hok hs hx hr => exact h.tail _ hok hs
  | condWait h hok hs hx => exact h.tail _ hok hs
  | keep h hok hs hn ih => exact ih.tail _ hok hs

/-! ## The owner -/

theorem LocksTo.owner_keep (hl : LocksTo u rest f k k' fs) (h : k.locks.Agree)
    (hm : (k.mutex m).owner = some t) (ht : HeldTop cfg (k.ghost.held u) (f :: rest))
    (hn : u = t → f.releases ≠ some m) : (k'.mutex m).owner = some t := by
  cases hl with
  | keep hf hb hk => exact (congrFun (congrArg Locks.owner hk) m).trans hm
  | acquire ho hk =>
      rename_i m' b
      refine (congrFun (congrArg Locks.owner hk) m).trans ?_
      have hne : m ≠ m' := by
        rintro rfl
        cases hm.symm.trans ho
      exact (Function.update_of_ne hne _ _).trans hm
  | release hf hk =>
      rename_i m'
      refine (congrFun (congrArg Locks.owner hk) m).trans ?_
      have hne : m ≠ m' := by
        rintro rfl
        -- the mutex released is held by the thread that releases it
        have hu : (k.mutex m).owner = some u :=
          (h.owner m u).2 (List.mem_of_head? (ht.releases hf))
        exact hn (Option.some.inj (hu.symm.trans hm)) hf
      exact (Function.update_of_ne hne _ _).trans hm

/-- The owner stays the owner until it releases the mutex. -/
theorem LockInv.owner_keep (h : LockInv cfg s) (hi : MachineInv cfg s)
    (hs : step cfg s e = .ok s') (hm : (s.k.mutex m).owner = some t)
    (hn : ¬ s.Releases t m e) : (s'.k.mutex m).owner = some t := by
  have hquiet : (∀ c lags, e ≠ .run c lags) → (s'.k.mutex m).owner = some t := fun he =>
    (congrFun (congrArg Locks.owner (locks_keep hi h.freshLists hs he)) m).trans hm
  cases hst : step_stepTo hs with
  | tick | systick | irq | pendsv => exact hquiet (by simp)
  | run hb hr hf hnext hstep =>
      rename_i c lags u f rest k' ctx
      have hsec := hi.section hb hr hf hnext
      have htop := h.top u
      rw [hf] at htop
      have hl : LocksTo u rest f (s.k.setLags lags) k' ctx.frames :=
        hnext.locks hsec.kernel hsec.runs hsec.fits h.freshLists
      refine hl.owner_keep h.agree hm htop ?_
      rintro rfl hrel
      exact hn ⟨f, rest, ⟨hr, hf⟩, hrel⟩

/-- The thread that returns from `chopstx_mutex_lock` is the owner. -/
theorem LockInv.owner_lock {b : Bool} (h : LockInv cfg s) (hi : MachineInv cfg s)
    (hs : step cfg s e = .ok s') (hx : s.Executes t (.mutexLock m b) rest e)
    (hr' : (s'.ctx t).frames = rest) : (s'.k.mutex m).owner = some t := by
  cases step_stepTo hs with
  | run hb hr hf hnext hstep =>
      rename_i c lags u f rest' k' ctx
      cases hr.symm.trans hx.1
      cases hf.symm.trans hx.2
      simp only [Function.update_self] at hr'
      have hsec := hi.section hb hr hf hnext
      have hl : LocksTo t rest (.mutexLock m b) (s.k.setLags lags) k' ctx.frames :=
        hnext.locks hsec.kernel hsec.runs hsec.fits h.freshLists
      cases hl with
      | keep hf' hb' hk =>
          have hlen := congrArg List.length ((hb' _ _ rfl).symm.trans hr')
          simp at hlen
          omega
      | acquire ho hk =>
          refine (congrFun (congrArg Locks.owner hk) m).trans ?_
          exact Function.update_self ..
      | release hf' => cases hf'
  | _ => exact hx.elim

/-- The thread that returns from `chopstx_cond_wait` is the owner. -/
theorem LockInv.owner_condWait (h : LockInv cfg s) (hi : MachineInv cfg s)
    (hs : step cfg s e = .ok s') (hx : s.Executes t (.condRet (some m) r) rest e) :
    (s'.k.mutex m).owner = some t := by
  cases e with
  | run c lags =>
      have htop := h.top t
      rw [hx.2] at htop
      have hm : (s.k.mutex m).owner = some t :=
        (h.agree.owner m t).2 (List.mem_of_head? (htop m rfl))
      refine h.owner_keep hi hs hm ?_
      rintro ⟨f, rest', hx', hf⟩
      cases hx.2.symm.trans hx'.2
      cases hf
  | _ => exact hx.elim

/-- **A thread inside of a mutex is its owner.** -/
theorem Inside.owner (h : Inside cfg t m s) : (s.k.mutex m).owner = some t := by
  induction h with
  | lock h hok hs hx hr =>
      exact (lockInv_of_reach h).owner_lock (machineInv_of_reach h) hs hx hr
  | condWait h hok hs hx =>
      exact (lockInv_of_reach h).owner_condWait (machineInv_of_reach h) hs hx
  | keep h hok hs hn ih =>
      exact (lockInv_of_reach h.reach).owner_keep (machineInv_of_reach h.reach) hs ih hn

/-! ## Exclusion -/

/-- A thread that was cancelled in `chopstx_cond_wait` goes to `chopstx_exit`. -/
theorem step_condRet (hs : step cfg s e = .ok s') (hr : r < 0)
    (hx : s.Executes t (.condRet (some m) r) rest e) :
    (s'.ctx t).frames = [.exitStart chopstxCanceled] := by
  cases step_stepTo hs with
  | run hb hrun hf hnext hstep =>
      cases hrun.symm.trans hx.1
      cases hf.symm.trans hx.2
      simp only [Function.update_self]
      cases hnext with
      | condCancel => rfl
      | condRet hr' => exact absurd hr (not_lt.2 hr')
  | _ => exact hx.elim

/-- **Mutual exclusion.**  At most one thread is inside of a mutex.  A thread that was
cancelled in `chopstx_cond_wait` is inside when it goes to `chopstx_exit`, and owns the mutex
as long as neither its clean-up routines nor `chopstx_exit` have released it. -/
theorem mutual_exclusion (cfg : Config) (m : Mid) :
    (∀ s t u, Inside cfg t m s → Inside cfg u m s → t = u) ∧
    (∀ s s' e t r rest, Reach (step cfg) (fun s e => lifo s e = true) (init cfg) s →
      lifo s e = true → step cfg s e = .ok s' → s.Executes t (.condRet (some m) r) rest e →
      r < 0 → (s'.ctx t).frames = [.exitStart chopstxCanceled] ∧
        ∀ s₁, Steps (step cfg) (fun s e => lifo s e = true ∧ ¬ s.Releases t m e) s' s₁ →
          Inside cfg t m s₁ ∧ (s₁.k.mutex m).owner = some t) := by
  refine ⟨fun s t u ht hu => ?_, fun s s' e t r rest h hok hs hx hr => ⟨?_, fun s₁ h₁ => ?_⟩⟩
  · exact Option.some.inj (ht.owner.symm.trans hu.owner)
  · exact step_condRet hs hr hx
  · have hin : Inside cfg t m s₁ :=
      h₁.keeps (fun _ _ _ hin hok hs => hin.keep hok.1 hs hok.2) (.condWait h hok hs hx)
    exact ⟨hin, hin.owner⟩

/-- A thread locks the mutex, waits for a condition variable and is cancelled: it owns the
mutex again when it goes to `chopstx_exit`, and no other thread is inside. -/
theorem mutual_exclusion_canceled : ∃ s : State, Inside twoMutexes 1 0 s ∧
    (s.ctx 1).frames = [.exitStart chopstxCanceled] ∧ (s.k.mutex 0).owner = some 1 ∧
    ∀ u, Inside twoMutexes u 0 s → u = 1 := by
  have htest : runTest (step twoMutexes) lifo
      (fun s => decide (s.k.running = some 1 ∧ (s.ctx 1).frames =
          [.condRet (some 0) (-1), .user]) &&
        stepTest (step twoMutexes) (fun _ => true) s (.run .none []))
      (init twoMutexes) (.run (.call (.create 2)) [] :: runs 1 ++
        .run (.call (.mutexLock 0)) [] :: runs 1 ++
        .run (.call (.condWait 0 (some 0))) [] :: runs 2 ++
        .run (.call (.cancel 1)) [] :: runs 4) = true := by decide +kernel
  obtain ⟨s, hr, hp⟩ := reach_of_runTest htest
  rw [Bool.and_eq_true, decide_eq_true_eq] at hp
  obtain ⟨hx, hp⟩ := hp
  obtain ⟨s', hs, -⟩ := of_stepTest hp
  obtain ⟨hunique, hcanceled⟩ := mutual_exclusion twoMutexes 0
  obtain ⟨hexit, hkeep⟩ := hcanceled s s' _ 1 (-1) _ hr rfl hs hx (by decide)
  obtain ⟨hin, howner⟩ := hkeep s' (.refl s')
  exact ⟨s', hin, hexit, howner, fun u hu => hunique s' u 1 hu hin⟩

end Chopstx
