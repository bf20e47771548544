import Chopstx.Property.Queues

/-!
# The value of a wake-up

`chx_sched (CHX_SLEEP)` returns the field `v` of the thread.  The waker has stored there
who it was: 0 for the timer and for a mutex that is handed over, a positive value for
others, and -1 for `chopstx_cancel`.  The field is also the delta of the thread in
`q_timer`, and a round-robin thread is put there again before it runs.

* `Waker.Stores`, `Waker.Tells` - what each of the wakers of `Chopstx.Kernel.Basic` stores, and what
  the value tells about it.
* `Kernel.WakeStores.move`, `wakeStores_of_reach` - a waker stores it, in every run.
* `KeepsWakeValue` - nobody has written to `v` since.
* `MachineInv.woken`, `MachineInv.slice_v` - the thread that comes back, and the field of a thread
  with a slice.
* `WakeResult`, `chxSched_returns` - the result.
* `chxSched_returns_slice`, `chxSched_returns_timer` - a run for each case.
-/

namespace Chopstx

open Kernel Transition DeltaQueue

variable {cfg : Config} {k k' : Kernel} {t u : Tid} {off off' : Option Tid} {op : Op}
  {P : Op → Prop} {s s' : State} {e : Event} {c : Choice} {lags : List Nat}
  {rest : List Frame} {w : Waker} {v n : Nat}

/-! ## The value stored -/

/-- The values that wakers store. -/
inductive Waker.Stores : Waker → Nat → Prop
  | timer : Stores .timer 0
  | handOver (m : Mid) : Stores (.handOver m) 0
  | others : Stores (.others none) 1
  | left {n : Nat} : n ≤ 16777216 → Stores (.others (some n)) n
  | cancel : Stores .cancel minusOne

/-- What the result of `chx_sched` tells about the waker. -/
def Waker.Tells : Waker → Int → Prop
  | .timer, r | .handOver _, r => r = 0
  | .others _, r => 0 < r
  | .cancel, r => r = -1

/-- Every wake-up so far has stored such a value. -/
def Kernel.WakeStores (k : Kernel) : Prop :=
  ∀ t w v, k.ghost.wake t = some (w, v) → w.Stores v

theorem WakesUntimed.stores (h : WakesUntimed w v) : w.Stores v := by
  cases h
  · exact .others
  · exact .cancel

theorem WakesTimed.stores (h : WakesTimed n w v) (hn : n ≤ 16777216) : w.Stores v := by
  cases h
  · exact .left hn
  · exact .cancel

theorem WakesQueued.stores {q : Qh} (h : WakesQueued q w v) : w.Stores v := by
  cases h with
  | handOver m => exact .handOver m
  | cnd c h => exact h.stores
  | join h => exact h.stores

/-- The ticks that were left fit into the counter. -/
theorem left_le (hT : TimerInv k) (hd : k.chxTimerDequeue t = .ok (k', n)) : n ≤ 16777216 := by
  obtain ⟨front, back, hq, -, rfl⟩ := chxTimerDequeue_ok hT hd
  have hb := hT.bound
  rw [hq, total_append] at hb
  have hc : k.systick.elapse.count ≤ k.systick.count := k.systick.elapse_later.count
  omega

theorem Kernel.WakeStores.update (h : k.WakeStores)
    (hw : k'.ghost.wake = Function.update k.ghost.wake t (some (w, v))) (hs : w.Stores v) :
    k'.WakeStores := by
  intro u w' v' hwv
  rw [hw] at hwv
  by_cases hut : u = t
  · subst hut
    rw [Function.update_self] at hwv
    cases hwv
    exact hs
  · rw [Function.update_of_ne hut] at hwv
    exact h u w' v' hwv

theorem Kernel.WakeStores.move (h : k.WakeStores) (hm : Move cfg op (off, k) (off', k'))
    (hk : KernelInv off k) : k'.WakeStores := by
  by_cases hex : op = .expire
  · subst hex
    cases hm with
    | expire hp hr =>
        intro u w v hwv
        rw [(chxTimerExpired_expired hk).wake] at hwv
        split at hwv
        · cases hwv
          exact .timer
        · exact h u w v hwv
  · by_cases hw : ∃ t w, op = .wake t w
    · obtain ⟨t, w, rfl⟩ := hw
      cases hm with
      | wakeTimed hs hd hw =>
          obtain ⟨front, back, -, rfl, -⟩ := chxTimerDequeue_ok hk.timer hd
          exact h.update rfl (hw.stores (left_le hk.timer hd))
      | wakeQueued hq hw => exact h.update rfl hw.stores
      | wakeLoose hs hp hw => exact h.update rfl hw.stores
    · intro u w v hwv
      rw [hm.wake_eq hk (fun w ho => hw ⟨u, w, ho⟩) hex] at hwv
      exact h u w v hwv

theorem wakeStores_of_reach {ok : State → Event → Prop} (h : Reach (step cfg) ok (init cfg) s) :
    s.k.WakeStores := by
  refine Reach.invariant_of (P := fun s => s.k.WakeStores) (fun _ => machineInv_of_reach) ?_
    (fun s e s' hi _ hw _ hs => ?_) h
  · intro u w v hwv
    rw [show (init cfg).k.ghost.wake = _ from (initKernel_rest cfg).2.2.2.2.2] at hwv
    cases hwv
  · have key := (hi.path hs).keeps (I := fun a => KernelInv a.1 a.2 ∧ a.2.WakeStores) ?_
      ⟨hi.kernel, hw⟩
    · exact key.2
    · rintro op ⟨off, k⟩ ⟨off', k'⟩ - hm ⟨hk, hw⟩
      exact ⟨hk.move hm, hw.move hm hk⟩

/-! ## The value returned -/

theorem toInt_of_le (h : n ≤ 16777216) : toInt n = n := by
  rw [toInt, if_pos (by omega)]

/-- The values stored tell who the waker was, unless no tick was left. -/
theorem Waker.Stores.tells (h : w.Stores v) : w.Tells (toInt v) ↔ w ≠ .others (some 0) := by
  cases h with
  | timer | handOver | others => simp [Waker.Tells, toInt]
  | cancel => simp [Waker.Tells]
  | left hn =>
      rw [Waker.Tells, toInt_of_le hn]
      constructor
      · rintro hpos heq
        cases heq
        exact lt_irrefl _ hpos
      · intro hne
        refine Int.natCast_pos.2 (Nat.pos_of_ne_zero ?_)
        rintro rfl
        exact hne rfl

/-- The result of `chx_sched` is the value that the waker stored, and tells who it was. -/
def WakeResult (k : Kernel) (t : Tid) (r : Int) : Prop :=
  ∃ w v, k.ghost.wake t = some (w, v) ∧ r = toInt v ∧ w.Tells r

/-- The value of the waker is still in `v`: the thread is not round-robin, and if others
took it out of `q_timer` some ticks were left.  For a round-robin thread `v` is the delta
of its new slice by now, which may happen to be the value that others stored. -/
def KeepsWakeValue (k : Kernel) (t : Tid) : Prop :=
  if (k.thread t).flagSchedRr then ∃ left, k.ghost.wake t = some (.others left, (k.thread t).v)
  else ∀ v, k.ghost.wake t ≠ some (.others (some 0), v)

theorem toInt_inj (hn : n ≤ 16777216) (hw : w.Stores v) (h : toInt n = toInt v) : n = v := by
  rw [toInt_of_le hn] at h
  cases hw with
  | timer | handOver | others =>
      simp only [toInt] at h
      norm_num at h
      exact h
  | left hv =>
      rw [toInt_of_le hv] at h
      exact_mod_cast h
  | cancel =>
      rw [toInt_minusOne] at h
      omega

/-- A thread that comes back from `chx_sched (CHX_SLEEP)` was woken up. -/
theorem MachineInv.woken (h : MachineInv cfg s) (hr : Runs s.k t)
    (hf : (s.ctx t).frames = .schedRet :: rest) : ∃ w v, s.k.ghost.wake t = some (w, v) := by
  have htop := h.top t (hr.lt h.kernel)
  have hshape := h.shape t
  rw [hf] at htop hshape
  cases rest with
  | nil => exact absurd rfl (hshape.ne_nil id)
  | cons g rest =>
      rcases htop with hs | ⟨-, st, q, n, w, v, -, -, hwv⟩
      · exact absurd hr.active hs.not_active
      · exact ⟨w, v, hwv⟩

/-- The value of a round-robin thread that runs is the delta of its slice. -/
theorem MachineInv.slice_v (h : MachineInv cfg s) (hr : Runs s.k t)
    (hrr : (s.k.thread t).flagSchedRr = true) :
    0 < (s.k.thread t).v ∧ (s.k.thread t).v ≤ 16777216 := by
  have hin := (h.kernel.place' t).running hr.2
  rw [place_schedRr, if_pos hrr] at hin
  refine ⟨h.value.slice t hr.2 hrr (by simp), ?_⟩
  have hv := le_total_of_mem (v := s.k.pqV) (mem_of_isIn hin)
  have hb := h.kernel.timer.bound
  rw [pqV_thread] at hv
  omega

/-- **`chx_sched (CHX_SLEEP)` returns the value of the waker, which tells who it was, if
and only if the value is still in `v`.** -/
theorem chxSched_returns (cfg : Config) (s s' : State) (c : Choice) (lags : List Nat) (t : Tid)
    (rest : List Frame) (h : Reach (step cfg) anyEvent (init cfg) s)
    (hr : s.k.running = some t) (hf : (s.ctx t).frames = .schedRet :: rest)
    (hs : step cfg s (.run c lags) = .ok s') :
    WakeResult s.k t (s'.ctx t).ret ↔ KeepsWakeValue s.k t := by
  have hi := machineInv_of_reach h
  have hruns : Runs s.k t ∧ (s'.ctx t).ret = toInt (s.k.thread t).v := by
    cases step_stepTo hs with
    | run hb hr' hf' hn hstep =>
        cases hr.symm.trans hr'
        cases hf.symm.trans hf'
        refine ⟨(hi.run.runs hb hr).1, ?_⟩
        cases hn
        simp only [Function.update_self]
        rfl
  obtain ⟨hruns, hret⟩ := hruns
  obtain ⟨w, v, hwv⟩ := hi.woken hruns hf
  have hst : w.Stores v := wakeStores_of_reach h t w v hwv
  have hresult : WakeResult s.k t (s'.ctx t).ret ↔
      toInt (s.k.thread t).v = toInt v ∧ w ≠ .others (some 0) := by
    constructor
    · rintro ⟨w', v', hwv', hr, ht⟩
      cases hwv.symm.trans hwv'
      rw [hr] at ht
      exact ⟨hret.symm.trans hr, hst.tells.1 ht⟩
    · rintro ⟨hv, hne⟩
      refine ⟨w, v, hwv, hret.trans hv, ?_⟩
      rw [hret, hv]
      exact hst.tells.2 hne
  rw [hresult, KeepsWakeValue]
  by_cases hrr : (s.k.thread t).flagSchedRr = true
  · rw [if_pos hrr]
    obtain ⟨hpos, hle⟩ := hi.slice_v hruns hrr
    constructor
    · rintro ⟨hv, -⟩
      have heq := toInt_inj hle hst hv
      rw [heq] at hpos hle ⊢
      cases hst with
      | timer | handOver => exact absurd hpos (lt_irrefl 0)
      | others | left => exact ⟨_, hwv⟩
      | cancel => exact absurd hle (by decide)
    · rintro ⟨left, hwv'⟩
      cases hwv.symm.trans hwv'
      refine ⟨rfl, ?_⟩
      rintro heq
      cases heq
      generalize (s.k.thread t).v = n at hst hpos
      cases hst
      exact lt_irrefl _ hpos
  · rw [if_neg hrr]
    have hv := hi.value.plain t (.inr hruns.2) (by simpa using hrr) w v hwv
    rw [hv]
    constructor
    · rintro ⟨-, hne⟩ v' hwv'
      cases hwv.symm.trans hwv'
      exact hne rfl
    · intro hne
      refine ⟨rfl, ?_⟩
      rintro rfl
      exact hne v hwv

/-- A round-robin thread sleeps, and a thread of lower priority cancels it: the result of
`chx_sched` is not -1 but 1. -/
theorem chxSched_returns_slice : ∃ s s', Reach (step sliceConfig) anyEvent (init sliceConfig) s ∧
    s.top = some (0, .schedRet) ∧ s.k.ghost.wake 0 = some (.cancel, minusOne) ∧
    step sliceConfig s (.run .none []) = .ok s' ∧ (s'.ctx 0).ret = 1 ∧
    ¬ WakeResult s.k 0 (s'.ctx 0).ret := by
  have htest : runTest (step sliceConfig) (fun _ _ => true)
      (fun s => decide (s.top = some (0, .schedRet) ∧
          s.k.ghost.wake 0 = some (.cancel, minusOne)) &&
        stepTest (step sliceConfig) (fun s' => decide ((s'.ctx 0).ret = 1)) s (.run .none []))
      (init sliceConfig) (.run (.call (.create 0)) [] :: runs 1 ++
        .run (.call (.usecWait 100)) [] :: runs 3 ++
        .run (.call (.cancel 0)) [] :: runs 1) = true := by decide +kernel
  obtain ⟨s, hr, hp⟩ := reach_any_of_runTest htest
  rw [Bool.and_eq_true, decide_eq_true_eq] at hp
  obtain ⟨⟨htop, hw⟩, hp⟩ := hp
  obtain ⟨s', hs, hp⟩ := of_stepTest hp
  have hret : (s'.ctx 0).ret = 1 := of_decide_eq_true hp
  refine ⟨s, s', hr, htop, hw, hs, hret, ?_⟩
  rintro ⟨w, v, hwv, -, ht⟩
  cases hw.symm.trans hwv
  rw [hret] at ht
  cases ht

/-- A thread that is not round-robin sleeps, and its time runs out. -/
theorem chxSched_returns_timer : ∃ s s' : State, WakeResult s.k 0 (s'.ctx 0).ret := by
  have htest : runTest (step { sliceConfig with mainSchedRr := false }) (fun _ _ => true)
      (fun s => decide (s.k.running = some 0 ∧ (s.ctx 0).frames =
          [.schedRet, .usecWake 1 1, .user] ∧ s.k.ghost.wake 0 = some (.timer, 0) ∧
          (s.k.thread 0).flagSchedRr = false) &&
        stepTest (step { sliceConfig with mainSchedRr := false }) (fun _ => true) s
          (.run .none []))
      (init { sliceConfig with mainSchedRr := false })
      (.run (.call (.usecWait 1)) [] :: runs 3 ++ [.tick, .systick [], .pendsv []]) = true := by
    decide +kernel
  obtain ⟨s, hr, hp⟩ := reach_any_of_runTest htest
  rw [Bool.and_eq_true, decide_eq_true_eq] at hp
  obtain ⟨⟨hrun, hf, hw, hrr⟩, hp⟩ := hp
  obtain ⟨s', hs, -⟩ := of_stepTest hp
  refine ⟨s, s', (chxSched_returns _ s s' _ _ 0 _ hr hrun hf hs).2 ?_⟩
  rw [KeepsWakeValue, hrr, if_neg (by simp)]
  intro v hwv
  cases hw.symm.trans hwv

end Chopstx
