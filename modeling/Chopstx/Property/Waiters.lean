import Chopstx.Property.Mutex

/-!
# No waiter is left behind

A release wakes one waiter up.  Until this waiter has retried it stands for all others in
the queue of the mutex: when it retries, the mutex has an owner, which is either the
waiter or a thread that was faster.

* `Handed` - a release has woken a waiter up; `Next.handed` says that each of them does.
* `Retries`, `MachineInv.retries` - the thread that was woken up is about to lock the mutex.
* `Next.owned` - a mutex that is retried has an owner.
* `Attended`, `Attended.keeps` - the invariant and its step lemma.
* `attended_of_reach` - the result about runs, and `attended_of_reach_free` a run with two waiters.
-/

namespace Chopstx

open Kernel Transition

variable {cfg : Config} {s s' : State} {e : Event} {k k' k₁ : Kernel} {t u tp : Tid} {m : Mid}
  {f : Frame} {rest fs : List Frame} {off off' : Option Tid} {op : Op} {P : Op → Prop}

/-! ## The queue of a mutex -/

/-- The move puts no thread into the queue of the mutex. -/
def Op.Keeps (m : Mid) (op : Op) : Prop := ∀ t v, op ≠ .block t (.mtx m) v

/-- An empty queue stays empty. -/
theorem Move.mtx_nil (hm : Move cfg op (off, k) (off', k')) (h : KernelInv off k)
    (hop : op.Keeps m) (hq : k.queue (.mtx m) = []) : k'.queue (.mtx m) = [] := by
  have hnil : ∀ {K : Kernel}, K.queue (.mtx m) = k.queue (.mtx m) → K.queue (.mtx m) = [] :=
    fun hK => hK.trans hq
  have hfilter : ∀ x, (k.llDequeue x).queue (.mtx m) = [] := by
    intro x
    rw [llDequeue_queue, hq]
    rfl
  cases hm with
  | raise hp hlt hin hst =>
      rename_i t q p
      have hne : .mtx m ≠ q := by
        rintro rfl
        have hmem := mem_of_isIn hin
        rw [hq] at hmem
        cases hmem
      rw [llPrioEnqueue_queue_of_ne hne]
      exact hfilter _
  | wakeTimed hs hd hw =>
      obtain ⟨front, back, -, rfl, -⟩ := chxTimerDequeue_ok h.timer hd
      exact (resume_queue_of_ne (by simp)).trans (hfilter _)
  | wakeQueued hin hw => exact (resume_queue_of_ne (by simp)).trans (hfilter _)
  | wakeLoose hs hp hw => exact hnil (resume_queue_of_ne (by simp))
  | slice hr hs he =>
      rcases endSlice_ok h.timer he with rfl | ⟨front, back, -, -, rfl⟩
      · exact hq
      · exact hfilter _
  | block hs hb =>
      rename_i t q st v
      have hne : .mtx m ≠ q := by
        rintro rfl
        exact hop t v rfl
      exact hnil (llPrioEnqueue_queue_of_ne hne)
  | sleep hs hst hpos hle =>
      exact hnil (chxTimerInsert_queue_of_ne h.timer_modThread (by simp))
  | yield hs =>
      rename_i t
      exact hnil (chxReadyEnqueue_queue_of_ne (k := k) (t := t) (q := .mtx m) (by simp))
  | push hr hs hf =>
      rename_i t
      exact hnil (chxReadyPush_queue_of_ne (k := k) (t := t) (q := .mtx m) (by simp))
  | switch hs =>
      rcases switchThread_switched cfg h with ⟨-, heq⟩ | ⟨t, hsw⟩
      · rw [heq]
        exact hq
      · exact hnil (hsw.queue _ (by simp) (by simp))
  | create fp => exact hnil (chxReadyEnqueue_queue_of_ne (by simp))
  | expire hp hr => exact hnil ((chxTimerExpired_expired h).queue _ (by simp) (by simp))
  | fire | unlink => exact hfilter _
  | link hq' =>
      refine hnil (llPrioEnqueue_queue_of_ne ?_)
      rcases hq' with rfl | rfl | ⟨c, rfl⟩ <;> simp
  | _ => exact hq

theorem Path.mtx_nil (hp : Path cfg P (off, k) (off', k')) (h : KernelInv off k)
    (hop : ∀ op, P op → op.Keeps m) (hq : k.queue (.mtx m) = []) : k'.queue (.mtx m) = [] := by
  have key := hp.keeps (I := fun a => KernelInv a.1 a.2 ∧ a.2.queue (.mtx m) = []) ?_ ⟨h, hq⟩
  · exact key.2
  · rintro op ⟨off, k₁⟩ ⟨off', k₂⟩ ho hm ⟨hk, hq⟩
    exact ⟨hk.move hm, hm.mtx_nil hk (hop op ho) hq⟩

/-- Only `chopstx_mutex_lock` puts a thread into the queue of its mutex. -/
theorem Frame.May.keeps (h : f.May cfg t op) (hf : ∀ b, f ≠ .mutexLock m b) : op.Keeps m := by
  rintro u v rfl
  have hc := h.connect (u := u) rfl
  cases f with
  | mutexLock m' b =>
      cases hc
      exact hf b rfl
  | poll P pt => cases pt <;> cases hc
  | _ => cases hc

/-! ## The thread that was woken up -/

/-- The thread was taken out of the queue of the mutex by an unlock, and has not slept since. -/
def Handed (k : Kernel) (m : Mid) (u : Tid) : Prop :=
  (k.thread u).state.Active ∧ k.ghost.wake u = some (.handOver m, 0)

theorem Handed.drift (h : Handed k m u) (hd : Drift k k' u) : Handed k' m u := by
  cases hd with
  | same hn => exact absurd h.1 hn
  | active hs hs' hw => exact ⟨hs', hw.trans h.2⟩
  | ended he => exact absurd h.1 he.not_active
  | woken hb => exact absurd h.1 hb.not_active

theorem Handed.lt (h : Handed k m u) (hk : KernelInv none k) : u < k.nthread := by
  by_contra hu
  have hs := (hk.unborn u (not_lt.1 hu)).1
  rw [Handed, hs] at h
  rcases h.1 with h | h <;> cases h

/-- `chx_mutex_unlock` wakes a waiter up, if there is one. -/
theorem chxMutexUnlock_handed {n : Nat} (hu : k.chxMutexUnlock cfg t m = .ok (k', n))
    (hthr : k.HoldsThreads (.mtx m)) :
    k'.queue (.mtx m) = [] ∨ ∃ tp, .thread tp ∈ k.queue (.mtx m) ∧ Handed k' m tp := by
  rw [chxMutexUnlock] at hu
  simp only at hu
  have hdrop : (k.dropMutex t m).queue = k.queue := rfl
  split at hu
  · rename_i tp k₁ hpop
    obtain ⟨n', hn, hk⟩ := res_bind_eq_ok.1 hu
    cases hk
    cases hq : k.queue (.mtx m) with
    | nil => simp [llPop, hdrop, hq] at hpop
    | cons x l =>
        simp only [llPop, hdrop, hq] at hpop
        cases hpop
        refine .inr ⟨tp, List.mem_cons_self .., ?_, ?_⟩
        · by_cases htp : tp = t
          · subst htp
            simp [resume_thread]
          · simp [resume_thread, htp]
        · exact Function.update_self ..
  · rename_i hne
    cases hu
    cases hq : k.queue (.mtx m) with
    | nil => exact .inl hq
    | cons x l =>
        obtain ⟨tp, rfl⟩ := hthr x (hq ▸ List.mem_cons_self ..)
        refine (hne tp ((k.dropMutex t m).llDequeue (.thread tp)) ?_).elim
        simp only [llPop, hdrop, hq]

/-- What a section leaves of the waiters that an unlock in it has left. -/
theorem handed_of_path (hp : Path cfg P (none, k₁) (none, k')) (h₁ : KernelInv none k₁)
    (hkeep : ∀ op, P op → op.Keeps m) (hc : ∀ op u, P op → op.Connects u → u = t)
    (ht : ∀ tp, .thread tp ∈ k.queue (.mtx m) → tp ≠ t)
    (hu : k₁.queue (.mtx m) = [] ∨ ∃ tp, .thread tp ∈ k.queue (.mtx m) ∧ Handed k₁ m tp) :
    k'.queue (.mtx m) = [] ∨ ∃ tp, .thread tp ∈ k.queue (.mtx m) ∧ Handed k' m tp := by
  rcases hu with hq | ⟨tp, hmem, hh⟩
  · exact .inl (hp.mtx_nil h₁ hkeep hq)
  · refine .inr ⟨tp, hmem, hh.drift (hp.drift h₁ (fun op hop hcon => ?_) (hh.lt h₁))⟩
    exact ht tp hmem (hc op tp hop hcon)

/-- **Each of the three ways to release a mutex wakes a waiter up**, if there is one. -/
theorem Next.handed {ret : Int} {ctx : Ctx} (hn : Next cfg k t rest ret f k' ctx)
    (h : KernelInv none k) (hr : Runs k t) (hf : f.releases = some m) :
    k'.queue (.mtx m) = [] ∨ ∃ tp, .thread tp ∈ k.queue (.mtx m) ∧ Handed k' m tp := by
  have hthr := h.mtxThreads m
  have hne : ∀ tp, .thread tp ∈ k.queue (.mtx m) → tp ≠ t := by
    rintro tp hmem rfl
    have hs := h.holds_of_mem hmem
    rw [show (k.thread tp).state = .running from hr.2] at hs
    cases hs
  have hends : ∀ op : Op, op.Ends t → op.Keeps m := by
    rintro op hop u v rfl
    cases hop
  cases hn with
  | mutexUnlock hu =>
      cases hf
      obtain ⟨⟨k₁, n⟩, hu₁, hy⟩ := res_bind_eq_ok.1 hu
      have hp := chxMutexUnlock_path (lock_inv h) hr.lock hu₁
      have h₁ := (lock_inv h).path hp
      have hr₁ := (hp.runs (fun _ => Op.Unlocks.quiet) (lock_inv h) hr.lock).1
      have hw := chxMutexUnlock_handed hu₁ hthr
      exact handed_of_path (yieldOrUnlock_path cfg h₁ hr₁ hy).1 h₁ hends
        (fun op u hop hc => absurd hc hop.not_connects) hne hw
  | exitUnlock hu =>
      cases hf
      obtain ⟨⟨k₁, n⟩, hu₁, hk⟩ := res_bind_eq_ok.1 hu
      cases hk
      have hw := chxMutexUnlock_handed hu₁ hthr
      exact hw
  | condWait hw =>
      cases hf
      obtain ⟨k₁, hu, h₁, hr₁, hs⟩ := chopstxCondWait_cases h hr hw
      obtain ⟨⟨k₂, n⟩, hu₁, hk⟩ := res_bind_eq_ok.1 hu
      cases hk
      have hp := (hs.path rfl (fun _ ho => ho.elim) (fun _ ho => ho.elim) h₁ hr₁).1
      have hw := chxMutexUnlock_handed hu₁ hthr
      refine handed_of_path hp h₁ ?_ ?_ hne hw
      · rintro op hop u v rfl
        cases hop with
        | before ho | after ho => exact ho.elim
      · intro op u hop hc
        rw [Op.sleepsOps_connects hop hc (fun _ ho => ho.elim) (fun _ ho => ho.elim)] at hc
        exact hc.symm
  | _ => cases hf

/-! ## The invariant -/

/-- The thread is inside of `chopstx_mutex_lock` for this mutex, has slept there and has not
retried yet. -/
def Retries (m : Mid) : List Frame → Prop
  | .schedRet :: .mutexLock m' true :: _ => m' = m
  | .mutexLock m' true :: _ => m' = m
  | _ => False

theorem Retries.head (h : Retries m (f :: rest)) :
    f = .schedRet ∧ Retries m rest ∨ f = .mutexLock m true := by
  unfold Retries at h
  split at h
  · rename_i heq
    cases heq
    exact .inl ⟨rfl, h⟩
  · rename_i heq
    cases heq
    rw [h]
    exact .inr rfl
  · exact h.elim

/-- The mutex has an owner, or a waiter that was woken up is going to retry, unless nobody
waits. -/
def Attended (s : State) (m : Mid) : Prop :=
  s.k.queue (.mtx m) ≠ [] → (s.k.mutex m).owner ≠ none ∨
    ∃ u, Handed s.k m u ∧ Retries m (s.ctx u).frames

/-- A thread in the queue of a mutex sleeps in `chopstx_mutex_lock`. -/
theorem MachineInv.retries (h : MachineInv cfg s) (hm : .thread u ∈ s.k.queue (.mtx m)) :
    Retries m (s.ctx u).frames := by
  have hin := h.kernel.isIn_of_mem hm
  have hs : (s.k.thread u).state = .waitMtx := (h.kernel.place' u).holds hin
  have hp : (s.k.thread u).parent = some (.mtx m) := hin.1
  have hlt : u < s.k.nthread := h.kernel.lt_of_isIn hin
  have htop := h.top u hlt
  have hna : ¬ (s.k.thread u).state.Active := by simp [hs, ThreadState.Active]
  unfold TopOk at htop
  split at htop
  · rename_i g rest hf
    rcases htop with ha | hw
    · rw [Asleep, hs, hp] at ha
      rw [hf]
      cases ha
      rfl
    · exact absurd hw.1 hna
  · rw [hs] at htop
    rcases htop.1 with he | he <;> cases he
  · exact absurd htop.1 hna
  · exact absurd htop.1 hna
  · exact absurd htop hna

/-- An owner is there, unless the mutex was released. -/
theorem LocksTo.owned (hl : LocksTo t rest f k k' fs) (hm : (k.mutex m).owner ≠ none)
    (hf : f.releases ≠ some m) : (k'.mutex m).owner ≠ none := by
  cases hl with
  | keep hf' hb hk =>
      rw [show (k'.mutex m).owner = _ from congrFun (congrArg Locks.owner hk) m]
      exact hm
  | acquire ho hk =>
      rename_i m' b
      rw [show (k'.mutex m).owner = _ from congrFun (congrArg Locks.owner hk) m]
      by_cases hmm : m = m'
      · subst hmm
        exact absurd ho hm
      · rwa [show (k.locks.acquire t m').owner m = _ from Function.update_of_ne hmm _ _]
  | release hf' hk =>
      rename_i m'
      rw [show (k'.mutex m).owner = _ from congrFun (congrArg Locks.owner hk) m]
      have hmm : m ≠ m' := by
        rintro rfl
        exact hf hf'
      rwa [show (k.locks.release t m').owner m = _ from Function.update_of_ne hmm _ _]

/-- After a round of `chopstx_mutex_lock` the mutex has an owner. -/
theorem Next.owned {b : Bool} {ret : Int} {ctx : Ctx}
    (hn : Next cfg k t rest ret (.mutexLock m b) k' ctx) (h : KernelInv none k) (hr : Runs k t)
    (hl : LocksTo t rest (.mutexLock m b) k k' ctx.frames) : (k'.mutex m).owner ≠ none := by
  cases hn with
  | acquired hlock =>
      cases hl with
      | keep hf hb hk =>
          have hlen := congrArg List.length (hb _ _ rfl)
          simp at hlen
          omega
      | acquire ho hk =>
          rw [show (k'.mutex m).owner = _ from congrFun (congrArg Locks.owner hk) m,
            show (k.locks.acquire t m).owner m = _ from Function.update_self ..]
          simp
      | release hf => cases hf
  | blocked hlock =>
      rcases chopstxMutexLock_cases h hr hlock with ⟨hb, -⟩ | ⟨-, ho, hs⟩
      · cases hb
      · obtain ⟨u, hu⟩ := ho
        exact hl.owned (by simp [hu]) (by simp [Frame.releases])

/-- **Every step keeps the invariant.** -/
theorem Attended.keeps (ha : Attended s m) (h : MachineInv cfg s) (hl : LockInv cfg s)
    (hs : step cfg s e = .ok s') : Attended s' m := by
  have hquiet : (∀ c lags, e ≠ .run c lags) → s'.ctx = s.ctx → Attended s' m := by
    intro he hctx hq'
    have hq : s.k.queue (.mtx m) ≠ [] := by
      intro hq
      refine hq' ((h.path hs).mtx_nil h.kernel ?_ hq)
      rintro op hop u v rfl
      obtain ⟨-, c, lags, hev⟩ := hop.connects (u := u) rfl
      exact he c lags hev
    rcases ha hq with ho | ⟨u, hh, hf⟩
    · left
      rwa [show (s'.k.mutex m).owner = _ from
        congrFun (congrArg Locks.owner (locks_keep h hl.freshLists hs he)) m]
    · refine .inr ⟨u, hh.drift (h.drift hs (hh.lt h.kernel) fun c lags hev => ?_), hctx ▸ hf⟩
      exact absurd hev (he c lags)
  cases hst : step_stepTo hs with
  | tick | systick | irq | pendsv => exact hquiet (by simp) rfl
  | run hb hr hf hnext hstep =>
      rename_i c lags t f rest k' ctx
      have hsec := h.section hb hr hf hnext
      have hlocks : LocksTo t rest f (s.k.setLags lags) k' ctx.frames :=
        hnext.locks hsec.kernel hsec.runs hsec.fits hl.freshLists
      intro hq'
      have hne : ∀ u, .thread u ∈ s.k.queue (.mtx m) → u ≠ t := by
        rintro u hmem rfl
        have hst := h.kernel.holds_of_mem hmem
        rw [show (s.k.thread u).state = .running from hsec.runs.2] at hst
        cases hst
      by_cases hlock : ∃ b, f = .mutexLock m b
      · obtain ⟨b, rfl⟩ := hlock
        exact .inl (hnext.owned hsec.kernel hsec.runs hlocks)
      by_cases hrel : f.releases = some m
      · -- the waiter that is woken up has been asleep in `chopstx_mutex_lock`
        rcases hnext.handed hsec.kernel hsec.runs hrel with hq | ⟨u, hmem, hh⟩
        · exact absurd hq hq'
        · refine .inr ⟨u, hh, ?_⟩
          simp only [Function.update_of_ne (hne u hmem)]
          exact h.retries hmem
      have hq : s.k.queue (.mtx m) ≠ [] := by
        intro hq
        refine hq' (hsec.path.mtx_nil hsec.kernel (fun op hop => ?_) hq)
        exact hop.keeps fun b hb => hlock ⟨b, hb⟩
      rcases ha hq with ho | ⟨u, hh, hret⟩
      · exact .inl (hlocks.owned ho hrel)
      · by_cases hut : u = t
        · subst hut
          rw [hf] at hret
          rcases hret.head with ⟨rfl, hret'⟩ | rfl
          · cases hnext
            refine .inr ⟨u, hh, ?_⟩
            simp only [Function.update_self]
            exact hret'
          · exact absurd ⟨true, rfl⟩ hlock
        · have hd := h.drift hs (hh.lt h.kernel) fun _ _ _ hr' =>
            hut (Option.some.inj (hr'.symm.trans hr))
          refine .inr ⟨u, hh.drift hd, ?_⟩
          simp only [Function.update_of_ne hut]
          exact hret

/-- **No waiter is left behind on a free mutex.** -/
theorem attended_of_reach (cfg : Config) (s : State) (m : Mid)
    (h : Reach (step cfg) (fun s e => lifo s e = true) (init cfg) s) : Attended s m := by
  refine Reach.invariant_of (I := fun s => MachineInv cfg s ∧ LockInv cfg s)
    (P := fun s => Attended s m) (fun s h => ⟨machineInv_of_reach h, lockInv_of_reach h⟩) ?_
    (fun s e s' hi _ ha _ hs => ha.keeps hi.1 hi.2 hs) h
  intro hq
  have hnil : (initKernel cfg).queue (.mtx m) = [] := by
    by_contra hne
    obtain ⟨x, hx⟩ := List.exists_mem_of_ne_nil _ hne
    obtain ⟨u, rfl⟩ := (initKernel_inv cfg).mtxThreads m x hx
    have hs := (initKernel_inv cfg).holds_of_mem hx
    obtain ⟨v, q, hth⟩ := initKernel_thread cfg u
    rw [hth] at hs
    by_cases hu : u = 0
    · rw [hu] at hs
      cases hs
    · rw [mainKernel_thread_of_ne hu] at hs
      cases hs
  exact absurd hnil hq

/-- Two threads wait for a mutex that is released: it is free, and one of them is still in the
queue, but the other one is going to retry. -/
theorem attended_of_reach_free : ∃ s : State, s.k.queue (.mtx 0) = [.thread 1] ∧
    (s.k.mutex 0).owner = none ∧ ∃ u, Handed s.k 0 u ∧ Retries 0 (s.ctx u).frames := by
  have htest : runTest (step twoMutexes) lifo
      (fun s => decide (s.k.queue (.mtx 0) = [.thread 1] ∧ (s.k.mutex 0).owner = none))
      (init twoMutexes) (.run (.call (.mutexLock 0)) [] :: runs 1 ++
        .run (.call (.create 2)) [] :: runs 1 ++ .run (.call (.mutexLock 0)) [] :: runs 1 ++
        .run (.call (.create 3)) [] :: runs 1 ++ .run (.call (.mutexLock 0)) [] :: runs 1 ++
        .run (.call (.mutexUnlock 0)) [] :: runs 1) = true := by decide +kernel
  obtain ⟨s, hr, hp⟩ := reach_of_runTest htest
  rw [decide_eq_true_eq] at hp
  refine ⟨s, hp.1, hp.2, ?_⟩
  rcases attended_of_reach _ s 0 hr (by simp [hp.1]) with ho | hu
  · exact absurd hp.2 ho
  · exact hu

end Chopstx
