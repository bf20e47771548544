import Chopstx.Property.Queues
import Chopstx.Run.Locks

/-!
# Mutexes

`chx_mutex_unlock` takes the first mutex off the list of the running thread, whatever
mutex it is called for.  If every thread releases its mutexes in the reverse order of their
acquisition, the list of a thread is the mutexes that it owns, at most one thread is
between the lock and the release of a mutex, and `chopstx_exit` releases what the thread
still holds.

* `lifo` - the mutex that is released is the one locked last.
* `HeldTop` - what a frame says about the mutexes of its thread, and `Next.heldTop` that the next
  frame says so again.
* `LockInv`, `LockInv.keeps`, `lockInv_of_reach` - the invariant, with the locks of
  `Chopstx.Library.LockList`.
* `MutexLists`, `mutexLists_of_reach` - what it comes to for the lists and the owners.
* `releasesHeld`, `releasesHeld_of_lifo` - whoever releases a mutex holds it.
* `released_first_mutexLists` - a run that releases the mutex locked first.
-/

namespace Chopstx

open Kernel Transition

variable {cfg : Config} {s s' : State} {e : Event} {k k' : Kernel} {t u : Tid} {m : Mid}
  {P : Poll} {pt : PollPt} {f g : Frame} {rest fs : List Frame} {ret : Int} {ctx : Ctx}
  {held held' : List Mid}

/-! ## Releases in reverse order -/

/-- The mutex that a call of the application is going to release. -/
def Call.releases : Call → Option Mid
  | .mutexUnlock m => some m
  | .condWait _ o => o
  | _ => none

/-- The application releases only the mutex that the thread has locked last. -/
def lifo (s : State) : Event → Bool
  | .run (.call c) _ =>
      match s.top, c.releases with
      | some (t, .user), some m => decide ((s.k.ghost.held t).head? = some m)
      | _, _ => true
  | _ => true

/-! ## What a stack says about the mutexes held -/

/-- The descriptor whose mutex the thread holds here. -/
def PollPt.locked : PollPt → Option Nat
  | .condCheck i | .condLoad i | .condStore i _ | .condReady i | .condClear i | .condEnqueue i
  | .condEnd i => some i
  | _ => none

/-- What the frame on top says about the mutexes that the thread holds. -/
def HeldTop (cfg : Config) (held : List Mid) : List Frame → Prop
  | .mutexUnlock m :: _ => held.head? = some m
  | .condWait _ o :: _ => ∀ m, o = some m → held.head? = some m
  | .testcancel :: .condWait _ o :: _ => ∀ m, o = some m → held.head? = some m
  | .condRet o _ :: _ => ∀ m, o = some m → held.head? = some m
  | .poll P pt :: _ => ∀ i c m, pt.locked = some i → P.pd cfg i = some (.cond c (some m)) →
      held.head? = some m
  | .exitMutex o _ :: _ => held.head? = o
  | .exitUnlock m o _ :: _ => held.head? = some m ∧ held.tail.head? = o
  | .exit _ :: _ | .exited _ :: _ => held = []
  | _ => True

/-- What is below a frame that returns and has not locked a mutex. -/
theorem HeldTop.pop {n : Nat} (h : Shape cfg n (f :: rest)) (hf : f ≠ .testcancel)
    (hl : ∀ m b, f ≠ .mutexLock m b) : HeldTop cfg held rest := by
  cases rest with
  | nil => trivial
  | cons g rest =>
      cases h.below with
      | testcancel => exact absurd rfl hf
      | relock | hookLock => exact absurd rfl (hl _ _)
      | schedRet hs => cases hs <;> first | trivial | rintro i c m ⟨⟩
      | hookUnlock | hookFatal => rintro i c m ⟨⟩
      | _ => trivial

/-- What is below `chopstx_testcancel`. -/
theorem HeldTop.testcancel {n : Nat} (h : Shape cfg n (.testcancel :: rest))
    (ht : HeldTop cfg held (.testcancel :: rest)) : HeldTop cfg held rest := by
  cases rest with
  | nil => trivial
  | cons g rest =>
      cases h.below with
      | testcancel hg =>
          cases hg with
          | cond c m => exact ht
          | hook P i d => cases d <;> rintro i c m ⟨⟩
          | snooze => rintro i c m ⟨⟩
          | _ => trivial
      | called => trivial

/-- What is below `chopstx_mutex_lock`, with the mutex locked. -/
theorem HeldTop.locked {n : Nat} {b : Bool} (h : Shape cfg n (.mutexLock m b :: rest)) :
    HeldTop cfg (m :: held) rest := by
  cases rest with
  | nil => trivial
  | cons g rest =>
      cases h.below with
      | relock m b r =>
          rintro m' ⟨⟩
          rfl
      | hookLock b hd =>
          rintro i c m' ⟨⟩ hd'
          cases hd.symm.trans hd'
          rfl
      | called => trivial

/-! ## A step of a thread -/

/-- The mutexes that the thread holds after a step that is no lock. -/
theorem LocksTo.held_keep (hl : LocksTo t rest f k k' fs) (hf : f.releases = none)
    (hne : ∀ m b, f ≠ .mutexLock m b) : k'.ghost.held t = k.ghost.held t := by
  cases hl with
  | keep _ _ hk => exact congrFun (congrArg Locks.held hk) t
  | acquire => exact absurd rfl (hne _ _)
  | release hf' =>
      rw [hf] at hf'
      cases hf'

theorem LocksTo.held_release (hl : LocksTo t rest f k k' fs) (hf : f.releases = some m)
    (hm : (k.ghost.held t).head? = some m) : k'.ghost.held t = (k.ghost.held t).tail := by
  cases hl with
  | keep hf' => rw [hf] at hf'; cases hf'
  | acquire => cases hf
  | release hf' hk =>
      cases hf.symm.trans hf'
      have hheld : k'.ghost.held t = (k.ghost.held t).erase m := by
        have := congrFun (congrArg Locks.held hk) t
        simpa [Locks.release, Kernel.locks] using this
      obtain ⟨l, hl⟩ := List.head?_eq_some_iff.1 hm
      rw [hheld, hl, List.erase_cons_head, List.tail_cons]

theorem PollNext.heldTop (hn : PollNext cfg k t P rest ret pt k' ctx)
    (hsh : Shape cfg k.nthread (.poll P pt :: rest))
    (ht : HeldTop cfg held (.poll P pt :: rest)) : HeldTop cfg held ctx.frames := by
  cases hn with
  | init | initEnd | hookEnd | intrHook | joinHook | mainReady | mainLoop | wake | snoozeReady
  | snoozeEnd | snoozeAgain | snoozeDone | cleanup => rintro i c m ⟨⟩
  | condHook hd =>
      rintro i c m ⟨⟩ hd'
      exact absurd hd' (hd c m)
  | checkTrue | checkFalse | condLoad | condStore | condReady | condClear | condEnqueue =>
      rintro i c m ⟨⟩ hd
      exact ht _ c m rfl hd
  | condUnlock hd => exact ht _ _ _ rfl hd
  | condEnd => rintro i c m ⟨⟩
  | done => exact .pop hsh (by simp) (by simp)
  | _ => trivial

/-- **The new frame on top is right about the mutexes held.** -/
theorem Next.heldTop (hn : Next cfg k t rest ret f k' ctx) (hl : LocksTo t rest f k k' ctx.frames)
    (hsh : Shape cfg k.nthread (f :: rest)) (hA : k.locks.Agree) (hu : f ≠ .user)
    (ht : HeldTop cfg (k.ghost.held t) (f :: rest)) :
    HeldTop cfg (k'.ghost.held t) ctx.frames := by
  have hchain : Locks.Chain k.locks.next (k.thread t).mutexList (k.ghost.held t) := hA.chain t
  cases hn with
  | call | endless | entryRet | routineRet => exact absurd rfl hu
  | testcancel =>
      rw [hl.held_keep rfl (by simp)]
      exact ht.testcancel hsh
  | acquired =>
      cases hl with
      | keep hf hb hk =>
          have hlen := congrArg List.length (hb _ _ rfl)
          simp at hlen
          omega
      | acquire ho hk =>
          have hheld := congrFun (congrArg Locks.held hk) t
          simp only [Locks.acquire, Kernel.locks, Function.update_self] at hheld
          rw [hheld]
          exact .locked hsh
      | release hf => cases hf
  | condNoLock => rintro m ⟨⟩
  | poll hp =>
      rw [hl.held_keep rfl (by simp)]
      exact hp.heldTop hsh ht
  | exitMutexes =>
      rw [hl.held_keep rfl (by simp)]
      exact hchain.head.symm
  | exitMutex =>
      rw [hl.held_keep rfl (by simp)]
      obtain ⟨l, hl'⟩ := List.head?_eq_some_iff.1 ht
      rw [hl'] at hchain
      rw [hl']
      exact ⟨rfl, hchain.2.head.symm⟩
  | exitEnd =>
      rw [hl.held_keep rfl (by simp)]
      exact List.head?_eq_none_iff.1 ht
  | exitUnlock =>
      rw [hl.held_release rfl ht.1]
      exact ht.2
  | exit =>
      rw [hl.held_keep rfl (by simp)]
      exact ht
  | canceled | usecWait | usecSleep | usecAgain | blocked | condWait | condRelock | condCancel
  | joinFatal | joinSleep | joinDone | joinWake | joinCancel | exitStart
  | exitRoutine | cleanupExecute => trivial
  | setcancelstate =>
      cases rest with
      | nil => trivial
      | cons g rest =>
          rw [hsh.below.of_plain trivial]
          trivial
  | pollCall => rintro i c m ⟨⟩
  | _ => exact .pop hsh (by simp) (by simp)

/-- The application calls an operation, or its function returns. -/
theorem HeldTop.call {n : Nat} {call : Call} {lags : List Nat} (hr : s.k.running = some t)
    (hf : (s.ctx t).frames = .user :: rest) (hsh : Shape cfg n (.user :: rest))
    (hok : lifo s (.run (.call call) lags) = true)
    (hc : call.valid cfg k = true ∧ fs = call.frames ++ .user :: rest ∨
      (∃ rv, call = .ret rv) ∧ (rest ≠ [] ∧ fs = rest ∨
        fs = [.fatal] ∨ ∃ rv, fs = [.exitStart rv])) :
    HeldTop cfg (s.k.ghost.held t) fs := by
  have hrel : ∀ m, call.releases = some m → (s.k.ghost.held t).head? = some m := by
    intro m hm
    simpa [lifo, State.top_eq hr hf, hm] using hok
  rcases hc with ⟨-, rfl⟩ | ⟨-, ⟨-, rfl⟩ | rfl | ⟨rv, rfl⟩⟩
  · cases call with
    | mutexUnlock m => exact hrel m rfl
    | condWait c o => exact hrel
    | _ => trivial
  · exact .pop hsh (by simp) (by simp)
  · trivial
  · trivial

/-! ## The invariant -/

/-- **The mutexes of every thread.** -/
structure LockInv (cfg : Config) (s : State) : Prop where
  agree : s.k.locks.Agree
  fresh : ∀ t, s.k.nthread ≤ t → s.k.ghost.held t = []
  top : ∀ t, HeldTop cfg (s.k.ghost.held t) (s.ctx t).frames

theorem LockInv.freshLists (h : LockInv cfg s) : s.k.FreshLists := by
  intro u hu
  have hchain : Locks.Chain s.k.locks.next (s.k.thread u).mutexList (s.k.ghost.held u) :=
    h.agree.chain u
  rw [h.fresh u hu] at hchain
  exact hchain

/-- A frame that releases a mutex releases the one locked last. -/
theorem HeldTop.releases (ht : HeldTop cfg held (f :: rest)) (hf : f.releases = some m) :
    held.head? = some m := by
  cases f with
  | mutexUnlock m' =>
      cases hf
      exact ht
  | exitUnlock m' o rv =>
      cases hf
      exact ht.1
  | condWait c o => exact ht m hf
  | _ => cases hf

/-- A step that is not one of a thread leaves the mutexes alone. -/
theorem locks_keep (h : MachineInv cfg s) (hf : s.k.FreshLists)
    (hs : step cfg s e = .ok s') (he : ∀ c lags, e ≠ .run c lags) : s'.k.locks = s.k.locks := by
  refine (h.path hs).locks h.kernel (fun op hop => ?_) hf
  cases e with
  | run c lags => exact absurd rfl (he c lags)
  | tick =>
      cases hop
      trivial
  | systick => rcases hop with rfl | rfl <;> trivial
  | irq n lags =>
      rcases hop with rfl | hop
      · trivial
      · rcases hop with _ | hw | _
        · trivial
        · cases hw <;> trivial
        · trivial
  | pendsv lags =>
      rcases hop with rfl | hop
      · trivial
      · cases hop <;> trivial

/-- What a step of a thread does with the mutexes of the others. -/
theorem LocksTo.held_other (hl : LocksTo t rest f k k' fs) (hu : u ≠ t) :
    k'.ghost.held u = k.ghost.held u := by
  cases hl with
  | keep _ _ hk => exact congrFun (congrArg Locks.held hk) u
  | acquire _ hk =>
      have := congrFun (congrArg Locks.held hk) u
      simpa [Locks.acquire, Kernel.locks, hu] using this
  | release _ hk =>
      have := congrFun (congrArg Locks.held hk) u
      simpa [Locks.release, Kernel.locks, hu] using this

/-- The two views of the mutexes agree after a step of a thread. -/
theorem LocksTo.agree (hl : LocksTo t rest f k k' fs) (h : k.locks.Agree)
    (ht : HeldTop cfg (k.ghost.held t) (f :: rest)) : k'.locks.Agree := by
  cases hl with
  | keep _ _ hk => rwa [hk]
  | acquire ho hk =>
      rw [hk]
      exact h.acquire ho
  | release hf hk =>
      rw [hk]
      exact h.release (ht.releases hf)

/-- **Every step keeps the invariant**, if mutexes are released in reverse order. -/
theorem LockInv.keeps (h : LockInv cfg s) (hi : MachineInv cfg s) (hok : lifo s e = true)
    (hs : step cfg s e = .ok s') : LockInv cfg s' := by
  have hn := (hi.path hs).nthread_le hi.kernel
  have hquiet : (∀ c lags, e ≠ .run c lags) → s'.ctx = s.ctx → LockInv cfg s' := by
    intro he hctx
    have hk := locks_keep hi h.freshLists hs he
    have hheld : s'.k.ghost.held = s.k.ghost.held := congrArg Locks.held hk
    refine ⟨hk ▸ h.agree, fun t ht => ?_, fun t => ?_⟩
    · rw [hheld]
      exact h.fresh t (hn.trans ht)
    · rw [hheld, hctx]
      exact h.top t
  cases hst : step_stepTo hs with
  | tick | systick | irq | pendsv => exact hquiet (by simp) rfl
  | run hb hr hf hnext hstep =>
      rename_i c lags t f rest k' ctx
      have hsec := hi.section hb hr hf hnext
      have htop := h.top t
      have hshape := hi.shape t
      rw [hf] at htop hshape
      have hl : LocksTo t rest f (s.k.setLags lags) k' ctx.frames :=
        hnext.locks hsec.kernel hsec.runs hsec.fits h.freshLists
      refine ⟨hl.agree h.agree htop, fun u hu => ?_, fun u => ?_⟩
      · have hut : u ≠ t := by
          rintro rfl
          exact absurd (hsec.runs.lt hsec.kernel) (not_lt.2 (hn.trans hu))
        exact (hl.held_other hut).trans (h.fresh u (hn.trans hu))
      · by_cases hut : u = t
        · subst hut
          simp only [Function.update_self]
          by_cases hfu : f = .user
          · subst hfu
            obtain ⟨call, rfl, hk, -, hcall⟩ := frameStep_user hstep
            have hheld : k'.ghost.held u = s.k.ghost.held u := by
              rw [hk]
              rfl
            rw [hheld]
            exact HeldTop.call hr hf hshape hok hcall
          · exact hnext.heldTop hl hshape h.agree hfu htop
        · simp only [Function.update_of_ne hut]
          rw [hl.held_other hut]
          exact h.top u

theorem init_lockInv (cfg : Config) : LockInv cfg (init cfg) := by
  obtain ⟨-, -, -, -, hobj, -⟩ := initKernel_rest cfg
  have hheld : ∀ t, (initKernel cfg).ghost.held t = [] := fun t =>
    congrFun (congrArg Objects.held hobj) t
  have howner : ∀ m, ((initKernel cfg).mutex m).owner = none := fun m =>
    congrArg Mtx.owner (congrFun (congrArg Objects.mutex hobj) m)
  refine ⟨⟨⟨fun m t => ?_, fun t => ?_⟩, fun t => ?_⟩, fun t _ => hheld t, fun t => trivial⟩
  · show ((initKernel cfg).mutex m).owner = some t ↔ m ∈ (initKernel cfg).ghost.held t
    rw [howner, hheld]
    simp
  · show ((initKernel cfg).ghost.held t).Nodup
    rw [hheld]
    exact List.nodup_nil
  · show Locks.Chain _ ((initKernel cfg).thread t).mutexList ((initKernel cfg).ghost.held t)
    rw [hheld]
    obtain ⟨v, q, hth⟩ := initKernel_thread cfg t
    rw [hth]
    show ((mainKernel cfg).thread t).mutexList = none
    by_cases ht : t = 0
    · rw [ht]
      rfl
    · rw [mainKernel_thread_of_ne ht]

theorem lockInv_of_reach (h : Reach (step cfg) (fun s e => lifo s e = true) (init cfg) s) :
    LockInv cfg s :=
  Reach.invariant_of (P := LockInv cfg) (fun _ => machineInv_of_reach) (init_lockInv cfg)
    (fun _ _ _ hi _ hl hok hs => hl.keeps hi hok hs) h

/-! ## The lists of mutexes -/

/-- A thread releases only mutexes that it holds. -/
def releasesHeld (s : State) : Event → Bool
  | .run (.call c) _ =>
      match s.top, c.releases with
      | some (t, .user), some m => decide (m ∈ s.k.ghost.held t)
      | _, _ => true
  | _ => true

theorem releasesHeld_of_lifo (h : lifo s e = true) : releasesHeld s e = true := by
  unfold releasesHeld
  split
  · rename_i call lags
    split
    · rename_i t m htop hm
      simp only [lifo, htop, hm] at h
      exact decide_eq_true (List.mem_of_head? (of_decide_eq_true h))
    · rfl
  · rfl

/-- The list of every thread is the mutexes that it owns, each once; `chopstx_exit` releases
a mutex of the thread, and at its end there is none left. -/
structure MutexLists (s : State) : Prop where
  list : ∀ t, ∃ l : List Mid,
    Locks.Chain (fun m => (s.k.mutex m).list) (s.k.thread t).mutexList l ∧ l.Nodup ∧
      ∀ m, m ∈ l ↔ (s.k.mutex m).owner = some t
  releases : ∀ t m next rv, (s.ctx t).frames = [.exitUnlock m next rv] →
    (s.k.mutex m).owner = some t
  released : ∀ t rv, (s.ctx t).frames = [.exit rv] ∨ (s.ctx t).frames = [.exited rv] →
    ∀ m, (s.k.mutex m).owner ≠ some t

theorem LockInv.mutexLists (h : LockInv cfg s) : MutexLists s := by
  have howner : ∀ m t, (s.k.mutex m).owner = some t ↔ m ∈ s.k.ghost.held t := h.agree.owner
  refine ⟨fun t => ⟨s.k.ghost.held t, h.agree.chain t, h.agree.nodup t, fun m =>
    (howner m t).symm⟩, fun t m next rv hf => ?_, fun t rv hf m hm => ?_⟩
  · have htop := h.top t
    rw [hf] at htop
    exact (howner m t).2 (List.mem_of_head? htop.1)
  · have htop := h.top t
    have hnil : s.k.ghost.held t = [] := by
      rcases hf with hf | hf <;> (rw [hf] at htop; exact htop)
    have hmem := (howner m t).1 hm
    rw [hnil] at hmem
    cases hmem

/-- **The list of a thread is the mutexes that it owns**, in every run in which mutexes are
released in the reverse order of their acquisition. -/
theorem mutexLists_of_reach (cfg : Config) (s : State)
    (h : Reach (step cfg) (fun s e => lifo s e = true) (init cfg) s) : MutexLists s :=
  (lockInv_of_reach h).mutexLists

/-- A program with two mutexes. -/
def twoMutexes : Config := { sliceConfig with mainSchedRr := false, nmutex := 2 }

/-- The thread locks two mutexes and releases the first one: it still owns the second one,
but its list is empty. -/
theorem released_first_mutexLists : ∃ s : State,
    Reach (step twoMutexes) (fun s e => releasesHeld s e = true) (init twoMutexes) s ∧
      ¬ MutexLists s := by
  have htest : runTest (step twoMutexes) releasesHeld
      (fun s => decide ((s.k.mutex 1).owner = some 0 ∧ (s.k.thread 0).mutexList = none))
      (init twoMutexes) (.run (.call (.mutexLock 0)) [] :: runs 1 ++
        .run (.call (.mutexLock 1)) [] :: runs 1 ++
        .run (.call (.mutexUnlock 0)) [] :: runs 1) = true := by decide +kernel
  obtain ⟨s, hr, hp⟩ := reach_of_runTest htest
  rw [decide_eq_true_eq] at hp
  refine ⟨s, hr, fun hl => ?_⟩
  obtain ⟨l, hchain, -, hmem⟩ := hl.list 0
  have hin := (hmem 1).2 hp.1
  rw [hp.2] at hchain
  cases l with
  | nil => cases hin
  | cons m l => cases hchain.1

/-- A thread may release its mutexes in reverse order. -/
theorem mutexLists_of_reach_two : ∃ s : State,
    (s.k.mutex 0).owner = some 0 ∧ (s.k.mutex 1).owner = none ∧ MutexLists s := by
  have htest : runTest (step twoMutexes) lifo
      (fun s => decide ((s.k.mutex 0).owner = some 0 ∧ (s.k.mutex 1).owner = none))
      (init twoMutexes) (.run (.call (.mutexLock 0)) [] :: runs 1 ++
        .run (.call (.mutexLock 1)) [] :: runs 1 ++
        .run (.call (.mutexUnlock 1)) [] :: runs 1) = true := by decide +kernel
  obtain ⟨s, hr, hp⟩ := reach_of_runTest htest
  rw [decide_eq_true_eq] at hp
  exact ⟨s, hp.1, hp.2, mutexLists_of_reach _ s hr⟩

end Chopstx
