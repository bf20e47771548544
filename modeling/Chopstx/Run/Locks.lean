import Chopstx.Library.LockList
import Chopstx.Run.Path

/-!
# The mutexes that a thread holds

`Kernel.locks` is the kernel's part about mutexes: their owners, the lists from
`mutex_list` on, and the history of what each thread has locked.  A step of a thread
acquires at most one mutex, or releases one (`Next.locks`).

* `Kernel.locks` - an instance of `Locks`, and `Kernel.FreshLists` for threads that are not there
  yet.
* `Op.KeepsLocks`, `Move.locks` - the moves that leave the mutexes alone.
* `LocksTo`, `Next.locks` - what a step does with them: nothing, an acquisition, or a release.
* `chxMutexUnlock_locks` - `chx_mutex_unlock` takes the first lock off the list, whatever mutex is
  released.
-/

namespace Chopstx

open Kernel

/-- The owners and the lists of the mutexes. -/
def Kernel.locks (k : Kernel) : Locks Tid Mid where
  owner m := (k.mutex m).owner
  next m := (k.mutex m).list
  first t := (k.thread t).mutexList
  held := k.ghost.held

/-- The moves that neither acquire nor release a mutex. -/
def Op.KeepsLocks : Op → Prop
  | .acquire _ _ | .drop _ _ => False
  | _ => True

variable {cfg : Config} {k k' k₁ : Kernel} {t u : Tid} {m : Mid} {off off' : Option Tid}
  {op : Op} {P : Op → Prop} {f : Frame} {rest : List Frame} {ret : Int} {ctx : Ctx}

/-! ## Moves -/

theorem locks_congr (hm : k'.mutex = k.mutex) (hh : k'.ghost.held = k.ghost.held)
    (hl : ∀ u, (k'.thread u).mutexList = (k.thread u).mutexList) : k'.locks = k.locks := by
  simp only [Kernel.locks, hm, hh, hl]

theorem acquire_locks : (k.acquire t m).locks = k.locks.acquire t m := by
  refine Locks.ext ?_ ?_ ?_ rfl <;> funext x <;>
  simp only [Kernel.locks, Locks.acquire, Function.update_apply, acquire_thread, acquire_mutex] <;>
  split <;> rfl

theorem dropMutex_locks : (k.dropMutex t m).locks = k.locks.release t m := by
  refine Locks.ext ?_ ?_ ?_ rfl <;> funext x <;>
  simp only [Kernel.locks, Locks.release, Function.update_apply, dropMutex_thread,
    dropMutex_mutex] <;>
  split <;> rfl

/-- Threads that have not been created hold nothing. -/
def Kernel.FreshLists (k : Kernel) : Prop := ∀ u, k.nthread ≤ u → (k.thread u).mutexList = none

/-- **Most moves leave the mutexes alone.** -/
theorem Move.locks (hm : Move cfg op (off, k) (off', k')) (h : KernelInv off k)
    (hop : op.KeepsLocks) (hf : k.FreshLists) : k'.locks = k.locks := by
  refine locks_congr ?_ ?_ fun u => ?_
  · by_cases ho : op.KeepsObjects
    · exact congrArg Objects.mutex (hm.objects h ho)
    · cases hm with
      | aux | count | create | proxy | fire | link | ready | enable | disable => rfl
      | acquire | drop => exact hop.elim
      | _ => exact absurd trivial ho
  · by_cases ho : op.KeepsObjects
    · exact congrArg Objects.held (hm.objects h ho)
    · cases hm with
      | aux | count | create | proxy | fire | link | ready | enable | disable => rfl
      | acquire | drop => exact hop.elim
      | _ => exact absurd trivial ho
  · by_cases ho : op.KeepsRecords
    · rw [hm.record h ho u]
    · have hupdate : ∀ {K : Kernel} {t : Tid} {th : Thread},
          K.thread = Function.update k.thread t th → th.mutexList = (k.thread t).mutexList →
          (K.thread u).mutexList = (k.thread u).mutexList := by
        intro K t th hK hth
        rw [hK]
        by_cases hut : u = t
        · rw [hut, Function.update_self, hth]
        · rw [Function.update_of_ne hut]
      cases hm with
      | flags w => exact hupdate rfl (by simp)
      | prio => exact hupdate rfl rfl
      | raise =>
          rename_i t q p hp hlt hq hst
          by_cases hut : u = t
          · subst hut
            simp [llPrioEnqueue_thread, setPrio_thread]
          · simp [llPrioEnqueue_thread, setPrio_thread, hut]
      | create fp =>
          rw [chxReadyEnqueue_thread]
          by_cases hut : u = k.nthread
          · subst hut
            rw [hf _ le_rfl]
            simp [newThread]
          · simp [hut]
      | acquire | drop => exact hop.elim
      | _ => exact absurd trivial ho

/-- A path of such moves leaves the mutexes alone. -/
theorem Path.locks (hp : Path cfg P (off, k) (off', k')) (h : KernelInv off k)
    (hP : ∀ op, P op → op.KeepsLocks) (hf : k.FreshLists) : k'.locks = k.locks := by
  have key := hp.keeps (I := fun a => KernelInv a.1 a.2 ∧ k.nthread ≤ a.2.nthread ∧
    a.2.locks = k.locks) ?_ ⟨h, le_rfl, rfl⟩
  · exact key.2.2
  · rintro op ⟨off, k₁⟩ ⟨off', k₂⟩ hop hm ⟨hk, hn, hl⟩
    refine ⟨hk.move hm, hn.trans (hm.nthread_le hk), (hm.locks hk (hP op hop) ?_).trans hl⟩
    intro u hu
    have hfirst := congrFun (congrArg Locks.first hl) u
    exact hfirst.trans (hf u (hn.trans hu))

/-! ## Sections -/

/-- `chx_mutex_unlock` releases the mutex. -/
theorem chxMutexUnlock_locks {n : Nat}
    (hu : k.chxMutexUnlock cfg t m = .ok (k', n)) : k'.locks = k.locks.release t m := by
  rw [← dropMutex_locks]
  rw [chxMutexUnlock] at hu
  simp only at hu
  split at hu
  · rename_i tp k₁ hpop
    obtain ⟨n', hn, hk⟩ := res_bind_eq_ok.1 hu
    cases hk
    cases hq : (k.dropMutex t m).queue (.mtx m) with
    | nil => simp [llPop, hq] at hpop
    | cons x l =>
        simp only [llPop, hq] at hpop
        cases hpop
        have hobj := resume_objects (k := (k.dropMutex t m).llDequeue (.thread tp)) (t := tp)
          (w := .handOver m) (v := 0)
        refine locks_congr (congrArg Objects.mutex hobj) (congrArg Objects.held hobj) fun u => ?_
        by_cases hut : u = t
        · subst hut
          by_cases hutp : u = tp
          · subst hutp
            simp [resume_thread]
          · simp [resume_thread, hutp]
        · by_cases hutp : u = tp
          · subst hutp
            simp [resume_thread, hut]
          · simp [resume_thread, hut, hutp]
  · cases hu
    rfl

theorem Op.Ends.keepsLocks (h : op.Ends t) : op.KeepsLocks := by
  cases h <;> trivial

theorem yieldOrUnlock_locks {b : Bool} (h : KernelInv none k) (hr : Runs k t)
    (hf : k.FreshLists) (hy : k.yieldOrUnlock cfg t b = .ok k') : k'.locks = k.locks :=
  (yieldOrUnlock_path cfg h hr hy).1.locks h (fun _ => Op.Ends.keepsLocks) hf

/-- A section that puts the thread to sleep leaves the mutexes alone. -/
theorem Sleeps.locks {before after : Op → Prop} (hs : Sleeps cfg t before op after k k')
    (hc : op.Connects t) (hb : ∀ o, before o → o.Quiet ∧ o.KeepsLocks)
    (ha : ∀ o, after o → o.Quiet ∧ o.KeepsLocks) (h : KernelInv none k) (hr : Runs k t)
    (hf : k.FreshLists) : k'.locks = k.locks := by
  refine (hs.path hc (fun o ho => (hb o ho).1) (fun o ho => (ha o ho).1) h hr).1.locks h ?_ hf
  rintro o (ho | - | - | ho | -)
  · exact (hb o ho).2
  · trivial
  · cases op with
    | acquire | drop => exact hc.elim
    | _ => trivial
  · exact (ha o ho).2
  · trivial

/-- What a step of a thread does with the mutexes; `fs` is the new stack. -/
inductive LocksTo (t : Tid) (rest : List Frame) : Frame → Kernel → Kernel → List Frame → Prop
  | keep {f : Frame} {k k' : Kernel} {fs : List Frame} (hf : f.releases = none)
      (hb : ∀ m b, f = .mutexLock m b → fs = .schedRet :: .mutexLock m true :: rest)
      (hk : k'.locks = k.locks) : LocksTo t rest f k k' fs
  | acquire {m : Mid} {b : Bool} {k k' : Kernel} (ho : k.locks.owner m = none)
      (hk : k'.locks = k.locks.acquire t m) : LocksTo t rest (.mutexLock m b) k k' rest
  | release {f : Frame} {m : Mid} {k k' : Kernel} {fs : List Frame} (hf : f.releases = some m)
      (hk : k'.locks = k.locks.release t m) : LocksTo t rest f k k' fs

/-- The mutexes of the threads that have been created. -/
theorem Kernel.FreshLists.release (hf : k.FreshLists) (hr : t < k.nthread)
    (hn : k'.nthread = k.nthread) (hk : k'.locks = k.locks.release t m) : k'.FreshLists := by
  intro u hu
  rw [hn] at hu
  have hut : u ≠ t := by
    rintro rfl
    exact absurd hr (not_lt.2 hu)
  have hfirst := congrFun (congrArg Locks.first hk) u
  refine hfirst.trans ?_
  simp only [Locks.release, Function.update_of_ne hut]
  exact hf u hu

theorem chxMutexUnlock_nthread {n : Nat} (hu : k.chxMutexUnlock cfg t m = .ok (k', n)) :
    k'.nthread = k.nthread := by
  rw [chxMutexUnlock] at hu
  simp only at hu
  split at hu
  · rename_i tp k₁ hpop
    obtain ⟨n', hn, hk⟩ := res_bind_eq_ok.1 hu
    cases hk
    cases hq : (k.dropMutex t m).queue (.mtx m) with
    | nil => simp [llPop, hq] at hpop
    | cons x l =>
        simp only [llPop, hq] at hpop
        cases hpop
        exact congrArg Objects.nthread (resume_objects (k := (k.dropMutex t m).llDequeue _))
  · cases hu
    rfl

/-- The release and what is left of the section. -/
theorem unlock_locks {n : Nat} {b : Bool} (h : KernelInv none k) (hr : Runs k t)
    (hf : k.FreshLists) (hu : k.chxMutexUnlock cfg t m = .ok (k₁, n))
    (hy : k₁.yieldOrUnlock cfg t b = .ok k') : k'.locks = k.locks.release t m := by
  have hp := chxMutexUnlock_path h hr hu
  have hl := chxMutexUnlock_locks hu
  have hf₁ := hf.release (hr.lt h) (chxMutexUnlock_nthread hu) hl
  have hr₁ := (hp.runs (fun _ => Op.Unlocks.quiet) h hr).1
  exact (yieldOrUnlock_locks (h.path hp) hr₁ hf₁ hy).trans hl

/-- **A step of a thread acquires at most one mutex, or releases one.** -/
theorem Next.locks (hn : Next cfg k t rest ret f k' ctx) (h : KernelInv none k) (hr : Runs k t)
    (hfits : f.Fits k) (hf : k.FreshLists) : LocksTo t rest f k k' ctx.frames := by
  have hkeep : f.releases = none → (∀ m b, f ≠ .mutexLock m b) →
      LocksTo t rest f k k' ctx.frames := by
    intro hrel hlock
    refine .keep hrel (fun m b hm => absurd hm (hlock m b)) ?_
    refine (hn.path h hr hfits).1.locks h (fun op hop => ?_) hf
    cases op with
    | acquire u m =>
        obtain ⟨-, b, hb⟩ := hop.acquire
        exact absurd hb (hlock m b)
    | drop u m =>
        have := hop.drop.2
        rw [hrel] at this
        cases this
    | _ => trivial
  have hnone : ∀ o, Op.None o → o.Quiet ∧ o.KeepsLocks := fun _ ho => ho.elim
  cases hn with
  | acquired hl =>
      rcases chopstxMutexLock_cases h hr hl with ⟨-, ho, rfl⟩ | ⟨hb, -⟩
      · exact .acquire ho acquire_locks
      · cases hb
  | blocked hl =>
      rcases chopstxMutexLock_cases h hr hl with ⟨hb, -⟩ | ⟨-, -, hs⟩
      · cases hb
      · refine .keep rfl ?_ (hs.locks rfl ?_ hnone h hr hf)
        · rintro m b hm
          cases hm
          rfl
        · rintro o (rfl | ho)
          · exact ⟨trivial, trivial⟩
          · refine ⟨ho.quiet, ?_⟩
            cases ho <;> trivial
  | mutexUnlock hu =>
      obtain ⟨⟨k₁, n⟩, hu₁, hy⟩ := res_bind_eq_ok.1 hu
      exact .release rfl (unlock_locks (k := k.chxCpuSchedLock) (lock_inv h) hr.lock hf hu₁ hy)
  | exitUnlock hu =>
      obtain ⟨⟨k₁, n⟩, hu₁, hk⟩ := res_bind_eq_ok.1 hu
      cases hk
      have hl := chxMutexUnlock_locks hu₁
      exact .release rfl hl
  | condWait hw =>
      rename_i c o
      obtain ⟨k₁, hu, h₁, hr₁, hs⟩ := chopstxCondWait_cases h hr hw
      cases o with
      | none =>
          cases hu
          exact .keep rfl (by simp) (hs.locks rfl hnone hnone h₁ hr₁ hf)
      | some m =>
          obtain ⟨⟨k₁, n⟩, hu₁, hk⟩ := res_bind_eq_ok.1 hu
          cases hk
          have hl := chxMutexUnlock_locks hu₁
          have hf₁ := Kernel.FreshLists.release (k := k.chxCpuSchedLock) hf (hr.lt h)
            (chxMutexUnlock_nthread hu₁) hl
          exact .release rfl ((hs.locks rfl hnone hnone h₁ hr₁ hf₁).trans hl)
  | _ => exact hkeep rfl (by simp)

end Chopstx
