import Chopstx.Run.Next
import Chopstx.Section.Api
import Chopstx.Section.Value

/-!
# The steps of a thread as sequences of moves

`Frame.May` is the set of moves that the code of a frame may make, and a step of a
thread is a path of such moves (`Next.path`).

* `PollPt.May`, `Frame.May` - the moves, and `Frame.Fits` what the code of a frame relies on.
* `Frame.connect`, `Frame.May.connect` - the only move by which a frame puts its thread to sleep or
  ends it.
* `Frame.releases`, `Frame.May.acquire`, `Frame.May.drop` - the mutex that a frame releases, and
  the one that it acquires.
* `PollNext.path`, `Next.path` - the sections of `Chopstx.Section.Api` put together.
-/

namespace Chopstx

open Kernel

/-- The moves of a frame of `chopstx_poll`. -/
def PollPt.May (cfg : Config) (t : Tid) (P : Poll) : PollPt → Op → Prop
  | .init i | .hook i => (· = .proxy (P.px i))
  | .condStore _ _ => (· = .count P.call)
  | .condReady i | .condClear i => fun op => ∃ d b, P.pds[i]? = some d ∧ op = .ready d b
  | .condEnqueue i | .intrHook i | .joinHook i | .cleanup i _ => fun op =>
      ∃ d, P.pds[i]? = some d ∧ op.Polls cfg (P.px i) d
  | .main => fun op => op = .aux ∨ Sleeps.Ops t Op.None (.pollSleep t) Op.None op
  | .snooze => fun op => op = .aux ∨ Sleeps.Ops t Op.None (.sleep t .waitPoll) Op.None op
  | _ => Op.None

/-- The moves of a frame. -/
def Frame.May (cfg : Config) (t : Tid) : Frame → Op → Prop
  | .create _ => fun op => (∃ u, op = .create u) ∨ op.Ends t
  | .usecSnooze _ => fun op => op = .aux ∨ Sleeps.Ops t Op.None (.sleep t .waitTime) Op.None op
  | .mutexLock m _ => fun op => op = .aux ∨ op = .acquire t m ∨
      Sleeps.Ops t (fun op => op = .aux ∨ op.Inherits) (.block t (.mtx m) none) Op.None op
  | .mutexUnlock m | .exitUnlock m _ _ => Op.UnlocksEnds t m
  | .condWait c m => Sleeps.Ops t (Op.CondUnlocks t m) (.block t (.cnd c) none) Op.None
  | .condSignal _ | .condBroadcast _ => Op.WakesEnds t
  | .claimIrq d => fun op =>
      op = .aux ∨ op = .ready d false ∨ ∃ n, cfg.pd d = .intr n ∧ op = .irq n false
  | .intrDone d => (· = .ready d false)
  | .cleanupPush _ | .cleanupPop _ | .setcancelstate _ | .exitStart _ => fun op =>
      ∃ c l, op = .flags t (.own c l)
  | .setpriority _ => fun op => op = .prio t ∨ op.Ends t
  | .cancel tp => Op.Cancels t tp
  | .join tp _ => fun op => op = .aux ∨
      Sleeps.Ops t (· = .aux) (.block t .join (some tp))
        (fun op => op = .flags tp .join ∨ op.Inherits) op
  | .joinRet tp _ _ => fun op => op = .aux ∨ op = .finish tp
  | .pollCall _ _ => (· = .aux)
  | .poll P pt => pt.May cfg t P
  | .exit rv => Sleeps.Ops t (fun op => op = .aux ∨ op.Wakes) (.die t rv) Op.None
  | _ => Op.None

namespace Op

variable {t u tp : Tid} {m : Mid} {op op' : Op} {before after : Op → Prop}

theorem Wakes.by (h : op.Wakes) : op.By t := by
  cases h <;> trivial

theorem Inherits.by (h : op.Inherits) : op.By t := by
  cases h <;> trivial

theorem Unlocks.by (h : op.Unlocks t m) : op.By t := by
  cases h <;> trivial

theorem Ends.by (h : op.Ends t) : op.By t := by
  cases h <;> trivial

theorem CondUnlocks.by {o : Option Mid} (h : op.CondUnlocks t o) : op.By t := by
  rcases h with rfl | ⟨m, -, h⟩
  · trivial
  · exact h.by

theorem UnlocksEnds.by (h : op.UnlocksEnds t m) : op.By t := by
  cases h with
  | unlocks h => exact h.by
  | ends h => exact h.by

theorem WakesEnds.by (h : op.WakesEnds t) : op.By t := by
  cases h with
  | wakes h => exact h.by
  | ends h => exact h.by

theorem Cancels.by (h : op.Cancels t tp) : op.By t := by
  cases h with
  | ends h => exact h.by
  | _ => trivial

theorem Polls.by {cfg : Config} {p : PxId} {d : PdId} (h : op.Polls cfg p d) : op.By t := by
  cases h <;> trivial

theorem sleepsOps_by (h : Sleeps.Ops t before op' after op)
    (hb : ∀ o, before o → o.By t) (ho : op'.By t) (ha : ∀ o, after o → o.By t) : op.By t := by
  cases h with
  | before h => exact hb _ h
  | slice => rfl
  | op => exact ho
  | after h => exact ha _ h
  | switch => trivial

end Op

/-- The section of a thread puts no other thread to sleep, and takes no exception. -/
theorem Frame.May.by {cfg : Config} {t : Tid} {f : Frame} {op : Op} (h : f.May cfg t op) :
    op.By t := by
  have hnone : ∀ o, Op.None o → o.By t := fun _ ho => ho.elim
  cases f with
  | create fp =>
      rcases h with ⟨u, rfl⟩ | h
      · trivial
      · exact h.by
  | usecSnooze usec =>
      rcases h with rfl | h
      · trivial
      · exact Op.sleepsOps_by h hnone rfl hnone
  | mutexLock m b =>
      rcases h with rfl | rfl | h
      · trivial
      · rfl
      · exact Op.sleepsOps_by h (fun o ho => ho.elim (by rintro rfl; trivial) (·.by)) rfl hnone
  | mutexUnlock m => exact Op.UnlocksEnds.by h
  | exitUnlock m next rv => exact Op.UnlocksEnds.by h
  | condWait c m => exact Op.sleepsOps_by h (fun _ => Op.CondUnlocks.by) rfl hnone
  | condSignal c => exact Op.WakesEnds.by h
  | condBroadcast c => exact Op.WakesEnds.by h
  | claimIrq d => rcases h with rfl | rfl | ⟨n, -, rfl⟩ <;> trivial
  | intrDone d =>
      cases h
      trivial
  | cleanupPush | cleanupPop | setcancelstate | exitStart =>
      obtain ⟨c, l, rfl⟩ := h
      trivial
  | setpriority prio =>
      rcases h with rfl | h
      · trivial
      · exact h.by
  | cancel tp => exact Op.Cancels.by h
  | join tp ret =>
      rcases h with rfl | h
      · trivial
      · exact Op.sleepsOps_by h (by rintro o rfl; trivial) rfl
          (fun o ho => ho.elim (by rintro rfl; trivial) (·.by))
  | joinRet tp ret r => rcases h with rfl | rfl <;> trivial
  | pollCall usec pds =>
      cases h
      trivial
  | poll P pt =>
      cases pt with
      | init | hook | condStore =>
          cases h
          trivial
      | condReady | condClear =>
          obtain ⟨d, b, -, rfl⟩ := h
          trivial
      | condEnqueue | intrHook | joinHook | cleanup =>
          obtain ⟨d, -, h⟩ := h
          exact h.by
      | main | snooze =>
          rcases h with rfl | h
          · trivial
          · exact Op.sleepsOps_by h hnone rfl hnone
      | _ => exact h.elim
  | exit rv =>
      exact Op.sleepsOps_by h (fun o ho => ho.elim (by rintro rfl; trivial) (·.by)) rfl hnone
  | _ => exact h.elim

/-- The move by which the thread goes to sleep in a frame, or ends. -/
def Frame.connect (t : Tid) : Frame → Option Op
  | .usecSnooze _ => some (.sleep t .waitTime)
  | .mutexLock m _ => some (.block t (.mtx m) none)
  | .condWait c _ => some (.block t (.cnd c) none)
  | .join tp _ => some (.block t .join (some tp))
  | .poll _ .main => some (.pollSleep t)
  | .poll _ .snooze => some (.sleep t .waitPoll)
  | .exit rv => some (.die t rv)
  | _ => none

theorem Op.sleepsOps_connects {t u : Tid} {op op' : Op} {before after : Op → Prop}
    (h : Sleeps.Ops t before op' after op) (hc : op.Connects u) (hb : ∀ o, before o → o.Quiet)
    (ha : ∀ o, after o → o.Quiet) : op = op' := by
  cases h with
  | before h => exact absurd hc (hb _ h).not_connects
  | slice => exact hc.elim
  | op => rfl
  | after h => exact absurd hc (ha _ h).not_connects
  | switch => exact hc.elim

/-- **A frame puts its thread to sleep by one move only.** -/
theorem Frame.May.connect {cfg : Config} {t u : Tid} {f : Frame} {op : Op} (h : f.May cfg t op)
    (hc : op.Connects u) : f.connect t = some op := by
  have hnone : ∀ o, Op.None o → o.Quiet := fun _ ho => ho.elim
  have haux : ∀ {o : Op}, o = .aux → o.Quiet := by
    rintro o rfl
    trivial
  cases f with
  | usecSnooze usec =>
      rcases h with rfl | h
      · exact hc.elim
      · rw [Op.sleepsOps_connects h hc hnone hnone]
        rfl
  | mutexLock m b =>
      rcases h with rfl | rfl | h
      · exact hc.elim
      · exact hc.elim
      · rw [Op.sleepsOps_connects h hc (fun o ho => ho.elim haux (·.quiet)) hnone]
        rfl
  | condWait c m =>
      rw [Op.sleepsOps_connects h hc (fun _ => Op.CondUnlocks.quiet) hnone]
      rfl
  | join tp ret =>
      rcases h with rfl | h
      · exact hc.elim
      · rw [Op.sleepsOps_connects h hc (fun _ => haux)
          (fun o ho => ho.elim (by rintro rfl; trivial) (·.quiet))]
        rfl
  | exit rv =>
      rw [Op.sleepsOps_connects h hc (fun o ho => ho.elim haux (·.quiet)) hnone]
      rfl
  | poll P pt =>
      cases pt with
      | main | snooze =>
          rcases h with rfl | h
          · exact hc.elim
          · rw [Op.sleepsOps_connects h hc hnone hnone]
            rfl
      | init | hook | condStore =>
          cases h
          exact hc.elim
      | condReady | condClear =>
          obtain ⟨d, b, -, rfl⟩ := h
          exact hc.elim
      | condEnqueue | intrHook | joinHook | cleanup =>
          obtain ⟨d, -, h⟩ := h
          exact absurd hc h.quiet.not_connects
      | _ => exact h.elim
  | create fp =>
      rcases h with ⟨u, rfl⟩ | h
      · exact hc.elim
      · exact absurd hc h.not_connects
  | mutexUnlock m | exitUnlock m next rv =>
      rcases h with h | h
      · exact absurd hc h.quiet.not_connects
      · exact absurd hc h.not_connects
  | condSignal c | condBroadcast c =>
      rcases h with h | h
      · exact absurd hc h.quiet.not_connects
      · exact absurd hc h.not_connects
  | claimIrq d =>
      rcases h with rfl | rfl | ⟨n, -, rfl⟩ <;> exact hc.elim
  | cleanupPush | cleanupPop | setcancelstate | exitStart =>
      obtain ⟨c, l, rfl⟩ := h
      exact hc.elim
  | intrDone | pollCall =>
      cases h
      exact hc.elim
  | setpriority prio =>
      rcases h with rfl | h
      · exact hc.elim
      · exact absurd hc h.not_connects
  | cancel tp =>
      cases h with
      | ends h => exact absurd hc h.not_connects
      | _ => exact hc.elim
  | joinRet tp ret r => rcases h with rfl | rfl <;> exact hc.elim
  | _ => exact h.elim

/-! ### Where a move may happen -/

attribute [grind cases] Op.Wakes Op.Inherits Op.Unlocks Op.Ends Op.UnlocksEnds Op.WakesEnds
  Op.Cancels Op.Polls Sleeps.Ops

attribute [grind] Op.None Op.CondUnlocks

/-- The mutex that the code of a frame releases. -/
def Frame.releases : Frame → Option Mid
  | .mutexUnlock m | .exitUnlock m _ _ => some m
  | .condWait _ o => o
  | _ => none

/-- A mutex is acquired by `chopstx_mutex_lock`. -/
theorem Frame.May.acquire {cfg : Config} {t u : Tid} {m : Mid} {f : Frame}
    (h : f.May cfg t (.acquire u m)) : u = t ∧ ∃ b, f = .mutexLock m b := by
  cases f with
  | mutexLock m' b =>
      simp only [Frame.May] at h
      obtain ⟨rfl, rfl⟩ : u = t ∧ m = m' := by grind
      exact ⟨rfl, b, rfl⟩
  | poll P pt => cases pt <;> simp only [Frame.May, PollPt.May] at h <;> grind
  | _ =>
      simp only [Frame.May] at h
      grind

/-- A mutex is released by three operations. -/
theorem Frame.May.drop {cfg : Config} {t u : Tid} {m : Mid} {f : Frame}
    (h : f.May cfg t (.drop u m)) : u = t ∧ f.releases = some m := by
  cases f with
  | poll P pt => cases pt <;> simp only [Frame.May, PollPt.May] at h <;> grind
  | _ =>
      simp only [Frame.May] at h
      grind [Frame.releases]

/-- What the code of a frame relies on. -/
def Frame.Fits (k : Kernel) : Frame → Prop
  | .setpriority prio => prio < 256
  | .joinRet tp _ r => r = 0 → tp < k.nthread ∧ (k.thread tp).state.Ended
  | _ => True

variable {cfg : Config} {k k' : Kernel} {t : Tid} {P : Poll} {pt : PollPt} {f : Frame}
  {rest : List Frame} {ret : Int} {ctx : Ctx} {Q : Op → Prop}

theorem refl_path (hr : Runs k t) : Path cfg Q (none, k) (none, k) ∧ Settled k :=
  ⟨.refl, hr.settled⟩

/-- A section with a quiet path. -/
theorem quiet_path (h : KernelInv none k) (hr : Runs k t) (hq : ∀ op, Q op → op.Quiet)
    (hp : Path cfg Q (none, k) (none, k')) : Path cfg Q (none, k) (none, k') ∧ Settled k' :=
  ⟨hp, (hp.runs hq h hr).1.settled⟩

/-- An empty section. -/
theorem lockUnlock_path (hr : Runs k t) (hQ : Q .aux) :
    Path cfg Q (none, k) (none, k.chxCpuSchedLock.chxCpuSchedUnlock) ∧
      Settled k.chxCpuSchedLock.chxCpuSchedUnlock :=
  ⟨(lock_move.path hQ).tail unlock_move hQ, hr.lock.unlock.settled⟩

/-- A section that puts the thread to sleep and makes its moves after the lock. -/
theorem Sleeps.locked_path {op : Op} (hs : Sleeps cfg t Op.None op Op.None k.chxCpuSchedLock k')
    (hc : op.Connects t) (h : KernelInv none k) (hr : Runs k t) :
    Path cfg (fun o => o = .aux ∨ Sleeps.Ops t Op.None op Op.None o) (none, k) (none, k') ∧
      Settled k' := by
  obtain ⟨hp, hset⟩ := hs.path hc (fun _ ho => ho.elim) (fun _ ho => ho.elim) (lock_inv h) hr.lock
  exact ⟨(lock_move.path (.inl rfl)).trans (hp.mono fun _ => .inr), hset⟩

theorem PollNext.path (hn : PollNext cfg k t P rest ret pt k' ctx) (h : KernelInv none k)
    (hr : Runs k t) : Path cfg (pt.May cfg t P) (none, k) (none, k') ∧ Settled k' := by
  have hpolls : ∀ {i d}, P.pds[i]? = some d → Path cfg (Op.Polls cfg (P.px i) d) (none, k)
      (none, k') → Path cfg (fun op => ∃ d, P.pds[i]? = some d ∧ op.Polls cfg (P.px i) d)
        (none, k) (none, k') ∧ Settled k' := fun hd hp =>
    quiet_path h hr (by rintro op ⟨d, -, hop⟩; exact hop.quiet)
      (hp.mono fun op hop => ⟨_, hd, hop⟩)
  cases hn with
  | initEnd | hookEnd | condLock | condHook | checkTrue | checkFalse | condLoad | condUnlock
  | condEnd | wake | loop | snoozeAgain | snoozeDone | exit | done => exact refl_path hr
  | init | hook => exact quiet_path h hr (by rintro op rfl; trivial) (Move.path (.proxy _) rfl)
  | condStore =>
      exact quiet_path h hr (by rintro op rfl; trivial)
        (Move.path (.count _) rfl)
  | condReady hd | condClear hd =>
      exact quiet_path h hr (by rintro op ⟨d, b, -, rfl⟩; trivial)
        (Move.path .ready ⟨_, _, hd, rfl⟩)
  | condEnqueue hd hc => exact hpolls hd condHookEnqueue_path
  | intrHook hd hn => exact hpolls hd (chxIntrHook_path hn)
  | joinHook hd hj hf => exact hpolls hd chxJoinHook_path
  | joinFatal hd hj hf => exact lockUnlock_path hr ⟨_, hd, .aux⟩
  | cleanup hd => exact hpolls hd pollCleanup_path
  | mainReady | mainLoop | snoozeReady => exact lockUnlock_path hr (.inl rfl)
  | mainSleep hc hu hs => exact (pollSleep_sleeps (lock_inv h) hr.lock hs).locked_path rfl h hr
  | snoozeEnd hc hs =>
      rcases chxSnooze_cases (lock_inv h) hr.lock (.inr rfl) hs with ⟨-, rfl⟩ | ⟨usec0, ho, -⟩
      · exact lockUnlock_path hr (.inl rfl)
      · cases ho
  | snoozeSleep hc hs =>
      rcases chxSnooze_cases (lock_inv h) hr.lock (.inr rfl) hs with ⟨ho, -⟩ | ⟨usec0, -, hs⟩
      · cases ho
      · exact hs.locked_path rfl h hr

/-- **A step of a thread is a path of moves of its frame.** -/
theorem Next.path (hn : Next cfg k t rest ret f k' ctx) (h : KernelInv none k) (hr : Runs k t)
    (hf : f.Fits k) : Path cfg (f.May cfg t) (none, k) (none, k') ∧ Settled k' := by
  have hquiet : ∀ {Q : Op → Prop}, (∀ op, Q op → op.Quiet) → Path cfg Q (none, k) (none, k') →
      Path cfg Q (none, k) (none, k') ∧ Settled k' := fun hq hp => quiet_path h hr hq hp
  have hflags : ∀ c l, Path cfg (fun op => ∃ c l, op = .flags t (.own c l)) (none, k)
      (none, k.modThread t (Flag.own c l).set) ∧ Settled (k.modThread t (Flag.own c l).set) := by
    intro c l
    refine quiet_path h hr ?_ (Move.path (.flags (.own c l)) ⟨c, l, rfl⟩)
    rintro op ⟨c, l, rfl⟩
    trivial
  cases hn with
  | call | endless | entryRet | routineRet | canceled | testcancel | schedRet | usecWait
  | usecAgain | usecDone | condRelock | condNoLock | condCancel | condRet | intrIdle
  | cleanupNone | joinWake | joinCancel | joinLate | exitMutexes | exitRoutine | exitMutex
  | exitEnd => exact refl_path hr
  | create hc =>
      obtain ⟨hp, hs⟩ := chopstxCreate_path h hr hc
      exact ⟨hp.mono fun op hop => hop.imp (fun ho => ⟨_, ho⟩) id, hs⟩
  | usecEnd hz =>
      rcases chxSnooze_cases (lock_inv h) hr.lock (.inl rfl) hz with ⟨-, rfl⟩ | ⟨usec0, ho, -⟩
      · exact lockUnlock_path hr (.inl rfl)
      · cases ho
  | usecSleep hz =>
      rcases chxSnooze_cases (lock_inv h) hr.lock (.inl rfl) hz with ⟨ho, -⟩ | ⟨usec0, -, hs⟩
      · cases ho
      · exact hs.locked_path rfl h hr
  | acquired hl =>
      rcases chopstxMutexLock_cases h hr hl with ⟨-, ho, rfl⟩ | ⟨hb, -⟩
      · have hm : Move cfg (.acquire t _) (none, k.chxCpuSchedLock) _ := .acquire hr.1 hr.2 ho
        refine ⟨((lock_move.path (.inl rfl)).tail hm (.inr (.inl rfl))).tail unlock_move
          (.inl rfl), ?_⟩
        exact ((hm.runs trivial (lock_inv h) hr.lock).1).unlock.settled
      · cases hb
  | blocked hl =>
      rcases chopstxMutexLock_cases h hr hl with ⟨hb, -⟩ | ⟨-, -, hs⟩
      · cases hb
      · obtain ⟨hp, hset⟩ := hs.path rfl
          (by rintro op (rfl | hop); exacts [trivial, hop.quiet]) (fun _ ho => ho.elim) h hr
        exact ⟨hp.mono fun _ hop => .inr (.inr hop), hset⟩
  | mutexUnlock hu => exact chopstxMutexUnlock_path h hr hu
  | exitUnlock hu => exact exitMutexUnlock_path h hr hu
  | condWait hw =>
      exact (chopstxCondWait_sleeps h hr hw).path rfl (fun _ => Op.CondUnlocks.quiet)
        (fun _ ho => ho.elim) h hr
  | condSignal hc => exact chopstxCondSignal_path h hr hc
  | condBroadcast hc => exact chopstxCondBroadcast_path h hr hc
  | claimIrq hd =>
      refine hquiet ?_ ((((Move.ready.path (.inr (.inl rfl))).tail lock_move (.inl rfl)).tail
        .disable (.inr (.inr ⟨_, hd, rfl⟩))).tail unlock_move (.inl rfl))
      rintro op (rfl | rfl | ⟨n, -, rfl⟩) <;> trivial
  | intrDone hd => exact hquiet (by rintro op rfl; trivial) (Move.path .ready rfl)
  | cleanupPush | cleanupPop | cleanupExecute | setcancelstate | exitStart => exact hflags _ _
  | setpriority hp => exact chopstxSetpriority_path h hr hf hp
  | cancel hc => exact chopstxCancel_path h hr hc
  | joinFatal => exact lockUnlock_path hr (.inl rfl)
  | joinSleep hd hj =>
      rcases chopstxJoin_cases h hr hj with ⟨hb, -⟩ | ⟨-, -, hs⟩
      · cases hb
      · obtain ⟨hp, hset⟩ := hs.path rfl (by rintro op rfl; trivial)
          (by rintro op (rfl | hop); exacts [trivial, hop.quiet]) h hr
        exact ⟨hp.mono fun _ => .inr, hset⟩
  | joinDone hd hj =>
      rcases chopstxJoin_cases h hr hj with ⟨-, -, rfl⟩ | ⟨hb, -⟩
      · exact lockUnlock_path hr (.inl rfl)
      · cases hb
  | joined hm =>
      obtain ⟨hlt, he⟩ := hf rfl
      refine hquiet ?_ ((Move.path (.finish hlt he) (.inr rfl)).tail
        (.aux k.masked k.counter k.ncall _ le_rfl fun _ _ => rfl) (.inl rfl))
      rintro op (rfl | rfl) <;> trivial
  | pollCall =>
      exact hquiet (by rintro op rfl; trivial)
        (Move.path (.aux k.masked _ (k.ncall + 1) k.mem (Nat.le_succ _)
          fun _ hlt => Function.update_of_ne hlt.ne ..) rfl)
  | poll hp => exact hp.path h hr
  | exit hx =>
      exact (chxExit_sleeps h hr hx).path rfl
        (by rintro op (rfl | hop); exacts [trivial, hop.quiet]) (fun _ ho => ho.elim) h hr

end Chopstx
