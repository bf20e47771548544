import Chopstx.Machine

/-!
# What a step of a thread can be

`Next` lists the outcomes of `frameStep`, one constructor for each way through the code
of a frame, with what has been checked and which section has been passed.  `PollNext` is
the part for the frames of `chopstx_poll`.

* `PollNext`, `Next` - the outcomes; `PdKind.hookPt`, `PdKind.mutex` and `Poll.pd` name the parts
  that depend on a descriptor.
* `pollStep_next`, `frameStep_next` - every step is one of them.
* `frameStep_user` - what the application does is a call, or its return.

A property of all steps is proved by cases on `Next`, and not by unfolding `frameStep`.
-/

namespace Chopstx

open Kernel

/-- The point in `chopstx_poll` behind the `chopstx_testcancel` of the hook. -/
def PdKind.hookPt (i : Nat) : PdKind → PollPt
  | .cond _ _ => .condHook i
  | .intr _ => .intrHook i
  | .join _ => .joinHook i

/-- The mutex of a descriptor. -/
def PdKind.mutex : PdKind → Option Mid
  | .cond _ m => m
  | _ => none

/-- Descriptor `i` of a call. -/
def Poll.pd (P : Poll) (cfg : Config) (i : Nat) : Option PdKind := (P.pds[i]?).map cfg.pd

/-- The outcomes of `pollStep`. -/
inductive PollNext (cfg : Config) (k : Kernel) (t : Tid) (P : Poll) (rest : List Frame)
    (ret : Int) : PollPt → Kernel → Ctx → Prop
  | init {i : Nat} (hi : i < P.pds.length) :
      PollNext cfg k t P rest ret (.init i) (k.chxProxyInit t (P.px i))
        ⟨.poll P (.init (i + 1)) :: rest, ret⟩
  | initEnd {i : Nat} (hi : P.pds.length ≤ i) :
      PollNext cfg k t P rest ret (.init i) k ⟨.poll P (.hook 0) :: rest, ret⟩
  | hook {i : Nat} {d : PdId} (hd : P.pds[i]? = some d) :
      PollNext cfg k t P rest ret (.hook i)
        (k.modPx (P.px i) fun px => { px with readyP := some d })
        ⟨.testcancel :: .poll P ((cfg.pd d).hookPt i) :: rest, ret⟩
  | hookEnd {i : Nat} (hd : P.pds[i]? = none) :
      PollNext cfg k t P rest ret (.hook i) k ⟨.poll P .main :: rest, ret⟩
  | condLock {i : Nat} {c : Cid} {m : Mid} (hd : P.pd cfg i = some (.cond c (some m))) :
      PollNext cfg k t P rest ret (.condHook i) k
        ⟨.mutexLock m false :: .poll P (.condCheck i) :: rest, ret⟩
  | condHook {i : Nat} (hd : ∀ c m, P.pd cfg i ≠ some (.cond c (some m))) :
      PollNext cfg k t P rest ret (.condHook i) k ⟨.poll P (.condCheck i) :: rest, ret⟩
  | checkTrue {i : Nat} :
      PollNext cfg k t P rest ret (.condCheck i) k ⟨.poll P (.condLoad i) :: rest, ret⟩
  | checkFalse {i : Nat} :
      PollNext cfg k t P rest ret (.condCheck i) k ⟨.poll P (.condClear i) :: rest, ret⟩
  | condLoad {i : Nat} :
      PollNext cfg k t P rest ret (.condLoad i) k
        ⟨.poll P (.condStore i (k.counter P.call)) :: rest, ret⟩
  | condStore {i n : Nat} :
      PollNext cfg k t P rest ret (.condStore i n)
        { k with counter := Function.update k.counter P.call (n + 1) }
        ⟨.poll P (.condReady i) :: rest, ret⟩
  | condReady {i : Nat} {d : PdId} (hd : P.pds[i]? = some d) :
      PollNext cfg k t P rest ret (.condReady i) (k.setReady d true)
        ⟨.poll P (.condEnd i) :: rest, ret⟩
  | condClear {i : Nat} {d : PdId} (hd : P.pds[i]? = some d) :
      PollNext cfg k t P rest ret (.condClear i) (k.setReady d false)
        ⟨.poll P (.condEnqueue i) :: rest, ret⟩
  | condEnqueue {i : Nat} {d : PdId} {c : Cid} {m : Option Mid} (hd : P.pds[i]? = some d)
      (hc : cfg.pd d = .cond c m) :
      PollNext cfg k t P rest ret (.condEnqueue i) (k.condHookEnqueue (P.px i) c)
        ⟨.poll P (.condEnd i) :: rest, ret⟩
  | condUnlock {i : Nat} {c : Cid} {m : Mid} (hd : P.pd cfg i = some (.cond c (some m))) :
      PollNext cfg k t P rest ret (.condEnd i) k
        ⟨.mutexUnlock m :: .poll P (.hook (i + 1)) :: rest, ret⟩
  | condEnd {i : Nat} (hd : ∀ c m, P.pd cfg i ≠ some (.cond c (some m))) :
      PollNext cfg k t P rest ret (.condEnd i) k ⟨.poll P (.hook (i + 1)) :: rest, ret⟩
  | intrHook {i : Nat} {d : PdId} {n : Irq} (hd : P.pds[i]? = some d) (hn : cfg.pd d = .intr n) :
      PollNext cfg k t P rest ret (.intrHook i) (k.chxIntrHook (P.px i) d n)
        ⟨.poll P (.hook (i + 1)) :: rest, ret⟩
  | joinFatal {i : Nat} {d : PdId} {tp : Tid} (hd : P.pds[i]? = some d)
      (hj : cfg.pd d = .join tp) (hf : (k.thread tp).flagDetached = true) :
      PollNext cfg k t P rest ret (.joinHook i) k.chxCpuSchedLock.chxCpuSchedUnlock
        ⟨.fatal :: .poll P (.joinHook i) :: rest, ret⟩
  | joinHook {i : Nat} {d : PdId} {tp : Tid} (hd : P.pds[i]? = some d)
      (hj : cfg.pd d = .join tp) (hf : (k.thread tp).flagDetached = false) :
      PollNext cfg k t P rest ret (.joinHook i) (k.chxJoinHook (P.px i) d tp)
        ⟨.poll P (.hook (i + 1)) :: rest, ret⟩
  | mainReady (hc : k.counter P.call ≠ 0) :
      PollNext cfg k t P rest ret .main k.chxCpuSchedLock.chxCpuSchedUnlock
        ⟨.poll P (.cleanup 0 0) :: rest, ret⟩
  | mainSleep {k' : Kernel} (hc : k.counter P.call = 0) (hu : P.usec = none)
      (hs : k.chxCpuSchedLock.pollSleep cfg t = .ok k') :
      PollNext cfg k t P rest ret .main k' ⟨.schedRet :: .poll P .wake :: rest, ret⟩
  | mainLoop {n : Nat} (hc : k.counter P.call = 0) (hu : P.usec = some n) :
      PollNext cfg k t P rest ret .main k.chxCpuSchedLock.chxCpuSchedUnlock
        ⟨.poll P .loop :: rest, ret⟩
  | wake : PollNext cfg k t P rest ret .wake k ⟨.poll P (.cleanup 0 ret) :: rest, ret⟩
  | loop :
      PollNext cfg k t P rest ret .loop k ⟨.testcancel :: .poll P .snooze :: rest, ret⟩
  | snoozeReady (hc : k.counter P.call ≠ 0) :
      PollNext cfg k t P rest ret .snooze k.chxCpuSchedLock.chxCpuSchedUnlock
        ⟨.poll P (.cleanup 0 0) :: rest, ret⟩
  | snoozeEnd {k' : Kernel} (hc : k.counter P.call = 0)
      (hs : k.chxCpuSchedLock.chxSnooze cfg t .waitPoll (P.usec.getD 0) = .ok (k', none)) :
      PollNext cfg k t P rest ret .snooze k' ⟨.poll P (.cleanup 0 1) :: rest, ret⟩
  | snoozeSleep {k' : Kernel} {usec0 : Nat} (hc : k.counter P.call = 0)
      (hs : k.chxCpuSchedLock.chxSnooze cfg t .waitPoll (P.usec.getD 0) = .ok (k', some usec0)) :
      PollNext cfg k t P rest ret .snooze k'
        ⟨.schedRet :: .poll P (.snoozeWake usec0) :: rest, ret⟩
  | snoozeAgain {usec0 n : Nat} (hr : snoozeResult cfg (P.usec.getD 0) usec0 ret = (0, n)) :
      PollNext cfg k t P rest ret (.snoozeWake usec0) k
        ⟨.poll { P with usec := some n } .loop :: rest, ret⟩
  | snoozeDone {usec0 n : Nat} {r : Int} (hz : r ≠ 0)
      (hr : snoozeResult cfg (P.usec.getD 0) usec0 ret = (r, n)) :
      PollNext cfg k t P rest ret (.snoozeWake usec0) k
        ⟨.poll { P with usec := some n } (.cleanup 0 r) :: rest, ret⟩
  | cleanup {i : Nat} {d : PdId} {r : Int} (hd : P.pds[i]? = some d) :
      PollNext cfg k t P rest ret (.cleanup i r) (k.pollCleanup cfg (P.px i) d)
        ⟨.poll P (.cleanup (i + 1) r) :: rest, ret⟩
  | exit {i : Nat} {r : Int} (hd : P.pds[i]? = none) (hr : r < 0) :
      PollNext cfg k t P rest ret (.cleanup i r) k ⟨[.exitStart chopstxCanceled], ret⟩
  | done {i : Nat} {r : Int} (hd : P.pds[i]? = none) (hr : 0 ≤ r) :
      PollNext cfg k t P rest ret (.cleanup i r) k ⟨rest, k.counter P.call⟩

/-- The outcomes of `frameStep`. -/
inductive Next (cfg : Config) (k : Kernel) (t : Tid) (rest : List Frame) (ret : Int) :
    Frame → Kernel → Ctx → Prop
  | call {c : Call} (hv : c.valid cfg k = true) (hc : ∀ rv, c ≠ .ret rv) :
      Next cfg k t rest ret .user k ⟨c.frames ++ .user :: rest, ret⟩
  | endless (hr : rest = []) : Next cfg k t rest ret .user k ⟨[.fatal], ret⟩
  | entryRet {rv : Nat} (hr : rest = []) (hrv : rv < 4294967296) :
      Next cfg k t rest ret .user k ⟨[.exitStart rv], ret⟩
  | routineRet (hr : rest ≠ []) : Next cfg k t rest ret .user k ⟨rest, ret⟩
  | canceled (hc : (k.thread t).flagCancelable = true) (hg : (k.thread t).flagGotCancel = true) :
      Next cfg k t rest ret .testcancel k ⟨[.exitStart chopstxCanceled], ret⟩
  | testcancel (hc : ¬ ((k.thread t).flagCancelable = true ∧ (k.thread t).flagGotCancel = true)) :
      Next cfg k t rest ret .testcancel k ⟨rest, ret⟩
  | schedRet : Next cfg k t rest ret .schedRet k ⟨rest, toInt (k.thread t).v⟩
  | create {fp : Nat} {k' : Kernel} (hc : k.chopstxCreate cfg t fp = .ok k') :
      Next cfg k t rest ret (.create fp) k' ⟨rest, k.nthread⟩
  | usecWait {usec : Nat} :
      Next cfg k t rest ret (.usecWait usec) k ⟨.testcancel :: .usecSnooze usec :: rest, ret⟩
  | usecEnd {usec : Nat} {k' : Kernel}
      (hz : k.chxCpuSchedLock.chxSnooze cfg t .waitTime usec = .ok (k', none)) :
      Next cfg k t rest ret (.usecSnooze usec) k' ⟨rest, ret⟩
  | usecSleep {usec usec0 : Nat} {k' : Kernel}
      (hz : k.chxCpuSchedLock.chxSnooze cfg t .waitTime usec = .ok (k', some usec0)) :
      Next cfg k t rest ret (.usecSnooze usec) k'
        ⟨.schedRet :: .usecWake usec usec0 :: rest, ret⟩
  | usecAgain {usec usec0 n : Nat} :
      Next cfg k t rest ret (.usecWake usec usec0) k ⟨.usecWait n :: rest, ret⟩
  | usecDone {usec usec0 : Nat} : Next cfg k t rest ret (.usecWake usec usec0) k ⟨rest, ret⟩
  | acquired {m : Mid} {b : Bool} {k' : Kernel}
      (hl : k.chopstxMutexLock cfg t m = .ok (k', true)) :
      Next cfg k t rest ret (.mutexLock m b) k' ⟨rest, ret⟩
  | blocked {m : Mid} {b : Bool} {k' : Kernel}
      (hl : k.chopstxMutexLock cfg t m = .ok (k', false)) :
      Next cfg k t rest ret (.mutexLock m b) k' ⟨.schedRet :: .mutexLock m true :: rest, ret⟩
  | mutexUnlock {m : Mid} {k' : Kernel} (hu : k.chopstxMutexUnlock cfg t m = .ok k') :
      Next cfg k t rest ret (.mutexUnlock m) k' ⟨rest, ret⟩
  | condWait {c : Cid} {m : Option Mid} {k' : Kernel}
      (hw : k.chopstxCondWait cfg t c m = .ok k') :
      Next cfg k t rest ret (.condWait c m) k' ⟨.schedRet :: .condWake m :: rest, ret⟩
  | condRelock {m : Mid} :
      Next cfg k t rest ret (.condWake (some m)) k
        ⟨.mutexLock m false :: .condRet (some m) ret :: rest, ret⟩
  | condNoLock : Next cfg k t rest ret (.condWake none) k ⟨.condRet none ret :: rest, ret⟩
  | condCancel {m : Option Mid} {r : Int} (hr : r < 0) :
      Next cfg k t rest ret (.condRet m r) k ⟨[.exitStart chopstxCanceled], ret⟩
  | condRet {m : Option Mid} {r : Int} (hr : 0 ≤ r) :
      Next cfg k t rest ret (.condRet m r) k ⟨rest, ret⟩
  | condSignal {c : Cid} {k' : Kernel} (hc : k.chopstxCondSignal cfg t c = .ok k') :
      Next cfg k t rest ret (.condSignal c) k' ⟨rest, ret⟩
  | condBroadcast {c : Cid} {k' : Kernel} (hc : k.chopstxCondBroadcast cfg t c = .ok k') :
      Next cfg k t rest ret (.condBroadcast c) k' ⟨rest, ret⟩
  | claimIrq {d : PdId} {n : Irq} (hd : cfg.pd d = .intr n) :
      Next cfg k t rest ret (.claimIrq d) (k.chopstxClaimIrq d n) ⟨rest, ret⟩
  | intrDone {d : PdId} (hr : k.ready d = true) :
      Next cfg k t rest ret (.intrDone d) (k.setReady d false) ⟨rest, ret⟩
  | intrIdle {d : PdId} (hr : k.ready d = false) :
      Next cfg k t rest ret (.intrDone d) k ⟨rest, ret⟩
  | cleanupPush {r : Nat} :
      Next cfg k t rest ret (.cleanupPush r)
        (k.modThread t fun th => { th with clp := r :: th.clp }) ⟨rest, ret⟩
  | cleanupNone {e : Bool} (hc : (k.thread t).clp = []) :
      Next cfg k t rest ret (.cleanupPop e) k ⟨rest, ret⟩
  | cleanupPop {r : Nat} {clp : List Nat} (hc : (k.thread t).clp = r :: clp) :
      Next cfg k t rest ret (.cleanupPop false) (k.modThread t fun th => { th with clp := clp })
        ⟨rest, ret⟩
  | cleanupExecute {r : Nat} {clp : List Nat} (hc : (k.thread t).clp = r :: clp) :
      Next cfg k t rest ret (.cleanupPop true) (k.modThread t fun th => { th with clp := clp })
        ⟨.user :: rest, ret⟩
  | setcancelstate {b : Bool} {r : Int} :
      Next cfg k t rest ret (.setcancelstate b)
        (k.modThread t fun th => { th with flagCancelable := !b }) ⟨.testcancel :: rest, r⟩
  | setpriority {prio : Nat} {k' : Kernel} (hp : k.chopstxSetpriority cfg t prio = .ok k') :
      Next cfg k t rest ret (.setpriority prio) k' ⟨rest, (k.thread t).prioOrig⟩
  | cancel {tp : Tid} {k' : Kernel} (hc : k.chopstxCancel cfg t tp = .ok k') :
      Next cfg k t rest ret (.cancel tp) k' ⟨rest, ret⟩
  | joinFatal {tp : Tid} {rp : Option Nat} (hf : (k.thread tp).flagDetached = true) :
      Next cfg k t rest ret (.join tp rp) k.chxCpuSchedLock.chxCpuSchedUnlock
        ⟨.fatal :: .join tp rp :: rest, ret⟩
  | joinSleep {tp : Tid} {rp : Option Nat} {k' : Kernel} (hf : (k.thread tp).flagDetached = false)
      (hj : k.chopstxJoin cfg t tp = .ok (k', true)) :
      Next cfg k t rest ret (.join tp rp) k' ⟨.schedRet :: .joinWake tp rp :: rest, ret⟩
  | joinDone {tp : Tid} {rp : Option Nat} {k' : Kernel} (hf : (k.thread tp).flagDetached = false)
      (hj : k.chopstxJoin cfg t tp = .ok (k', false)) :
      Next cfg k t rest ret (.join tp rp) k' ⟨.joinRet tp rp 0 :: rest, ret⟩
  | joinWake {tp : Tid} {rp : Option Nat} :
      Next cfg k t rest ret (.joinWake tp rp) k ⟨.joinRet tp rp ret :: rest, ret⟩
  | joinCancel {tp : Tid} {rp : Option Nat} {r : Int} (hr : r < 0) :
      Next cfg k t rest ret (.joinRet tp rp r) k ⟨[.exitStart chopstxCanceled], ret⟩
  | joined {tp : Tid} {rp : Option Nat} {mem : Nat → Nat}
      (hm : mem = rp.elim k.mem fun a => Function.update k.mem a (k.thread tp).v) :
      Next cfg k t rest ret (.joinRet tp rp 0)
        { k.modThread tp fun th => { th with state := .finished } with mem := mem } ⟨rest, 0⟩
  | joinLate {tp : Tid} {rp : Option Nat} {r : Int} (hr : 0 < r) :
      Next cfg k t rest ret (.joinRet tp rp r) k ⟨rest, r⟩
  | pollCall {usec : Option Nat} {pds : List PdId} :
      Next cfg k t rest ret (.pollCall usec pds)
        { k with ncall := k.ncall + 1, counter := Function.update k.counter k.ncall 0 }
        ⟨.poll ⟨k.ncall, pds, usec⟩ (.init 0) :: rest, ret⟩
  | poll {P : Poll} {pt : PollPt} {k' : Kernel} {ctx : Ctx}
      (hp : PollNext cfg k t P rest ret pt k' ctx) : Next cfg k t rest ret (.poll P pt) k' ctx
  | exitStart {rv : Nat} :
      Next cfg k t rest ret (.exitStart rv) (k.modThread t fun th => { th with clp := [] })
        ⟨[.exitCleanup (k.thread t).clp rv], ret⟩
  | exitMutexes {rv : Nat} :
      Next cfg k t rest ret (.exitCleanup [] rv) k ⟨[.exitMutex (k.thread t).mutexList rv], ret⟩
  | exitRoutine {r : Nat} {clp : List Nat} {rv : Nat} :
      Next cfg k t rest ret (.exitCleanup (r :: clp) rv) k ⟨[.user, .exitCleanup clp rv], ret⟩
  | exitMutex {m : Mid} {rv : Nat} :
      Next cfg k t rest ret (.exitMutex (some m) rv) k
        ⟨[.exitUnlock m (k.mutex m).list rv], ret⟩
  | exitEnd {rv : Nat} : Next cfg k t rest ret (.exitMutex none rv) k ⟨[.exit rv], ret⟩
  | exitUnlock {m : Mid} {next : Option Mid} {rv : Nat} {k' : Kernel}
      (hu : k.exitMutexUnlock cfg t m = .ok k') :
      Next cfg k t rest ret (.exitUnlock m next rv) k' ⟨[.exitMutex next rv], ret⟩
  | exit {rv : Nat} {k' : Kernel} (hx : k.chxExit cfg t rv = .ok k') :
      Next cfg k t rest ret (.exit rv) k' ⟨[.exited rv], ret⟩

variable {cfg : Config} {k k' : Kernel} {t : Tid} {P : Poll} {pt : PollPt} {f : Frame}
  {rest : List Frame} {ret : Int} {c : Choice} {ctx : Ctx}

theorem pollStep_next (h : pollStep cfg k t P pt rest ret c = .ok (k', ctx)) :
    PollNext cfg k t P rest ret pt k' ctx := by
  cases pt with
  | init i =>
      simp only [pollStep] at h
      split at h
      · rename_i hi
        cases h
        exact .init hi
      · rename_i hi
        cases h
        exact .initEnd (not_lt.1 hi)
  | hook i =>
      simp only [pollStep] at h
      split at h
      · rename_i hd
        cases h
        exact .hookEnd hd
      · rename_i d hd
        have hn : PollNext cfg k t P rest ret (.hook i) _ _ := .hook hd
        cases hp : cfg.pd d with
        | cond | intr | join =>
            rw [hp] at h hn
            cases h
            exact hn
  | condHook i =>
      simp only [pollStep] at h
      split at h
      · rename_i hd
        cases h
        exact .condLock hd
      · rename_i hd
        cases h
        exact .condHook fun c m hd' => hd c m hd'
  | condCheck i =>
      simp only [pollStep] at h
      split at h <;> cases h
      · exact .checkTrue
      · exact .checkFalse
  | condLoad i =>
      cases h
      exact .condLoad
  | condStore i n =>
      cases h
      exact .condStore
  | condReady i =>
      simp only [pollStep] at h
      split at h
      · rename_i hd
        cases h
        exact .condReady hd
      · cases h
  | condClear i =>
      simp only [pollStep] at h
      split at h
      · rename_i hd
        cases h
        exact .condClear hd
      · cases h
  | condEnqueue i =>
      simp only [pollStep] at h
      split at h
      · rename_i hd
        obtain ⟨d, hd, hc⟩ := Option.map_eq_some_iff.1 hd
        cases h
        exact .condEnqueue hd hc
      · cases h
  | condEnd i =>
      simp only [pollStep] at h
      split at h
      · rename_i hd
        cases h
        exact .condUnlock hd
      · rename_i hd
        cases h
        exact .condEnd fun c m hd' => hd c m hd'
  | intrHook i =>
      simp only [pollStep] at h
      split at h
      · rename_i hd
        split at h
        · rename_i hn
          cases h
          exact .intrHook hd hn
        · cases h
      · cases h
  | joinHook i =>
      simp only [pollStep] at h
      split at h
      · rename_i hd
        split at h
        · rename_i hj
          split at h
          · rename_i hf
            cases h
            exact .joinFatal hd hj hf
          · rename_i hf
            cases h
            exact .joinHook hd hj (by simpa using hf)
        · cases h
      · cases h
  | main =>
      simp only [pollStep] at h
      split at h
      · rename_i hc
        cases h
        exact .mainReady hc
      · rename_i hc
        have hc' := not_not.1 hc
        split at h
        · rename_i hu
          obtain ⟨k₁, hs, h⟩ := res_bind_eq_ok.1 h
          cases h
          exact .mainSleep hc' hu hs
        · rename_i hu
          cases h
          exact .mainLoop hc' hu
  | wake =>
      cases h
      exact .wake
  | loop =>
      cases h
      exact .loop
  | snooze =>
      simp only [pollStep] at h
      split at h
      · rename_i hc
        cases h
        exact .snoozeReady hc
      · rename_i hc
        have hc' := not_not.1 hc
        obtain ⟨⟨k₁, o⟩, hs, h⟩ := res_bind_eq_ok.1 h
        cases o <;> cases h
        · exact .snoozeEnd hc' hs
        · exact .snoozeSleep hc' hs
  | snoozeWake usec0 =>
      simp only [pollStep] at h
      split at h
      · rename_i hz
        cases h
        exact .snoozeAgain (Prod.ext hz rfl)
      · rename_i hz
        cases h
        exact .snoozeDone hz rfl
  | cleanup i r =>
      simp only [pollStep] at h
      split at h
      · rename_i hd
        cases h
        exact .cleanup hd
      · rename_i hd
        split at h
        · rename_i hr
          cases h
          exact .exit hd hr
        · rename_i hr
          cases h
          exact .done hd (not_lt.1 hr)

/-- **Every step of a thread is one of these.** -/
theorem frameStep_next (h : frameStep cfg k t f rest ret c = .ok (k', ctx)) :
    Next cfg k t rest ret f k' ctx := by
  cases f with
  | user =>
      simp only [frameStep] at h
      split at h
      · rename_i rv
        split at h
        · cases h
          split
          · exact .endless rfl
          · exact .entryRet rfl (Nat.mod_lt _ (by norm_num))
        · rename_i hr
          cases h
          exact .routineRet fun he => hr he
      · rename_i c' hne
        split at h
        · rename_i hv
          cases h
          rw [List.append_assoc]
          exact .call hv fun rv hc => hne rv hc
        · cases h
      · cases h
  | testcancel =>
      simp only [frameStep] at h
      split at h
      · rename_i hc
        cases h
        rw [Bool.and_eq_true] at hc
        exact .canceled hc.1 hc.2
      · rename_i hc
        cases h
        exact .testcancel (by rwa [Bool.and_eq_true] at hc)
  | schedRet =>
      cases h
      exact .schedRet
  | create fp =>
      obtain ⟨k₁, hc, h⟩ := res_bind_eq_ok.1 h
      cases h
      exact .create hc
  | usecWait usec =>
      cases h
      exact .usecWait
  | usecSnooze usec =>
      obtain ⟨⟨k₁, o⟩, hz, h⟩ := res_bind_eq_ok.1 h
      cases o <;> cases h
      · exact .usecEnd hz
      · exact .usecSleep hz
  | usecWake usec usec0 =>
      simp only [frameStep] at h
      split at h <;> cases h
      · exact .usecAgain
      · exact .usecDone
  | mutexLock m b =>
      obtain ⟨⟨k₁, b'⟩, hl, h⟩ := res_bind_eq_ok.1 h
      cases b' <;> cases h
      · exact .blocked hl
      · exact .acquired hl
  | mutexUnlock m =>
      obtain ⟨k₁, hu, h⟩ := res_bind_eq_ok.1 h
      cases h
      exact .mutexUnlock hu
  | condWait c m =>
      obtain ⟨k₁, hw, h⟩ := res_bind_eq_ok.1 h
      cases h
      exact .condWait hw
  | condWake m =>
      cases m <;> cases h
      · exact .condNoLock
      · exact .condRelock
  | condRet m r =>
      simp only [frameStep] at h
      split at h
      · rename_i hr
        cases h
        exact .condCancel hr
      · rename_i hr
        cases h
        exact .condRet (not_lt.1 hr)
  | condSignal c =>
      obtain ⟨k₁, hc, h⟩ := res_bind_eq_ok.1 h
      cases h
      exact .condSignal hc
  | condBroadcast c =>
      obtain ⟨k₁, hc, h⟩ := res_bind_eq_ok.1 h
      cases h
      exact .condBroadcast hc
  | claimIrq d =>
      simp only [frameStep] at h
      split at h
      · rename_i hd
        cases h
        exact .claimIrq hd
      · cases h
  | intrDone d =>
      simp only [frameStep] at h
      split at h
      · rename_i hr
        cases h
        exact .intrDone hr
      · rename_i hr
        cases h
        exact .intrIdle (by simpa using hr)
  | cleanupPush r =>
      cases h
      exact .cleanupPush
  | cleanupPop e =>
      simp only [frameStep] at h
      split at h
      · rename_i hc
        cases h
        exact .cleanupNone hc
      · rename_i hc
        cases e <;> cases h
        · exact .cleanupPop hc
        · exact .cleanupExecute hc
  | setcancelstate b =>
      cases h
      exact .setcancelstate
  | setpriority prio =>
      obtain ⟨k₁, hp, h⟩ := res_bind_eq_ok.1 h
      cases h
      exact .setpriority hp
  | cancel tp =>
      obtain ⟨k₁, hc, h⟩ := res_bind_eq_ok.1 h
      cases h
      exact .cancel hc
  | join tp rp =>
      simp only [frameStep] at h
      split at h
      · rename_i hf
        cases h
        exact .joinFatal hf
      · rename_i hf
        have hf' : (k.thread tp).flagDetached = false := by simpa using hf
        obtain ⟨⟨k₁, b⟩, hj, h⟩ := res_bind_eq_ok.1 h
        cases b <;> cases h
        · exact .joinDone hf' hj
        · exact .joinSleep hf' hj
  | joinWake tp rp =>
      cases h
      exact .joinWake
  | joinRet tp rp r =>
      simp only [frameStep] at h
      split at h
      · rename_i hr
        cases h
        exact .joinCancel hr
      · rename_i hr
        split at h
        · rename_i hz
          subst hz
          cases rp <;> cases h
          · exact .joined rfl
          · refine .joined ?_
            rw [modThread_thread, Function.update_self]
            rfl
        · rename_i hz
          cases h
          exact .joinLate (by omega)
  | pollCall usec pds =>
      cases h
      exact .pollCall
  | poll P pt => exact .poll (pollStep_next h)
  | exitStart rv =>
      cases h
      exact .exitStart
  | exitCleanup clp rv =>
      cases clp <;> cases h
      · exact .exitMutexes
      · exact .exitRoutine
  | exitMutex m rv =>
      cases m <;> cases h
      · exact .exitEnd
      · exact .exitMutex
  | exitUnlock m next rv =>
      obtain ⟨k₁, hu, h⟩ := res_bind_eq_ok.1 h
      cases h
      exact .exitUnlock hu
  | exit rv =>
      obtain ⟨k₁, hx, h⟩ := res_bind_eq_ok.1 h
      cases h
      exact .exit hx
  | exited rv => cases h
  | fatal => cases h

/-- The application calls an operation, or its function returns. -/
theorem frameStep_user (h : frameStep cfg k t .user rest ret c = .ok (k', ctx)) :
    ∃ call, c = .call call ∧ k' = k ∧ ctx.ret = ret ∧
      (call.valid cfg k = true ∧ ctx.frames = call.frames ++ .user :: rest ∨
        (∃ rv, call = .ret rv) ∧ (rest ≠ [] ∧ ctx.frames = rest ∨
          ctx.frames = [.fatal] ∨ ∃ rv, ctx.frames = [.exitStart rv])) := by
  simp only [frameStep] at h
  split at h
  · rename_i rv
    split at h
    · cases h
      refine ⟨_, rfl, rfl, rfl, .inr ⟨⟨rv, rfl⟩, .inr ?_⟩⟩
      split
      · exact .inl rfl
      · exact .inr ⟨_, rfl⟩
    · rename_i hr
      cases h
      exact ⟨_, rfl, rfl, rfl, .inr ⟨⟨rv, rfl⟩, .inl ⟨hr, rfl⟩⟩⟩
  · split at h
    · rename_i hv
      cases h
      refine ⟨_, rfl, rfl, rfl, .inl ⟨hv, ?_⟩⟩
      simp
    · cases h
  · cases h

end Chopstx
