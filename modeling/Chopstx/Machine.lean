import Chopstx.Kernel.Api

/-!
# The machine: threads with stacks, interrupts, time

A thread has a stack of frames, the innermost first.  A frame says how far a
function has come: either it is about to enter a critical section, or to execute
code outside of one that reads or writes what other threads or interrupt handlers
may access, or it has returned from `chx_sched`.  The machine takes such a piece
of code in one step, and between two steps every interrupt and every preemption
that the hardware permits may happen.

The frame `user` is the code of the application (the entry function of the thread,
or a clean-up routine); it may call any operation.

* `Frame`, `PollPt`, `Poll` - how far the functions have come; `Ctx` adds what a function returns.
* `Call`, `Call.frames` - what the application may do, and the frames of it.
* `frameStep`, `pollStep` - a step of the thread with the innermost frame; the choices that the
  code leaves open are a `Choice`.
* `Event`, `step` - a step of the machine: one of the running thread, a tick of the clock, an
  interrupt, or an exception that is taken.
* `initKernel`, `init` - where `main` starts.

`Chopstx.Run.Next` and `Chopstx.Run.Step` list what a step can be.
-/

namespace Chopstx

/-! ## Frames -/

/-- How far a call of `chopstx_poll` has come. -/
inductive PollPt where
  /-- Before `chx_proxy_init` of proxy `i`. -/
  | init (i : Nat)
  /-- At the loop over the descriptors. -/
  | hook (i : Nat)
  /-- In `chx_cond_hook`, after its `chopstx_testcancel`. -/
  | condHook (i : Nat)
  /-- Before the call of `pc->check`. -/
  | condCheck (i : Nat)
  /-- In `(*px->counter_p)++`: before the load, and before the store. -/
  | condLoad (i : Nat)
  | condStore (i : Nat) (counter : Nat)
  /-- Before `*px->ready_p = 1`. -/
  | condReady (i : Nat)
  /-- Before `pc->ready = 0`. -/
  | condClear (i : Nat)
  /-- Before the proxy is put into the queue of the condition variable. -/
  | condEnqueue (i : Nat)
  /-- At the end of `chx_cond_hook`. -/
  | condEnd (i : Nat)
  /-- In `chx_intr_hook`, after its `chopstx_testcancel`. -/
  | intrHook (i : Nat)
  /-- In `chx_join_hook`, after its `chopstx_testcancel`. -/
  | joinHook (i : Nat)
  /-- After the loop over the descriptors. -/
  | main
  /-- Back from the sleep without timeout. -/
  | wake
  /-- At the head of the loop with timeout. -/
  | loop
  /-- In that loop, after `chopstx_testcancel`. -/
  | snooze
  /-- Back from the sleep of `usec0` microseconds in `chx_snooze`. -/
  | snoozeWake (usec0 : Nat)
  /-- In the clean-up loop; `r` is the result of the wait. -/
  | cleanup (i : Nat) (r : Int)
  deriving DecidableEq, Repr

/-- A call of `chopstx_poll`: its name, its descriptors and `usec_p`. -/
structure Poll where
  call : Nat
  pds : List PdId
  usec : Option Nat
  deriving DecidableEq, Repr

/-- Proxy `i` of a call. -/
def Poll.px (P : Poll) (i : Nat) : PxId := ⟨P.call, i⟩

inductive Frame where
  /-- Code of the application. -/
  | user
  /-- `chopstx_testcancel`. -/
  | testcancel
  /-- The end of `chx_sched (CHX_SLEEP)`: the load of `v`. -/
  | schedRet
  | create (flagsAndPrio : Nat)
  /-- At the head of the loop of `chopstx_usec_wait_var`; in it; back from its sleep. -/
  | usecWait (usec : Nat)
  | usecSnooze (usec : Nat)
  | usecWake (usec usec0 : Nat)
  /-- At the head of the loop of `chopstx_mutex_lock`; `retry` after a sleep. -/
  | mutexLock (m : Mid) (retry : Bool)
  | mutexUnlock (m : Mid)
  /-- `chopstx_cond_wait` after `chopstx_testcancel`; back from its sleep; with the
  mutex locked again. -/
  | condWait (c : Cid) (m : Option Mid)
  | condWake (m : Option Mid)
  | condRet (m : Option Mid) (r : Int)
  | condSignal (c : Cid)
  | condBroadcast (c : Cid)
  | claimIrq (d : PdId)
  | intrDone (d : PdId)
  | cleanupPush (routine : Nat)
  | cleanupPop (execute : Bool)
  | setcancelstate (cancelDisable : Bool)
  | setpriority (prio : Nat)
  | cancel (tp : Tid)
  /-- `chopstx_join` after `chopstx_testcancel`; back from its sleep; before its end. -/
  | join (tp : Tid) (ret : Option Nat)
  | joinWake (tp : Tid) (ret : Option Nat)
  | joinRet (tp : Tid) (ret : Option Nat) (r : Int)
  /-- `chopstx_poll` before `chopstx_testcancel`; after it. -/
  | pollCall (usec : Option Nat) (pds : List PdId)
  | poll (P : Poll) (pt : PollPt)
  /-- `chopstx_exit`: at its start, in the loop over the clean-up structures, in the
  loop over the mutexes (before and after the load of `m->list`), before `chx_exit`. -/
  | exitStart (retval : Nat)
  | exitCleanup (clp : List Nat) (retval : Nat)
  | exitMutex (m : Option Mid) (retval : Nat)
  | exitUnlock (m : Mid) (next : Option Mid) (retval : Nat)
  | exit (retval : Nat)
  /-- The thread has ended. -/
  | exited (retval : Nat)
  /-- An endless loop: `chx_fatal`, or the end of `main`. -/
  | fatal
  deriving DecidableEq, Repr

/-- `CHOPSTX_CANCELED`. -/
def chopstxCanceled : Nat := minusOne

/-- What a thread has besides its record: its stack, and the result of the last
function that returned a value to the code it runs. -/
structure Ctx where
  frames : List Frame := [.user]
  ret : Int := 0
  deriving Repr

structure State where
  k : Kernel
  ctx : Tid → Ctx

/-! ## Choices -/

/-- What the application does. -/
inductive Call where
  | create (flagsAndPrio : Nat)
  | usecWait (usec : Nat)
  | mutexLock (m : Mid)
  | mutexUnlock (m : Mid)
  | condWait (c : Cid) (m : Option Mid)
  | condSignal (c : Cid)
  | condBroadcast (c : Cid)
  | claimIrq (d : PdId)
  | intrWait (d : PdId)
  | intrDone (d : PdId)
  | cleanupPush (routine : Nat)
  | cleanupPop (execute : Bool)
  | exit (retval : Nat)
  | join (tp : Tid) (ret : Option Nat)
  | cancel (tp : Tid)
  | testcancel
  | setcancelstate (cancelDisable : Bool)
  | poll (usec : Option Nat) (pds : List PdId)
  | setpriority (prio : Nat)
  /-- The entry function, or the clean-up routine, returns. -/
  | ret (retval : Nat)
  deriving DecidableEq, Repr

/-- What a step of the running thread leaves open: the call that the application
makes, or the result of `pc->check`. -/
inductive Choice where
  | none
  | call (c : Call)
  | check (b : Bool)
  deriving DecidableEq, Repr

/-- What happens next: a step of the running thread, a tick of the clock, or the
handler of an exception.  The list is the time that passes at the accesses to the
SysTick registers. -/
inductive Event where
  | run (c : Choice) (lags : List Nat)
  | tick
  | systick (lags : List Nat)
  | irq (irq : Irq) (lags : List Nat)
  | pendsv (lags : List Nat)
  deriving DecidableEq, Repr

/-! ## Steps of a thread -/

section Steps

variable (cfg : Config)

/-- The objects named in a call exist, and words are words. -/
def Call.valid (k : Kernel) : Call → Bool
  | .usecWait usec => decide (usec < 4294967296)
  | .mutexLock m | .mutexUnlock m => decide (m < cfg.nmutex)
  | .condWait _ (some m) => decide (m < cfg.nmutex)
  | .exit retval => decide (retval < 4294967296)
  | .join tp _ | .cancel tp => decide (tp < k.nthread)
  | .setpriority prio => decide (prio < 256)
  | .claimIrq d | .intrWait d | .intrDone d =>
      match cfg.pd d with
      | .intr _ => true
      | _ => false
  | .poll usec pds =>
      (match usec with
        | some usec => decide (usec < 4294967296)
        | none => true) &&
      pds.all fun d =>
        match cfg.pd d with
        | .cond _ (some m) => decide (m < cfg.nmutex)
        | .join tp => decide (tp < k.nthread)
        | _ => true
  | _ => true

/-- The frames that a call puts on the stack. -/
def Call.frames : Call → List Frame
  | .create fp => [.create fp]
  | .usecWait usec => [.usecWait usec]
  | .mutexLock m => [.mutexLock m false]
  | .mutexUnlock m => [.mutexUnlock m]
  | .condWait c m => [.testcancel, .condWait c m]
  | .condSignal c => [.condSignal c]
  | .condBroadcast c => [.condBroadcast c]
  | .claimIrq d => [.claimIrq d]
  | .intrWait d => [.testcancel, .pollCall none [d]]
  | .intrDone d => [.intrDone d]
  | .cleanupPush r => [.cleanupPush r]
  | .cleanupPop e => [.cleanupPop e]
  | .exit retval => [.exitStart retval]
  | .join tp rp => [.testcancel, .join tp rp]
  | .cancel tp => [.cancel tp]
  | .testcancel => [.testcancel]
  | .setcancelstate b => [.setcancelstate b]
  | .poll usec pds => [.testcancel, .pollCall usec pds]
  | .setpriority prio => [.setpriority prio]
  | .ret _ => []

/-- The value that `chx_snooze` returns after a sleep of `usec0`, and the value left
in `*usec_p`. -/
def snoozeResult (usec usec0 : Nat) (r : Int) : Int × Nat :=
  if r = 0 then (0, sub32 usec usec0)
  else if 0 < r then (1, sub32 usec (sub32 usec0 (r.toNat / cfg.mhz)))
  else (r, usec)

/-- A step of `chopstx_poll`; `rest` is the stack below it. -/
def pollStep (k : Kernel) (t : Tid) (P : Poll) (pt : PollPt) (rest : List Frame) (ret : Int)
    (c : Choice) : Res (Kernel × Ctx) :=
  let go (k : Kernel) (pt : PollPt) : Res (Kernel × Ctx) := .ok (k, ⟨.poll P pt :: rest, ret⟩)
  let call (k : Kernel) (f : Frame) (pt : PollPt) : Res (Kernel × Ctx) :=
    .ok (k, ⟨f :: .poll P pt :: rest, ret⟩)
  match pt with
  | .init i =>
      if i < P.pds.length then go (k.chxProxyInit t (P.px i)) (.init (i + 1)) else go k (.hook 0)
  | .hook i =>
      match P.pds[i]? with
      | none => go k .main
      | some d =>
          let k := k.modPx (P.px i) fun px => { px with readyP := some d }
          match cfg.pd d with
          | .cond _ _ => call k .testcancel (.condHook i)
          | .intr _ => call k .testcancel (.intrHook i)
          | .join _ => call k .testcancel (.joinHook i)
  | .condHook i =>
      match (P.pds[i]?).map cfg.pd with
      | some (.cond _ (some m)) => call k (.mutexLock m false) (.condCheck i)
      | _ => go k (.condCheck i)
  | .condCheck i =>
      match c with
      | .check true => go k (.condLoad i)
      | .check false => go k (.condClear i)
      | _ => .error .disabled
  | .condLoad i => go k (.condStore i (k.counter P.call))
  | .condStore i n =>
      go { k with counter := Function.update k.counter P.call (n + 1) } (.condReady i)
  | .condReady i =>
      match P.pds[i]? with
      | some d => go (k.setReady d true) (.condEnd i)
      | none => .error .disabled
  | .condClear i =>
      match P.pds[i]? with
      | some d => go (k.setReady d false) (.condEnqueue i)
      | none => .error .disabled
  | .condEnqueue i =>
      match (P.pds[i]?).map cfg.pd with
      | some (.cond c _) => go (k.condHookEnqueue (P.px i) c) (.condEnd i)
      | _ => .error .disabled
  | .condEnd i =>
      match (P.pds[i]?).map cfg.pd with
      | some (.cond _ (some m)) => call k (.mutexUnlock m) (.hook (i + 1))
      | _ => go k (.hook (i + 1))
  | .intrHook i =>
      match P.pds[i]? with
      | some d =>
          match cfg.pd d with
          | .intr irq => go (k.chxIntrHook (P.px i) d irq) (.hook (i + 1))
          | _ => .error .disabled
      | none => .error .disabled
  | .joinHook i =>
      match P.pds[i]? with
      | some d =>
          match cfg.pd d with
          | .join tp =>
              if (k.thread tp).flagDetached then
                call k.chxCpuSchedLock.chxCpuSchedUnlock .fatal (.joinHook i)
              else go (k.chxJoinHook (P.px i) d tp) (.hook (i + 1))
          | _ => .error .disabled
      | none => .error .disabled
  | .main =>
      let k := k.chxCpuSchedLock
      if k.counter P.call ≠ 0 then go k.chxCpuSchedUnlock (.cleanup 0 0)
      else
        match P.usec with
        | none => do
            let k ← k.pollSleep cfg t
            call k .schedRet .wake
        | some _ => go k.chxCpuSchedUnlock .loop
  | .wake => go k (.cleanup 0 ret)
  | .loop => call k .testcancel .snooze
  | .snooze =>
      let k := k.chxCpuSchedLock
      if k.counter P.call ≠ 0 then go k.chxCpuSchedUnlock (.cleanup 0 0)
      else do
        let r ← k.chxSnooze cfg t .waitPoll (P.usec.getD 0)
        match r.2 with
        | none => go r.1 (.cleanup 0 1)
        | some usec0 => call r.1 .schedRet (.snoozeWake usec0)
  | .snoozeWake usec0 =>
      let r := snoozeResult cfg (P.usec.getD 0) usec0 ret
      let P := { P with usec := some r.2 }
      if r.1 = 0 then .ok (k, ⟨.poll P .loop :: rest, ret⟩)
      else .ok (k, ⟨.poll P (.cleanup 0 r.1) :: rest, ret⟩)
  | .cleanup i r =>
      match P.pds[i]? with
      | some d => go (k.pollCleanup cfg (P.px i) d) (.cleanup (i + 1) r)
      | none =>
          if r < 0 then .ok (k, ⟨[.exitStart chopstxCanceled], ret⟩)
          else .ok (k, ⟨rest, k.counter P.call⟩)

/-- A step of the running thread `t` with the frame `f` innermost. -/
def frameStep (k : Kernel) (t : Tid) (f : Frame) (rest : List Frame) (ret : Int)
    (c : Choice) : Res (Kernel × Ctx) :=
  /- `chopstx_exit` never returns: the stack below it is dead. -/
  let exit (k : Kernel) : Res (Kernel × Ctx) := .ok (k, ⟨[.exitStart chopstxCanceled], ret⟩)
  let go (k : Kernel) (fs : List Frame) : Res (Kernel × Ctx) := .ok (k, ⟨fs ++ rest, ret⟩)
  match f with
  | .user =>
      match c with
      | .call (.ret retval) =>
          match rest with
          -- The entry function returns to `chopstx_exit`, and `main` to an endless loop.
          | [] => .ok (k, ⟨[if t = 0 then .fatal else .exitStart (retval % 4294967296)], ret⟩)
          | _ => go k []
      | .call c => if c.valid cfg k then go k (c.frames ++ [.user]) else .error .disabled
      | _ => .error .disabled
  | .testcancel =>
      if (k.thread t).flagCancelable && (k.thread t).flagGotCancel then exit k else go k []
  | .schedRet => .ok (k, ⟨rest, toInt (k.thread t).v⟩)
  | .create fp => do
      let k' ← k.chopstxCreate cfg t fp
      .ok (k', ⟨rest, k.nthread⟩)
  | .usecWait usec => go k [.testcancel, .usecSnooze usec]
  | .usecSnooze usec => do
      let r ← k.chxCpuSchedLock.chxSnooze cfg t .waitTime usec
      match r.2 with
      | none => go r.1 []
      | some usec0 => go r.1 [.schedRet, .usecWake usec usec0]
  | .usecWake usec usec0 =>
      let r := snoozeResult cfg usec usec0 ret
      if r.1 = 0 then go k [.usecWait r.2] else go k []
  | .mutexLock m _ => do
      let r ← k.chopstxMutexLock cfg t m
      if r.2 then go r.1 [] else go r.1 [.schedRet, .mutexLock m true]
  | .mutexUnlock m => do
      let k ← k.chopstxMutexUnlock cfg t m
      go k []
  | .condWait c m => do
      let k ← k.chopstxCondWait cfg t c m
      go k [.schedRet, .condWake m]
  | .condWake m =>
      match m with
      | some m => go k [.mutexLock m false, .condRet (some m) ret]
      | none => go k [.condRet none ret]
  | .condRet _ r => if r < 0 then exit k else go k []
  | .condSignal c => do
      let k ← k.chopstxCondSignal cfg t c
      go k []
  | .condBroadcast c => do
      let k ← k.chopstxCondBroadcast cfg t c
      go k []
  | .claimIrq d =>
      match cfg.pd d with
      | .intr irq => go (k.chopstxClaimIrq d irq) []
      | _ => .error .disabled
  | .intrDone d => if k.ready d then go (k.setReady d false) [] else go k []
  | .cleanupPush r => go (k.modThread t fun th => { th with clp := r :: th.clp }) []
  | .cleanupPop execute =>
      match (k.thread t).clp with
      | [] => go k []
      | _ :: clp =>
          go (k.modThread t fun th => { th with clp := clp }) (if execute then [.user] else [])
  | .setcancelstate cancelDisable =>
      .ok (k.modThread t fun th => { th with flagCancelable := !cancelDisable },
        ⟨.testcancel :: rest, if (k.thread t).flagCancelable then 0 else 1⟩)
  | .setpriority prio => do
      let k' ← k.chopstxSetpriority cfg t prio
      .ok (k', ⟨rest, (k.thread t).prioOrig⟩)
  | .cancel tp => do
      let k ← k.chopstxCancel cfg t tp
      go k []
  | .join tp ret =>
      if (k.thread tp).flagDetached then
        go k.chxCpuSchedLock.chxCpuSchedUnlock [.fatal, .join tp ret]
      else do
        let r ← k.chopstxJoin cfg t tp
        if r.2 then go r.1 [.schedRet, .joinWake tp ret] else go r.1 [.joinRet tp ret 0]
  | .joinWake tp rp => go k [.joinRet tp rp ret]
  | .joinRet tp rp r =>
      if r < 0 then exit k
      else if r = 0 then
        let k := k.modThread tp fun th => { th with state := .finished }
        let k := match rp with
          | some a => { k with mem := Function.update k.mem a (k.thread tp).v }
          | none => k
        .ok (k, ⟨rest, r⟩)
      else .ok (k, ⟨rest, r⟩)
  | .pollCall usec pds =>
      let P : Poll := ⟨k.ncall, pds, usec⟩
      go { k with ncall := k.ncall + 1, counter := Function.update k.counter k.ncall 0 }
        [.poll P (.init 0)]
  | .poll P pt => pollStep cfg k t P pt rest ret c
  | .exitStart retval =>
      .ok (k.modThread t fun th => { th with clp := [] },
        ⟨[.exitCleanup (k.thread t).clp retval], ret⟩)
  | .exitCleanup clp retval =>
      match clp with
      | [] => .ok (k, ⟨[.exitMutex (k.thread t).mutexList retval], ret⟩)
      | _ :: clp => .ok (k, ⟨[.user, .exitCleanup clp retval], ret⟩)
  | .exitMutex m retval =>
      match m with
      | some m => .ok (k, ⟨[.exitUnlock m (k.mutex m).list retval], ret⟩)
      | none => .ok (k, ⟨[.exit retval], ret⟩)
  | .exitUnlock m next retval => do
      let k ← k.exitMutexUnlock cfg t m
      .ok (k, ⟨[.exitMutex next retval], ret⟩)
  | .exit retval => do
      let k ← k.chxExit cfg t retval
      .ok (k, ⟨[.exited retval], ret⟩)
  | .exited _ | .fatal => .error .disabled

/-! ## Steps of the machine -/

def Kernel.setLags (k : Kernel) (lags : List Nat) : Kernel :=
  { k with systick := { k.systick with lags := lags } }

/-- A step of the running thread. -/
def threadStep (s : State) (c : Choice) (lags : List Nat) : Res State :=
  match s.k.running with
  | none => .error .disabled
  | some t =>
      match (s.ctx t).frames with
      | [] => .error .disabled
      | f :: rest => do
          let r ← frameStep cfg (s.k.setLags lags) t f rest (s.ctx t).ret c
          return { k := r.1, ctx := Function.update s.ctx t r.2 }

/-- The next state.  A pending exception is taken as soon as preemption is not masked:
SysTick and the interrupts before PendSV, and PendSV before the thread goes on. -/
def step (s : State) : Event → Res State
  | .tick => .ok { s with k := { s.k with systick := s.k.systick.advance 1 } }
  | .systick lags =>
      if s.k.systick.pending ∧ ¬ s.k.masked then
        let k := s.k.setLags lags
        let k := { k with systick := { k.systick with pending := false } }
        .ok { s with k := k.chxTimerExpired }
      else .error .disabled
  | .irq n lags =>
      if s.k.irq n ∧ ¬ s.k.masked then do
        let k ← (s.k.setLags lags).chxHandleIntr n
        return { s with k := k }
      else .error .disabled
  | .pendsv lags =>
      if s.k.pendsv ∧ ¬ s.k.systick.pending ∧ ¬ s.k.masked then do
        let k ← (s.k.setLags lags).preempt cfg
        return { s with k := k }
      else .error .disabled
  | .run c lags =>
      if (s.k.systick.pending ∨ s.k.pendsv) ∧ ¬ s.k.masked then .error .disabled
      else threadStep cfg s c lags

/-- The state in which `main` starts: after `chx_init` and `chx_systick_init`. -/
def initKernel : Kernel :=
  let k : Kernel :=
    { running := some 0
      nthread := 1
      thread := Function.update (fun _ => {}) 0
        { state := .running
          flagDetached := cfg.mainDetached
          flagSchedRr := cfg.mainSchedRr
          prioOrig := cfg.prioMainInit
          prio := cfg.prioMainInit }
      masked := decide (prioInhibitPreemption ≤ cfg.prioMainInit) }
  if cfg.mainSchedRr then k.chxTimerInsert cfg 0 cfg.preemptionUsec else k

def init : State := { k := initKernel cfg, ctx := fun _ => {} }

end Steps

end Chopstx
