import Chopstx.Kernel.Sched

/-!
# The critical sections of the public operations

Each definition is the part of an operation between `chx_cpu_sched_lock` and the
matching `chx_cpu_sched_unlock` or `chx_sched`; `t` is the running thread.
Preemption is masked in between, so the machine takes such a section in one step.
What an operation does outside of its sections is in `Chopstx.Machine`.

* `chopstxCreate`, `chxExit`, `chopstxJoin`, `chopstxCancel`, `chopstxSetpriority` - threads.
* `chxSnooze` - a sleep for a time, in pieces that the timer can count.
* `chopstxMutexLock`, `chopstxMutexUnlock`, `exitMutexUnlock` - mutexes.
* `chopstxCondWait`, `chopstxCondSignal`, `chopstxCondBroadcast` - condition variables.
* `chxProxyInit`, `condHookEnqueue`, `chxIntrHook`, `chxJoinHook`, `pollSleep`, `pollCleanup` - the
  sections of `chopstx_poll`.
* `chopstxClaimIrq`, `chxHandleIntr` - interrupts.

The sections as sequences of moves are in `Chopstx.Section.Api`.
-/

namespace Chopstx

namespace Kernel

variable (cfg : Config)

/-! ## Threads -/

/-- The record of a new thread; the flags are bits 16 and 17, the priority the low
byte (`CHOPSTX_PRIO_MASK`). -/
def newThread (flagsAndPrio : Nat) : Thread where
  state := .exited
  flagDetached := flagsAndPrio.testBit 16
  flagSchedRr := flagsAndPrio.testBit 17
  flagCancelable := true
  prioOrig := flagsAndPrio % 256
  prio := flagsAndPrio % 256

/-- `chopstx_create`: the new thread is the next name. -/
def chopstxCreate (k : Kernel) (t : Tid) (flagsAndPrio : Nat) : Res Kernel :=
  let tp := k.nthread
  let k := { k with
    nthread := k.nthread + 1
    thread := Function.update k.thread tp (newThread flagsAndPrio) }
  let k := k.chxCpuSchedLock.chxReadyEnqueue tp
  k.yieldOrUnlock cfg t (k.outranks tp)

/-- `chx_exit`, up to its call of `chx_sched`. -/
def chxExit (k : Kernel) (t : Tid) (retval : Nat) : Res Kernel := do
  let k := k.chxCpuSchedLock
  let k ← k.wakeJoiner t
  let k ← k.endSlice t
  let k := k.modThread t fun th =>
    { th with state := if th.flagDetached then .finished else .exited, v := retval }
  return k.chxSchedSleep cfg

/-- The section of `chopstx_join`; the thread sleeps unless the target has exited
already.  (The target is not detached.) -/
def chopstxJoin (k : Kernel) (t tp : Tid) : Res (Kernel × Bool) := do
  let k := k.chxCpuSchedLock
  if (k.thread tp).state = .exited then return (k.chxCpuSchedUnlock, false)
  else
    let k ← k.endSlice t
    let k := (k.llPrioEnqueue (.thread t) .join).modThread t fun th =>
      { th with v := tp, state := .waitExit }
    let k := k.modThread tp fun th => { th with flagJoinReq := true }
    let k ← inherit false (k.thread t).prio k.nthread k (some tp)
    return (k.chxSchedSleep cfg, true)

/-- The part of `chopstx_cancel` that takes the thread out of its queue; `none` if it
is not at a cancellation point: cond_wait, usec_wait, join, and poll. -/
def cancelDequeue (k : Kernel) (tp : Tid) : Res (Option Kernel) :=
  match (k.thread tp).state with
  | .waitCnd | .waitExit => .ok (some (k.llDequeue (.thread tp)))
  | .waitTime => do
      let r ← k.chxTimerDequeue tp
      return some r.1
  | .waitPoll =>
      if (k.thread tp).parent = some .timer then do
        let r ← k.chxTimerDequeue tp
        return some r.1
      else return some k
  | _ => return none

/-- `chopstx_cancel`. -/
def chopstxCancel (k : Kernel) (t tp : Tid) : Res Kernel :=
  let k := k.chxCpuSchedLock.modThread tp fun th => { th with flagGotCancel := true }
  if (k.thread tp).flagCancelable then do
    match ← k.cancelDequeue tp with
    | some k =>
        let k := k.resume tp .cancel minusOne
        k.yieldOrUnlock cfg t (k.outranks tp)
    | none => return k.chxCpuSchedUnlock
  else return k.chxCpuSchedUnlock

/-- `chopstx_setpriority`. -/
def chopstxSetpriority (k : Kernel) (t : Tid) (prioNew : Nat) : Res Kernel :=
  let k := k.chxCpuSchedLock
  let prioOrig := (k.thread t).prioOrig
  let prioCur := (k.thread t).prio
  let k := k.modThread t fun th =>
    { th with
      prioOrig := prioNew
      prio :=
        if prioCur = prioOrig then prioNew -- No priority inheritance is active.
        else if prioCur < prioNew then prioNew else prioCur }
  k.yieldOrUnlock cfg t (decide ((k.thread t).prio < prioCur))

/-! ## Sleeping -/

/-- The section of `chx_snooze`: `none` if no sleep is needed any more, else the
microseconds of this sleep. -/
def chxSnooze (k : Kernel) (t : Tid) (state : ThreadState) (usec : Nat) :
    Res (Kernel × Option Nat) :=
  if usec = 0 then .ok (k.chxCpuSchedUnlock, none)
  else do
    let usec0 := if maxUsecForTimer cfg < usec then maxUsecForTimer cfg else usec
    let k ← k.endSlice t
    let k := k.modThread t fun th => { th with state := state }
    let k := k.chxTimerInsert cfg t usec0
    return (k.chxSchedSleep cfg, some usec0)

/-! ## Mutexes and condition variables -/

/-- One round of `chopstx_mutex_lock`, and whether the mutex was acquired. -/
def chopstxMutexLock (k : Kernel) (t : Tid) (m : Mid) : Res (Kernel × Bool) := do
  let k := k.chxCpuSchedLock
  match (k.mutex m).owner with
  | none => return ((k.acquire t m).chxCpuSchedUnlock, true)
  | some owner =>
      let k ← inherit true (k.thread t).prio k.nthread k (some owner)
      let k ← k.endSlice t
      let k := (k.llPrioEnqueue (.thread t) (.mtx m)).modThread t fun th =>
        { th with state := .waitMtx }
      return (k.chxSchedSleep cfg, false)

/-- `chopstx_mutex_unlock`. -/
def chopstxMutexUnlock (k : Kernel) (t : Tid) (m : Mid) : Res Kernel := do
  let r ← k.chxCpuSchedLock.chxMutexUnlock cfg t m
  r.1.yieldOrUnlock cfg t (decide ((r.1.thread t).prio < r.2))

/-- The release of one mutex in `chopstx_exit`. -/
def exitMutexUnlock (k : Kernel) (t : Tid) (m : Mid) : Res Kernel := do
  let r ← k.chxCpuSchedLock.chxMutexUnlock cfg t m
  return r.1.chxCpuSchedUnlock

/-- `if (mutex) chx_mutex_unlock (mutex)`. -/
def condUnlock (k : Kernel) (t : Tid) : Option Mid → Res Kernel
  | some m => do
      let r ← k.chxMutexUnlock cfg t m
      return r.1
  | none => return k

/-- The section of `chopstx_cond_wait`. -/
def chopstxCondWait (k : Kernel) (t : Tid) (c : Cid) (mutex : Option Mid) : Res Kernel := do
  let k ← k.chxCpuSchedLock.condUnlock cfg t mutex
  let k ← k.endSlice t
  let k := (k.llPrioEnqueue (.thread t) (.cnd c)).modThread t fun th =>
    { th with state := .waitCnd }
  return k.chxSchedSleep cfg

/-- `chopstx_cond_signal`. -/
def chopstxCondSignal (k : Kernel) (t : Tid) (c : Cid) : Res Kernel := do
  let r ← k.chxCpuSchedLock.wakeFirst c
  r.1.yieldOrUnlock cfg t r.2

/-- `chopstx_cond_broadcast`. -/
def chopstxCondBroadcast (k : Kernel) (t : Tid) (c : Cid) : Res Kernel := do
  let k := k.chxCpuSchedLock
  let r ← wakeAll c (k.queue (.cnd c)).length k
  r.1.yieldOrUnlock cfg t r.2

/-! ## Polling -/

/-- `chx_proxy_init`, by the running thread `t`. -/
def chxProxyInit (k : Kernel) (t : Tid) (p : PxId) : Kernel :=
  k.modPx p fun _ => { prio := (k.thread t).prio, master := t }

/-- The registration of a proxy in `chx_cond_hook`. -/
def condHookEnqueue (k : Kernel) (p : PxId) (c : Cid) : Kernel :=
  (k.chxCpuSchedLock.llPrioEnqueue (.proxy p) (.cnd c)).chxCpuSchedUnlock

def enableIntr (k : Kernel) (irq : Irq) (call : Nat) : Kernel :=
  { k with
    irq := Function.update k.irq irq true
    ghost := { k.ghost with irqBy := Function.update k.ghost.irqBy irq (some call) } }

def disableIntr (k : Kernel) (irq : Irq) : Kernel :=
  { k with
    irq := Function.update k.irq irq false
    ghost := { k.ghost with irqBy := Function.update k.ghost.irqBy irq none } }

def bumpCounter (k : Kernel) (call : Nat) : Kernel :=
  { k with counter := Function.update k.counter call (k.counter call + 1) }

def setReady (k : Kernel) (d : PdId) (b : Bool) : Kernel :=
  { k with ready := Function.update k.ready d b }

/-- The section of `chx_intr_hook`. -/
def chxIntrHook (k : Kernel) (p : PxId) (d : PdId) (irq : Irq) : Kernel :=
  let k := k.chxCpuSchedLock.modPx p fun px => { px with v := irq }
  let k :=
    if k.ready d then k.bumpCounter p.call
    else (k.llPrioEnqueue (.proxy p) .intr).enableIntr irq p.call
  k.chxCpuSchedUnlock

/-- The section of `chx_join_hook`.  (The target is not detached.) -/
def chxJoinHook (k : Kernel) (p : PxId) (d : PdId) (tp : Tid) : Kernel :=
  let k := k.chxCpuSchedLock
  let k :=
    if (k.thread tp).state = .exited then (k.bumpCounter p.call).setReady d true
    else
      (((k.setReady d false).modPx p fun px => { px with v := tp }).llPrioEnqueue
        (.proxy p) .join).modThread tp fun th => { th with flagJoinReq := true }
  k.chxCpuSchedUnlock

/-- The section of `chopstx_poll` without timeout, when no descriptor is ready. -/
def pollSleep (k : Kernel) (t : Tid) : Res Kernel := do
  let k ← k.endSlice t
  let k := k.modThread t fun th => { th with state := .waitPoll }
  return k.chxSchedSleep cfg

/-- One round of the clean-up loop of `chopstx_poll`. -/
def pollCleanup (k : Kernel) (p : PxId) (d : PdId) : Kernel :=
  let k := k.chxCpuSchedLock
  let k :=
    if k.ready d then k
    else
      match cfg.pd d with
      | .cond _ _ => k.llDequeue (.proxy p)
      | .intr irq => (k.llDequeue (.proxy p)).disableIntr irq
      | .join _ => k.llDequeue (.proxy p)
  k.chxCpuSchedUnlock

/-! ## Interrupts -/

/-- `chopstx_claim_irq`. -/
def chopstxClaimIrq (k : Kernel) (d : PdId) (irq : Irq) : Kernel :=
  (((k.setReady d false).chxCpuSchedLock).disableIntr irq).chxCpuSchedUnlock

/-- `chx_handle_intr`.  (`q_intr` holds proxies only.) -/
def chxHandleIntr (k : Kernel) (irq : Irq) : Res Kernel :=
  let k := k.disableIntr irq
  match (k.queue .intr).find? (fun p => k.pqV p = irq) with -- should be one at most.
  | some (.proxy p) => do
      let r ← (k.llDequeue (.proxy p)).chxWakeup (.proxy p)
      return r.1.chxRequestPreemption (r.1.thread (r.1.px p).master).prio
  | _ => return k

end Kernel

end Chopstx
