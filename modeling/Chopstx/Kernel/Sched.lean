import Chopstx.Kernel.Timer

/-!
# Scheduling: wake-up, priority inheritance, context switch

The functions of `chopstx.c` that are called with the scheduler lock held, and
the context switch of `chopstx-cortex-m.c` (`chx_sched`, `svc`, `preempt`).  The
saved registers of a thread are not part of the kernel's state; the machine
keeps them as the stack of a thread.

* `chxReadyPop`, `switchThread`, `endSlice` - the parts of a context switch.
* `chxSchedSleep`, `chxSchedYield`, `preempt` - the three ways to it.
* `chxWakeup`, `wakeSleeper`, `wakeAll`, `wakeFirst`, `wakeJoiner`, `fireProxy` - who is woken up,
  and how; `outranks` says whether to yield.
* `chxMutexUnlock` with `dropMutex` and `heldPrio`, `requeue`, `inherit` - mutexes, and the loops of
  priority inheritance.

The functions as sequences of moves are in `Chopstx.Section.Path`.
-/

namespace Chopstx

/-- `CHOPSTX_PRIO_INHIBIT_PREEMPTION`. -/
def prioInhibitPreemption : Nat := 248

namespace Kernel

/-! ## The scheduler lock -/

/-- Is preemption masked when a thread with this priority runs? -/
def inhibits (k : Kernel) : Bool :=
  match k.running with
  | none => false
  | some r => decide (prioInhibitPreemption ≤ (k.thread r).prio)

/-- `chx_cpu_sched_lock`. -/
@[simps]
def chxCpuSchedLock (k : Kernel) : Kernel :=
  { k with masked := if k.inhibits then k.masked else true }

/-- `chx_cpu_sched_unlock`. -/
@[simps]
def chxCpuSchedUnlock (k : Kernel) : Kernel :=
  { k with masked := if k.inhibits then k.masked else false }

/-! ## Context switch -/

/-- `chx_ready_pop`.  (`q_ready` holds threads only.) -/
def chxReadyPop (k : Kernel) : Option (Tid × Kernel) :=
  match k.llPop .ready with
  | some (.thread t, k) => some (t, k.modThread t fun th => { th with state := .running })
  | _ => none

/-- The end of every context switch, from `chx_ready_pop` on: the thread to run,
or the idle thread. -/
def switchThread (cfg : Config) (k : Kernel) : Kernel :=
  match k.chxReadyPop with
  | some (t, k) =>
      let k := if (k.thread t).flagSchedRr then k.chxTimerInsert cfg t cfg.preemptionUsec else k
      { k with
        running := some t
        -- Leave interrupt disabled if >= 248
        masked := if prioInhibitPreemption ≤ (k.thread t).prio then k.masked else false }
  | none => { k with running := none, masked := false }

/-- Take a round-robin thread out of `q_timer`
(`if (tp->flag_sched_rr) chx_timer_dequeue (tp)`). -/
def endSlice (k : Kernel) (t : Tid) : Res Kernel :=
  if (k.thread t).flagSchedRr then do
    let r ← k.chxTimerDequeue t
    return r.1
  else return k

/-- `chx_sched (CHX_SLEEP)`: the running thread is already connected to something. -/
def chxSchedSleep (cfg : Config) (k : Kernel) : Kernel := k.switchThread cfg

/-- `chx_sched (CHX_YIELD)`: the running thread is active. -/
def chxSchedYield (cfg : Config) (k : Kernel) (t : Tid) : Res Kernel := do
  let k ← k.endSlice t
  return { k.chxReadyEnqueue t with running := none }.switchThread cfg

/-- `preempt`, the handler of PendSV.  A round-robin thread may be ready after
`chx_timer_expired`; then it is already in `q_ready`. -/
def preempt (cfg : Config) (k : Kernel) : Res Kernel :=
  let k := { k with masked := true, pendsv := false }
  match k.running with
  | none => return k.switchThread cfg
  | some t =>
      if (k.thread t).flagSchedRr then
        if (k.thread t).state = .running then do
          let r ← k.chxTimerDequeue t
          return { r.1.chxReadyEnqueue t with running := none }.switchThread cfg
        else return { k with running := none }.switchThread cfg
      else return { k.chxReadyPush t with running := none }.switchThread cfg

/-- `chx_sched (CHX_YIELD)` if the running thread is outranked, else the end of
the critical section. -/
def yieldOrUnlock (cfg : Config) (k : Kernel) (t : Tid) (yield : Bool) : Res Kernel :=
  if yield then k.chxSchedYield cfg t else return k.chxCpuSchedUnlock

/-! ## Wake-up -/

/-- `!running || tp->prio > running->prio`. -/
def outranks (k : Kernel) (t : Tid) : Bool :=
  match k.running with
  | none => true
  | some r => decide ((k.thread r).prio < (k.thread t).prio)

/-- `tp->v = v; chx_ready_enqueue (tp)`, for a thread that slept. -/
def resume (k : Kernel) (t : Tid) (w : Waker) (v : Nat) : Kernel :=
  ((k.noteWake t w v).setV v (.thread t)).chxReadyEnqueue t

/-- The wake-up of a thread that sleeps in `chx_snooze` or `chopstx_poll`: the
value stored is the number of ticks that were left, or 1. -/
def wakeSleeper (k : Kernel) (t : Tid) : Res Kernel :=
  if (k.thread t).parent = some .timer then do
    let r ← k.chxTimerDequeue t
    return r.1.resume t (.others (some r.2)) r.2
  else return k.resume t (.others none) 1

/-- An event reaches a proxy: `(*px->counter_p)++; *px->ready_p = 1`. -/
def fireProxy (k : Kernel) (p : PxId) : Kernel :=
  { k with
    counter := Function.update k.counter p.call (k.counter p.call + 1)
    ready := match (k.px p).readyP with
      | some d => Function.update k.ready d true
      | none => k.ready }

/-- `chx_wakeup`, and whether to yield. -/
def chxWakeup (k : Kernel) : Pq → Res (Kernel × Bool)
  | .proxy p =>
      let k := k.fireProxy p
      let tp := (k.px p).master
      if (k.thread tp).state = .waitPoll then do
        let k ← k.wakeSleeper tp
        return (k, k.outranks tp)
      else return (k, false)
  | .thread t =>
      let k := k.resume t (.others none) 1
      .ok (k, k.outranks t)

/-- The loop of `chopstx_cond_broadcast`, for at most as many rounds as the queue has
entries. -/
def wakeAll (c : Cid) : Nat → Kernel → Res (Kernel × Bool)
  | 0, k => if k.queue (.cnd c) = [] then .ok (k, false) else .error .endlessLoop
  | fuel + 1, k =>
      match k.llPop (.cnd c) with
      | some (n, k) => do
          let r ← k.chxWakeup n
          let s ← wakeAll c fuel r.1
          return (s.1, r.2 || s.2)
      | none => .ok (k, false)

/-- The wake-up in `chopstx_cond_signal`. -/
def wakeFirst (k : Kernel) (c : Cid) : Res (Kernel × Bool) :=
  match k.llPop (.cnd c) with
  | some (n, k) => k.chxWakeup n
  | none => .ok (k, false)

/-- The part of `chx_exit` for `flag_join_req`, with its loop over `q_join`: wake up a
thread which requests to join. -/
def wakeJoiner (k : Kernel) (t : Tid) : Res Kernel :=
  if (k.thread t).flagJoinReq then
    match (k.queue .join).find? (fun p => k.pqV p = t) with
    | some p => do
        let r ← (k.llDequeue p).chxWakeup p
        return r.1
    | none => return k
  else return k

/-! ## Mutexes -/

/-- The loop of `chx_mutex_unlock` over the mutexes that the thread holds.  A list
with more entries than there are mutexes has no end. -/
def heldPrio (k : Kernel) : Nat → Option Mid → Nat → Res Nat
  | _, none, newprio => .ok newprio
  | 0, some _, _ => .error .endlessLoop
  | fuel + 1, some m, newprio =>
      let newprio :=
        match k.queue (.mtx m) with
        | [] => newprio
        | p :: _ => if newprio < k.pqPrio p then k.pqPrio p else newprio
      k.heldPrio fuel (k.mutex m).list newprio

@[simps]
def noteAcquire (k : Kernel) (t : Tid) (m : Mid) : Kernel :=
  { k with ghost :=
    { k.ghost with held := Function.update k.ghost.held t (m :: k.ghost.held t) } }

@[simps]
def noteRelease (k : Kernel) (t : Tid) (m : Mid) : Kernel :=
  { k with ghost :=
    { k.ghost with held := Function.update k.ghost.held t ((k.ghost.held t).erase m) } }

/-- The mutex is acquired by the running thread `t`. -/
def acquire (k : Kernel) (t : Tid) (m : Mid) : Kernel :=
  ((k.modMutex m fun _ => { owner := some t, list := (k.thread t).mutexList }).modThread t
    fun th => { th with mutexList := some m }).noteAcquire t m

/-- The start of `chx_mutex_unlock`: the running thread `t` drops the mutex. -/
def dropMutex (k : Kernel) (t : Tid) (m : Mid) : Kernel :=
  ((k.modThread t fun th => { th with mutexList := (k.mutex m).list }).modMutex m
    fun _ => { owner := none, list := none }).noteRelease t m

/-- `chx_mutex_unlock` by the running thread `t`, and the priority of the thread
which is woken up.  (The queue of a mutex holds threads only.) -/
def chxMutexUnlock (cfg : Config) (k : Kernel) (t : Tid) (m : Mid) : Res (Kernel × Nat) :=
  let k := k.dropMutex t m
  match k.llPop (.mtx m) with
  | some (.thread tp, k) => do
      let k := k.resume tp (.handOver m) 0
      let newprio ← k.heldPrio cfg.nmutex (k.thread t).mutexList (k.thread t).prioOrig
      let k := k.modThread t fun th => { th with prio := newprio }
      return (k, (k.thread tp).prio)
  | _ => .ok (k, 0)

/-! ## Priority inheritance -/

/-- `ll_prio_enqueue (ll_dequeue (tp), tp->parent)`. -/
def reEnqueue (k : Kernel) (t : Tid) : Kernel :=
  match (k.thread t).parent with
  | some q => (k.llDequeue (.thread t)).llPrioEnqueue (.thread t) q
  | none => k

/-- `requeue`, and the thread which can wake up this thread. -/
def requeue (k : Kernel) (t : Tid) : Kernel × Option Tid :=
  match (k.thread t).state with
  | .ready => (k.reEnqueue t, none)
  | .waitMtx =>
      (k.reEnqueue t, match (k.thread t).parent with
        | some (.mtx m) => (k.mutex m).owner
        | _ => none)
  | .waitCnd => (k.reEnqueue t, none)
  | .waitExit => (k, some (k.thread t).v)
  | _ => (k, none)

def setPrio (k : Kernel) (t : Tid) (prio : Nat) : Kernel :=
  k.modThread t fun th => { th with prio := prio }

/-- The loops of `chopstx_mutex_lock` and `chopstx_join` that hand the priority of
the running thread on; the former wakes a thread that sleeps.  Every round raises
a thread that was below `prio`, so there are at most as many as threads. -/
def inherit (wakes : Bool) (prio : Nat) : Nat → Kernel → Option Tid → Res Kernel
  | _, k, none => .ok k
  | 0, k, some tp => if (k.thread tp).prio < prio then .error .endlessLoop else .ok k
  | fuel + 1, k, some tp =>
      if (k.thread tp).prio < prio then
        let k := k.setPrio tp prio
        if wakes ∧ ((k.thread tp).state = .waitTime ∨ (k.thread tp).state = .waitPoll) then
          k.wakeSleeper tp
        else
          let r := k.requeue tp
          inherit wakes prio fuel r.1 r.2
      else .ok k

end Kernel

end Chopstx
