import Chopstx.Kernel.Basic
import Chopstx.Library.DeltaQueue

/-!
# The SysTick timer and the queue of sleeping threads

`q_timer` is ordered by deadline.  The ticks left for its first thread are in the
SysTick counter, and the field `v` of every thread but the last is the number of
ticks between its deadline and the one of the next, as in a delta queue.  This file has the accesses
to the counter, and `chx_timer_insert`, `chx_timer_dequeue` and
`chx_timer_expired`.

* `Systick.advance`, `Systick.elapse` - time passes, of its own or at an access to the registers.
* `chxSystickReload`, `chxSetTimer` - the counter is loaded.
* `chxReadyPush`, `chxReadyEnqueue`, `chxRequestPreemption` - a thread becomes ready.
* `chxTimerInsert`, `chxTimerDequeue`, `chxTimerExpired` - the queue; the last one is a loop over
  `expireOne`, which `expireLoop` gives as many rounds as there are threads.

What these operations do is proved in `Chopstx.Kernel.TimerQueue`.
-/

namespace Chopstx

open DeltaQueue

/-! ## The counter -/

/-- `d` ticks pass.  The exception becomes pending when the count reaches 0; the
reload value being 0, the count then stays there. -/
def Systick.advance (s : Systick) (d : Nat) : Systick :=
  { s with
    count := s.count - d
    pending := s.pending || decide (0 < s.count ∧ s.count ≤ d)
    now := s.now + d }

/-- The time that passes before the next access to the registers. -/
def Systick.elapse (s : Systick) : Systick :=
  match s.lags with
  | [] => s
  | d :: ds => { s.advance d with lags := ds }

/-- `usec_to_ticks`. -/
def usecToTicks (cfg : Config) (usec : Nat) : Nat := usec * cfg.mhz % 4294967296

/-- `MAX_USEC_FOR_TIMER`: SysTick is 24-bit. -/
def maxUsecForTimer (cfg : Config) : Nat := 16777215 / cfg.mhz

namespace Kernel

@[simps]
def elapse (k : Kernel) : Kernel := { k with systick := k.systick.elapse }

/-- `chx_systick_reload`: the reload register has 24 bits.  A pending exception
stays pending. -/
@[simps]
def chxSystickReload (k : Kernel) (ticks : Nat) : Kernel :=
  { k with systick := { k.systick.elapse with count := ticks % 16777216 } }

/-- `chx_set_timer`, with `none` for the head of `q_timer`. -/
def chxSetTimer (k : Kernel) (tp : Option Pq) (ticks : Nat) : Kernel :=
  match tp with
  | none => k.chxSystickReload ticks
  | some p => k.setV ticks p

/-! ## History -/

@[simps]
def noteWake (k : Kernel) (t : Tid) (w : Waker) (v : Nat) : Kernel :=
  { k with ghost := { k.ghost with wake := Function.update k.ghost.wake t (some (w, v)) } }

@[simps]
def noteDue (k : Kernel) (t : Tid) (due : Nat) : Kernel :=
  { k with ghost := { k.ghost with due := Function.update k.ghost.due t due } }

@[simps]
def noteLateEdit (k : Kernel) (late : Bool) : Kernel :=
  { k with ghost := { k.ghost with lateEdit := k.ghost.lateEdit || late } }

/-! ## The ready queue -/

/-- `chx_ready_push`. -/
def chxReadyPush (k : Kernel) (t : Tid) : Kernel :=
  (k.modThread t fun th => { th with state := .ready }).llPrioPush (.thread t) .ready

/-- `chx_ready_enqueue`. -/
def chxReadyEnqueue (k : Kernel) (t : Tid) : Kernel :=
  (k.modThread t fun th => { th with state := .ready }).llPrioEnqueue (.thread t) .ready

/-- `chx_request_preemption`. -/
def chxRequestPreemption (k : Kernel) (prio : Nat) : Kernel :=
  match k.running with
  | none => { k with pendsv := true }
  | some r => if (k.thread r).prio < prio then { k with pendsv := true } else k

/-! ## Insertion and removal -/

/-- `chx_timer_insert`; `locate` is its loop, which passes the threads with an earlier
or equal deadline. -/
def chxTimerInsert (cfg : Config) (k : Kernel) (t : Tid) (usec : Nat) : Kernel :=
  let ticks := usecToTicks cfg usec
  let k := k.elapse
  let r := locate k.pqV (k.queue .timer) ticks k.systick.count
  let k := (k.noteDue t (k.systick.now + ticks)).noteLateEdit
    (r.1.isEmpty && k.systick.elapse.pending)
  let k := (k.setParent .timer (.thread t)).setQueue .timer (r.1 ++ .thread t :: r.2.1)
  let k := k.chxSetTimer r.1.getLast? r.2.2.1
  match r.2.2.2 with
  | some nextTicks => k.chxSetTimer (some (.thread t)) (nextTicks - r.2.2.1)
  | none => k.chxSetTimer (some (.thread t)) 1 -- Non-zero for the last entry.

/-- `chx_timer_dequeue`, and the ticks that remained.  The search loop ends only
if the thread is in `q_timer`. -/
def chxTimerDequeue (k : Kernel) (t : Tid) : Res (Kernel × Nat) :=
  let k := k.elapse
  let ticksRemained := k.systick.count
  let tp := Pq.thread t
  match k.queue .timer with
  | [] => .error .endlessSearch
  | p :: ps =>
      if p = tp then
        let k := k.noteLateEdit
          (decide (ps ≠ [] ∧ ticksRemained + (k.thread t).v ≠ 0) && k.systick.elapse.pending)
        let k :=
          if ps = [] then k.chxSystickReload 0 -- Cancel timer.
          else k.chxSystickReload (add32 ticksRemained (k.thread t).v) -- Update timer.
        .ok ((k.llDequeue tp).setV 0 tp, ticksRemained)
      else if tp ∈ ps then
        let before := p :: ps.takeWhile (· ≠ tp)
        let prev := before.getLast (List.cons_ne_nil _ _)
        let ticksRemained := before.foldl (fun n p => add32 n (k.pqV p)) ticksRemained
        let k := k.setV (add32 (k.pqV prev) (k.thread t).v) prev
        .ok ((k.llDequeue tp).setV 0 tp, ticksRemained)
      else .error .endlessSearch

/-! ## Expiry -/

/-- The body of the loop of `chx_timer_expired`: the first thread of the queue
becomes ready. -/
def expireOne (k : Kernel) (t : Tid) : Kernel :=
  let k := if k.running = some t then k else k.noteWake t .timer 0
  ((k.llDequeue (.thread t)).setV 0 (.thread t)).chxReadyEnqueue t

/-- The priority to preempt with; `MAX_PRIO` if the slice of the running thread is over. -/
def expirePrio (k : Kernel) (t : Tid) (prio : Nat) : Nat :=
  if k.running = some t then 256 else if prio < (k.thread t).prio then (k.thread t).prio else prio

/-- The loop of `chx_timer_expired` over the threads with the same deadline.
(`q_timer` holds threads only.) -/
def expireLoop (k : Kernel) (nextTick prio : Nat) : List Pq → Kernel × Nat × Nat
  | .thread t :: rest =>
      if nextTick = 0 then
        expireLoop (k.expireOne t) (k.thread t).v (k.expirePrio t prio) rest
      else (k, nextTick, prio)
  | _ => (k, nextTick, prio)

/-- `chx_timer_expired`. -/
def chxTimerExpired (k : Kernel) : Kernel :=
  match k.queue .timer with
  | .thread t :: rest =>
      let r := expireLoop (k.expireOne t) (k.thread t).v (k.expirePrio t 0) rest
      let k := if r.1.queue .timer = [] then r.1 else r.1.chxSetTimer none r.2.1
      k.chxRequestPreemption r.2.2
  | _ => k.chxRequestPreemption 0

end Kernel

end Chopstx
