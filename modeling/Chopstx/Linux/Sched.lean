import Chopstx.Section.Drift
import Chopstx.Machine

/-!
# The scheduler of the GNU/Linux emulation

`chopstx.c` is the same on GNU/Linux, so a run is made of the moves of its critical
sections.  The context switch is another one: `chx_sched` of `chopstx-gnu-linux.c` is a C
function that calls `swapcontext` in its middle, and its local variable `v` is set before.
A signal handler switches at once, in `chx_request_preemption`.

A thread that does not run has saved where it is: in the code that a signal has
interrupted, or in the middle of `chx_sched` with the value of `v`.

* `Saved`, `State`, `State.Executing` - the saved contexts, and the threads with the kernel.
* `chxSched`, `chxRequestPreemption`, `switchTo` - the two ways to another thread.
* `IsCode` - the moves of `chopstx.c` other than those of the context switch.
* `Event`, `Step`, `Run` - a run of moves, switches, ticks and signals, and `Reach` its states.

What `chx_sched` returns in such a run is the subject of `Chopstx.Property.LinuxSched`.
-/

namespace Chopstx.Linux

open Kernel

/-! ## States -/

/-- What the saved context of a thread goes on with. -/
inductive Saved where
  /-- The code of the thread. -/
  | code
  /-- The return from a signal handler. -/
  | signal
  /-- The second half of `chx_sched (yield)`, with its local variable `v`. -/
  | sched (yield : Bool) (v : Nat)
  deriving DecidableEq, Repr

structure State where
  off : Option Tid
  k : Kernel
  saved : Tid → Saved

/-- The running thread, if there is one, is executing code; signals are blocked else. -/
def State.Executing (s : State) : Prop :=
  ∀ t, s.k.running = some t → s.saved t = .code

/-! ## Context switch -/

section

variable (cfg : Config)

/-- The end of `chx_sched` and of `chx_request_preemption`, from `chx_ready_pop` on, and
the value of `v` in `chx_sched`. -/
def switchTo (k : Kernel) : Kernel × Nat :=
  match k.chxReadyPop with
  | some (tp, k) =>
      let v := (k.thread tp).v
      let k := if (k.thread tp).flagSchedRr then k.chxTimerInsert cfg tp cfg.preemptionUsec else k
      ({ k with running := some tp }, v)
  | none => ({ k with running := none }, 0)

/-- The first half of `chx_sched`, up to `swapcontext`, and the value of `v`. -/
def chxSched (k : Kernel) (tp : Tid) (yield : Bool) : Res (Kernel × Nat) :=
  if yield then do
    let k ← k.endSlice tp
    return switchTo cfg { k.chxReadyEnqueue tp with running := none }
  else return switchTo cfg k

/-- `chx_request_preemption`, if it switches to another thread. -/
def chxRequestPreemption (k : Kernel) (prio : Nat) : Res Kernel :=
  match k.running with
  | none => return (switchTo cfg k).1
  | some tp =>
      if prio ≤ (k.thread tp).prio then .error .disabled
      else if (k.thread tp).flagSchedRr then
        if (k.thread tp).state = .running then do
          let r ← k.chxTimerDequeue tp
          return (switchTo cfg { r.1.chxReadyEnqueue tp with running := none }).1
        else return (switchTo cfg { k with running := none }).1
      else return (switchTo cfg { k.chxReadyPush tp with running := none }).1

/-! ## Steps -/

/-- The moves of `chopstx.c` other than those of the context switch. -/
def IsCode : Op → Prop
  | .yield _ | .norun _ | .switch => False
  | _ => True

/-- What happens. -/
inductive Event where
  | code (op : Op)
  /-- A thread calls `chx_sched`. -/
  | sched (t : Tid) (yield : Bool)
  /-- The handler of a signal calls `chx_request_preemption`. -/
  | preempt (prio : Nat)
  /-- A thread comes back from a signal handler. -/
  | back (t : Tid)
  /-- `chx_sched` returns to a thread. -/
  | ret (t : Tid) (v : Nat)

inductive Step : State → Event → State → Prop
  | code {s : State} {op : Op} {off : Option Tid} {k : Kernel} (hx : s.Executing)
      (hop : IsCode op) (hm : Move cfg op (s.off, s.k) (off, k)) :
      Step s (.code op) { s with off := off, k := k }
  | sleep {s : State} {t : Tid} {k : Kernel} {v : Nat} (hx : s.Executing) (hoff : s.off = none)
      (hr : s.k.running = some t) (hs : ¬ (s.k.thread t).state.Active)
      (h : chxSched cfg s.k t false = .ok (k, v)) :
      Step s (.sched t false)
        { s with k := k, saved := Function.update s.saved t (.sched false v) }
  | yield {s : State} {t : Tid} {k : Kernel} {v : Nat} (hx : s.Executing) (hoff : s.off = none)
      (hr : s.k.running = some t) (hs : (s.k.thread t).state = .running)
      (h : chxSched cfg s.k t true = .ok (k, v)) :
      Step s (.sched t true)
        { s with k := k, saved := Function.update s.saved t (.sched true v) }
  /-- A signal comes while the running thread is in no critical section. -/
  | preempt {s : State} {prio : Nat} {k : Kernel} (hx : s.Executing) (hoff : s.off = none)
      (hs : ∀ t, s.k.running = some t → (s.k.thread t).state = .running ∨
        (s.k.thread t).state = .ready ∧ (s.k.thread t).flagSchedRr = true)
      (h : chxRequestPreemption cfg s.k prio = .ok k) :
      Step s (.preempt prio)
        { s with
          k := k
          saved := match s.k.running with
            | some t => Function.update s.saved t .signal
            | none => s.saved }
  | back {s : State} {t : Tid} (hr : s.k.running = some t) (hsv : s.saved t = .signal) :
      Step s (.back t) { s with saved := Function.update s.saved t .code }
  | ret {s : State} {t : Tid} {yield : Bool} {v : Nat} (hr : s.k.running = some t)
      (hsv : s.saved t = .sched yield v) :
      Step s (.ret t v) { s with saved := Function.update s.saved t .code }

/-- The state in which `main` starts. -/
def init : State :=
  { off := none
    k := { initKernel cfg with masked := false }
    saved := fun _ => .code }

/-- The states after zero or more steps with events that `ok` allows. -/
inductive Run (ok : Event → Prop) : State → State → Prop
  | refl (s : State) : Run ok s s
  | tail {s s₁ s₂ : State} {e : Event} (h : Run ok s s₁) (hok : ok e) (hs : Step cfg s₁ e s₂) :
      Run ok s s₂

/-- The states that are reached. -/
def Reach (s : State) : Prop := Run cfg (fun _ => True) (init cfg) s

end

end Chopstx.Linux
