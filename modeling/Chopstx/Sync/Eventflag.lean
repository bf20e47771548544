import Chopstx.Library.Transition
import Chopstx.Library.Weight

/-!
# Eventflags

The flags and the mask of an eventflag, and the threads that call `eventflag_set_mask`,
`eventflag_get`, `eventflag_wait` and `eventflag_signal`, statement by statement.  A call
runs with the mutex of the eventflag; `chopstx_cond_wait` gives the mutex back and waits to be
woken, and `chopstx_cond_signal` wakes one of the threads that wait, whichever it is.

* `Call`, `Point`, `Pc` - the calls, their statements, and where a thread is.
* `State` - the flags, the mask and the threads; `taken` are the masks that calls have returned.
* `State.exec` - one statement of a thread that has the mutex.
* `step` - a thread makes a call, gets the mutex, or goes on by one statement (`Action`).
* `ffs`, `State.visible` - the flag that `eventflag_get` takes, and those that can be seen.
-/

namespace Chopstx.Eventflag

/-! ## The calls -/

/-- A call, with its argument. -/
inductive Call where
  | setMask (m : BitVec 32)
  | get
  | wait
  | signal (m : BitVec 32)
  deriving DecidableEq, Repr

/-- The statements of the calls between `chopstx_mutex_lock` and `chopstx_mutex_unlock`. -/
inductive Point where
  /-- `ev->mask = m` -/
  | setMask (m : BitVec 32)
  /-- `ev->flags |= m` -/
  | signal (m : BitVec 32)
  /-- `if ((ev->flags & ev->mask))`, in `eventflag_set_mask` and in `eventflag_signal` -/
  | test
  /-- `chopstx_cond_signal (&ev->cond)` -/
  | condSignal
  /-- `while (!(ev->flags & ev->mask))` -/
  | waitTest
  /-- `n = __builtin_ffs ((ev->flags & ev->mask))`, up to `m`, in `eventflag_get` and in
  `eventflag_wait` -/
  | take
  /-- `chopstx_mutex_unlock`, with the mask that the call returns -/
  | unlock (m : BitVec 32)
  deriving DecidableEq, Repr

/-- The first statement of a call behind `chopstx_mutex_lock`. -/
def Call.start : Call → Point
  | .setMask m => .setMask m
  | .get => .take
  | .wait => .waitTest
  | .signal m => .signal m

/-- Where a thread is: outside of the calls, before `chopstx_mutex_lock` with what it does then,
at a statement with the mutex, or blocked in `chopstx_cond_wait`. -/
inductive Pc where
  | idle
  | lock (p : Point)
  | inside (p : Point)
  | blocked
  deriving DecidableEq, Repr

/-! ## The state -/

/-- An eventflag and `n` threads.  `taken` are the masks that the calls have returned. -/
structure State (n : Nat) where
  flags : BitVec 32
  mask : BitVec 32
  owner : Option (Fin n)
  pc : Fin n → Pc
  taken : List (Fin n × BitVec 32)

/-- `eventflag_init` -/
def State.init (n : Nat) : State n where
  flags := 0
  mask := ~~~0
  owner := none
  pc := fun _ => .idle
  taken := []

/-- The position of the least bit that is set, counted from 1, or 0 (`__builtin_ffs`). -/
def ffs (x : BitVec 32) : Nat :=
  match (List.finRange 32).find? fun i : Fin 32 => x.getLsbD i with
  | some i => i + 1
  | none => 0

/-- Why a step is not made: the thread cannot make it now. -/
inductive Fault where
  | notNow
  deriving DecidableEq, Repr

/-- A thread makes a call, or goes on by one statement; `w` is the thread that
`chopstx_cond_signal` wakes, if one is blocked. -/
inductive Action (n : Nat) where
  | call (t : Fin n) (c : Call)
  | run (t : Fin n) (w : Fin n)

namespace State

variable {n : Nat} (s : State n)

/-- A thread is at another place. -/
def goto (t : Fin n) (x : Pc) : State n := { s with pc := Function.update s.pc t x }

/-- `(ev->flags & ev->mask)` -/
def visible : BitVec 32 := s.flags &&& s.mask

/-- One statement of a thread with the mutex. -/
def exec (t w : Fin n) : Point → Except Fault (State n)
  | .setMask m => .ok ({ s with mask := m }.goto t (.inside .test))
  | .signal m => .ok ({ s with flags := s.flags ||| m }.goto t (.inside .test))
  | .test => .ok (s.goto t (.inside (if s.visible ≠ 0 then .condSignal else .unlock 0)))
  | .condSignal =>
      if s.pc w = .blocked then
        .ok ((s.goto w (.lock .waitTest)).goto t (.inside (.unlock 0)))
      else if ∀ u, s.pc u ≠ .blocked then .ok (s.goto t (.inside (.unlock 0)))
      else .error .notNow
  | .waitTest =>
      if s.visible = 0 then .ok ({ s with owner := none }.goto t .blocked)
      else .ok (s.goto t (.inside .take))
  | .take =>
      let n := ffs s.visible
      let m := if n ≠ 0 then 1#32 <<< (n - 1) else 0
      .ok ({ s with flags := s.flags &&& ~~~m }.goto t (.inside (.unlock m)))
  | .unlock m => .ok ({ s with owner := none, taken := s.taken ++ [(t, m)] }.goto t .idle)

/-- One step of one thread. -/
def step : Action n → Except Fault (State n)
  | .call t c => if s.pc t = .idle then .ok (s.goto t (.lock c.start)) else .error .notNow
  | .run t w =>
      match s.pc t with
      | .idle | .blocked => .error .notNow
      | .lock p =>
          if s.owner = none then .ok ({ s with owner := some t }.goto t (.inside p))
          else .error .notNow
      | .inside p => s.exec t w p

end State

end Chopstx.Eventflag
