import Chopstx.Library.Ring
import Chopstx.Library.Transition

/-!
# The ring buffer of the USART driver

The buffer with its bit fields, the five calls statement by statement, and the machine of
any number of threads that make them.  Each call runs its statements with the mutex of the
buffer, and `chopstx_cond_wait` gives the mutex back for a while.  A wait may end at any
moment here, so that `chopstx_cond_signal` has nothing to do.

* `Rb`, `rbInit`, `rbAdd`, `rbDel` - the buffer, and the two functions that move one byte.
* `Call`, `Answer`, `Moved` - the calls, what they return, and the bytes that they move.
* `Point`, `Point.exec` - the statements of `rb_ll_put`, `rb_ll_get`, `rb_ll_flush`, `rb_read` and
  `rb_write`, with `Next` what comes after one of them.
* `Pc`, `State`, `State.exec`, `step` - the threads, and a step of one of them.

`Chopstx.Property.RingBuffer` has the queue that this buffer is.
-/

namespace Chopstx.Usart

/-! ## The buffer -/

/-- The ring buffer (`struct rb`) without its mutex and its condition variables.  `buf` is the
array that it is given; `head`, `tail` and `size` are fields of 10 bits. -/
structure Rb where
  buf : List UInt8
  head : BitVec 10
  tail : BitVec 10
  size : BitVec 10
  full : Bool
  empty : Bool
  deriving DecidableEq, Repr

/-- `rb_init` -/
def rbInit (p : List UInt8) (size : Nat) : Rb where
  buf := p
  head := 0
  tail := 0
  size := BitVec.ofNat 10 size
  full := false
  empty := true

/-- Why a step is not made: the thread cannot make it now, or it accesses the array outside
of its bounds. -/
inductive Fault where
  | notNow
  | outOfBounds
  deriving DecidableEq, Repr

namespace Rb

/-- An index one further on, at the start again behind the last place. -/
def advance (rb : Rb) (i : BitVec 10) : BitVec 10 :=
  if i + 1 = rb.size then 0 else i + 1

/-- `rb_add` -/
def rbAdd (rb : Rb) (v : UInt8) : Except Fault Rb :=
  if rb.tail.toNat < rb.buf.length then
    .ok { rb with
      buf := rb.buf.set rb.tail.toNat v
      tail := rb.advance rb.tail
      full := if rb.advance rb.tail = rb.head then true else rb.full
      empty := false }
  else .error .outOfBounds

/-- `rb_del` -/
def rbDel (rb : Rb) : Except Fault (UInt8 × Rb) :=
  match rb.buf[rb.head.toNat]? with
  | none => .error .outOfBounds
  | some v =>
      .ok (v, { rb with
        head := rb.advance rb.head
        empty := if rb.advance rb.head = rb.tail then true else rb.empty
        full := false })

end Rb

/-! ## The calls -/

/-- A call, with its arguments. -/
inductive Call where
  | rbLlPut (v : UInt8)
  | rbLlGet
  | rbLlFlush
  | rbRead (buflen : Nat)
  | rbWrite (buf : List UInt8)
  deriving DecidableEq, Repr

/-- What a call gives to its caller: `r`, the bytes that are in `buf` and counted by `i`, or
nothing. -/
inductive Answer where
  | r (r : Int)
  | read (buf : List UInt8)
  | void
  deriving DecidableEq, Repr

/-- A byte that `rb_add` puts into the buffer, that `rb_del` takes out for the caller, or that
it takes out to be dropped. -/
inductive Moved where
  | put (v : UInt8)
  | take (v : UInt8)
  | drop (v : UInt8)
  deriving DecidableEq, Repr

/-- The statements of the calls between `chopstx_mutex_lock` and `chopstx_mutex_unlock`, with
their local variables. -/
inductive Point where
  /-- `rb_ll_put`: `if (rb->full)` -/
  | putTest (v : UInt8)
  | putAdd (v : UInt8)
  /-- `rb_ll_get`: `if (rb->empty)` -/
  | getTest
  | getDel
  /-- `rb_ll_flush`: `while (!rb->empty)` -/
  | flushTest
  | flushDel
  /-- `rb_read`: `while (rb->empty)`, `while (i < buflen)`, `rb_del`, `if (rb->empty)` -/
  | readWait (buflen : Nat)
  | readLoop (buflen : Nat) (buf : List UInt8)
  | readDel (buflen : Nat) (buf : List UInt8)
  | readTest (buflen : Nat) (buf : List UInt8)
  /-- `rb_write`: `while (rb->full)`, the inner `while (i < buflen)`, `rb_add`,
  `if (rb->full)`, the outer `while (i < buflen)` -/
  | writeWait (buf : List UInt8) (i : Nat)
  | writeLoop (buf : List UInt8) (i : Nat)
  | writeAdd (buf : List UInt8) (i : Nat) (v : UInt8)
  | writeTest (buf : List UInt8) (i : Nat)
  | writeMore (buf : List UInt8) (i : Nat)
  /-- `chopstx_mutex_unlock`, with what the call returns -/
  | unlock (a : Answer)
  deriving DecidableEq, Repr

/-- The first statement of a call behind `chopstx_mutex_lock`. -/
def Call.start : Call → Point
  | .rbLlPut v => .putTest v
  | .rbLlGet => .getTest
  | .rbLlFlush => .flushTest
  | .rbRead buflen => .readWait buflen
  | .rbWrite buf => .writeWait buf 0

/-- Where the thread is after a statement: at another one, in `chopstx_cond_wait` before
another one, or back from the call. -/
inductive Next where
  | goto (p : Point)
  | wait (p : Point)
  | ret (a : Answer)
  deriving DecidableEq, Repr

/-- One statement: the buffer after it, the byte that it moves, and what comes next. -/
def Point.exec (rb : Rb) : Point → Except Fault (Rb × List Moved × Next)
  | .putTest v => .ok (rb, [], .goto (if rb.full then .unlock (.r (-1)) else .putAdd v))
  | .putAdd v => do
      let rb ← rb.rbAdd v
      .ok (rb, [.put v], .goto (.unlock (.r 0)))
  | .getTest => .ok (rb, [], .goto (if rb.empty then .unlock (.r (-1)) else .getDel))
  | .getDel => do
      let (v, rb) ← rb.rbDel
      .ok (rb, [.take v], .goto (.unlock (.r v.toNat)))
  | .flushTest => .ok (rb, [], .goto (if rb.empty then .unlock .void else .flushDel))
  | .flushDel => do
      let (v, rb) ← rb.rbDel
      .ok (rb, [.drop v], .goto .flushTest)
  | .readWait n =>
      .ok (rb, [], if rb.empty then .wait (.readWait n) else .goto (.readLoop n []))
  | .readLoop n buf =>
      .ok (rb, [], .goto (if buf.length < n then .readDel n buf else .unlock (.read buf)))
  | .readDel n buf => do
      let (v, rb) ← rb.rbDel
      .ok (rb, [.take v], .goto (.readTest n (buf ++ [v])))
  | .readTest n buf =>
      .ok (rb, [], .goto (if rb.empty then .unlock (.read buf) else .readLoop n buf))
  | .writeWait buf i =>
      .ok (rb, [], if rb.full then .wait (.writeWait buf i) else .goto (.writeLoop buf i))
  | .writeLoop buf i =>
      match buf[i]? with
      | none => .ok (rb, [], .goto (.writeMore buf i))
      | some v => .ok (rb, [], .goto (.writeAdd buf i v))
  | .writeAdd buf i v => do
      let rb ← rb.rbAdd v
      .ok (rb, [.put v], .goto (.writeTest buf (i + 1)))
  | .writeTest buf i =>
      .ok (rb, [], .goto (if rb.full then .writeMore buf i else .writeLoop buf i))
  | .writeMore buf i =>
      .ok (rb, [], .goto (if i < buf.length then .writeWait buf i else .unlock .void))
  | .unlock a => .ok (rb, [], .ret a)

/-! ## The threads -/

/-- Where a thread is: outside of the calls, before `chopstx_mutex_lock` with what it does
then, at a statement with the mutex, or asleep in `chopstx_cond_wait`. -/
inductive Pc where
  | idle
  | lock (p : Point)
  | inside (p : Point)
  | asleep (p : Point)
  deriving DecidableEq, Repr

/-- What the log keeps of a run: the calls, the bytes moved, and the returns, each with its
thread. -/
inductive Event where
  | call (t : Nat) (c : Call)
  | moved (t : Nat) (m : Moved)
  | ret (t : Nat) (a : Answer)
  deriving DecidableEq, Repr

/-- The buffer, the owner of its mutex, the threads and the log. -/
structure State where
  rb : Rb
  owner : Option Nat
  pc : Nat → Pc
  log : List Event

/-- The buffer just initialised, and no thread in a call. -/
def start (buf : List UInt8) (size : Nat) : State where
  rb := rbInit buf size
  owner := none
  pc := fun _ => .idle
  log := []

/-- A thread makes a call, or goes on by one statement. -/
inductive Action where
  | call (t : Nat) (c : Call)
  | run (t : Nat)
  deriving DecidableEq, Repr

/-- The thread `t` has the mutex and is at the statement `p`. -/
def State.exec (s : State) (t : Nat) (p : Point) : Except Fault State := do
  let (rb, ms, next) ← p.exec s.rb
  let log := s.log ++ ms.map (.moved t)
  match next with
  | .goto q => .ok { s with rb, log, pc := Function.update s.pc t (.inside q) }
  | .wait q => .ok { rb, log, owner := none, pc := Function.update s.pc t (.asleep q) }
  | .ret a =>
      .ok { rb, owner := none, pc := Function.update s.pc t .idle, log := log ++ [.ret t a] }

/-- One step of one thread. -/
def step (s : State) : Action → Except Fault State
  | .call t c =>
      match s.pc t with
      | .idle =>
          .ok { s with
            pc := Function.update s.pc t (.lock c.start)
            log := s.log ++ [.call t c] }
      | _ => .error .notNow
  | .run t =>
      match s.pc t with
      | .idle => .error .notNow
      | .lock p =>
          match s.owner with
          | none =>
              .ok { s with owner := some t, pc := Function.update s.pc t (.inside p) }
          | some _ => .error .notNow
      | .inside p => s.exec t p
      | .asleep p => .ok { s with pc := Function.update s.pc t (.lock p) }

end Chopstx.Usart
