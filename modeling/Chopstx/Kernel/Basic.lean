import Mathlib.Tactic
import Chopstx.Library.InsertBefore

/-!
# The kernel's data: threads, queues, mutexes, proxies

The records of `chopstx.h` and `chopstx.c`, and the operations on the linked
queues.  A queue head (`struct chx_qh`) is a name, and the queue hanging from it
is the list of its entries from the head on; an entry (`struct chx_pq`) is a
thread or a polling proxy.  Unlinking an entry, like `ll_dequeue`, names no
queue: it takes the entry out of whatever queue it is linked in.

The clock of the model is the SysTick counter.  Time passes between two steps of
the machine, and inside a critical section at each access to the SysTick
registers (`Systick.lags` says how much), so that the count may reach 0 while the
scheduler lock is held.

The record `Ghost` holds history variables.  No definition of the kernel reads
them; they only say what has happened so far.

* `Thread`, `Mtx`, `Px`, `Kernel` - the records; `Config` has the static objects of an application.
* `Qh`, `Pq` - the names of the queues and their entries.
* `Systick`, `Waker`, `Ghost` - the counter, who woke a thread, and the history.
* `Fault`, `Res` - why a step gives no next state.
* `llDequeue`, `llPop`, `llPrioPush`, `llPrioEnqueue` - the operations on the queues, with small
  lemmas about what each of them leaves alone.
-/

namespace Chopstx

open PrioQueue

/-! ## Names -/

/-- A thread (`struct chx_thread *`). -/
abbrev Tid := Nat

/-- A mutex (`struct chx_mtx *`). -/
abbrev Mid := Nat

/-- A condition variable (`struct chx_cond *`). -/
abbrev Cid := Nat

/-- A poll descriptor (`struct chx_poll_head *`). -/
abbrev PdId := Nat

/-- An interrupt number. -/
abbrev Irq := Nat

/-- A proxy: element `idx` of the array `px` of one call of `chopstx_poll`. -/
structure PxId where
  call : Nat
  idx : Nat
  deriving DecidableEq, Repr

/-- An entry of a queue (`struct chx_pq`), told apart by `flag_is_proxy`. -/
inductive Pq where
  | thread (t : Tid)
  | proxy (p : PxId)
  deriving DecidableEq, Repr

/-- A queue head (`struct chx_qh`): the four queues of the kernel, and the one at
the start of every mutex and of every condition variable. -/
inductive Qh where
  | ready
  | timer
  | join
  | intr
  | mtx (m : Mid)
  | cnd (c : Cid)
  deriving DecidableEq, Repr

/-- Thread status. -/
inductive ThreadState where
  | running
  | ready
  | waitMtx
  | waitCnd
  | waitTime
  | waitExit
  | waitPoll
  | exited
  | finished
  deriving DecidableEq, Repr

/-- What a poll descriptor asks for: a condition variable with an optional mutex,
an interrupt, or the exit of a thread. -/
inductive PdKind where
  | cond (c : Cid) (m : Option Mid)
  | intr (irq : Irq)
  | join (t : Tid)
  deriving DecidableEq, Repr

/-- How a build configures the kernel, and the static objects of the program. -/
structure Config where
  /-- `MHZ`: ticks of the SysTick counter in a microsecond. -/
  mhz : Nat
  /-- `PREEMPTION_USEC`: the slice of a round-robin thread. -/
  preemptionUsec : Nat
  /-- `CHX_PRIO_MAIN_INIT`. -/
  prioMainInit : Nat
  /-- `CHX_FLAGS_MAIN & CHOPSTX_SCHED_RR`. -/
  mainSchedRr : Bool
  /-- `CHX_FLAGS_MAIN & CHOPSTX_DETACHED`. -/
  mainDetached : Bool
  /-- The number of mutexes of the program. -/
  nmutex : Nat
  /-- The poll descriptors of the program. -/
  pd : PdId → PdKind
  mhz_pos : 0 < mhz
  mhz_le : mhz ≤ 16777215
  preemptionUsec_pos : 0 < preemptionUsec
  slice_le : preemptionUsec * mhz ≤ 16777215
  prioMainInit_lt : prioMainInit < 256

/-! ## Records -/

/-- `struct chx_thread`, without its links and its register context. -/
structure Thread where
  state : ThreadState := .exited
  flagDetached : Bool := false
  flagGotCancel : Bool := false
  flagJoinReq : Bool := false
  flagSchedRr : Bool := false
  flagCancelable : Bool := true
  prioOrig : Nat := 0
  prio : Nat := 0
  parent : Option Qh := none
  v : Nat := 0
  mutexList : Option Mid := none
  clp : List Nat := []
  deriving Repr

/-- `struct chx_mtx`, without its queue. -/
structure Mtx where
  owner : Option Tid := none
  list : Option Mid := none
  deriving Repr

/-- `struct chx_px`, without its links.  Its counter is the one of its call. -/
structure Px where
  prio : Nat := 0
  parent : Option Qh := none
  v : Nat := 0
  master : Tid := 0
  readyP : Option PdId := none
  deriving Repr

/-- The SysTick timer with its exception, the time since reset, and the time that
is going to pass before each of the next accesses to the SysTick registers. -/
structure Systick where
  count : Nat := 0
  pending : Bool := false
  now : Nat := 0
  lags : List Nat := []
  deriving Repr

/-- Who woke a sleeping thread.  `others left` is a wake-up by `chx_wakeup` or by
priority inheritance; `left` are the ticks that were left if the thread was taken
out of `q_timer`. -/
inductive Waker where
  | timer
  | handOver (m : Mid)
  | others (left : Option Nat)
  | cancel
  deriving DecidableEq, Repr

/-- History variables. -/
structure Ghost where
  /-- The last wake-up of a thread out of `chx_sched (CHX_SLEEP)`: by whom, and the
  value that the waker stored in `v`. -/
  wake : Tid → Option (Waker × Nat) := fun _ => none
  /-- When the ticks of the last request of a thread to `chx_timer_insert` are over. -/
  due : Tid → Nat := fun _ => 0
  /-- The mutexes that a thread has locked and not yet released, the last one first. -/
  held : Tid → List Mid := fun _ => []
  /-- The call of `chopstx_poll` that enabled an interrupt. -/
  irqBy : Irq → Option Nat := fun _ => none
  /-- The counter was loaded anew while the exception for the old count was pending. -/
  lateEdit : Bool := false

/-- The state of the kernel. -/
structure Kernel where
  running : Option Tid := none
  nthread : Nat := 0
  thread : Tid → Thread := fun _ => {}
  queue : Qh → List Pq := fun _ => []
  mutex : Mid → Mtx := fun _ => {}
  px : PxId → Px := fun _ => {}
  /-- The variable `counter` of each call of `chopstx_poll`. -/
  counter : Nat → Nat := fun _ => 0
  /-- The calls of `chopstx_poll` so far. -/
  ncall : Nat := 0
  /-- The field `ready` of each poll descriptor. -/
  ready : PdId → Bool := fun _ => false
  systick : Systick := {}
  /-- Preemption is masked (`BASEPRI`, or `PRIMASK` on Cortex-M0). -/
  masked : Bool := false
  /-- The PendSV exception is pending. -/
  pendsv : Bool := false
  /-- The interrupts enabled in the NVIC. -/
  irq : Irq → Bool := fun _ => false
  /-- Memory of the application that the kernel writes to through pointers. -/
  mem : Nat → Nat := fun _ => 0
  ghost : Ghost := {}

/-- Why a step gives no next state: it cannot be taken here, the search loop of
`chx_timer_dequeue` never meets the thread, or another loop of the code never ends. -/
inductive Fault where
  | disabled
  | endlessSearch
  | endlessLoop
  deriving DecidableEq, Repr

abbrev Res (α : Type) := Except Fault α

theorem res_bind_eq_ok {α β : Type} {x : Res α} {f : α → Res β} {b : β} :
    (x >>= f) = .ok b ↔ ∃ a, x = .ok a ∧ f a = .ok b := by
  cases x with
  | error e => simp [bind, Except.bind]
  | ok a => simp [bind, Except.bind]

/-! ## Words -/

/-- Addition of `uint32_t`. -/
def add32 (a b : Nat) : Nat := (a + b) % 4294967296

/-- Subtraction of `uint32_t`. -/
def sub32 (a b : Nat) : Nat := (a + (4294967296 - b % 4294967296)) % 4294967296

/-- `(uintptr_t)-1`. -/
def minusOne : Nat := 4294967295

/-- A word read as `int`. -/
def toInt (v : Nat) : Int := if v < 2147483648 then v else (v : Int) - 4294967296

theorem add32_of_lt {a b : Nat} (h : a + b < 4294967296) : add32 a b = a + b :=
  Nat.mod_eq_of_lt h

@[simp] theorem toInt_minusOne : toInt minusOne = -1 := rfl

namespace Kernel

/-! ## Fields of entries -/

@[simps]
def modThread (k : Kernel) (t : Tid) (f : Thread → Thread) : Kernel :=
  { k with thread := Function.update k.thread t (f (k.thread t)) }

@[simps]
def modPx (k : Kernel) (p : PxId) (f : Px → Px) : Kernel :=
  { k with px := Function.update k.px p (f (k.px p)) }

@[simps]
def modMutex (k : Kernel) (m : Mid) (f : Mtx → Mtx) : Kernel :=
  { k with mutex := Function.update k.mutex m (f (k.mutex m)) }

@[simps]
def setQueue (k : Kernel) (q : Qh) (l : List Pq) : Kernel :=
  { k with queue := Function.update k.queue q l }

/-- The field `prio` of an entry. -/
def pqPrio (k : Kernel) : Pq → Nat
  | .thread t => (k.thread t).prio
  | .proxy p => (k.px p).prio

/-- The field `v` of an entry. -/
def pqV (k : Kernel) : Pq → Nat
  | .thread t => (k.thread t).v
  | .proxy p => (k.px p).v

def setParent (k : Kernel) (q : Qh) : Pq → Kernel
  | .thread t => k.modThread t fun th => { th with parent := some q }
  | .proxy p => k.modPx p fun px => { px with parent := some q }

def setV (k : Kernel) (v : Nat) : Pq → Kernel
  | .thread t => k.modThread t fun th => { th with v := v }
  | .proxy p => k.modPx p fun px => { px with v := v }

/-! ## Double linked list handling -/

/-- `ll_dequeue`. -/
@[simps]
def llDequeue (k : Kernel) (n : Pq) : Kernel :=
  { k with queue := fun q => (k.queue q).filter (· ≠ n) }

/-- `ll_pop`. -/
def llPop (k : Kernel) (q : Qh) : Option (Pq × Kernel) :=
  match k.queue q with
  | [] => none
  | n :: _ => some (n, k.llDequeue n)

/-- `ll_prio_push`: in front of its equals. -/
def llPrioPush (k : Kernel) (n : Pq) (q : Qh) : Kernel :=
  (k.setParent q n).setQueue q
    (insertBefore (fun p => decide (k.pqPrio p ≤ k.pqPrio n)) n (k.queue q))

/-- `ll_prio_enqueue`: behind its equals. -/
def llPrioEnqueue (k : Kernel) (n : Pq) (q : Qh) : Kernel :=
  (k.setParent q n).setQueue q
    (insertBefore (fun p => decide (k.pqPrio p < k.pqPrio n)) n (k.queue q))

end Kernel

end Chopstx
