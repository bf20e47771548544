import Mathlib.Logic.Relation
import Chopstx.Kernel.Api
import Chopstx.Kernel.TimerQueue

/-!
# The moves of a critical section

A critical section, or the handler of an exception, is a sequence of moves.  `Move`
lists them with what the code has checked when it makes them, so an invariant of the
kernel is proved move by move, whatever the sections are made of.  A point within a
section is the kernel and the thread that is linked nowhere although its state says
otherwise: the running thread on its way from one queue to another.

`Path P` is a sequence of moves, each of which has a label that satisfies `P`.

* `Op`, `Move` - the labels of the moves, and the moves with what the code has checked.
* `WakesTimed`, `WakesUntimed`, `WakesQueued`, `Blocks` - who wakes a thread with which value, and
  where a thread blocks.
* `Path.keeps` - what every move keeps, a sequence of moves keeps; `Path.trans` and `Path.mono` put
  sequences together and forget labels.
-/

namespace Chopstx

open Kernel

/-- A point within a critical section. -/
abbrev Point := Option Tid × Kernel

/-- What is set in a thread: its own flag and its clean-up list, or one of the flags by which
others ask something of it. -/
inductive Flag where
  | own (cancelable : Bool) (clp : List Nat)
  | cancel
  | join

def Flag.set : Flag → Thread → Thread
  | .own cancelable clp, th => { th with flagCancelable := cancelable, clp := clp }
  | .cancel, th => { th with flagGotCancel := true }
  | .join, th => { th with flagJoinReq := true }

/-- The labels of the moves. -/
inductive Op where
  /-- Bookkeeping: the mask of interrupts, the number of the next call, memory. -/
  | aux
  /-- The counter of a call. -/
  | count (call : Nat)
  /-- The PendSV exception becomes pending, or is taken. -/
  | pend (b : Bool)
  /-- Time passes. -/
  | pass
  /-- Flags and clean-up list of a thread. -/
  | flags (t : Tid) (w : Flag)
  /-- The priority of a thread whose place in its queue does not depend on it. -/
  | prio (t : Tid)
  /-- The priority of a thread that is put to its new place in its queue. -/
  | raise (t : Tid)
  | wake (t : Tid) (w : Waker)
  /-- The running thread leaves `q_timer` if it is round-robin. -/
  | slice (t : Tid)
  /-- The running thread is put into a queue; `v` is what it stores in its value. -/
  | block (t : Tid) (q : Qh) (v : Option Nat)
  | sleep (t : Tid) (st : ThreadState)
  | pollSleep (t : Tid)
  | die (t : Tid) (retval : Nat)
  /-- A thread that has exited is joined. -/
  | finish (t : Tid)
  | yield (t : Tid)
  /-- The thread whose slice is over is not running any more. -/
  | norun (t : Tid)
  | switch
  | acquire (t : Tid) (m : Mid)
  | drop (t : Tid) (m : Mid)
  | create (t : Tid)
  | expire
  | proxy (p : PxId)
  | fire (p : PxId)
  | link (p : PxId) (q : Qh)
  | unlink (p : PxId)
  | ready (d : PdId) (b : Bool)
  | irq (n : Irq) (b : Bool)

section Flag

variable (w : Flag) (th : Thread)

@[simp] theorem Flag.set_state : (w.set th).state = th.state := by
  cases w <;> rfl

@[simp] theorem Flag.set_flagSchedRr : (w.set th).flagSchedRr = th.flagSchedRr := by
  cases w <;> rfl

@[simp] theorem Flag.set_prioOrig : (w.set th).prioOrig = th.prioOrig := by
  cases w <;> rfl

@[simp] theorem Flag.set_prio : (w.set th).prio = th.prio := by
  cases w <;> rfl

@[simp] theorem Flag.set_parent : (w.set th).parent = th.parent := by
  cases w <;> rfl

@[simp] theorem Flag.set_v : (w.set th).v = th.v := by
  cases w <;> rfl

@[simp] theorem Flag.set_mutexList : (w.set th).mutexList = th.mutexList := by
  cases w <;> rfl

end Flag

/-- Who wakes a thread that is taken out of `q_timer` with `n` ticks left, and the value. -/
inductive WakesTimed (n : Nat) : Waker → Nat → Prop
  | others : WakesTimed n (.others (some n)) n
  | cancel : WakesTimed n .cancel minusOne

/-- Who wakes a thread that is not in `q_timer`, and the value. -/
inductive WakesUntimed : Waker → Nat → Prop
  | others : WakesUntimed (.others none) 1
  | cancel : WakesUntimed .cancel minusOne

/-- Who wakes a thread that is linked in a queue, and the value. -/
inductive WakesQueued : Qh → Waker → Nat → Prop
  | handOver (m : Mid) : WakesQueued (.mtx m) (.handOver m) 0
  | cnd (c : Cid) {w : Waker} {v : Nat} : WakesUntimed w v → WakesQueued (.cnd c) w v
  | join {w : Waker} {v : Nat} : WakesUntimed w v → WakesQueued .join w v

/-- The queue in which a thread blocks in this state. -/
inductive Blocks : Qh → ThreadState → Prop
  | mtx (m : Mid) : Blocks (.mtx m) .waitMtx
  | cnd (c : Cid) : Blocks (.cnd c) .waitCnd
  | join : Blocks .join .waitExit

/-- A move of a critical section. -/
inductive Move (cfg : Config) : Op → Point → Point → Prop
  | aux {off : Option Tid} {k : Kernel} (masked : Bool) (counter : Nat → Nat) (ncall : Nat)
      (mem : Nat → Nat) (hn : k.ncall ≤ ncall)
      (hc : ∀ call < k.ncall, counter call = k.counter call) :
      Move cfg .aux (off, k)
        (off, { k with masked := masked, counter := counter, ncall := ncall, mem := mem })
  | count {off : Option Tid} {k : Kernel} {call : Nat} (n : Nat) :
      Move cfg (.count call) (off, k)
        (off, { k with counter := Function.update k.counter call n })
  | pend {off : Option Tid} {k : Kernel} (b : Bool) :
      Move cfg (.pend b) (off, k) (off, { k with pendsv := b })
  | pass {off : Option Tid} {k : Kernel} {s : Systick} (hs : k.systick.Later s) :
      Move cfg .pass (off, k) (off, k.setSystick s)
  | flags {off : Option Tid} {k : Kernel} {t : Tid} (w : Flag) :
      Move cfg (.flags t w) (off, k) (off, k.modThread t w.set)
  | prio {off : Option Tid} {k : Kernel} {t : Tid} {p po : Nat} (hp : p < 256) (hpo : po < 256)
      (hr : (k.thread t).state ≠ .ready) (hm : (k.thread t).state ≠ .waitMtx)
      (hc : (k.thread t).state ≠ .waitCnd) :
      Move cfg (.prio t) (off, k)
        (off, k.modThread t fun th => { th with prio := p, prioOrig := po })
  | raise {k : Kernel} {t : Tid} {q : Qh} {p : Nat} (hp : p < 256)
      (hlt : (k.thread t).prio < p) (hq : (k.place t).IsIn q)
      (hst : (k.thread t).state = .ready ∨ (k.thread t).state = .waitMtx ∨
        (k.thread t).state = .waitCnd) :
      Move cfg (.raise t) (none, k)
        (none, ((k.setPrio t p).llDequeue (.thread t)).llPrioEnqueue (.thread t) q)
  | wakeTimed {k k₁ : Kernel} {t : Tid} {w : Waker} {n v : Nat}
      (hs : (k.thread t).state = .waitTime ∨ (k.thread t).state = .waitPoll)
      (hd : k.chxTimerDequeue t = .ok (k₁, n)) (hw : WakesTimed n w v) :
      Move cfg (.wake t w) (none, k) (none, k₁.resume t w v)
  | wakeQueued {k : Kernel} {t : Tid} {q : Qh} {w : Waker} {v : Nat} (hq : (k.place t).IsIn q)
      (hw : WakesQueued q w v) :
      Move cfg (.wake t w) (none, k) (none, (k.llDequeue (.thread t)).resume t w v)
  | wakeLoose {k : Kernel} {t : Tid} {w : Waker} {v : Nat}
      (hs : (k.thread t).state = .waitPoll) (hp : (k.thread t).parent ≠ some .timer)
      (hw : WakesUntimed w v) :
      Move cfg (.wake t w) (none, k) (none, k.resume t w v)
  | slice {k k' : Kernel} {t : Tid} (hr : k.running = some t)
      (hs : (k.thread t).state = .running) (he : k.endSlice t = .ok k') :
      Move cfg (.slice t) (none, k) (some t, k')
  | block {k : Kernel} {t : Tid} {q : Qh} {st : ThreadState} {v : Option Nat}
      (hs : (k.thread t).state = .running) (hq : Blocks q st) :
      Move cfg (.block t q v) (some t, k)
        (none, (k.llPrioEnqueue (.thread t) q).modThread t fun th =>
          { th with state := st, v := v.getD th.v })
  | sleep {k : Kernel} {t : Tid} {st : ThreadState} {usec : Nat}
      (hs : (k.thread t).state = .running) (hst : st = .waitTime ∨ st = .waitPoll)
      (hpos : 0 < usecToTicks cfg usec) (hle : usecToTicks cfg usec ≤ 16777215) :
      Move cfg (.sleep t st) (some t, k)
        (none, (k.modThread t fun th => { th with state := st }).chxTimerInsert cfg t usec)
  | pollSleep {k : Kernel} {t : Tid} (hs : (k.thread t).state = .running) :
      Move cfg (.pollSleep t) (some t, k)
        (none, k.modThread t fun th => { th with state := .waitPoll })
  | die {k : Kernel} {t : Tid} {st : ThreadState} {retval : Nat}
      (hs : (k.thread t).state = .running) (hst : st = .exited ∨ st = .finished) :
      Move cfg (.die t retval) (some t, k)
        (none, k.modThread t fun th => { th with state := st, v := retval })
  | finish {off : Option Tid} {k : Kernel} {t : Tid} (ht : t < k.nthread)
      (hs : (k.thread t).state = .exited ∨ (k.thread t).state = .finished) :
      Move cfg (.finish t) (off, k) (off, k.modThread t fun th => { th with state := .finished })
  | yield {k : Kernel} {t : Tid} (hs : (k.thread t).state = .running) :
      Move cfg (.yield t) (some t, k) (none, { k.chxReadyEnqueue t with running := none })
  | push {k : Kernel} {t : Tid} (hr : k.running = some t) (hs : (k.thread t).state = .running)
      (hf : (k.thread t).flagSchedRr = false) :
      Move cfg (.yield t) (none, k) (none, { k.chxReadyPush t with running := none })
  | norun {k : Kernel} {t : Tid} (hr : k.running = some t) (hs : (k.thread t).state = .ready) :
      Move cfg (.norun t) (none, k) (none, { k with running := none })
  | switch {k : Kernel} (hs : ∀ t, (k.thread t).state ≠ .running) :
      Move cfg .switch (none, k) (none, k.switchThread cfg)
  | acquire {k : Kernel} {t : Tid} {m : Mid} (hr : k.running = some t)
      (hs : (k.thread t).state = .running) (ho : (k.mutex m).owner = none) :
      Move cfg (.acquire t m) (none, k) (none, k.acquire t m)
  | drop {k : Kernel} {t : Tid} {m : Mid} (hr : k.running = some t)
      (hs : (k.thread t).state = .running) :
      Move cfg (.drop t m) (none, k) (none, k.dropMutex t m)
  | create {k : Kernel} (flagsAndPrio : Nat) :
      Move cfg (.create k.nthread) (none, k)
        (none, { k with
          nthread := k.nthread + 1
          thread := Function.update k.thread k.nthread
            (newThread flagsAndPrio) }.chxReadyEnqueue k.nthread)
  | expire {k : Kernel} (hp : k.systick.pending = true)
      (hr : ∀ t, k.running = some t → (k.thread t).state = .running ∨
        (k.thread t).state = .ready) :
      Move cfg .expire (none, k)
        (none, (k.setSystick { k.systick with pending := false }).chxTimerExpired)
  | proxy {off : Option Tid} {k : Kernel} {p : PxId} (f : Px → Px) :
      Move cfg (.proxy p) (off, k) (off, k.modPx p f)
  | fire {off : Option Tid} {k : Kernel} {p : PxId} {q : Qh} (hm : .proxy p ∈ k.queue q) :
      Move cfg (.fire p) (off, k) (off, (k.llDequeue (.proxy p)).fireProxy p)
  | link {off : Option Tid} {k : Kernel} {p : PxId} {q : Qh}
      (hq : q = .intr ∨ q = .join ∨ ∃ c, q = .cnd c) :
      Move cfg (.link p q) (off, k) (off, k.llPrioEnqueue (.proxy p) q)
  | unlink {off : Option Tid} {k : Kernel} {p : PxId} :
      Move cfg (.unlink p) (off, k) (off, k.llDequeue (.proxy p))
  | ready {off : Option Tid} {k : Kernel} {d : PdId} {b : Bool} :
      Move cfg (.ready d b) (off, k) (off, k.setReady d b)
  | enable {off : Option Tid} {k : Kernel} {n : Irq} {call : Nat} :
      Move cfg (.irq n true) (off, k) (off, k.enableIntr n call)
  | disable {off : Option Tid} {k : Kernel} {n : Irq} :
      Move cfg (.irq n false) (off, k) (off, k.disableIntr n)

/-! ## Paths -/

/-- A sequence of moves with these labels. -/
def Path (cfg : Config) (P : Op → Prop) : Point → Point → Prop :=
  Relation.ReflTransGen fun a b => ∃ op, P op ∧ Move cfg op a b

section Path

variable {cfg : Config} {P Q : Op → Prop} {a b c : Point} {op : Op}

theorem Path.refl : Path cfg P a a := Relation.ReflTransGen.refl

theorem Path.trans (h : Path cfg P a b) (h' : Path cfg P b c) : Path cfg P a c :=
  Relation.ReflTransGen.trans h h'

theorem Move.path (h : Move cfg op a b) (hop : P op) : Path cfg P a b :=
  Relation.ReflTransGen.single ⟨op, hop, h⟩

theorem Path.tail (h : Path cfg P a b) (hm : Move cfg op b c) (hop : P op) : Path cfg P a c :=
  Relation.ReflTransGen.tail h ⟨op, hop, hm⟩

theorem Path.mono (hle : ∀ op, P op → Q op) (h : Path cfg P a b) : Path cfg Q a b := by
  induction h with
  | refl => exact .refl
  | tail _ hlast ih =>
      obtain ⟨op, hop, hm⟩ := hlast
      exact ih.tail hm (hle op hop)

/-- A predicate that the moves keep holds along a path. -/
theorem Path.keeps {I : Point → Prop} (hm : ∀ op a b, P op → Move cfg op a b → I a → I b)
    (h : Path cfg P a b) (ha : I a) : I b := by
  induction h with
  | refl => exact ha
  | tail _ hlast ih =>
      obtain ⟨op, hop, hmove⟩ := hlast
      exact hm op _ _ hop hmove ih

end Path

end Chopstx
