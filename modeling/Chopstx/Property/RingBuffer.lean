import Chopstx.Usart.RingBuffer

/-!
# The ring buffer is a bounded queue

`RbHolds size rb q` says that the buffer holds the queue `q` of at most `size` bytes; the
two operations put one byte in or take one out.  `Inv` carries this along every run of the
threads, with the log of the bytes moved and with what each call has moved so far.

* `accepted`, `removed`, `ops` - what the log says of the bytes; `Served` and `Answers` of what the
  calls return.
* `RbHolds`, `rbAdd`, `rbDel` - the buffer and its queue, and the two operations.
* `Point.exec_good` - one statement, at any point of the five calls.
* `Inv`, `Inv.step` - the invariant of the threads.
* `RefinesFifo`, `ring_buffer_is_fifo` - the queue of `Chopstx.Library.Ring`, and that each run
  refines it; `ring_buffer_one` is a run over one byte.
* `Inv.run_log` - what a thread in a call adds to the log; `Chopstx.Property.Transmit` uses it.
-/

namespace Chopstx.Usart

open Transition

/-! ## What the log says -/

/-- What a byte moved means for the queue. -/
def Moved.op : Moved → Fifo.Op UInt8
  | .put v => .put v
  | .take v => .take v
  | .drop v => .take v

theorem Moved.op_take (v : UInt8) : (Moved.take v).op = .take v := rfl

theorem Moved.op_drop (v : UInt8) : (Moved.drop v).op = .take v := rfl

/-- The bytes that have been accepted, put into the buffer by `rb_write` or by an `rb_ll_put`
that returns 0. -/
def accepted (log : List Event) : List UInt8 :=
  log.filterMap fun e => match e with
    | .moved _ (.put v) => some v
    | _ => none

/-- The bytes that have left the buffer, with a mark on those that `rb_ll_flush` dropped. -/
def removed (log : List Event) : List (UInt8 × Bool) :=
  log.filterMap fun e => match e with
    | .moved _ (.take v) => some (v, false)
    | .moved _ (.drop v) => some (v, true)
    | _ => none

/-- The operations of the queue in the log. -/
def ops (log : List Event) : List (Fifo.Op UInt8) :=
  log.filterMap fun e => match e with
    | .moved _ m => some m.op
    | _ => none

/-- The call that `t` is in, with the bytes it has moved, after one more event. -/
def track (t : Nat) (x : Option (Call × List Moved)) : Event → Option (Call × List Moved)
  | .call u c => if u = t then some (c, []) else x
  | .moved u m => if u = t then x.map fun y => (y.1, y.2 ++ [m]) else x
  | .ret u _ => if u = t then none else x

/-- The call that `t` is in after the log, with the bytes it has moved. -/
def inCall (t : Nat) (log : List Event) : Option (Call × List Moved) :=
  log.foldl (track t) none

/-- What a call that has moved the bytes `ms` may return: `rb_ll_put` returns 0 if it has put
its byte in and -1 if it has not, `rb_ll_get` the byte it has taken or -1, `rb_read` what it
has taken, and `rb_write` has put all its bytes in, in order. -/
def Served : Call → List Moved → Answer → Prop
  | .rbLlPut v, ms, a => ms = [.put v] ∧ a = .r 0 ∨ ms = [] ∧ a = .r (-1)
  | .rbLlGet, ms, a => (∃ v, ms = [.take v] ∧ a = .r (UInt8.toNat v)) ∨ ms = [] ∧ a = .r (-1)
  | .rbLlFlush, ms, a => (∃ vs : List UInt8, ms = vs.map .drop) ∧ a = .void
  | .rbRead n, ms, a => ∃ buf : List UInt8, ms = buf.map .take ∧ a = .read buf ∧ buf.length ≤ n
  | .rbWrite buf, ms, a => ms = buf.map .put ∧ a = .void

/-- What the answer of a call says of the queue that it leaves: `rb_ll_put` refuses its byte
only when there is no room, `rb_ll_get` has none only when the queue is empty, `rb_ll_flush`
leaves it empty, and `rb_read` has at least one byte if it was asked for any, and fewer than it
was asked for only when it leaves none. -/
def Found (size : Nat) : Call → Answer → List UInt8 → Prop
  | .rbLlPut _, a, q => a = .r (-1) → q.length = size
  | .rbLlGet, a, q => a = .r (-1) → q = []
  | .rbLlFlush, _, q => q = []
  | .rbRead n, a, q => ∀ buf, a = .read buf → (0 < n → buf ≠ []) ∧ (buf.length < n → q = [])
  | .rbWrite _, _, _ => True

/-- Every return in the log gives what its call has done, and what the call has found. -/
def Answers (size : Nat) (log : List Event) : Prop :=
  ∀ pre t a, pre ++ [.ret t a] <+: log → ∃ c ms q, inCall t pre = some (c, ms) ∧ Served c ms a ∧
    Fifo.run size [] (ops pre) = some q ∧ Found size c a q

section

variable {size : Nat} {log : List Event} {t : Nat} {ms : List Moved} {q : List UInt8}

theorem puts_ops : Fifo.puts (ops log) = accepted log := by
  rw [ops, Fifo.puts, accepted, List.filterMap_filterMap]
  refine congrArg (List.filterMap · log) (funext fun e => ?_)
  rcases e with _ | ⟨t, _ | _ | _⟩ | _ <;> rfl

theorem takes_ops : Fifo.takes (ops log) = (removed log).map Prod.fst := by
  rw [ops, Fifo.takes, removed, List.filterMap_filterMap, List.map_filterMap]
  refine congrArg (List.filterMap · log) (funext fun e => ?_)
  rcases e with _ | ⟨t, _ | _ | _⟩ | _ <;> rfl

theorem ops_append {log' : List Event} : ops (log ++ log') = ops log ++ ops log' :=
  List.filterMap_append

@[simp] theorem ops_moved : ops (ms.map (.moved t)) = ms.map Moved.op := by
  rw [ops, List.filterMap_map, ← List.filterMap_eq_map]
  rfl

theorem inCall_append {log' : List Event} :
    inCall t (log ++ log') = log'.foldl (track t) (inCall t log) :=
  List.foldl_append

/-- The bytes that the thread moves are added to its call. -/
theorem inCall_moved {c : Call} {ns : List Moved} (h : inCall t log = some (c, ns)) :
    inCall t (log ++ ms.map (.moved t)) = some (c, ns ++ ms) := by
  induction ms generalizing log ns with
  | nil => simpa using h
  | cons m ms ih =>
      have h1 : inCall t (log ++ [.moved t m]) = some (c, ns ++ [m]) := by
        rw [inCall_append, h]
        simp [track]
      have h2 := ih h1
      rw [List.append_assoc, List.append_assoc] at h2
      exact h2

/-- The bytes that another thread moves are not. -/
theorem inCall_moved_ne {u : Nat} (hu : u ≠ t) :
    inCall t (log ++ ms.map (.moved u)) = inCall t log := by
  induction ms generalizing log with
  | nil => simp
  | cons m ms ih =>
      have h1 : inCall t (log ++ [.moved u m]) = inCall t log := by
        rw [inCall_append]
        simp [track, hu]
      have h2 := @ih (log ++ [.moved u m])
      rw [List.append_assoc, h1] at h2
      exact h2

/-- What is not a return leaves the returns as they are. -/
theorem Answers.concat (h : Answers size log) {e : Event} (he : ∀ t a, e ≠ .ret t a) :
    Answers size (log ++ [e]) := by
  intro pre t a hpre
  rcases List.prefix_concat_iff.1 hpre with heq | hle
  · have hlast : Event.ret t a = e := (List.append_inj' heq rfl).2 |> List.head_eq_of_cons_eq
    exact absurd hlast.symm (he t a)
  · exact h pre t a hle

theorem Answers.moved (h : Answers size log) : Answers size (log ++ ms.map (.moved t)) := by
  induction ms generalizing log with
  | nil => simpa using h
  | cons m ms ih =>
      have h1 := ih (h.concat (e := .moved t m) (by simp))
      rw [List.append_assoc] at h1
      exact h1

/-- A return that gives what its call has done may be added. -/
theorem Answers.ret (h : Answers size log) {c : Call} {ns : List Moved} {a : Answer}
    (hc : inCall t log = some (c, ns)) (ha : Served c ns a)
    (hq : Fifo.run size [] (ops log) = some q) (hf : Found size c a q) :
    Answers size (log ++ [.ret t a]) := by
  intro pre u b hpre
  rcases List.prefix_concat_iff.1 hpre with heq | hle
  · obtain ⟨rfl, hlast⟩ := List.append_inj' heq rfl
    cases hlast
    exact ⟨c, ns, q, hc, ha, hq, hf⟩
  · exact h pre u b hle

end

/-! ## The buffer holds a queue -/

/-- The buffer of the given size holds the queue `q`. -/
structure RbHolds (size : Nat) (rb : Rb) (q : List UInt8) : Prop where
  pos : 0 < size
  le : size ≤ 1024
  length : rb.buf.length = size
  field : rb.size = BitVec.ofNat 10 size
  head : rb.head.toNat < size
  tail : rb.tail.toNat = (rb.head.toNat + q.length) % size
  room : q.length ≤ size
  window : Ring.window rb.buf rb.head.toNat q.length = q
  full : rb.full = true ↔ q.length = size
  empty : rb.empty = true ↔ q = []

namespace RbHolds

variable {size : Nat} {rb : Rb} {q : List UInt8} {v : UInt8}

/-- The index runs around the array; a size of 1024 is stored as 0, and the index then wraps
by truncation. -/
theorem toNat_advance (h : RbHolds size rb q) {i : BitVec 10} (hi : i.toNat < size) :
    (rb.advance i).toNat = (i.toNat + 1) % size := by
  have hle := h.le
  have hsucc : (i + 1).toNat = (i.toNat + 1) % 1024 := by simp [BitVec.toNat_add]
  have hsize : rb.size.toNat = size % 1024 := by simp [h.field]
  rw [Rb.advance]
  split
  · rename_i heq
    have hmod : (i.toNat + 1) % 1024 = size % 1024 := by rw [← hsucc, ← hsize, heq]
    have hlast : i.toNat + 1 = size := by omega
    rw [hlast, Nat.mod_self]
    rfl
  · rename_i hne
    have hlast : i.toNat + 1 ≠ size := by
      intro heq
      apply hne
      apply BitVec.eq_of_toNat_eq
      rw [hsucc, hsize, heq]
    rw [hsucc, Nat.mod_eq_of_lt (by omega), Nat.mod_eq_of_lt (by omega)]

theorem tail_lt (h : RbHolds size rb q) : rb.tail.toNat < size := by
  rw [h.tail]
  exact Nat.mod_lt _ h.pos

theorem length_lt (h : RbHolds size rb q) (hf : rb.full = false) : q.length < size := by
  refine lt_of_le_of_ne h.room fun heq => ?_
  rw [h.full.2 heq] at hf
  cases hf

theorem ne_nil (h : RbHolds size rb q) (he : rb.empty = false) : q ≠ [] := by
  intro heq
  rw [h.empty.2 heq] at he
  cases he

/-- `rb_init` leaves the buffer empty. -/
theorem init {p : List UInt8} (h0 : 0 < size) (h1 : size ≤ 1024) (hp : p.length = size) :
    RbHolds size (rbInit p size) [] where
  pos := h0
  le := h1
  length := hp
  field := rfl
  head := h0
  tail := by simp [rbInit]
  room := Nat.zero_le _
  window := Ring.window_zero
  full := by simp [rbInit, h0.ne]
  empty := by simp [rbInit]

/-- **`rb_add` puts its byte behind the others.** -/
theorem rbAdd (h : RbHolds size rb q) (hf : rb.full = false) (v : UInt8) :
    ∃ rb', rb.rbAdd v = .ok rb' ∧ RbHolds size rb' (q ++ [v]) := by
  have hlt := h.length_lt hf
  have hadv := h.toNat_advance h.tail_lt
  have htail : (rb.advance rb.tail).toNat = (rb.head.toNat + (q.length + 1)) % size := by
    rw [hadv, h.tail, Nat.mod_add_mod, Nat.add_assoc]
  rw [Rb.rbAdd, if_pos (by rw [h.length]; exact h.tail_lt)]
  refine ⟨_, rfl, ?_⟩
  constructor
  case pos => exact h.pos
  case le => exact h.le
  case length => simp [h.length]
  case field => exact h.field
  case head => exact h.head
  case tail => simpa using htail
  case room => simpa using hlt
  case window =>
    have hlen : q.length < rb.buf.length := by
      rw [h.length]
      exact hlt
    have hset := Ring.window_set (h := rb.head.toNat) (v := v) hlen
    rw [h.length, ← h.tail, h.window] at hset
    simpa using hset
  case full =>
    have hmod : rb.advance rb.tail = rb.head ↔ q.length + 1 = size := by
      have hmodEq : (rb.head.toNat + (q.length + 1)) % size = rb.head.toNat % size ↔
          size ∣ q.length + 1 := Nat.add_modEq_left_iff
      rw [← BitVec.toNat_inj, htail]
      rw [Nat.mod_eq_of_lt h.head] at hmodEq
      rw [hmodEq]
      exact ⟨fun hd => Nat.le_antisymm hlt (Nat.le_of_dvd (by omega) hd), fun heq => heq ▸ dvd_rfl⟩
    simp [hf, hmod]
  case empty => simp

/-- **`rb_del` takes the first byte out.** -/
theorem rbDel (h : RbHolds size rb q) (he : rb.empty = false) :
    ∃ v r rb', q = v :: r ∧ rb.rbDel = .ok (v, rb') ∧ RbHolds size rb' r := by
  obtain ⟨v, r, rfl⟩ := List.exists_cons_of_ne_nil (h.ne_nil he)
  have hroom := h.room
  have hlen := h.length
  have hhead := h.head
  rw [List.length_cons] at hroom
  have hadv := h.toNat_advance h.head
  have hwin := h.window
  rw [List.length_cons, Ring.window_succ (by omega) (by omega)] at hwin
  obtain ⟨hv, hr⟩ := List.cons.inj hwin
  rw [hlen, ← hadv] at hr
  have hget : rb.buf[rb.head.toNat]? = some v := by
    rw [← hv]
    exact List.getElem?_eq_getElem _
  rw [Rb.rbDel, hget]
  refine ⟨v, r, _, rfl, rfl, ?_⟩
  constructor
  case pos => exact h.pos
  case le => exact h.le
  case length => exact h.length
  case field => exact h.field
  case head =>
    show (rb.advance rb.head).toNat < size
    rw [hadv]
    exact Nat.mod_lt _ h.pos
  case tail =>
    show rb.tail.toNat = ((rb.advance rb.head).toNat + r.length) % size
    rw [h.tail, hadv, Nat.mod_add_mod, List.length_cons]
    congr 1
    omega
  case room => omega
  case window => exact hr
  case full =>
    have hne : r.length ≠ size := by omega
    simp [hne]
  case empty =>
    have hmod : rb.advance rb.head = rb.tail ↔ r = [] := by
      have hmodEq : (rb.head.toNat + 1 + r.length) % size = (rb.head.toNat + 1) % size ↔
          size ∣ r.length := Nat.add_modEq_left_iff
      have hlen' : rb.head.toNat + (v :: r).length = rb.head.toNat + 1 + r.length := by
        rw [List.length_cons]
        omega
      rw [← BitVec.toNat_inj, hadv, h.tail, hlen', eq_comm, hmodEq]
      constructor
      · intro hd
        exact List.eq_nil_of_length_eq_zero (Nat.eq_zero_of_dvd_of_lt hd (by omega))
      · rintro rfl
        exact dvd_zero _
    simp [he, hmod]

end RbHolds

/-! ## One statement -/

/-- What the flags are where a thread is about to move a byte. -/
def Point.Ready (rb : Rb) : Point → Prop
  | .putAdd _ => rb.full = false
  | .writeLoop _ _ => rb.full = false
  | .writeAdd _ _ _ => rb.full = false
  | .getDel => rb.empty = false
  | .flushDel => rb.empty = false
  | .readLoop _ _ => rb.empty = false
  | .readDel _ _ => rb.empty = false
  | _ => True

/-- The statement `p` follows in the call `c` when that has moved the bytes `ms`. -/
def Point.Follows (c : Call) (ms : List Moved) : Point → Prop
  | .putTest v => c = .rbLlPut v ∧ ms = []
  | .putAdd v => c = .rbLlPut v ∧ ms = []
  | .getTest => c = .rbLlGet ∧ ms = []
  | .getDel => c = .rbLlGet ∧ ms = []
  | .flushTest => c = .rbLlFlush ∧ ∃ vs : List UInt8, ms = vs.map .drop
  | .flushDel => c = .rbLlFlush ∧ ∃ vs : List UInt8, ms = vs.map .drop
  | .readWait n => c = .rbRead n ∧ ms = []
  | .readLoop n buf => c = .rbRead n ∧ ms = buf.map .take ∧ buf.length ≤ n
  | .readDel n buf => c = .rbRead n ∧ ms = buf.map .take ∧ buf.length < n
  | .readTest n buf => c = .rbRead n ∧ ms = buf.map .take ∧ buf.length ≤ n ∧ buf ≠ []
  | .writeWait buf i => c = .rbWrite buf ∧ ms = (buf.take i).map .put
  | .writeLoop buf i => c = .rbWrite buf ∧ ms = (buf.take i).map .put
  | .writeAdd buf i v => c = .rbWrite buf ∧ ms = (buf.take i).map .put ∧ buf[i]? = some v
  | .writeTest buf i => c = .rbWrite buf ∧ ms = (buf.take i).map .put
  | .writeMore buf i => c = .rbWrite buf ∧ ms = (buf.take i).map .put
  | .unlock a => Served c ms a

/-- The statements that need nothing of the buffer: a call begins with one, and a thread goes on
with one when `chopstx_cond_wait` is over. -/
def Point.first : Point → Bool
  | .putTest _ | .getTest | .flushTest | .readWait _ | .writeWait _ _ => true
  | _ => false

/-- The queue is as the answer will say that it was found. -/
def Point.Told (size : Nat) (q : List UInt8) (c : Call) : Point → Prop
  | .unlock a => Found size c a q
  | _ => True

/-- The same for where the thread is after a statement. -/
def Next.Ready (rb : Rb) : Next → Prop
  | .goto p => p.Ready rb
  | .wait p => p.first = true
  | .ret _ => True

def Next.Follows (c : Call) (ms : List Moved) : Next → Prop
  | .goto p => p.Follows c ms
  | .wait p => p.Follows c ms
  | .ret a => Served c ms a

def Next.Told (size : Nat) (q : List UInt8) (c : Call) : Next → Prop
  | .goto p => p.Told size q c
  | .wait _ => True
  | .ret a => Found size c a q

section

variable {size : Nat} {rb : Rb} {q : List UInt8} {p : Point} {c : Call} {ms : List Moved}

theorem Call.start_first (c : Call) : c.start.first = true := by
  cases c <;> rfl

theorem Point.ready_of_first (h : p.first = true) : p.Ready rb := by
  cases p <;> trivial

theorem Point.told_of_first (h : p.first = true) : p.Told size q c := by
  cases p <;> trivial

theorem Call.start_follows (c : Call) : c.start.Follows c [] := by
  cases c with
  | rbLlPut v => exact ⟨rfl, rfl⟩
  | rbLlGet => exact ⟨rfl, rfl⟩
  | rbLlFlush => exact ⟨rfl, [], rfl⟩
  | rbRead n => exact ⟨rfl, rfl⟩
  | rbWrite buf => exact ⟨rfl, rfl⟩

/-- What a statement gives: the buffer holds the queue after the bytes moved, and the call
goes on with the flags as they have to be. -/
def Point.Good (size : Nat) (rb : Rb) (q : List UInt8) (c : Call) (ms : List Moved)
    (p : Point) : Prop :=
  ∃ rb' ms' next q', p.exec rb = .ok (rb', ms', next) ∧ RbHolds size rb' q' ∧
    Fifo.run size q (ms'.map Moved.op) = some q' ∧ next.Ready rb' ∧
      next.Follows c (ms ++ ms') ∧ next.Told size q' c

/-- A statement that moves nothing. -/
theorem Point.Good.still (next : Next) (h : RbHolds size rb q)
    (he : p.exec rb = .ok (rb, [], next)) (hr : next.Ready rb) (hf : next.Follows c ms)
    (ht : next.Told size q c) : p.Good size rb q c ms :=
  ⟨rb, [], next, q, he, h, rfl, hr, by rwa [List.append_nil], ht⟩

/-- A statement that puts a byte in. -/
theorem Point.Good.add {v : UInt8} {next : Next} (h : RbHolds size rb q) (hr : rb.full = false)
    (he : p.exec rb = (rb.rbAdd v).bind fun rb => .ok (rb, [.put v], next))
    (hn : ∀ rb, next.Ready rb) (hf : next.Follows c (ms ++ [.put v]))
    (ht : ∀ q, next.Told size q c) : p.Good size rb q c ms := by
  obtain ⟨rb', hadd, hb⟩ := h.rbAdd hr v
  rw [hadd] at he
  exact ⟨rb', _, next, _, he, hb, Fifo.run_put (h.length_lt hr), hn rb', hf, ht _⟩

/-- A statement that takes a byte out. -/
theorem Point.Good.del {m : UInt8 → Moved} (next : UInt8 → Next) (h : RbHolds size rb q)
    (hr : rb.empty = false) (hm : ∀ v, (m v).op = .take v)
    (he : p.exec rb = rb.rbDel.bind fun x => .ok (x.2, [m x.1], next x.1))
    (hn : ∀ v rb, (next v).Ready rb) (hf : ∀ v, (next v).Follows c (ms ++ [m v]))
    (ht : ∀ v q, (next v).Told size q c) : p.Good size rb q c ms := by
  obtain ⟨v, r, rb', rfl, hdel, hb⟩ := h.rbDel hr
  rw [hdel] at he
  refine ⟨rb', [m v], next v, r, he, hb, ?_, hn v rb', hf v, ht v r⟩
  rw [List.map_singleton, hm]
  exact Fifo.run_take

/-- **One statement.**  In a buffer that holds a queue, with the flags as the statement needs
them, it stays within the array, and goes on in the same way. -/
theorem Point.exec_good (h : RbHolds size rb q) (hr : p.Ready rb) (hf : p.Follows c ms)
    (ht : p.Told size q c) : p.Good size rb q c ms := by
  cases p with
  | putTest v =>
      refine .still _ h rfl ?_ ?_ ?_ <;> cases hfull : rb.full
      · exact hfull
      · trivial
      · exact hf
      · obtain ⟨rfl, rfl⟩ := hf
        exact .inr ⟨rfl, rfl⟩
      · trivial
      · obtain ⟨rfl, rfl⟩ := hf
        exact fun _ => h.full.1 hfull
  | putAdd v =>
      obtain ⟨rfl, rfl⟩ := hf
      exact .add h hr rfl (fun _ => trivial) (.inl ⟨rfl, rfl⟩) fun _ heq => by cases heq
  | getTest =>
      refine .still _ h rfl ?_ ?_ ?_ <;> cases hempty : rb.empty
      · exact hempty
      · trivial
      · exact hf
      · obtain ⟨rfl, rfl⟩ := hf
        exact .inr ⟨rfl, rfl⟩
      · trivial
      · obtain ⟨rfl, rfl⟩ := hf
        exact fun _ => h.empty.1 hempty
  | getDel =>
      obtain ⟨rfl, rfl⟩ := hf
      refine Good.del (fun v => .goto (.unlock (.r v.toNat))) h hr Moved.op_take rfl
        (fun _ _ => trivial) (fun v => .inl ⟨v, rfl, rfl⟩) ?_
      -- a byte is no error
      intro v _ heq
      injection heq with heq
      omega
  | flushTest =>
      refine .still _ h rfl ?_ ?_ ?_ <;> cases hempty : rb.empty
      · exact hempty
      · trivial
      · exact hf
      · obtain ⟨rfl, vs, rfl⟩ := hf
        exact ⟨⟨vs, rfl⟩, rfl⟩
      · trivial
      · obtain ⟨rfl, -⟩ := hf
        exact h.empty.1 hempty
  | flushDel =>
      obtain ⟨rfl, vs, rfl⟩ := hf
      refine Good.del (fun _ => .goto .flushTest) h hr Moved.op_drop rfl
        (fun _ _ => trivial) ?_ fun _ _ => trivial
      intro v
      exact ⟨rfl, vs ++ [v], by simp⟩
  | readWait n =>
      refine .still _ h rfl ?_ ?_ ?_ <;> cases hempty : rb.empty
      · exact hempty
      · rfl
      · obtain ⟨rfl, rfl⟩ := hf
        exact ⟨rfl, rfl, Nat.zero_le n⟩
      · exact hf
      · trivial
      · trivial
  | readLoop n buf =>
      obtain ⟨rfl, rfl, hle⟩ := hf
      refine .still _ h rfl ?_ ?_ ?_ <;> by_cases hlt : buf.length < n
      · simp only [if_pos hlt]
        exact hr
      · simp only [if_neg hlt]
        trivial
      · simp only [if_pos hlt]
        exact ⟨rfl, rfl, hlt⟩
      · simp only [if_neg hlt]
        exact ⟨buf, rfl, rfl, hle⟩
      · simp only [if_pos hlt]
        trivial
      · simp only [if_neg hlt]
        rintro _ ⟨⟩
        refine ⟨fun hpos hnil => hlt ?_, fun hlt' => absurd hlt' hlt⟩
        rw [hnil]
        exact hpos
  | readDel n buf =>
      obtain ⟨rfl, rfl, hlt⟩ := hf
      refine Good.del (fun v => .goto (.readTest n (buf ++ [v]))) h hr Moved.op_take rfl
        (fun _ _ => trivial) ?_ fun _ _ => trivial
      intro v
      refine ⟨rfl, by simp, ?_, by simp⟩
      rw [List.length_append, List.length_singleton]
      exact hlt
  | readTest n buf =>
      obtain ⟨rfl, rfl, hle, hne⟩ := hf
      refine .still _ h rfl ?_ ?_ ?_ <;> cases hempty : rb.empty
      · exact hempty
      · trivial
      · exact ⟨rfl, rfl, hle⟩
      · exact ⟨buf, rfl, rfl, hle⟩
      · trivial
      · rintro _ ⟨⟩
        exact ⟨fun _ => hne, fun _ => h.empty.1 hempty⟩
  | writeWait buf i =>
      refine .still _ h rfl ?_ ?_ ?_ <;> cases hfull : rb.full
      · exact hfull
      · rfl
      · exact hf
      · exact hf
      · trivial
      · trivial
  | writeLoop buf i =>
      cases hv : buf[i]? with
      | none =>
          refine .still (.goto (.writeMore buf i)) h ?_ trivial hf trivial
          simp only [Point.exec, hv]
      | some v =>
          refine .still (.goto (.writeAdd buf i v)) h ?_ hr ⟨hf.1, hf.2, hv⟩ trivial
          simp only [Point.exec, hv]
  | writeAdd buf i v =>
      obtain ⟨rfl, rfl, hv⟩ := hf
      refine .add h hr rfl (fun _ => trivial) ⟨rfl, ?_⟩ fun _ => trivial
      rw [List.take_add_one, hv]
      simp
  | writeTest buf i =>
      refine .still _ h rfl ?_ ?_ ?_ <;> cases hfull : rb.full
      · exact hfull
      · trivial
      · exact hf
      · exact hf
      · trivial
      · trivial
  | writeMore buf i =>
      obtain ⟨rfl, rfl⟩ := hf
      refine .still _ h rfl ?_ ?_ ?_ <;> by_cases hlt : i < buf.length
      · simp only [if_pos hlt]
        trivial
      · simp only [if_neg hlt]
        trivial
      · simp only [if_pos hlt]
        exact ⟨rfl, rfl⟩
      · simp only [if_neg hlt]
        refine ⟨?_, rfl⟩
        rw [List.take_of_length_le (by omega)]
      · simp only [if_pos hlt]
        trivial
      · simp only [if_neg hlt]
        trivial
  | unlock a => exact .still _ h rfl trivial hf ht

end

/-! ## The runs of the threads -/

/-- What the log says of the call that a thread is in, at each place of the thread. -/
def Pc.Follows (x : Option (Call × List Moved)) : Pc → Prop
  | .idle => x = none
  | .lock p => (∃ c ms, x = some (c, ms) ∧ p.Follows c ms) ∧ p.first = true
  | .inside p => ∃ c ms, x = some (c, ms) ∧ p.Follows c ms
  | .asleep p => (∃ c ms, x = some (c, ms) ∧ p.Follows c ms) ∧ p.first = true

/-- The invariant of the runs: the buffer holds what the log leaves in a queue, the thread at
a statement owns the mutex and finds the flags as it needs them and the queue as its answer will
say, every thread is where its call has come to, and the returns so far are right. -/
structure Inv (size : Nat) (s : State) (q : List UInt8) : Prop where
  holds : RbHolds size s.rb q
  run : Fifo.run size [] (ops s.log) = some q
  owner : ∀ t p, s.pc t = .inside p → s.owner = some t
  ready : ∀ t p, s.pc t = .inside p → p.Ready s.rb
  told : ∀ t p c ms, s.pc t = .inside p → inCall t s.log = some (c, ms) → p.Told size q c
  follows : ∀ t, (s.pc t).Follows (inCall t s.log)
  answers : Answers size s.log

variable {size : Nat} {s s' : State} {q : List UInt8}

/-- Only the owner of the mutex is at a statement. -/
theorem Inv.inside_unique (h : Inv size s q) {t u : Nat} {p p' : Point}
    (ht : s.pc t = .inside p) (hu : s.pc u = .inside p') : t = u :=
  Option.some.inj ((h.owner t p ht).symm.trans (h.owner u p' hu))

theorem Inv.start {buf : List UInt8} (h0 : 0 < size) (h1 : size ≤ 1024)
    (hbuf : buf.length = size) : Inv size (start buf size) [] where
  holds := RbHolds.init h0 h1 hbuf
  run := rfl
  owner t p hp := by cases hp
  ready t p hp := by cases hp
  told t p c ms hp := by cases hp
  follows t := rfl
  answers pre t a hpre := by
    have hnil := List.prefix_nil.1 hpre
    simp at hnil

/-- One thread moves to another place, and the others do not notice: the buffer, the queue and
the owner stay, or no other thread is at a statement. -/
theorem Inv.move (h : Inv size s q) {t : Nat} {x : Pc} {q' : List UInt8}
    (hpc : s'.pc = Function.update s.pc t x) (hb : RbHolds size s'.rb q')
    (hrun : Fifo.run size [] (ops s'.log) = some q')
    (hother : s'.rb = s.rb ∧ s'.owner = s.owner ∧ q' = q ∨ ∀ u p, u ≠ t → s.pc u ≠ .inside p)
    (hx : ∀ p, x = .inside p → s'.owner = some t ∧ p.Ready s'.rb ∧
      ∀ c ms, inCall t s'.log = some (c, ms) → p.Told size q' c)
    (hfollows : x.Follows (inCall t s'.log)) (hlog : ∀ u, u ≠ t → inCall u s'.log = inCall u s.log)
    (hans : Answers size s'.log) : Inv size s' q' := by
  have hinside : ∀ u p, s'.pc u = .inside p → s'.owner = some u ∧ p.Ready s'.rb ∧
      ∀ c ms, inCall u s'.log = some (c, ms) → p.Told size q' c := by
    intro u p hu
    rw [hpc] at hu
    rcases eq_or_ne u t with rfl | hne
    · rw [Function.update_self] at hu
      exact hx p hu
    · rw [Function.update_of_ne hne] at hu
      rcases hother with ⟨hrb, ho, rfl⟩ | hother
      · rw [hrb, ho, hlog u hne]
        exact ⟨h.owner u p hu, h.ready u p hu, fun c ms => h.told u p c ms hu⟩
      · exact absurd hu (hother u p hne)
  refine ⟨hb, hrun, fun u p hu => (hinside u p hu).1, fun u p hu => (hinside u p hu).2.1,
    fun u p c ms hu => (hinside u p hu).2.2 c ms, ?_, hans⟩
  intro u
  rw [hpc]
  rcases eq_or_ne u t with rfl | hne
  · rw [Function.update_self]
    exact hfollows
  · rw [Function.update_of_ne hne, hlog u hne]
    exact h.follows u

/-- A thread outside of the statements makes a call, or is woken. -/
theorem Inv.outside (h : Inv size s q) {t : Nat} {p : Point} {log : List Event}
    (hrun : ops log = ops s.log) (hr : p.first = true)
    (hfollows : ∃ c ms, inCall t log = some (c, ms) ∧ p.Follows c ms)
    (hlog : ∀ u, u ≠ t → inCall u log = inCall u s.log) (hans : Answers size log) :
    Inv size { s with pc := Function.update s.pc t (.lock p), log } q :=
  h.move rfl h.holds (by rw [← h.run, ← hrun]) (.inl ⟨rfl, rfl, rfl⟩) (by simp) ⟨hfollows, hr⟩
    hlog hans

/-- A statement keeps the invariant. -/
theorem Inv.exec (h : Inv size s q) {t : Nat} {p : Point} (ht : s.pc t = .inside p) :
    ∃ s' q', s.exec t p = .ok s' ∧ Inv size s' q' := by
  have hfollows := h.follows t
  rw [ht] at hfollows
  obtain ⟨c, ms, hc, hf⟩ := hfollows
  have hother : ∀ u p, u ≠ t → s.pc u ≠ .inside p :=
    fun u p hne hu => hne (h.inside_unique hu ht)
  obtain ⟨rb, ms', next, q', he, hb, hrun, hr, hn, htold⟩ :=
    Point.exec_good h.holds (h.ready t p ht) hf (h.told t p c ms ht hc)
  have hops : Fifo.run size [] (ops (s.log ++ ms'.map (.moved t))) = some q' := by
    rw [ops_append, ops_moved, Fifo.run_then h.run, hrun]
  have hlog : ∀ u, u ≠ t → inCall u (s.log ++ ms'.map (.moved t)) = inCall u s.log :=
    fun u hne => inCall_moved_ne hne.symm
  have hcall : inCall t (s.log ++ ms'.map (.moved t)) = some (c, ms ++ ms') := inCall_moved hc
  have hans : Answers size (s.log ++ ms'.map (.moved t)) := h.answers.moved
  rw [State.exec, he]
  cases next with
  | goto p' =>
      refine ⟨_, q', rfl, h.move rfl hb hops (.inr hother) ?_ ⟨c, _, hcall, hn⟩ hlog hans⟩
      intro p'' hp
      cases hp
      refine ⟨h.owner t p ht, hr, fun c' ns hc' => ?_⟩
      rw [show inCall t (s.log ++ ms'.map (.moved t)) = _ from hcall] at hc'
      cases hc'
      exact htold
  | wait p' =>
      exact ⟨_, q', rfl, h.move rfl hb hops (.inr hother) (by simp) ⟨⟨c, _, hcall, hn⟩, hr⟩ hlog
        hans⟩
  | ret a =>
      refine ⟨_, q', rfl, h.move (x := .idle) rfl hb ?_ (.inr hother) (by simp) ?_ ?_
        (hans.ret hcall hn hops htold)⟩
      · rw [ops_append, Fifo.run_then hops]
        rfl
      · show inCall t (_ ++ [Event.ret t a]) = none
        rw [inCall_append]
        simp [track]
      · intro u hne
        rw [← hlog u hne, inCall_append]
        simp [track, hne.symm]

/-- **Every step keeps the invariant**, and none is refused but because it cannot be made
yet. -/
theorem Inv.step (h : Inv size s q) (a : Action) :
    (∃ s' q', step s a = .ok s' ∧ Inv size s' q') ∨ Usart.step s a = .error .notNow := by
  cases a with
  | call t c =>
      cases ht : s.pc t with
      | idle =>
          refine .inl ⟨_, q, by rw [Usart.step, ht], h.outside ?_ c.start_first ?_ ?_ ?_⟩
          · rw [ops_append]
            exact List.append_nil _
          · refine ⟨c, [], ?_, c.start_follows⟩
            rw [inCall_append]
            simp [track]
          · intro u hne
            rw [inCall_append]
            simp [track, hne.symm]
          · exact h.answers.concat (by simp)
      | lock p => exact .inr (by rw [Usart.step, ht])
      | inside p => exact .inr (by rw [Usart.step, ht])
      | asleep p => exact .inr (by rw [Usart.step, ht])
  | run t =>
      have hfollows := h.follows t
      cases ht : s.pc t with
      | idle => exact .inr (by rw [Usart.step, ht])
      | lock p =>
          rw [ht] at hfollows
          cases ho : s.owner with
          | none =>
              refine .inl ⟨_, q, by rw [Usart.step, ht, ho], ?_⟩
              obtain ⟨⟨c, ms, hc, hf⟩, hfirst⟩ := hfollows
              refine h.move rfl h.holds h.run (.inr ?_) ?_ ⟨c, ms, hc, hf⟩ (fun _ _ => rfl)
                h.answers
              · intro u p' _ hu
                have hown := h.owner u p' hu
                rw [ho] at hown
                cases hown
              · intro p' hp
                cases hp
                exact ⟨rfl, Point.ready_of_first hfirst, fun _ _ _ => Point.told_of_first hfirst⟩
          | some u => exact .inr (by rw [Usart.step, ht, ho])
      | inside p =>
          obtain ⟨s', q', he, hi⟩ := h.exec ht
          exact .inl ⟨s', q', by rw [Usart.step, ht]; exact he, hi⟩
      | asleep p =>
          rw [ht] at hfollows
          exact .inl ⟨_, q, by rw [Usart.step, ht],
            h.outside rfl hfollows.2 hfollows.1 (fun _ _ => rfl) h.answers⟩

theorem inv_of_reach {buf : List UInt8} (h0 : 0 < size) (h1 : size ≤ 1024)
    (hbuf : buf.length = size) (h : Reach Usart.step anyEvent (start buf size) s) :
    ∃ q, Inv size s q := by
  refine h.invariant (P := fun s => ∃ q, Inv size s q) ⟨[], .start h0 h1 hbuf⟩ ?_
  rintro s a s' ⟨q, hi⟩ _ hs
  rcases hi.step a with ⟨s₁, q', h1, hi'⟩ | he
  · rw [hs] at h1
    cases h1
    exact ⟨q', hi'⟩
  · rw [hs] at he
    cases he

/-! ## The refinement -/

/-- The statements that call `rb_add`. -/
def Point.adds : Point → Bool
  | .putAdd _ => true
  | .writeAdd _ _ _ => true
  | _ => false

/-- The statements that call `rb_del`. -/
def Point.dels : Point → Bool
  | .getDel => true
  | .flushDel => true
  | .readDel _ _ => true
  | _ => false

/-- What a call may have moved before it returns. -/
def Serving : Call → List Moved → Prop
  | .rbLlPut v, ms => ms <+: [.put v]
  | .rbLlGet, ms => ms = [] ∨ ∃ v, ms = [.take v]
  | .rbLlFlush, ms => ∃ vs : List UInt8, ms = vs.map .drop
  | .rbRead n, ms => ∃ buf : List UInt8, ms = buf.map .take ∧ buf.length ≤ n
  | .rbWrite buf, ms => ms <+: buf.map .put

theorem Served.serving {c : Call} {ms : List Moved} {a : Answer} (h : Served c ms a) :
    Serving c ms := by
  cases c with
  | rbLlPut v =>
      rcases h with ⟨rfl, -⟩ | ⟨rfl, -⟩
      · exact List.prefix_refl _
      · exact List.nil_prefix
  | rbLlGet =>
      rcases h with ⟨v, rfl, -⟩ | ⟨rfl, -⟩
      · exact .inr ⟨v, rfl⟩
      · exact .inl rfl
  | rbLlFlush => exact h.1
  | rbRead n =>
      obtain ⟨buf, hms, -, hle⟩ := h
      exact ⟨buf, hms, hle⟩
  | rbWrite buf => exact h.1 ▸ List.prefix_refl _

theorem Point.Follows.serving {c : Call} {ms : List Moved} {p : Point} (h : p.Follows c ms) :
    Serving c ms := by
  have hwrite : ∀ (buf : List UInt8) (i : Nat),
      (buf.take i).map Moved.put <+: buf.map Moved.put :=
    fun buf i => (List.take_prefix i buf).map _
  cases p with
  | unlock a => exact Served.serving h
  | putTest v | putAdd v =>
      obtain ⟨rfl, rfl⟩ := h
      exact List.nil_prefix
  | getTest | getDel =>
      obtain ⟨rfl, rfl⟩ := h
      exact .inl rfl
  | flushTest | flushDel =>
      obtain ⟨rfl, hvs⟩ := h
      exact hvs
  | readWait n =>
      obtain ⟨rfl, rfl⟩ := h
      exact ⟨[], rfl, Nat.zero_le n⟩
  | readLoop n buf =>
      obtain ⟨rfl, hms, hle⟩ := h
      exact ⟨buf, hms, hle⟩
  | readTest n buf =>
      obtain ⟨rfl, hms, hle, -⟩ := h
      exact ⟨buf, hms, hle⟩
  | readDel n buf =>
      obtain ⟨rfl, hms, hlt⟩ := h
      exact ⟨buf, hms, hlt.le⟩
  | writeWait buf i | writeLoop buf i | writeTest buf i | writeMore buf i =>
      obtain ⟨rfl, rfl⟩ := h
      exact hwrite buf i
  | writeAdd buf i v =>
      obtain ⟨rfl, rfl, -⟩ := h
      exact hwrite buf i

/-- The state is one of a bounded queue that holds `q`. -/
structure RefinesFifo (size : Nat) (s : State) (q : List UInt8) : Prop where
  /-- The bytes moved so far are those of a queue for `size` bytes, which holds `q` now. -/
  run : Fifo.run size [] (ops s.log) = some q
  full : s.rb.full = true ↔ q.length = size
  empty : s.rb.empty = true ↔ q = []
  /-- The bytes stored are in the array, from `head` on. -/
  stored : Ring.window s.rb.buf s.rb.head.toNat q.length = q
  add : ∀ t p, s.pc t = .inside p → p.adds = true → s.rb.full = false ∧ s.rb.tail.toNat < size
  del : ∀ t p, s.pc t = .inside p → p.dels = true → s.rb.empty = false ∧ s.rb.head.toNat < size
  bounds : ∀ a, step s a ≠ .error .outOfBounds
  /-- What has been accepted is what has been removed and what is left, in order. -/
  conserved : accepted s.log = (removed s.log).map Prod.fst ++ q
  serving : ∀ t c ms, inCall t s.log = some (c, ms) → Serving c ms
  /-- Each call returns what it has done, and says right how it found the queue. -/
  answers : Answers size s.log

theorem Inv.refines (h : Inv size s q) : RefinesFifo size s q where
  run := h.run
  full := h.holds.full
  empty := h.holds.empty
  stored := h.holds.window
  add t p hp hadd := by
    have hr := h.ready t p hp
    refine ⟨?_, h.holds.tail_lt⟩
    cases p <;> first | exact hr | cases hadd
  del t p hp hdel := by
    have hr := h.ready t p hp
    refine ⟨?_, h.holds.head⟩
    cases p <;> first | exact hr | cases hdel
  bounds a he := by
    rcases h.step a with ⟨s', q', hs, -⟩ | hs
    · rw [hs] at he
      cases he
    · rw [hs] at he
      cases he
  conserved := by
    have hq := Fifo.puts_eq h.run
    rwa [puts_ops, takes_ops, List.nil_append] at hq
  serving t c ms hc := by
    have hf := h.follows t
    rw [hc] at hf
    cases hpc : s.pc t with
    | idle =>
        rw [hpc] at hf
        cases hf
    | lock p | asleep p =>
        rw [hpc] at hf
        obtain ⟨⟨c', ms', heq, hf⟩, -⟩ := hf
        cases heq
        exact hf.serving
    | inside p =>
        rw [hpc] at hf
        obtain ⟨c', ms', heq, hf⟩ := hf
        cases heq
        exact hf.serving
  answers := h.answers

/-! ## What one thread adds to the log -/

/-- A call adds itself to the log. -/
theorem step_call {t : Nat} {c : Call} (hs : step s (.call t c) = .ok s') :
    s.pc t = .idle ∧ s'.log = s.log ++ [.call t c] ∧
      s'.pc = Function.update s.pc t (.lock c.start) := by
  rw [Usart.step] at hs
  split at hs
  · rename_i ht
    cases hs
    exact ⟨ht, rfl, rfl⟩
  · cases hs

/-- **A thread in a call** moves bytes, as the call does, and goes on or returns. -/
theorem Inv.run_log (h : Inv size s q) {t : Nat} (hs : Usart.step s (.run t) = .ok s') :
    ∃ c ns ms, inCall t s.log = some (c, ns) ∧
      (s'.pc t ≠ .idle ∧ s'.log = s.log ++ ms.map (.moved t) ∧ Serving c (ns ++ ms) ∨
        s'.pc t = .idle ∧ ∃ a, s'.log = s.log ++ ms.map (.moved t) ++ [.ret t a] ∧
          Served c (ns ++ ms) a) := by
  have hfollows := h.follows t
  rw [Usart.step] at hs
  split at hs
  · cases hs
  · rename_i p ht
    rw [ht] at hfollows
    obtain ⟨⟨c, ns, hc, hf⟩, -⟩ := hfollows
    split at hs
    · cases hs
      refine ⟨c, ns, [], hc, .inl ⟨by simp, by simp, ?_⟩⟩
      rw [List.append_nil]
      exact hf.serving
    · cases hs
  · rename_i p ht
    rw [ht] at hfollows
    obtain ⟨c, ns, hc, hf⟩ := hfollows
    obtain ⟨rb, ms, next, q', he, -, -, -, hn, -⟩ :=
      Point.exec_good h.holds (h.ready t p ht) hf (h.told t p c ns ht hc)
    rw [State.exec, he] at hs
    cases next with
    | goto p' =>
        cases hs
        exact ⟨c, ns, ms, hc, .inl ⟨by simp, rfl, Point.Follows.serving hn⟩⟩
    | wait p' =>
        cases hs
        exact ⟨c, ns, ms, hc, .inl ⟨by simp, rfl, Point.Follows.serving hn⟩⟩
    | ret a =>
        cases hs
        exact ⟨c, ns, ms, hc, .inr ⟨by simp, a, rfl, hn⟩⟩
  · rename_i p ht
    rw [ht] at hfollows
    obtain ⟨⟨c, ns, hc, hf⟩, -⟩ := hfollows
    cases hs
    refine ⟨c, ns, [], hc, .inl ⟨by simp, by simp, ?_⟩⟩
    rw [List.append_nil]
    exact hf.serving

/-- **The ring buffer refines a bounded queue.**  In every run of any threads, over a buffer of
1 to 1024 bytes: the bytes moved are those of a queue of that size, the flags say when it is
full and when it is empty, a thread about to move a byte finds room or a byte and an index
inside the array, no step leaves the array, what was accepted is what was removed and what is
left, in order, only `rb_ll_flush` drops bytes, and each call returns what it has done: a byte is
refused when the queue is full only, none is there when it is empty only, a flush leaves it empty,
and `rb_read` does not come back without a byte. -/
theorem ring_buffer_is_fifo {buf : List UInt8} (h0 : 1 ≤ size) (h1 : size ≤ 1024)
    (hbuf : buf.length = size) (h : Reach Usart.step anyEvent (start buf size) s) :
    ∃ q, RefinesFifo size s q := by
  obtain ⟨q, hi⟩ := inv_of_reach h0 h1 hbuf h
  exact ⟨q, hi.refines⟩

/-- A buffer of one byte that a second thread empties while the first one waits in `rb_write`. -/
theorem ring_buffer_one : ∃ s q, s.pc 0 = .asleep (.writeWait [1, 2] 1) ∧ s.rb.empty = true ∧
    RefinesFifo 1 s q := by
  have hrun : runTest Usart.step (fun _ _ => true)
      (fun s => decide (s.pc 0 = .asleep (.writeWait [1, 2] 1) ∧ s.rb.empty = true))
      (start [0] 1) ([.call 0 (.rbWrite [1, 2])] ++ List.replicate 7 (.run 0) ++
        [.call 1 .rbLlGet] ++ List.replicate 4 (.run 1)) = true := by
    decide +kernel
  obtain ⟨s, hs, hp⟩ := reach_any_of_runTest hrun
  rw [decide_eq_true_eq] at hp
  obtain ⟨q, hq⟩ := ring_buffer_is_fifo le_rfl (by decide) rfl hs
  exact ⟨s, q, hp.1, hp.2, hq⟩

end Chopstx.Usart
