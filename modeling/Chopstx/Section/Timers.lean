import Chopstx.Section.Deadline
import Chopstx.Section.Api

/-!
# The list of deadlines

`q_timer` and the counter stand for a list: the threads with the times at which they are due
(`timers`).  In a section in which no time passes, `chx_timer_insert` inserts into this
list, `chx_timer_dequeue` removes from it and says when the thread would have been due, and
`chx_timer_expired` splits off what is due now (`TimersRefine`).

* `timers` - the list, and `AtStill` the points of a section in which no time passes.
* `TimersRefine`, `TimerInv.refine` - the operations on `q_timer` are those on the list.
* `AtStill.timersRefine` - the same at every point of such a section, where a thread may be on its
  way from one queue to another.
-/

namespace Chopstx

open Kernel DeltaQueue PrioQueue

namespace Kernel

/-- The threads of `q_timer` with the times at which they are due. -/
def timers (k : Kernel) : List (Pq × Nat) :=
  k.dues.map fun e => (e.1, k.systick.now + e.2)

/-- **What the operations on `q_timer` do to the list of deadlines.** -/
structure TimersRefine (cfg : Config) (k : Kernel) : Prop where
  sorted : k.timers.Pairwise fun e e' => e.2 ≤ e'.2
  /-- The request goes behind those that are due at the same time. -/
  insert : ∀ t usec, .thread t ∉ k.queue .timer → 0 < usec → usec ≤ maxUsecForTimer cfg →
    (k.chxTimerInsert cfg t usec).timers =
      insertBefore (fun e => decide (k.systick.now + usec * cfg.mhz < e.2))
        (.thread t, k.systick.now + usec * cfg.mhz) k.timers
  dequeue : ∀ t due, (.thread t, due) ∈ k.timers → ∃ k' n,
    k.chxTimerDequeue t = .ok (k', n) ∧ k.systick.now + n = due ∧
      k'.timers = k.timers.filter fun e => decide (e.1 ≠ .thread t)
  expire : k.systick.pending = true →
    let k' := (k.setSystick { k.systick with pending := false }).chxTimerExpired
    k'.timers = k.timers.filter (fun e => decide (k.systick.now < e.2)) ∧
      (∀ t, (.thread t, k.systick.now) ∈ k.timers → (k'.thread t).state = .ready) ∧
      (∀ t, (.thread t, k.systick.now) ∉ k.timers → k'.thread t = k.thread t) ∧
      (k'.timers ≠ [] → 0 < k'.systick.count ∧ k'.systick.pending = false)
  /-- The value of the last entry is not 0, and no deadline depends on it. -/
  dummy : ∀ p, (k.queue .timer).getLast? = some p →
    k.pqV p ≠ 0 ∧ ∀ n, (k.setV n p).timers = k.timers

variable {cfg : Config} {k k₁ k' : Kernel} {t u : Tid} {n usec : Nat}

theorem mem_timers {p : Pq} {due : Nat} :
    (p, due) ∈ k.timers ↔ ∃ d, (p, d) ∈ k.dues ∧ k.systick.now + d = due := by
  rw [timers, List.mem_map]
  constructor
  · rintro ⟨⟨p, d⟩, hd, he⟩
    cases he
    exact ⟨d, hd, rfl⟩
  · rintro ⟨d, hd, rfl⟩
    exact ⟨(p, d), hd, rfl⟩

theorem timers_sorted : k.timers.Pairwise fun e e' => e.2 ≤ e'.2 :=
  List.pairwise_map.2 (deadlines_sorted.imp fun h => Nat.add_le_add_left h _)

/-! ## No time passes -/

theorem elapse_of_nil {s : Systick} (h : s.lags = []) : s.elapse = s := by
  rw [Systick.elapse, h]

section Still

variable (hl : k.systick.lags = []) (hT : TimerInv k)

include hl hT

theorem timers_insert (ht : .thread t ∉ k.queue .timer) (hpos : 0 < usec)
    (hle : usec ≤ maxUsecForTimer cfg) : (k.chxTimerInsert cfg t usec).timers =
      insertBefore (fun e => decide (k.systick.now + usec * cfg.mhz < e.2))
        (.thread t, k.systick.now + usec * cfg.mhz) k.timers := by
  have hticks : 0 < usecToTicks cfg usec ∧ usecToTicks cfg usec ≤ 16777215 :=
    usecToTicks_le hpos hle
  have hmul := usecToTicks_eq hle
  have hnow : (k.chxTimerInsert cfg t usec).systick.now = k.systick.now := by
    rw [chxTimerInsert_systick hT]
    simp only [insertSystick, elapse_of_nil hl]
    split <;> rfl
  rw [timers, dues, chxTimerInsert_deadlines hT ht hticks.2, elapse_of_nil hl, hnow, hmul, timers,
    insertBefore_map (fun e : Pq × Nat => (e.1, k.systick.now + e.2)) (n := (.thread t, _))]
  simp only [Nat.add_lt_add_iff_left]
  rfl

theorem timers_dequeue {due : Nat} (hmem : (.thread t, due) ∈ k.timers) : ∃ k' n,
    k.chxTimerDequeue t = .ok (k', n) ∧ k.systick.now + n = due ∧
      k'.timers = k.timers.filter fun e => decide (e.1 ≠ .thread t) := by
  obtain ⟨d, hd, rfl⟩ := mem_timers.1 hmem
  obtain ⟨front, back, hq⟩ := List.append_of_mem (DueIn.mem hd)
  have hleft := dueIn_left hq
  have hdues := dequeued_dues hT hq
  have hself : k.setSystick k.systick = k := rfl
  rw [elapse_of_nil hl, hself] at hleft hdues
  refine ⟨_, _, chxTimerDequeue_of_append hT hq, ?_, ?_⟩
  · rw [elapse_of_nil hl, deadline_unique hT.nodup hleft hd]
  · have hnow : (k.dequeued t front back).systick.now = k.systick.now := by
      have hsys : (k.dequeued t front back).systick = k.dequeueSystick t front back := by
        simp [dequeued]
      rw [hsys, dequeueSystick]
      simp only [elapse_of_nil hl]
      split <;> rfl
    rw [timers, hdues, hnow, timers, List.filter_map]
    rfl

end Still

/-! ## The counter has run down -/

section Expire

variable (hT : TimerInv k)

/-- When the count has run down, the entries that expire are those that are due now. -/
theorem dues_split (hc : k.queue .timer ≠ [] → k.systick.count = 0) :
    k.dues = k.expired.map (fun p => (p, 0)) ++ deadlines k.pqV k.remaining.2 k.remaining.1 := by
  rw [dues, expired, remaining]
  cases hq : k.queue .timer with
  | nil => rfl
  | cons p rest =>
      rw [hc (by simp [hq]), deadlines_cons, Nat.zero_add, popDue_spec]
      rfl

theorem mem_expired (hc : k.queue .timer ≠ [] → k.systick.count = 0) :
    (.thread t, k.systick.now) ∈ k.timers ↔ .thread t ∈ k.expired := by
  rw [mem_timers, dues_split hc]
  constructor
  · rintro ⟨d, hd, hnow⟩
    obtain rfl : d = 0 := by omega
    rcases List.mem_append.1 hd with hd | hd
    · obtain ⟨p, hp, he⟩ := List.mem_map.1 hd
      cases he
      exact hp
    · have hpos := remaining_pos (List.ne_nil_of_mem (fst_mem_of_mem_deadlines hd))
      exact absurd (le_of_mem_deadlines hd) (not_le.2 hpos)
  · exact fun h => ⟨0, List.mem_append_left _ (List.mem_map.2 ⟨_, h, rfl⟩), rfl⟩

include hT

theorem chxTimerExpired_thread : (k.setSystick { k.systick with
    pending := false }).chxTimerExpired.thread u =
      if .thread u ∈ k.expired then
        { k.thread u with v := 0, state := .ready, parent := some .ready }
      else k.thread u := by
  set k₀ := k.setSystick { k.systick with pending := false } with hk₀
  have hexp : k₀.expired = k.expired := by
    simp only [expired, hk₀, pqV_setSystick]
    rfl
  obtain ⟨prio, heq, -⟩ := chxTimerExpired_eq (k := k₀) hT.threads hT.nodup
  obtain ⟨b, hb, -⟩ := chxRequestPreemption_eq
    (k := (k₀.expired.foldl expireEntry k₀).setSystick k₀.rearm) prio
  rw [heq, hb, hexp]
  exact foldl_expireEntry_thread (expired_threads hT.threads)

theorem timers_expire (hl : k.systick.lags = [])
    (hc : k.queue .timer ≠ [] → k.systick.count = 0) :
    let k' := (k.setSystick { k.systick with pending := false }).chxTimerExpired
    k'.timers = k.timers.filter (fun e => decide (k.systick.now < e.2)) ∧
      (k'.timers ≠ [] → 0 < k'.systick.count ∧ k'.systick.pending = false) := by
  set k₀ := k.setSystick { k.systick with pending := false } with hk₀
  have hv : k₀.pqV = k.pqV := pqV_setSystick
  have hrem : k₀.remaining = k.remaining := by
    simp only [remaining, hv]
    rfl
  have hl₀ : k₀.systick.lags = [] := hl
  obtain ⟨hsys, hque, hdues⟩ := chxTimerExpired_dues (k := k₀) hT.threads hT.nodup
  rw [hrem] at hque hdues
  rw [hv] at hdues
  have hrearm : k₀.rearm.now = k.systick.now ∧ (k.remaining.1 ≠ [] →
      k₀.rearm.count = k.remaining.2 ∧ k₀.rearm.pending = false) := by
    rw [rearm, hrem, elapse_of_nil hl₀]
    split
    · rename_i hnil
      exact ⟨rfl, fun hne => absurd hnil hne⟩
    · exact ⟨rfl, fun hne => ⟨remaining_mod hT hne, rfl⟩⟩
  have hkept : deadlines k.pqV k₀.rearm.count k.remaining.1 =
      deadlines k.pqV k.remaining.2 k.remaining.1 := by
    by_cases hne : k.remaining.1 = []
    · rw [hne]
      rfl
    · rw [(hrearm.2 hne).1]
  refine ⟨?_, fun hne => ?_⟩
  · rw [timers, hdues, hsys, hrearm.1, hkept, timers, dues_split hc, List.map_append,
      List.filter_append, List.filter_eq_nil_iff.2 ?_, List.nil_append,
      List.filter_eq_self.2 ?_]
    · intro e he
      obtain ⟨d, hd, rfl⟩ := List.mem_map.1 he
      have hpos := remaining_pos (List.ne_nil_of_mem (fst_mem_of_mem_deadlines hd))
      have hle := le_of_mem_deadlines hd
      simp only [decide_eq_true_eq]
      omega
    · intro e he
      obtain ⟨d, hd, rfl⟩ := List.mem_map.1 he
      obtain ⟨p, -, rfl⟩ := List.mem_map.1 hd
      simp
  · have hne' : k.remaining.1 ≠ [] := by
      intro hnil
      rw [timers, hdues, hnil] at hne
      exact hne rfl
    rw [hsys, (hrearm.2 hne').1, (hrearm.2 hne').2]
    exact ⟨remaining_pos hne', rfl⟩

theorem timers_dummy {p : Pq} (hp : (k.queue .timer).getLast? = some p) :
    (k.setV n p).timers = k.timers := by
  obtain ⟨t, rfl⟩ := hT.threads p (List.mem_of_getLast? hp)
  have hnd := hT.nodup
  refine congrArg (List.map _) (deadlines_congr fun a ha => ?_)
  have hne : a ≠ .thread t := by
    rintro rfl
    exact getLast?_ne_of_mem_dropLast hnd ha hp
  obtain ⟨u, rfl⟩ := hT.threads a (List.mem_of_mem_dropLast ha)
  have hut : u ≠ t := by
    rintro rfl
    exact hne rfl
  simp only [pqV_thread, setV_thread]
  exact Function.update_of_ne hut ..

end Expire

/-- **The operations on `q_timer` refine those on the list of deadlines.** -/
theorem TimerInv.refine (hT : TimerInv k) (hl : k.systick.lags = []) (hs : k.Spent) :
    TimersRefine cfg k where
  sorted := timers_sorted
  insert _ _ ht hpos hle := timers_insert hl hT ht hpos hle
  dequeue _ _ hmem := timers_dequeue hl hT hmem
  expire hp := by
    have hc : k.queue .timer ≠ [] → k.systick.count = 0 := hs hp
    obtain ⟨htimers, harmed⟩ := timers_expire hT hl hc
    refine ⟨htimers, fun t ht => ?_, fun t ht => ?_, harmed⟩
    · rw [chxTimerExpired_thread hT, if_pos ((mem_expired hc).1 ht)]
    · rw [chxTimerExpired_thread hT, if_neg fun h => ht ((mem_expired hc).2 h)]
  dummy p hp := ⟨hT.lastV p hp, fun _ => timers_dummy hT hp⟩

end Kernel

/-! ## Sections in which no time passes -/

variable {cfg : Config} {k k₁ k' : Kernel} {off off' : Option Tid} {op : Op} {P : Op → Prop}

/-- The counter runs by itself, or its exception is taken. -/
def SameClock (k k' : Kernel) : Prop :=
  k'.systick.lags = k.systick.lags ∧ k'.systick.pending = k.systick.pending

theorem insert_sameClock {t : Tid} {usec : Nat} (hT : TimerInv k) (hl : k.systick.lags = []) :
    SameClock k (k.chxTimerInsert cfg t usec) := by
  rw [SameClock, chxTimerInsert_systick hT]
  simp only [insertSystick, elapse_of_nil hl]
  split <;> exact ⟨rfl, rfl⟩

theorem dequeued_sameClock {t : Tid} {front back : List Pq} (hl : k.systick.lags = []) :
    SameClock k (k.dequeued t front back) := by
  have hsys : (k.dequeued t front back).systick = k.dequeueSystick t front back := by
    simp [dequeued]
  rw [SameClock, hsys, dequeueSystick]
  simp only [elapse_of_nil hl]
  split <;> exact ⟨rfl, rfl⟩

/-- In a section in which no time passes the exception does not become pending. -/
theorem Move.still (hm : Move cfg op (off, k) (off', k')) (h : KernelInv off k)
    (hl : k.systick.lags = []) (hpass : op ≠ .pass)
    (hp : op = .expire ∨ k.systick.pending = false) :
    k'.systick.lags = [] ∧ k'.systick.pending = false := by
  have hsame : op ≠ .expire → SameClock k k' →
      k'.systick.lags = [] ∧ k'.systick.pending = false := by
    intro hne hs
    exact ⟨hs.1.trans hl, hs.2.trans (hp.resolve_left hne)⟩
  cases hm with
  | pass => exact absurd rfl hpass
  | expire hp hr =>
      set k₀ := k.setSystick { k.systick with pending := false }
      have hl₀ : k₀.systick.lags = [] := hl
      obtain ⟨hsys, -⟩ := chxTimerExpired_dues (k := k₀) h.timer.threads h.timer.nodup
      rw [hsys, rearm, elapse_of_nil hl₀]
      split <;> exact ⟨hl, rfl⟩
  | wakeTimed hs hd hw =>
      obtain ⟨front, back, hq, rfl, -⟩ := chxTimerDequeue_ok h.timer hd
      exact hsame (by simp) (dequeued_sameClock hl)
  | slice hr hs he =>
      refine hsame (by simp) ?_
      rcases endSlice_ok h.timer he with rfl | ⟨front, back, -, hq, rfl⟩
      · exact ⟨rfl, rfl⟩
      · exact dequeued_sameClock hl
  | sleep hs hst hpos hle => exact hsame (by simp) (insert_sameClock h.timer_modThread hl)
  | switch hs =>
      refine hsame (by simp) ?_
      rcases switchThread_cases cfg h.readyThreads with ⟨-, heq⟩ | ⟨t, rest, hq, heq⟩
      · rw [heq]
        exact ⟨rfl, rfl⟩
      · rw [heq]
        have hm : .thread t ∈ k.queue .ready := by
          rw [hq]
          exact List.mem_cons_self ..
        rw [SameClock, sliced]
        split
        · exact insert_sameClock (h.popped_timer hm) hl
        · exact ⟨rfl, rfl⟩
  | _ => exact hsame (by simp) ⟨rfl, rfl⟩

/-- The point of a section in which no time passes. -/
structure AtStill (P : Op → Prop) (off : Option Tid) (k : Kernel) : Prop where
  kernel : KernelInv off k
  lags : k.systick.lags = []
  spent : k.Spent
  /-- The exception is not pending, or this is the section of its handler. -/
  handler : (∀ op, P op → op = .expire) ∨ k.systick.pending = false

theorem Path.atStill (hp : Path cfg P (off, k) (off', k')) (hpass : ∀ op, P op → op ≠ .pass)
    (h : AtStill P off k) : AtStill P off' k' := by
  refine hp.keeps (I := fun a => AtStill P a.1 a.2) ?_ h
  rintro op ⟨off, k⟩ ⟨off', k'⟩ hop hm ⟨hk, hl, -, hexp⟩
  obtain ⟨hl', hp'⟩ := hm.still hk hl (hpass op hop) (hexp.imp (fun he => he op hop) id)
  refine ⟨hk.move hm, hl', fun hp => ?_, .inr hp'⟩
  rw [hp'] at hp
  cases hp

/-- **At a point of a section in which no time passes the operations refine those on the list
of deadlines**, with records changed of threads that are not in `q_timer`. -/
theorem AtStill.timersRefine (h : AtStill P off k) (hsame : SameTimer k k₁) :
    TimersRefine cfg k₁ := by
  refine (h.kernel.timer.congr hsame.queue hsame.value ?_ ?_).refine ?_ (hsame.spent h.spent)
  · rw [hsame.systick]
  · rw [hsame.systick]
  · rw [hsame.systick]
    exact h.lags

end Chopstx
