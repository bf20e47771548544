import Chopstx.Section.Deadline
import Chopstx.Property.Wake

/-!
# The time that is left of a sleep

`chx_snooze` sleeps for as long as the counter allows at most, and takes the time that has
passed off `*usec_p`.  The ticks that a waker finds left are no more than those that the
thread was inserted with, whatever became of `q_timer` in between.  So `*usec_p` does not
underflow, and the loop of `chopstx_poll` comes to its end.

* `Asked`, `Accounts` - what a sleep asks for, and its account when `chx_sched` returns.
* `Frame.Word`, `Next.word` - the times on the stack are words.
* `NapOk`, `Next.nap` - a thread in `chx_snooze` sleeps for what it has asked for.
* `ReturnsStored` - the condition: `chx_sched` returns what the waker has stored.
* `SnoozeInv`, `SnoozeInv.step` - the invariant of every run.
* `Looped`, `LoopAt`, `LoopAt.step` - the loop of `chopstx_poll` after some sleeps.
* `snooze_accounts` - the result about runs, and `snooze_accounts_two` a poll of two microseconds.
-/

namespace Chopstx

open Kernel Transition

variable {cfg : Config} {k k' : Kernel} {t u : Tid} {f g : Frame} {rest fs : List Frame}
  {ret r : Int} {ctx : Ctx} {s s' : State} {e : Event} {usec usec0 : Nat}

/-! ## The account of a sleep -/

/-- The frames to which `chx_sched` returns in `chx_snooze`: `*usec_p`, and the microseconds
of this sleep. -/
def Frame.nap : Frame → Option (Nat × Nat)
  | .usecWake usec usec0 => some (usec, usec0)
  | .poll P (.snoozeWake usec0) => some (P.usec.getD 0, usec0)
  | _ => none

/-- The microseconds of a sleep. -/
structure Asked (cfg : Config) (usec usec0 : Nat) : Prop where
  word : usec < 4294967296
  pos : 0 < usec
  eq : usec0 = min usec (maxUsecForTimer cfg)

/-- **The account of a sleep** that `chx_sched` ends with `r`: unless the thread was canceled,
the time slept is taken off `*usec_p`. -/
structure Accounts (cfg : Config) (usec usec0 : Nat) (r : Int) : Prop where
  asked : Asked cfg usec usec0
  /-- `usec0 - r / MHZ` is no less than 0. -/
  left : 0 ≤ r → r.toNat / cfg.mhz ≤ usec0
  spent : 0 ≤ r → (snoozeResult cfg usec usec0 r).2 + (usec0 - r.toNat / cfg.mhz) = usec
  canceled : r < 0 → snoozeResult cfg usec usec0 r = (r, usec)

theorem Asked.le (h : Asked cfg usec usec0) : usec0 ≤ usec := by
  rw [h.eq]
  exact Nat.min_le_left ..

theorem Asked.usec0_pos (h : Asked cfg usec usec0) : 0 < usec0 := by
  rw [h.eq]
  exact Nat.lt_min.2 ⟨h.pos, maxUsecForTimer_pos⟩

theorem sub32_of_le {a b : Nat} (ha : a < 4294967296) (hb : b ≤ a) : sub32 a b = a - b := by
  rw [sub32]
  omega

/-- What is left is no more than what was asked for. -/
theorem Asked.accounts (h : Asked cfg usec usec0) (hr : r ≤ (usec0 * cfg.mhz : Nat)) :
    Accounts cfg usec usec0 r := by
  have hle := h.le
  have hword := h.word
  have hleft : r.toNat / cfg.mhz ≤ usec0 :=
    Nat.div_le_of_le_mul (by rw [Nat.mul_comm]; exact Int.toNat_le.2 hr)
  refine ⟨h, fun _ => hleft, fun hr₀ => ?_, fun hr₀ => ?_⟩
  · rw [snoozeResult]
    split
    · rename_i hz
      rw [sub32_of_le hword hle, hz]
      simp only [Int.toNat_zero, Nat.zero_div]
      omega
    · rw [if_pos (by omega)]
      generalize r.toNat / cfg.mhz = n at hleft ⊢
      have hsub : sub32 usec0 n = usec0 - n := sub32_of_le (hle.trans_lt hword) hleft
      rw [hsub, sub32_of_le hword ((Nat.sub_le _ _).trans hle)]
      omega
  · rw [snoozeResult, if_neg (by omega), if_neg (by omega)]

/-! ## What a sleeping thread has asked for -/

/-- The times in a frame are words. -/
def Frame.Word : Frame → Prop
  | .usecWait usec | .usecSnooze usec | .usecWake usec _ => usec < 4294967296
  | .pollCall usec _ => ∀ n, usec = some n → n < 4294967296
  | .poll P _ => ∀ n, P.usec = some n → n < 4294967296
  | _ => True

/-- The thread that sleeps in `chx_snooze` wakes within its time; the value returned to it is
no more than that. -/
def NapOk (cfg : Config) (k : Kernel) (t : Tid) (ret : Int) : List Frame → Prop
  | .schedRet :: g :: _ => ∀ usec usec0, g.nap = some (usec, usec0) →
      Asked cfg usec usec0 ∧ WakesWithin k t (usec0 * cfg.mhz)
  | g :: _ => ∀ usec usec0, g.nap = some (usec, usec0) →
      Asked cfg usec usec0 ∧ ret ≤ (usec0 * cfg.mhz : Nat)
  | [] => True

theorem Above.nap (h : Above cfg f g) (hf : f ≠ .schedRet) : g.nap = none ∧ g ≠ .schedRet := by
  cases h with
  | testcancel h => cases h with
    | hook P i d => cases d <;> exact ⟨rfl, by simp⟩
    | _ => exact ⟨rfl, by simp⟩
  | schedRet _ => exact absurd rfl hf
  | _ => exact ⟨rfl, by simp⟩

theorem NapOk.of_some (hs : g ≠ .schedRet) (h : ∀ usec usec0, g.nap = some (usec, usec0) →
    Asked cfg usec usec0 ∧ ret ≤ (usec0 * cfg.mhz : Nat)) : NapOk cfg k t ret (g :: rest) := by
  unfold NapOk
  split
  · rename_i heq
    cases heq
    exact absurd rfl hs
  · rename_i heq
    cases heq
    exact h
  · trivial

theorem NapOk.of_none (hg : g.nap = none) (hs : g ≠ .schedRet) :
    NapOk cfg k t ret (g :: rest) := by
  refine .of_some hs fun usec usec0 h => ?_
  rw [hg] at h
  cases h

/-- What is on top after a frame other than that of `chx_sched` has returned. -/
theorem NapOk.pop {n : Nat} (h : Shape cfg n (f :: rest)) (hf : f ≠ .schedRet) :
    NapOk cfg k t ret rest := by
  cases rest with
  | nil => trivial
  | cons g rest =>
      obtain ⟨hg, hs⟩ := h.below.nap hf
      exact .of_none hg hs

/-- A thread that does nothing itself. -/
theorem NapOk.path {P : Op → Prop} {off off' : Option Tid} (h : NapOk cfg k u ret fs)
    (hp : Path cfg P (off, k) (off', k')) (hk : KernelInv off k)
    (hc : ∀ op, P op → ¬ op.Connects u) : NapOk cfg k' u ret fs := by
  unfold NapOk at h ⊢
  split at h
  · intro usec usec0 hg
    obtain ⟨ha, hw⟩ := h usec usec0 hg
    exact ⟨ha, hw.path hp hk hc (Nat.mul_pos ha.usec0_pos cfg.mhz_pos)⟩
  · exact h
  · trivial

theorem sub32_lt (a b : Nat) : sub32 a b < 4294967296 := Nat.mod_lt _ (by omega)

theorem snoozeResult_lt (h : usec < 4294967296) :
    (snoozeResult cfg usec usec0 r).2 < 4294967296 := by
  rw [snoozeResult]
  split
  · exact sub32_lt ..
  · split
    · exact sub32_lt ..
    · exact h

/-! ## The times on the stack -/

theorem Call.words {c : Call} (hv : c.valid cfg k = true) : ∀ f ∈ c.frames, f.Word := by
  cases c with
  | usecWait usec =>
      intro f hf
      rw [List.mem_singleton.1 hf]
      have hlt : usec < 4294967296 := of_decide_eq_true hv
      exact hlt
  | poll usec pds =>
      intro f hf
      rcases List.mem_cons.1 hf with rfl | hf
      · trivial
      · rw [List.mem_singleton.1 hf]
        rintro n rfl
        exact of_decide_eq_true (Bool.and_eq_true_iff.1 hv).1
  | intrWait d =>
      intro f hf
      rcases List.mem_cons.1 hf with rfl | hf
      · trivial
      · rw [List.mem_singleton.1 hf]
        rintro n ⟨⟩
  | _ => simp [Call.frames, Frame.Word]

theorem Poll.word {P : Poll} (h : ∀ n, P.usec = some n → n < 4294967296) :
    P.usec.getD 0 < 4294967296 := by
  cases hu : P.usec with
  | none => simp
  | some n => exact h n hu

theorem PollNext.word {P : Poll} {pt : PollPt} (hn : PollNext cfg k t P rest ret pt k' ctx)
    (hw : ∀ f ∈ Frame.poll P pt :: rest, f.Word) : ∀ f ∈ ctx.frames, f.Word := by
  have hP : ∀ n, P.usec = some n → n < 4294967296 := hw _ (List.mem_cons_self ..)
  have hrest : ∀ f ∈ rest, f.Word := fun f hf => hw f (List.mem_cons_of_mem _ hf)
  cases hn with
  | exit => simp [Frame.Word]
  | done => exact hrest
  | snoozeAgain hr | snoozeDone _ hr =>
      have hlt := (congrArg Prod.snd hr).symm.trans_lt (snoozeResult_lt (Poll.word hP))
      simpa [Frame.Word] using ⟨hlt, hrest⟩
  | _ => simpa [Frame.Word] using ⟨hP, hrest⟩

/-- `chopstx_usec_wait_var` goes on with what is left. -/
theorem usecWake_word {c : Choice} (hw : usec < 4294967296)
    (hk : frameStep cfg k t (.usecWake usec usec0) rest ret c = .ok (k', ctx)) :
    ∀ f ∈ ctx.frames, f.Word ∨ f ∈ rest := by
  have hlt : (snoozeResult cfg usec usec0 ret).2 < 4294967296 := snoozeResult_lt hw
  simp only [frameStep] at hk
  split at hk
  · cases hk
    intro f hf
    exact (List.mem_cons.1 hf).imp (by rintro rfl; exact hlt) id
  · cases hk
    exact fun f hf => .inr hf

/-- **The times on the stack stay words.** -/
theorem Next.word {c : Choice} (hn : Next cfg k t rest ret f k' ctx)
    (hk : frameStep cfg k t f rest ret c = .ok (k', ctx)) (hw : ∀ g ∈ f :: rest, g.Word) :
    ∀ g ∈ ctx.frames, g.Word := by
  have hf : f.Word := hw _ (List.mem_cons_self ..)
  have hrest : ∀ g ∈ rest, g.Word := fun g hg => hw g (List.mem_cons_of_mem _ hg)
  cases hn with
  | call hv =>
      intro g hg
      rcases List.mem_append.1 hg with hg | hg
      · exact Call.words hv g hg
      · exact hw g hg
  | poll hp => exact hp.word hw
  | usecAgain | usecDone => exact fun g hg => (usecWake_word hf hk g hg).elim id (hrest g)
  | usecWait | usecSleep | pollCall => simpa [Frame.Word] using ⟨hf, hrest⟩
  | endless | entryRet | canceled | condCancel | joinCancel | exitStart | exitMutexes | exitRoutine
  | exitMutex | exitEnd | exitUnlock | exit => simp [Frame.Word]
  | blocked | condWait | condRelock | condNoLock | cleanupExecute | setcancelstate | joinFatal
  | joinSleep | joinDone | joinWake => simpa [Frame.Word] using hrest
  | _ => exact hrest

/-! ## A step of the thread -/

/-- The value that the waker has stored. -/
theorem WakesWithin.ret_le {w : Waker} {v : Nat} (hi : WakesWithin k t (usec0 * cfg.mhz))
    (ha : (k.thread t).state.Active) (hwv : k.ghost.wake t = some (w, v)) (hst : w.Stores v)
    (hask : Asked cfg usec usec0) : toInt v ≤ (usec0 * cfg.mhz : Nat) := by
  obtain ⟨w', v', hwv', hle⟩ := hi.woken ha
  cases hwv.symm.trans hwv'
  have hmul : usec0 * cfg.mhz ≤ 16777215 := by
    rw [hask.eq]
    exact mul_mhz_le (Nat.min_le_right ..)
  rcases hle with hle | rfl
  · rw [toInt_of_le (by omega)]
    exact_mod_cast hle
  · cases hst
    rw [toInt_minusOne]
    omega

section Step

variable (h : KernelInv none k) (hr : Runs k t)

include h hr

theorem PollNext.nap {P : Poll} {pt : PollPt} (hn : PollNext cfg k t P rest ret pt k' ctx)
    (hsh : Shape cfg k.nthread (.poll P pt :: rest)) (hw : (Frame.poll P pt).Word) :
    NapOk cfg k' t ctx.ret ctx.frames := by
  cases hn with
  | done => exact .pop hsh (by simp)
  | snoozeSleep hc hs =>
      intro usec usec0 hg
      cases hg
      obtain ⟨hpos, heq, hwithin⟩ := chxSnooze_within (lock_inv h) hr.lock (.inr rfl) hs
      exact ⟨⟨Poll.word hw, hpos, heq⟩, hwithin⟩
  | mainSleep =>
      intro _ _ hg
      cases hg
  | _ => exact .of_none rfl (by simp)

/-- **A step of a thread in or out of `chx_snooze`**: it goes to sleep for the time asked for,
and comes back with the value that the waker has stored. -/
theorem Next.nap (hn : Next cfg k t rest ret f k' ctx) (hsh : Shape cfg k.nthread (f :: rest))
    (hw : f.Word) (hnap : NapOk cfg k t ret (f :: rest)) (hstores : k.WakeStores)
    (hret : ∀ g fs, f :: rest = .schedRet :: g :: fs → g.nap ≠ none →
      ∃ w, k.ghost.wake t = some (w, (k.thread t).v)) :
    NapOk cfg k' t ctx.ret ctx.frames := by
  cases hn with
  | call hv hc =>
      rename_i c
      cases c with
      | ret rv => exact absurd rfl (hc rv)
      | _ => exact .of_none rfl (by simp)
  | poll hp => exact hp.nap h hr hsh hw
  | usecSleep hz =>
      intro usec usec0 hg
      cases hg
      obtain ⟨hpos, heq, hwithin⟩ := chxSnooze_within (lock_inv h) hr.lock (.inl rfl) hz
      exact ⟨⟨hw, hpos, heq⟩, hwithin⟩
  | schedRet =>
      cases rest with
      | nil => trivial
      | cons g rest =>
          have hg : g ≠ .schedRet := by
            cases hsh.below with
            | schedRet hg => cases hg <;> simp
            | called hc => simp
          cases hn : g.nap with
          | none => exact .of_none hn hg
          | some x =>
              obtain ⟨w, hwv⟩ := hret g rest rfl (by simp [hn])
              obtain ⟨ha, hwithin⟩ := hnap x.1 x.2 hn
              have hle := hwithin.ret_le hr.active hwv (hstores t w _ hwv) ha
              exact .of_some hg fun usec usec0 hx => by
                cases hn.symm.trans hx
                exact ⟨ha, hle⟩
  | blocked | condWait | joinSleep =>
      intro _ _ hg
      cases hg
  | endless | entryRet | canceled | usecWait | usecAgain | condRelock | condNoLock | condCancel
  | cleanupExecute | setcancelstate | joinFatal | joinDone | joinWake | joinCancel | pollCall
  | exitStart | exitMutexes | exitRoutine | exitMutex | exitEnd | exitUnlock | exit =>
      exact .of_none rfl (by simp)
  | _ => exact .pop hsh (by simp)

end Step

/-! ## The machine -/

/-- `chx_sched` returns to `chx_snooze` the value that the waker has stored. -/
def ReturnsStored (s : State) (_ : Event) : Prop :=
  ∀ t g rest, s.k.running = some t → (s.ctx t).frames = .schedRet :: g :: rest → g.nap ≠ none →
    ∃ w, s.k.ghost.wake t = some (w, (s.k.thread t).v)

/-- Every thread in `chx_snooze` is as it should be. -/
structure SnoozeInv (cfg : Config) (s : State) : Prop where
  word : ∀ t, ∀ f ∈ (s.ctx t).frames, f.Word
  nap : ∀ t, NapOk cfg s.k t (s.ctx t).ret (s.ctx t).frames

theorem SnoozeInv.step (h : SnoozeInv cfg s) (hi : MachineInv cfg s) (hst : s.k.WakeStores)
    (hok : ReturnsStored s e) (hs : step cfg s e = .ok s') : SnoozeInv cfg s' := by
  have hothers : ∀ u, (∀ c lags, e = .run c lags → s.k.running ≠ some u) →
      NapOk cfg s'.k u (s.ctx u).ret (s.ctx u).frames := by
    refine fun u hu => (h.nap u).path (hi.path hs) hi.kernel fun op hop hc => ?_
    obtain ⟨hr, c, lags, he⟩ := hop.connects hc
    exact hu c lags he hr
  cases step_stepTo hs with
  | tick | systick | irq | pendsv => exact ⟨h.word, fun u => hothers u (by simp)⟩
  | run hb hr hf hn hstep =>
      rename_i c lags t f rest k' ctx
      have hword := h.word t
      have hnap := h.nap t
      have hsh := hi.shape t
      rw [hf] at hword hnap hsh
      have hsec := hi.section hb hr hf hn
      have hctx : ∀ u, (∀ f ∈ (Function.update s.ctx t ctx u).frames, f.Word) ∧
          NapOk cfg k' u (Function.update s.ctx t ctx u).ret
            (Function.update s.ctx t ctx u).frames := by
        intro u
        by_cases hut : u = t
        · subst hut
          rw [Function.update_self]
          refine ⟨hn.word hstep hword, hn.nap hsec.kernel hsec.runs hsh
            (hword _ (List.mem_cons_self ..)) ?_ hst fun g fs heq hg => ?_⟩
          · refine hnap.path (setLags_move.path (P := (· = .pass)) rfl) hi.kernel ?_
            rintro op rfl hc
            exact hc
          · exact hok u g fs hr (hf.trans heq) hg
        · rw [Function.update_of_ne hut]
          refine ⟨h.word u, hothers u fun c' lags' he hr' => ?_⟩
          cases hr.symm.trans hr'
          exact hut rfl
      exact ⟨fun u => (hctx u).1, fun u => (hctx u).2⟩

theorem snoozeInv_of_reach (h : Reach (step cfg) ReturnsStored (init cfg) s) :
    SnoozeInv cfg s := by
  refine Reach.invariant_of (I := fun s => MachineInv cfg s ∧ s.k.WakeStores)
    (fun _ h => ⟨machineInv_of_reach h, wakeStores_of_reach h⟩) ?_
    (fun _ _ _ hi _ h hok hs => h.step hi.1 hi.2 hok hs) h
  refine ⟨fun t f hf => ?_, fun t => .of_none rfl (by simp)⟩
  rw [show (init cfg).ctx t = {} from rfl] at hf
  rw [List.mem_singleton.1 hf]
  trivial

/-- The account of a sleep, when the thread is back from it. -/
theorem accounts_of_reach (h : Reach (step cfg) ReturnsStored (init cfg) s)
    (hf : (s.ctx t).frames = g :: rest) (hg : g.nap = some (usec, usec0)) :
    Accounts cfg usec usec0 (s.ctx t).ret := by
  have hnap := (snoozeInv_of_reach h).nap t
  rw [hf] at hnap
  unfold NapOk at hnap
  split at hnap
  · rename_i heq
    cases heq
    cases hg
  · rename_i heq
    cases heq
    obtain ⟨ha, hle⟩ := hnap usec usec0 hg
    exact ha.accounts hle
  · rename_i heq
    cases heq

/-! ## The loop of `chopstx_poll` -/

/-- What `chx_sched` returns to `chx_snooze` in the thread `t`. -/
def snoozeReturn (t : Tid) (s : State) : Event → List Int
  | .run _ _ =>
      match (s.ctx t).frames with
      | g :: _ => if s.k.running = some t ∧ g.nap.isSome then [(s.ctx t).ret] else []
      | [] => []
  | _ => []

/-- `*usec_p` after sleeps that `chx_sched` ended with these values. -/
def usecLeft (cfg : Config) (usec : Nat) (l : List Int) : Nat :=
  l.foldl (fun u r => (snoozeResult cfg u (min u (maxUsecForTimer cfg)) r).2) usec

/-- **The loop of a call of `chopstx_poll`** that has begun with `usec`, after the sleeps `l`. -/
structure Looped (cfg : Config) (usec : Nat) (l : List Int) (P : Poll) (pt : PollPt) : Prop where
  left : P.usec = some (usecLeft cfg usec l)
  le : usecLeft cfg usec l ≤ usec
  /-- There are no more sleeps than the counter needs for `usec`. -/
  rounds : l.length * maxUsecForTimer cfg < usec + maxUsecForTimer cfg
  zeros : ∀ r ∈ l.dropLast, r = 0
  /-- The loop has ended, and nobody else has woken the thread. -/
  timeout : ∀ i, pt = .cleanup i 1 → (∀ r ∈ l, r = 0) → usecLeft cfg usec l = 0

/-- The steps of the machine while the call above `rest` goes on. -/
def InPoll (t : Tid) (rest : List Frame) (s : State) (e : Event) : Prop :=
  ReturnsStored s e ∧ rest.length < (s.ctx t).frames.length

/-- What is left after sleeps whose time has run out. -/
structure Slept (cfg : Config) (usec : Nat) (l : List Int) (P : Poll) : Prop where
  left : P.usec = some (usecLeft cfg usec l)
  eq : usecLeft cfg usec l = usec - l.length * maxUsecForTimer cfg
  rounds : l.length * maxUsecForTimer cfg < usec + maxUsecForTimer cfg
  zeros : ∀ r ∈ l, r = 0

/-- Where a thread is in the loop. -/
inductive LoopAt (cfg : Config) (usec : Nat) (rest : List Frame) (l : List Int) :
    List Frame → Prop
  | loop {P : Poll} : Slept cfg usec l P → LoopAt cfg usec rest l (.poll P .loop :: rest)
  | testcancel {P : Poll} : Slept cfg usec l P →
      LoopAt cfg usec rest l (.testcancel :: .poll P .snooze :: rest)
  | snooze {P : Poll} : Slept cfg usec l P → LoopAt cfg usec rest l (.poll P .snooze :: rest)
  | asleep {P : Poll} {usec0 : Nat} : Slept cfg usec l P →
      LoopAt cfg usec rest l (.schedRet :: .poll P (.snoozeWake usec0) :: rest)
  | awake {P : Poll} {usec0 : Nat} : Slept cfg usec l P →
      LoopAt cfg usec rest l (.poll P (.snoozeWake usec0) :: rest)
  | cleanup {P : Poll} {i : Nat} {r : Int} : Looped cfg usec l P (.cleanup i r) →
      LoopAt cfg usec rest l (.poll P (.cleanup i r) :: rest)

section Loop

variable {P : Poll} {pt : PollPt} {l : List Int}

theorem usecLeft_append : usecLeft cfg usec (l ++ [r]) =
    (snoozeResult cfg (usecLeft cfg usec l)
      (min (usecLeft cfg usec l) (maxUsecForTimer cfg)) r).2 := by
  rw [usecLeft, List.foldl_append]
  rfl

theorem Slept.looped (h : Slept cfg usec l P)
    (hpt : ∀ i, pt = .cleanup i 1 → usecLeft cfg usec l = 0) : Looped cfg usec l P pt :=
  ⟨h.left, h.eq ▸ Nat.sub_le _ _, h.rounds, fun r hr => h.zeros r (List.mem_of_mem_dropLast hr),
    fun i hi _ => hpt i hi⟩

theorem LoopAt.looped (h : LoopAt cfg usec rest l fs) :
    ∃ P pt above, fs = above ++ .poll P pt :: rest ∧ Looped cfg usec l P pt := by
  cases h with
  | loop h | snooze h | awake h => exact ⟨_, _, [], rfl, h.looped (by simp)⟩
  | testcancel h => exact ⟨_, _, [.testcancel], rfl, h.looped (by simp)⟩
  | asleep h => exact ⟨_, _, [.schedRet], rfl, h.looped (by simp)⟩
  | cleanup h => exact ⟨_, _, [], rfl, h⟩

theorem Slept.start (h : P.usec = some usec) : Slept cfg usec [] P := by
  refine ⟨h, ?_, ?_, (by simp)⟩
  · simp [usecLeft]
  · have : 0 < maxUsecForTimer cfg := maxUsecForTimer_pos
    simpa using Or.inr this

/-- One more sleep. -/
theorem Slept.sleep {n : Nat} (h : Slept cfg usec l P)
    (ha : Accounts cfg (P.usec.getD 0) usec0 r)
    (hr : (snoozeResult cfg (P.usec.getD 0) usec0 r).2 = n) :
    usecLeft cfg usec (l ++ [r]) = n ∧
      (l ++ [r]).length * maxUsecForTimer cfg < usec + maxUsecForTimer cfg := by
  have hleft : P.usec.getD 0 = usecLeft cfg usec l := by
    rw [h.left]
    rfl
  rw [hleft] at ha hr
  refine ⟨?_, ?_⟩
  · rw [usecLeft_append, ← ha.asked.eq, hr]
  · have hpos := ha.asked.pos
    rw [h.eq] at hpos
    rw [List.length_append, List.length_singleton, Nat.add_mul, Nat.one_mul]
    omega

theorem snoozeResult_eq_zero {n : Nat} (h : snoozeResult cfg usec usec0 r = (0, n)) : r = 0 := by
  rw [snoozeResult] at h
  split at h
  · assumption
  · split at h
    · cases h
    · exact (Prod.ext_iff.1 h).1

theorem Slept.again {n : Nat} (h : Slept cfg usec l P)
    (ha : Accounts cfg (P.usec.getD 0) usec0 r)
    (hr : snoozeResult cfg (P.usec.getD 0) usec0 r = (0, n)) :
    Slept cfg usec (l ++ [r]) { P with usec := some n } := by
  obtain rfl := snoozeResult_eq_zero hr
  obtain ⟨hleft, hrounds⟩ := h.sleep ha (congrArg Prod.snd hr)
  refine ⟨congrArg some hleft.symm, ?_, hrounds, ?_⟩
  · have hget : P.usec.getD 0 = usecLeft cfg usec l := by
      rw [h.left]
      rfl
    have hspent := ha.spent le_rfl
    have heq := ha.asked.eq
    rw [hr, Int.toNat_zero, Nat.zero_div] at hspent
    rw [hget, h.eq] at hspent heq
    rw [hleft, List.length_append, List.length_singleton, Nat.add_mul, Nat.one_mul]
    simp only at hspent
    omega
  · intro x hx
    rcases List.mem_append.1 hx with hx | hx
    · exact h.zeros x hx
    · exact List.mem_singleton.1 hx

theorem Slept.done {n : Nat} {x : Int} (h : Slept cfg usec l P)
    (ha : Accounts cfg (P.usec.getD 0) usec0 r) (hx : x ≠ 0)
    (hr : snoozeResult cfg (P.usec.getD 0) usec0 r = (x, n)) :
    Looped cfg usec (l ++ [r]) { P with usec := some n } (.cleanup 0 x) := by
  obtain ⟨hleft, hrounds⟩ := h.sleep ha (congrArg Prod.snd hr)
  refine ⟨congrArg some hleft.symm, ?_, hrounds, ?_, fun i _ hzero => ?_⟩
  · have hget : P.usec.getD 0 = usecLeft cfg usec l := by
      rw [h.left]
      rfl
    have hle : P.usec.getD 0 ≤ usec := by
      rw [hget, h.eq]
      exact Nat.sub_le ..
    rw [hleft]
    by_cases hr₀ : 0 ≤ r
    · have hspent := ha.spent hr₀
      rw [hr] at hspent
      exact (Nat.le_of_add_right_le hspent.le).trans hle
    · rw [ha.canceled (not_le.1 hr₀)] at hr
      cases hr
      exact hle
  · rw [List.dropLast_concat]
    exact h.zeros
  · have hr₀ := hzero r (by simp)
    rw [snoozeResult, if_pos hr₀] at hr
    cases hr
    exact absurd rfl hx

theorem snooze_end {k k' : Kernel} {st : ThreadState}
    (h : k.chxSnooze cfg t st usec = .ok (k', none)) : usec = 0 := by
  rw [chxSnooze] at h
  split at h
  · assumption
  · obtain ⟨k₁, -, hk⟩ := res_bind_eq_ok.1 h
    cases hk

/-- **A step of the thread in the loop.** -/
theorem LoopAt.next (hat : LoopAt cfg usec rest l (f :: fs)) (hne : rest ≠ [])
    (hn : Next cfg k t fs ret f k' ctx)
    (ha : ∀ usec usec0, f.nap = some (usec, usec0) → Accounts cfg usec usec0 ret) :
    LoopAt cfg usec rest (l ++ if f.nap.isSome then [ret] else []) ctx.frames ∨
      ctx.frames.length ≤ rest.length := by
  have hlen : 1 ≤ rest.length := List.length_pos_iff.2 hne
  cases hat with
  | loop h =>
      cases hn with
      | poll hp =>
          cases hp
          exact .inl (by simpa [Frame.nap] using .testcancel h)
  | testcancel h =>
      cases hn with
      | canceled => exact .inr hlen
      | testcancel => exact .inl (by simpa [Frame.nap] using .snooze h)
  | snooze h =>
      cases hn with
      | poll hp =>
          rw [show (Frame.poll _ PollPt.snooze).nap = none from rfl]
          simp only [Option.isSome_none, Bool.false_eq_true, if_false, List.append_nil]
          cases hp with
          | snoozeReady => exact .inl (.cleanup (h.looped (by simp)))
          | snoozeEnd hc hs =>
              refine .inl (.cleanup (h.looped fun _ _ => ?_))
              have hz := snooze_end hs
              rw [h.left] at hz
              exact hz
          | snoozeSleep => exact .inl (.asleep h)
  | asleep h =>
      cases hn with
      | schedRet => exact .inl (by simpa [Frame.nap] using .awake h)
  | awake h =>
      rename_i P usec0
      have hacc := ha _ _ (rfl : (Frame.poll P (.snoozeWake usec0)).nap = some (_, usec0))
      cases hn with
      | poll hp =>
          cases hp with
          | snoozeAgain hr => exact .inl (.loop (h.again hacc hr))
          | snoozeDone hz hr => exact .inl (.cleanup (h.done hacc hz hr))
  | cleanup h =>
      cases hn with
      | poll hp =>
          rw [show (Frame.poll _ (PollPt.cleanup _ _)).nap = none from rfl]
          simp only [Option.isSome_none, Bool.false_eq_true, if_false, List.append_nil]
          cases hp with
          | cleanup hd =>
              refine .inl (.cleanup ⟨h.left, h.le, h.rounds, h.zeros, fun i hi => ?_⟩)
              cases hi
              exact h.timeout _ rfl
          | exit => exact .inr hlen
          | done => exact .inr le_rfl

end Loop

/-- **A step of the machine while a thread is in the loop.** -/
theorem LoopAt.step {l : List Int} (hat : LoopAt cfg usec rest l (s.ctx t).frames)
    (hne : rest ≠ []) (hs : Chopstx.step cfg s e = .ok s')
    (ha : ∀ g fs usec usec0, (s.ctx t).frames = g :: fs → g.nap = some (usec, usec0) →
      Accounts cfg usec usec0 (s.ctx t).ret) :
    LoopAt cfg usec rest (l ++ snoozeReturn t s e) (s'.ctx t).frames ∨
      (s'.ctx t).frames.length ≤ rest.length := by
  cases step_stepTo hs with
  | tick | systick | irq | pendsv => exact .inl (by simpa [snoozeReturn] using hat)
  | run hb hr hf hn hstep =>
      rename_i c lags u f fs k' ctx
      by_cases hut : t = u
      · subst hut
        rw [hf] at hat
        have hnext := hat.next hne hn fun usec usec0 hg => ha f fs usec usec0 hf hg
        simpa [snoozeReturn, hf, hr] using hnext
      · have hrun : s.k.running ≠ some t := by
          rw [hr]
          exact fun h => hut (Option.some.inj h).symm
        have hctx : Function.update s.ctx u ctx t = s.ctx t := Function.update_of_ne hut ..
        left
        show LoopAt cfg usec rest _ (Function.update s.ctx u ctx t).frames
        rw [hctx, snoozeReturn]
        split <;> simpa [hrun] using hat

/-- The test of `ReturnsStored`. -/
def returnsStoredTest (s : State) : Bool :=
  match s.k.running with
  | none => true
  | some t =>
      match (s.ctx t).frames with
      | .schedRet :: g :: _ =>
          g.nap.isNone || (s.k.ghost.wake t).any fun x => x.2 = (s.k.thread t).v
      | _ => true

theorem returnsStored_of_test (h : returnsStoredTest s = true) : ReturnsStored s e := by
  intro t g rest hr hf hg
  rw [returnsStoredTest, hr] at h
  simp only [hf] at h
  cases hw : s.k.ghost.wake t with
  | none => simp [hw, hg] at h
  | some x =>
      have hv : x.2 = (s.k.thread t).v := by simpa [hw, hg] using h
      exact ⟨x.1, by rw [← hv]⟩

end Chopstx
