import Chopstx.Run.Shape
import Chopstx.Run.Step
import Chopstx.Library.Transition

/-!
# The invariant of the machine

In every reachable state the kernel and the values are as their invariants say, every
stack is well shaped, and the frame on top of a stack fits the state of the thread
(`TopOk`).  There is no condition on the run: this holds whatever the application does.

* `Asleep`, `Woken`, `TopOk` - what the frame on top says about the thread.
* `TopOk.drift`, `Next.top` - it stays right while others run, and after a step of the thread.
* `Section`, `MachineInv.path` - a step of a thread, and any step, as a path of moves.
* `MachineInv.keeps` - every step keeps the invariant.
* `machineInv_of_reach` - so it holds in every reachable state, from `init_inv` on.
-/

namespace Chopstx

open Kernel Transition

variable {cfg : Config} {k k' : Kernel} {t u : Tid} {f g : Frame} {rest fs : List Frame}
  {ret : Int} {ctx : Ctx} {s s' : State} {e : Event} {P : Op → Prop}

/-! ## The frame on top of a stack -/

/-- The thread sleeps and will go on with the frame `g`. -/
def Asleep (k : Kernel) (t : Tid) (g : Frame) : Prop :=
  g.SleepsIn (k.thread t).state (k.thread t).parent (k.thread t).v

/-- The thread has slept, and was woken up. -/
def Woken (k : Kernel) (t : Tid) (g : Frame) : Prop :=
  (k.thread t).state.Active ∧ ∃ st q n w v, g.SleepsIn st q n ∧ WokenBy st q w v ∧
    k.ghost.wake t = some (w, v)

/-- What the frame on top says about the thread; `ret` is the result of the last
function. -/
def TopOk (k : Kernel) (t : Tid) (ret : Int) : List Frame → Prop
  | .schedRet :: g :: _ => Asleep k t g ∨ Woken k t g
  | .exited rv :: _ => (k.thread t).state.Ended ∧ (k.thread t).v = rv
  | .joinWake _ _ :: _ => (k.thread t).state.Active ∧ ret ≠ 0
  | .joinRet tp _ r :: _ => (k.thread t).state.Active ∧
      (r = 0 → tp < k.nthread ∧ (k.thread tp).state.Ended)
  | _ => (k.thread t).state.Active

/-- Frames that say no more than that the thread is active. -/
def Frame.Simple : Frame → Prop
  | .schedRet | .exited _ | .joinWake _ _ | .joinRet _ _ _ => False
  | _ => True

theorem TopOk.of_simple (hf : f.Simple) (ha : (k.thread t).state.Active) :
    TopOk k t ret (f :: rest) := by
  cases f with
  | schedRet | exited | joinWake | joinRet => exact absurd hf id
  | _ => exact ha

/-- A frame below another one is simple, unless the thread has slept in between. -/
theorem Above.simple (h : Above cfg f g) (hf : f ≠ .schedRet) : g.Simple := by
  cases h with
  | testcancel h => cases h <;> trivial
  | schedRet _ => exact absurd rfl hf
  | _ => trivial

/-- What is on top after the frame on top has returned. -/
theorem TopOk.pop (h : Shape cfg k.nthread (f :: rest)) (hf : f ≠ .schedRet)
    (ha : (k'.thread t).state.Active) : TopOk k' t ret rest := by
  cases rest with
  | nil => exact ha
  | cons g rest => exact .of_simple (h.below.simple hf) ha

theorem Frame.SleepsIn.not_active {st : ThreadState} {q : Option Qh} {v : Nat}
    (h : g.SleepsIn st q v) : ¬ st.Active := by
  cases h <;> simp [ThreadState.Active]

theorem Frame.SleepsIn.not_ended {st : ThreadState} {q : Option Qh} {v : Nat}
    (h : g.SleepsIn st q v) : ¬ st.Ended := by
  cases h <;> simp [ThreadState.Ended]

theorem Frame.SleepsIn.of_v {st : ThreadState} {q : Option Qh} {v v' : Nat}
    (h : g.SleepsIn st q v) (hv : st ≠ .waitTime → st ≠ .waitPoll → v' = v) :
    g.SleepsIn st q v' := by
  cases h with
  | usec => exact .usec ..
  | mutex => exact .mutex ..
  | cond => exact .cond ..
  | join tp =>
      rw [hv (by simp) (by simp)]
      exact .join ..
  | poll => exact .poll ..
  | snooze => exact .snooze ..

/-- A thread that neither is active nor has ended sleeps in `chx_sched`. -/
theorem TopOk.asleep (h : TopOk k t ret fs) (ha : ¬ (k.thread t).state.Active)
    (he : ¬ (k.thread t).state.Ended) :
    ∃ g rest, fs = .schedRet :: g :: rest ∧ Asleep k t g := by
  unfold TopOk at h
  split at h
  · rename_i g rest
    exact ⟨g, rest, rfl, h.resolve_right fun hw => ha hw.1⟩
  · exact absurd h.1 he
  · exact absurd h.1 ha
  · exact absurd h.1 ha
  · exact absurd h ha

theorem Drift.asleep_of (hd : Drift k k' u) (hs : Asleep k u g) : Asleep k' u g ∨ Woken k' u g := by
  cases hd with
  | same hn hst hp hv hw =>
      left
      rw [Asleep, hst, hp]
      exact hs.of_v hv
  | active ha _ _ => exact absurd ha hs.not_active
  | ended he _ _ => exact absurd he hs.not_ended
  | woken hb ha hw => exact .inr ⟨ha, _, _, _, _, _, hs, hb, hw⟩

theorem Drift.woken_of (hd : Drift k k' u) (hw : Woken k u g) : Woken k' u g := by
  obtain ⟨ha, st, q, n, w, v, hs, hb, hwv⟩ := hw
  cases hd with
  | same hn _ _ _ _ => exact absurd ha hn
  | active _ ha' hw' => exact ⟨ha', st, q, n, w, v, hs, hb, hw'.trans hwv⟩
  | ended he _ _ => exact absurd ha he.not_active
  | woken hb' _ _ => exact absurd ha hb'.not_active

/-- **What is on top of a stack stays right** while other threads run. -/
theorem TopOk.drift (h : TopOk k u ret fs) (hd : Drift k k' u)
    (hended : ∀ tp, tp < k.nthread → (k.thread tp).state.Ended → (k'.thread tp).state.Ended)
    (hn : k.nthread ≤ k'.nthread) : TopOk k' u ret fs := by
  unfold TopOk at h ⊢
  split at h
  · rcases h with h | h
    · exact hd.asleep_of h
    · exact .inr (hd.woken_of h)
  · obtain ⟨he, hv⟩ := hd.ended_of h.1
    exact ⟨he, hv.trans h.2⟩
  · exact ⟨hd.active_of h.1, h.2⟩
  · refine ⟨hd.active_of h.1, fun hr => ?_⟩
    obtain ⟨hlt, he⟩ := h.2 hr
    exact ⟨hlt.trans_le hn, hended _ hlt he⟩
  · exact hd.active_of h

/-! ## A thread goes to sleep -/

/-- The place where a thread blocks. -/
theorem Move.block_thread {q : Qh} {v : Option Nat}
    (hm : Move cfg (.block t q v) (some t, k) (none, k')) :
    (k'.thread t).parent = some q ∧ Blocks q (k'.thread t).state ∧
      ∀ n, v = some n → (k'.thread t).v = n := by
  cases hm with
  | block hs hq =>
      rw [modThread_thread, Function.update_self, llPrioEnqueue_thread, Function.update_self]
      refine ⟨rfl, hq, ?_⟩
      rintro n rfl
      rfl

theorem Move.pollSleep_state (hm : Move cfg (.pollSleep t) (some t, k) (none, k')) :
    (k'.thread t).state = .waitPoll := by
  cases hm with
  | pollSleep hs => rw [modThread_thread, Function.update_self]

theorem Move.die_thread {rv : Nat} (hm : Move cfg (.die t rv) (some t, k) (none, k')) :
    (k'.thread t).state.Ended ∧ (k'.thread t).v = rv := by
  cases hm with
  | die hs hst =>
      rw [modThread_thread, Function.update_self]
      exact ⟨hst, rfl⟩

/-- Once a thread has gone to sleep it drifts. -/
theorem Sleeps.drift {before after : Op → Prop} {op : Op}
    (hs : Sleeps cfg t before op after k k') (h : KernelInv none k) (ht : t < k.nthread)
    (ha : ∀ o, after o → ¬ o.Connects t) :
    ∃ k₂ k₃, KernelInv (some t) k₂ ∧ Move cfg op (some t, k₂) (none, k₃) ∧ Drift k₃ k' t := by
  obtain ⟨k₁, k₂, k₃, k₄, hp₁, hm₁, hm₂, hp₂, rfl⟩ := hs.steps
  have h₁ : KernelInv none k₁ := h.path hp₁
  have h₂ : KernelInv (some t) k₂ := h₁.move hm₁
  have h₃ : KernelInv none k₃ := h₂.move hm₂
  have ht₃ : t < k₃.nthread := calc
    t < k.nthread := ht
    _ ≤ k₁.nthread := hp₁.nthread_le h
    _ ≤ k₂.nthread := hm₁.nthread_le h₁
    _ ≤ k₃.nthread := hm₂.nthread_le h₂
  exact ⟨k₂, k₃, h₂, hm₂, (hp₂.drift h₃ ha ht₃).trans (switchThread_drift (h₃.path hp₂))⟩

/-- The thread is asleep when the move that connects it to something has put it there, or it
was woken up again. -/
theorem Sleeps.top {before after : Op → Prop} {op : Op}
    (hs : Sleeps cfg t before op after k k') (h : KernelInv none k) (ht : t < k.nthread)
    (ha : ∀ o, after o → ¬ o.Connects t)
    (hop : ∀ k₂ k₃, KernelInv (some t) k₂ → Move cfg op (some t, k₂) (none, k₃) → Asleep k₃ t g) :
    TopOk k' t ret (.schedRet :: g :: rest) := by
  obtain ⟨k₂, k₃, h₂, hm, hd⟩ := hs.drift h ht ha
  exact hd.asleep_of (hop k₂ k₃ h₂ hm)

/-- What a thread that blocks in a queue waits for. -/
theorem asleep_of_block {q : Qh} {v : Option Nat} (st : ThreadState)
    (hm : Move cfg (.block t q v) (some t, k) (none, k')) (hb : ∀ st', Blocks q st' → st' = st)
    (hg : ∀ n, (∀ n', v = some n' → n = n') → g.SleepsIn st (some q) n) : Asleep k' t g := by
  obtain ⟨hp, hst, hv⟩ := hm.block_thread
  rw [Asleep, hp, hb _ hst]
  exact hg _ hv

/-! ## What a step of a thread leaves on top of its stack -/

theorem Runs.active (hr : Runs k t) : (k.thread t).state.Active := .inr hr.2

section Top

variable (h : KernelInv none k) (hr : Runs k t)

include h hr

theorem PollNext.top {P : Poll} {pt : PollPt} (hn : PollNext cfg k t P rest ret pt k' ctx)
    (hsh : Shape cfg k.nthread (.poll P pt :: rest)) : TopOk k' t ctx.ret ctx.frames := by
  have ht := hr.lt h
  have hq : (∀ op, pt.May cfg t P op → op.Quiet) → (k'.thread t).state.Active := by
    intro hq
    obtain ⟨hp, hs⟩ := hn.path h hr
    exact .inr (hp.runs hq h hr).1.2
  cases hn with
  | mainSleep hc hu hs =>
      refine (pollSleep_sleeps (lock_inv h) hr.lock hs).top (lock_inv h) ht
        (fun _ ho => ho.elim) fun k₂ k₃ h₂ hm => ?_
      rw [Asleep, hm.pollSleep_state]
      exact .poll ..
  | snoozeSleep hc hs =>
      rcases chxSnooze_cases (lock_inv h) hr.lock (.inr rfl) hs with ⟨ho, -⟩ | ⟨usec0, -, hs⟩
      · cases ho
      · refine hs.top (lock_inv h) ht (fun _ ho => ho.elim) fun k₂ k₃ h₂ hm => ?_
        rw [Asleep, hm.sleep_state h₂]
        exact .snooze ..
  | snoozeEnd hc hs =>
      rcases chxSnooze_cases (lock_inv h) hr.lock (.inr rfl) hs with ⟨-, rfl⟩ | ⟨usec0, ho, -⟩
      · exact .inr hr.2
      · cases ho
  | condEnqueue | intrHook | joinHook | cleanup =>
      refine .of_simple trivial (hq ?_)
      rintro op ⟨d, -, hop⟩
      exact hop.quiet
  | done => exact .pop hsh (by simp) hr.active
  | _ => exact .of_simple trivial hr.active

/-- What the thread reads at the end of a sleep in `chopstx_join`. -/
theorem toInt_ne_zero (hv : ValueInv none k) {tp : Tid} {rp : Option Nat}
    (hw : Asleep k t (.joinWake tp rp) ∨ Woken k t (.joinWake tp rp)) :
    toInt (k.thread t).v ≠ 0 := by
  have key : 0 < (k.thread t).v ∧ (k.thread t).v < 4294967296 := by
    rcases hw with hw | ⟨-, st, q, n, w, v, hs, hb, hwv⟩
    · rw [Asleep, hr.2] at hw
      cases hw
    · cases hs with
      | join =>
          cases hrr : (k.thread t).flagSchedRr with
          | true =>
              refine ⟨hv.slice t hr.2 hrr (by simp), ?_⟩
              have hwf := (h.place' t).running hr.2
              rw [place_schedRr, if_pos hrr] at hwf
              exact (DeltaQueue.le_total_of_mem (v := k.pqV) (mem_of_isIn hwf)).trans_lt h.timer.lt
          | false =>
              rw [hv.plain t hr.active hrr w v hwv]
              cases hb with
              | join hu => cases hu <;> simp [minusOne]
              | timed hs => rcases hs with hs | hs <;> cases hs
              | expired hs => rcases hs with hs | hs <;> cases hs
  rw [toInt]
  split <;> omega

omit h hr in
/-- What the code of the frame on top relies on. -/
theorem TopOk.fits (htop : TopOk k t ret (f :: rest)) (hv : f.Valid cfg k.nthread) : f.Fits k := by
  cases f with
  | setpriority prio => exact hv
  | joinRet tp rp r => exact htop.2
  | _ => trivial

/-- A section that does not put the thread to sleep leaves it active. -/
theorem Next.active (hn : Next cfg k t rest ret f k' ctx) (hf : f.Fits k)
    (hc : ∀ op, f.May cfg t op → ¬ op.Connects t) : (k'.thread t).state.Active :=
  ((hn.path h hr hf).1.drift h hc (hr.lt h)).active_of hr.active

/-- **A step of a thread leaves the right frame on top of its stack.** -/
theorem Next.top (hn : Next cfg k t rest ret f k' ctx) (hv : ValueInv none k)
    (hsh : Shape cfg k.nthread (f :: rest)) (htop : TopOk k t ret (f :: rest)) :
    TopOk k' t ctx.ret ctx.frames := by
  have ht := hr.lt h
  have hact := Next.active h hr hn (htop.fits hsh.head)
  cases hn with
  | call hc hc' =>
      rename_i c
      cases c with
      | ret rv => exact absurd rfl (hc' rv)
      | _ => exact .of_simple trivial hr.active
  | endless | entryRet | canceled | usecWait | usecAgain | condRelock | condNoLock | condCancel
  | joinFatal | joinCancel | pollCall | exitMutexes | exitRoutine | exitMutex | exitEnd =>
      exact .of_simple trivial hr.active
  | routineRet | testcancel | usecDone | condRet | intrDone | intrIdle | cleanupNone | joinLate
  | claimIrq => exact .pop hsh (by simp) hr.active
  | schedRet =>
      cases rest with
      | nil => exact hr.active
      | cons g rest =>
          cases hsh.below with
          | schedRet hg =>
              cases hg with
              | join tp rp q => exact ⟨hr.active, toInt_ne_zero h hr hv htop⟩
              | _ => exact hr.active
          | called hc => exact absurd hc id
  | cleanupPush | cleanupPop =>
      exact .pop hsh (by simp) (.inr (by simpa using hr.2))
  | cleanupExecute | setcancelstate | exitStart =>
      exact .of_simple trivial (.inr (by simpa using hr.2))
  | create =>
      refine .pop hsh (by simp) (hact ?_)
      rintro op (⟨u, rfl⟩ | hop) hc
      · exact hc
      · cases hop <;> exact hc
  | mutexUnlock =>
      refine .pop hsh (by simp) (hact fun op hop hc => ?_)
      rcases hop with hop | hop <;> cases hop <;> exact hc
  | exitUnlock =>
      refine .of_simple trivial (hact fun op hop hc => ?_)
      rcases hop with hop | hop <;> cases hop <;> exact hc
  | condSignal | condBroadcast =>
      refine .pop hsh (by simp) (hact fun op hop hc => ?_)
      rcases hop with hop | hop <;> cases hop <;> exact hc
  | cancel =>
      refine .pop hsh (by simp) (hact fun op hop hc => ?_)
      rcases hop with _ | _ | _ | hop
      · exact hc
      · exact hc
      · exact hc
      · cases hop <;> exact hc
  | setpriority =>
      refine .pop hsh (by simp) (hact ?_)
      rintro op (rfl | hop) hc
      · exact hc
      · cases hop <;> exact hc
  | joined =>
      refine .pop hsh (by simp) (hact ?_)
      rintro op (rfl | rfl) hc <;> exact hc
  | usecEnd hz =>
      rcases chxSnooze_cases (lock_inv h) hr.lock (.inl rfl) hz with ⟨-, rfl⟩ | ⟨usec0, ho, -⟩
      · exact .pop hsh (by simp) (.inr hr.2)
      · cases ho
  | usecSleep hz =>
      rcases chxSnooze_cases (lock_inv h) hr.lock (.inl rfl) hz with ⟨ho, -⟩ | ⟨usec0, -, hs⟩
      · cases ho
      · refine hs.top (lock_inv h) ht (fun _ ho => ho.elim) fun k₂ k₃ h₂ hm => ?_
        rw [Asleep, hm.sleep_state h₂]
        exact .usec ..
  | acquired hl =>
      rcases chopstxMutexLock_cases h hr hl with ⟨-, ho, rfl⟩ | ⟨hb, -⟩
      · have hm : Move cfg (.acquire t _) (none, k.chxCpuSchedLock) _ := .acquire hr.1 hr.2 ho
        exact .pop hsh (by simp) (.inr (hm.runs trivial (lock_inv h) hr.lock).1.2)
      · cases hb
  | blocked hl =>
      rcases chopstxMutexLock_cases h hr hl with ⟨hb, -⟩ | ⟨-, -, hs⟩
      · cases hb
      · refine hs.top h ht (fun _ ho => ho.elim) fun k₂ k₃ h₂ hm => ?_
        refine asleep_of_block .waitMtx hm (fun st' hb => ?_) fun n _ => .mutex ..
        cases hb
        rfl
  | condWait hw =>
      refine (chopstxCondWait_sleeps h hr hw).top h ht (fun _ ho => ho.elim) fun k₂ k₃ h₂ hm => ?_
      refine asleep_of_block .waitCnd hm (fun st' hb => ?_) fun n _ => .cond ..
      cases hb
      rfl
  | joinSleep hd hj =>
      rcases chopstxJoin_cases h hr hj with ⟨hb, -⟩ | ⟨-, -, hs⟩
      · cases hb
      · refine hs.top h ht (by rintro op (rfl | hop) hc; exacts [hc, by cases hop <;> exact hc])
          fun k₂ k₃ h₂ hm => ?_
        refine asleep_of_block .waitExit hm (fun st' hb => ?_) fun n hn => ?_
        · cases hb
          rfl
        · rw [hn _ rfl]
          exact .join ..
  | joinDone hd hj =>
      rcases chopstxJoin_cases h hr hj with ⟨-, he, rfl⟩ | ⟨hb, -⟩
      · exact ⟨.inr hr.2, fun _ => ⟨hsh.head, .inl he⟩⟩
      · cases hb
  | joinWake => exact ⟨hr.active, fun hz => absurd hz htop.2⟩
  | poll hp => exact hp.top h hr hsh
  | exit hx =>
      obtain ⟨k₂, k₃, h₂, hm, hd⟩ := (chxExit_sleeps h hr hx).drift h ht (fun _ ho => ho.elim)
      obtain ⟨he, hv'⟩ := hm.die_thread
      obtain ⟨he', hv''⟩ := hd.ended_of he
      exact ⟨he', hv''.trans hv'⟩

end Top

/-! ## The machine -/

/-- **The invariant of the machine.** -/
structure MachineInv (cfg : Config) (s : State) : Prop where
  kernel : KernelInv none s.k
  value : ValueInv none s.k
  run : RunInv s.k
  shape : ∀ t, Shape cfg s.k.nthread (s.ctx t).frames
  top : ∀ t, t < s.k.nthread → TopOk s.k t (s.ctx t).ret (s.ctx t).frames
  fresh : ∀ t, s.k.nthread ≤ t → s.ctx t = {}

/-- The section of a step of a thread. -/
structure Section (cfg : Config) (k : Kernel) (t : Tid) (f : Frame) (k' : Kernel) : Prop where
  runs : Runs k t
  kernel : KernelInv none k
  fits : f.Fits k
  path : Path cfg (f.May cfg t) (none, k) (none, k')
  settled : Settled k'

/-- A step of a thread is a section of its innermost frame. -/
theorem MachineInv.section {lags : List Nat} (h : MachineInv cfg s)
    (hb : (s.k.systick.pending = true ∨ s.k.pendsv = true) → s.k.masked = true)
    (hr : s.k.running = some t) (hf : (s.ctx t).frames = f :: rest)
    (hn : Next cfg (s.k.setLags lags) t rest (s.ctx t).ret f k' ctx) :
    Section cfg (s.k.setLags lags) t f k' := by
  have hruns : Runs (s.k.setLags lags) t := (h.run.runs hb hr).1
  have hk := setLags_inv h.kernel lags
  have htop := h.top t (hruns.lt hk)
  have hshape := h.shape t
  rw [hf] at htop hshape
  have hfits : f.Fits (s.k.setLags lags) := TopOk.fits (k := s.k) htop hshape.head
  obtain ⟨hp, hset⟩ := hn.path hk hruns hfits
  exact ⟨hruns, hk, hfits, hp, hset⟩

/-- The section of a step: time passes in it at the accesses to the counter only. -/
theorem MachineInv.code (h : MachineInv cfg s) (hs : step cfg s e = .ok s') (he : e ≠ .tick) :
    Path cfg (fun op => s.May cfg e op ∧ op ≠ .pass) (none, s.k.setLags e.lags) (none, s'.k) := by
  cases step_stepTo hs with
  | tick => exact absurd rfl he
  | systick hp hm =>
      refine Move.path (.expire hp fun t ht => ?_) ⟨.inr rfl, by simp⟩
      exact (h.run.active t ht).imp id (·.1)
  | irq hi hm hk =>
      refine (chxHandleIntr_path (setLags_inv h.kernel _) hk).mono fun op hop => ⟨.inr hop, ?_⟩
      rintro rfl
      rcases hop with _ | hw | _
      cases hw
  | pendsv hp hm hk =>
      refine (preempt_path (setLags_inv h.kernel _) (fun t ht => ?_) hk).1.mono
        fun op hop => ⟨.inr hop, ?_⟩
      · exact (h.run.active t ht).imp id fun hr => ⟨hr.1, hr.2.1⟩
      · rintro rfl
        cases hop
  | run hb hr hf hn hstep =>
      refine (h.section hb hr hf hn).path.mono fun op hop => ⟨.inr ⟨_, _, _, hr, hf, hop⟩, ?_⟩
      rintro rfl
      exact hop.by

/-- **A step of the machine is a path of moves.** -/
theorem MachineInv.path (h : MachineInv cfg s) (hs : step cfg s e = .ok s') :
    Path cfg (s.May cfg e) (none, s.k) (none, s'.k) := by
  by_cases he : e = .tick
  · subst he
    cases step_stepTo hs with
    | tick => exact tick_move.path rfl
  · refine (setLags_move.path ?_).trans ((h.code hs he).mono fun _ hop => hop.1)
    cases e with
    | tick => exact absurd rfl he
    | _ => exact .inl rfl

/-- The moves of a step put only the running thread to sleep. -/
theorem State.May.connects {op : Op} (h : s.May cfg e op) (hc : op.Connects u) :
    s.k.running = some u ∧ ∃ c lags, e = .run c lags := by
  cases e with
  | tick =>
      cases h
      exact absurd hc id
  | systick lags => rcases h with rfl | rfl <;> exact absurd hc id
  | irq n lags =>
      rcases h with rfl | h
      · exact absurd hc id
      · rcases h with _ | hw | _
        · exact absurd hc id
        · cases hw <;> exact absurd hc id
        · exact absurd hc id
  | pendsv lags =>
      rcases h with rfl | h
      · exact absurd hc id
      · cases h <;> exact absurd hc id
  | run c lags =>
      rcases h with rfl | ⟨t, f, rest, hr, hf, hop⟩
      · exact absurd hc id
      · rw [hop.by.connects hc]
        exact ⟨hr, c, lags, rfl⟩

/-- A thread other than the one that makes the step drifts. -/
theorem MachineInv.drift (h : MachineInv cfg s) (hs : step cfg s e = .ok s')
    (hu : u < s.k.nthread) (hne : ∀ c lags, e = .run c lags → s.k.running ≠ some u) :
    Drift s.k s'.k u := by
  refine (h.path hs).drift h.kernel (fun op hop hc => ?_) hu
  obtain ⟨hr, c, lags, he⟩ := hop.connects hc
  exact hne c lags he hr

/-- Threads that have ended stay so. -/
theorem MachineInv.ended (h : MachineInv cfg s) (hs : step cfg s e = .ok s')
    (hu : u < s.k.nthread) (he : (s.k.thread u).state.Ended) : (s'.k.thread u).state.Ended := by
  refine ((h.drift hs hu fun c lags hev hr => ?_).ended_of he).1
  subst hev
  cases step_stepTo hs with
  | run hb hr' hf hn hstep =>
      have hrun := (h.run.runs hb hr).1.2
      rw [hrun] at he
      rcases he with he | he <;> cases he

/-- The handler of an interrupt neither switches nor masks. -/
theorem handles_path {n : Irq} (hp : Path cfg (Op.Handles n) (none, k) (none, k'))
    (h : KernelInv none k) : k'.running = k.running ∧ k'.masked = k.masked ∧
      (k.pendsv = true → k'.pendsv = true) ∧
      (∀ u, (k'.thread u).flagSchedRr = (k.thread u).flagSchedRr) ∧
      ∀ u, (k'.thread u).prio = (k.thread u).prio := by
  have key := hp.keeps (I := fun a => KernelInv a.1 a.2 ∧ a.2.running = k.running ∧
    a.2.masked = k.masked ∧ (k.pendsv = true → a.2.pendsv = true) ∧
    (∀ u, (a.2.thread u).flagSchedRr = (k.thread u).flagSchedRr) ∧
    ∀ u, (a.2.thread u).prio = (k.thread u).prio) ?_
    ⟨h, rfl, rfl, id, fun _ => rfl, fun _ => rfl⟩
  · exact key.2
  · rintro op ⟨off, k₁⟩ ⟨off', k₂⟩ hop hm ⟨hk, hr, hmask, hpend, hrr, hprio⟩
    have hrec : op.KeepsRecords := by
      rcases hop with _ | hw | _
      · trivial
      · cases hw <;> trivial
      · trivial
    refine ⟨hk.move hm, (hm.running hop.quiet hk).1.trans hr, ?_, fun hp => ?_, fun u => ?_,
      fun u => ?_⟩
    · refine (hm.masked hk ?_ ?_).trans hmask <;> rintro rfl <;> rcases hop with _ | hw | _ <;>
      cases hw
    · by_cases hpt : op = .pend true
      · subst hpt
        cases hm with
        | pend b => rfl
      · refine (hm.pendsv hk ?_ ?_).trans (hpend hp)
        · rintro b rfl
          rcases hop with _ | hw | _
          · cases hw
          · exact hpt rfl
        · rintro rfl
          rcases hop with _ | hw | _
          cases hw
    · rw [hm.record hk hrec u]
      exact hrr u
    · rw [hm.record hk hrec u]
      exact hprio u

/-- **The exceptions and the steps of threads keep `running` right.** -/
theorem MachineInv.run_step (h : MachineInv cfg s) (hs : step cfg s e = .ok s') : RunInv s'.k := by
  have hr := h.run
  cases step_stepTo hs with
  | tick => exact ⟨hr.active, hr.unmasked⟩
  | systick hp hm =>
      rename_i lags
      have he := chxTimerExpired_expired (setLags_inv h.kernel lags)
      refine ⟨fun t ht => ?_, fun _ => he.masked.trans hm⟩
      rw [he.running] at ht
      by_cases hmem : .thread t ∈ (s.k.setLags lags).expired
      · rw [he.self t hmem]
        refine .inr ⟨rfl, ?_, he.preempts t hmem ht⟩
        rcases hr.active t ht with hst | hst
        · exact h.kernel.schedRr_of_mem_timer (he.mem _ hmem) hst
        · exact hst.2.1
      · rw [he.others t hmem]
        exact (hr.active t ht).imp id fun hst => ⟨hst.1, hst.2.1, he.pendsv hst.2.2⟩
  | irq hi hm hk =>
      rename_i n lags k'
      have hk₀ := setLags_inv h.kernel lags
      have hp : Path cfg (Op.Handles n) (none, s.k.setLags lags) (none, k') :=
        chxHandleIntr_path hk₀ hk
      obtain ⟨hrun, hmask, hpend, hrr, -⟩ := handles_path hp hk₀
      refine ⟨fun t ht => ?_, fun _ => hmask.trans hm⟩
      rw [hrun] at ht
      rcases hr.active t ht with hst | hst
      · exact .inl (hp.runs (fun _ => Op.Handles.quiet) hk₀ ⟨ht, hst⟩).1.2
      · have hd := hp.drift hk₀ (fun op hop hc => ?_) (hk₀.born t ht)
        · rcases hd.active_of (.inl hst.1) with hs' | hs'
          · exact .inr ⟨hs', (hrr t).trans hst.2.1, hpend hst.2.2⟩
          · exact .inl hs'
        · rcases hop with _ | hw | _
          · exact hc
          · cases hw <;> exact hc
          · exact hc
  | pendsv hp hm hk =>
      rename_i lags k'
      have hset := (preempt_path (setLags_inv h.kernel lags) (fun t ht =>
        (hr.active t ht).imp id fun hst => ⟨hst.1, hst.2.1⟩) hk).2
      exact .of_settled hset (preempt_pendsv hk)
  | run hb hrun hf hn hstep =>
      rename_i c lags t f rest k' ctx
      have hpend := (hr.runs hb hrun).2
      have hsec := h.section hb hrun hf hn
      refine .of_settled hsec.settled ?_
      have key := hsec.path.keeps (I := fun a => KernelInv a.1 a.2 ∧ a.2.pendsv = false) ?_
        ⟨setLags_inv h.kernel lags, hpend⟩
      · exact key.2
      · rintro op ⟨off, k₁⟩ ⟨off', k₂⟩ hop hm ⟨hk, hpf⟩
        refine ⟨hk.move hm, (hm.pendsv hk ?_ ?_).trans hpf⟩
        · rintro b rfl
          exact hop.by
        · rintro rfl
          exact hop.by

/-- **Every step keeps the invariant of the machine.** -/
theorem MachineInv.keeps (h : MachineInv cfg s) (hs : step cfg s e = .ok s') :
    MachineInv cfg s' := by
  have hpath := h.path hs
  have hn := hpath.nthread_le h.kernel
  have hended := fun tp hlt he => h.ended hs (u := tp) hlt he
  have hothers : ∀ u, u < s.k.nthread → s'.ctx u = s.ctx u →
      (∀ c lags, e = .run c lags → s.k.running ≠ some u) →
      TopOk s'.k u (s'.ctx u).ret (s'.ctx u).frames := by
    intro u hu hctx hne
    rw [hctx]
    exact (h.top u hu).drift (h.drift hs hu hne) hended hn
  have hborn : ∀ u, s.k.nthread ≤ u → u < s'.k.nthread → (s'.k.thread u).state.Active := by
    refine hpath.born h.kernel (fun op u hop hc => ?_) le_rfl
      fun u h₁ h₂ => absurd h₁ (not_le.2 h₂)
    exact h.kernel.born u (hop.connects hc).1
  have hnew : ∀ u, s.k.nthread ≤ u → s'.ctx u = {} → u < s'.k.nthread →
      TopOk s'.k u (s'.ctx u).ret (s'.ctx u).frames := by
    intro u hu hctx hlt
    rw [hctx]
    exact hborn u hu hlt
  have hquiet : s'.ctx = s.ctx → (∀ c lags, e ≠ .run c lags) → MachineInv cfg s' := by
    intro hctx hne
    refine ⟨h.kernel.path hpath, h.value.path hpath h.kernel, h.run_step hs, fun u => ?_,
      fun u hu => ?_, fun u hu => ?_⟩
    · rw [hctx]
      exact (h.shape u).mono hn
    · by_cases hu' : u < s.k.nthread
      · exact hothers u hu' (congrFun hctx u) fun c lags he => absurd he (hne c lags)
      · have hfresh := h.fresh u (not_lt.1 hu')
        exact hnew u (not_lt.1 hu') ((congrFun hctx u).trans hfresh) hu
    · rw [hctx]
      exact h.fresh u (hn.trans hu)
  cases hst : step_stepTo hs with
  | tick | systick | irq | pendsv => exact hquiet rfl (by simp)
  | run hb hrun hf hnext hstep =>
      rename_i c lags t f rest k' ctx
      have hruns := (h.run.runs hb hrun).1
      have ht := hruns.lt h.kernel
      have htop := h.top t ht
      have hshape := h.shape t
      rw [hf] at htop hshape
      have hne : ∀ u, u ≠ t → ∀ c' lags', Event.run c lags = .run c' lags' →
          s.k.running ≠ some u := by
        rintro u hut - - - hr
        exact hut (Option.some.inj (hr.symm.trans hrun))
      refine ⟨h.kernel.path hpath, h.value.path hpath h.kernel, h.run_step hs, fun u => ?_,
        fun u hu => ?_, fun u hu => ?_⟩
      · by_cases hut : u = t
        · subst hut
          simp only [Function.update_self]
          exact (hnext.shape hshape).mono hn
        · simp only [Function.update_of_ne hut]
          exact (h.shape u).mono hn
      · by_cases hut : u = t
        · subst hut
          simp only [Function.update_self]
          have hv : ValueInv none (s.k.setLags lags) :=
            ⟨h.value.fresh, h.value.plain, h.value.slice⟩
          exact hnext.top (setLags_inv h.kernel lags) hruns hv hshape htop
        · have hctx : Function.update s.ctx t ctx u = s.ctx u := Function.update_of_ne hut _ _
          by_cases hu' : u < s.k.nthread
          · exact hothers u hu' hctx (hne u hut)
          · exact hnew u (not_lt.1 hu') (hctx.trans (h.fresh u (not_lt.1 hu'))) hu
      · have hut : u ≠ t := by
          rintro rfl
          exact absurd (ht.trans_le hn) (not_lt.2 hu)
        simp only [Function.update_of_ne hut]
        exact h.fresh u (hn.trans hu)

/-! ## The first state -/

/-- The kernel in which `main` starts, but for the slice of a round-robin `main`. -/
def mainKernel (cfg : Config) : Kernel where
  running := some 0
  nthread := 1
  thread := Function.update (fun _ => {}) 0
    { state := .running
      flagDetached := cfg.mainDetached
      flagSchedRr := cfg.mainSchedRr
      prioOrig := cfg.prioMainInit
      prio := cfg.prioMainInit }
  masked := decide (prioInhibitPreemption ≤ cfg.prioMainInit)

theorem initKernel_eq (cfg : Config) : initKernel cfg =
    if cfg.mainSchedRr then (mainKernel cfg).chxTimerInsert cfg 0 cfg.preemptionUsec
    else mainKernel cfg := rfl

theorem mainKernel_thread_zero : (mainKernel cfg).thread 0 =
    { state := .running
      flagDetached := cfg.mainDetached
      flagSchedRr := cfg.mainSchedRr
      prioOrig := cfg.prioMainInit
      prio := cfg.prioMainInit } := rfl

theorem mainKernel_thread_of_ne (hu : u ≠ 0) : (mainKernel cfg).thread u = {} := by
  simp [mainKernel, Function.update_of_ne hu]

theorem mainKernel_inv : KernelInv (some 0) (mainKernel cfg) := by
  have hout : ∀ u, ((mainKernel cfg).place u).IsOut := fun u => rfl
  have hprio := cfg.prioMainInit_lt
  refine ⟨fun u hu => ?_, fun u _ => hout u, ?_, by rintro _ ⟨⟩, by rintro _ _ ⟨⟩, fun u hu => ?_,
    fun u hu => ?_, fun u hu => ?_, fun u => ?_, fun u => ?_⟩
  · have hu' : u ≠ 0 := by
      rintro rfl
      exact hu rfl
    rw [Place.WellFormed, place_state, mainKernel_thread_of_ne hu']
    exact hout u
  · exact ⟨by rintro _ ⟨⟩, List.nodup_nil, by simp [mainKernel], by rintro _ ⟨⟩,
      fun hne => absurd rfl hne⟩
  · by_cases hu' : u = 0
    · rw [hu']
      rfl
    · rw [mainKernel_thread_of_ne hu'] at hu
      cases hu
  · cases hu
    exact Nat.one_pos
  · have hu' : u ≠ 0 := by
      rintro rfl
      exact absurd hu (by simp [mainKernel])
    rw [mainKernel_thread_of_ne hu']
    exact ⟨rfl, rfl⟩
  · by_cases hu' : u = 0
    · rw [hu']
      exact hprio
    · rw [mainKernel_thread_of_ne hu']
      exact Nat.zero_lt_succ _
  · by_cases hu' : u = 0
    · rw [hu']
      exact hprio
    · rw [mainKernel_thread_of_ne hu']
      exact Nat.zero_lt_succ _

/-- A thread that already runs gets a slice. -/
theorem KernelInv.sliced_running (h : KernelInv (some t) k) (hs : (k.thread t).state = .running)
    (hrr : (k.thread t).flagSchedRr = true) :
    KernelInv none (k.chxTimerInsert cfg t cfg.preemptionUsec) := by
  have hnot : .thread t ∉ k.queue .timer := h.notMem_of_out
  have hout := h.out t rfl
  have hT := h.timer
  have hth : ∀ u, (k.chxTimerInsert cfg t cfg.preemptionUsec).thread u =
      { k.thread u with
        v := (k.chxTimerInsert cfg t cfg.preemptionUsec).vals u
        parent := if u = t then some .timer else (k.thread u).parent } := fun u =>
    chxTimerInsert_thread hT
  have hrest : (k.chxTimerInsert cfg t cfg.preemptionUsec).nthread = k.nthread ∧
      (k.chxTimerInsert cfg t cfg.preemptionUsec).running = k.running := by
    rw [chxTimerInsert_eq hT.threads]
    exact ⟨rfl, rfl⟩
  refine h.relocate (.inr rfl) hrest.1 (fun u hu => h.born u (hrest.2 ▸ hu)) (fun u hu => ?_)
    (place_chxTimerInsert hT) ?_ (fun u hut => ?_) (h.lt_of_off hs) ?_ ?_
    (hT.insert hnot (slice_ticks cfg).1 (slice_ticks cfg).2)
    (h.readyThreads.congr (chxTimerInsert_queue_of_ne hT (by simp)))
    (fun m => (h.mtxThreads m).congr (chxTimerInsert_queue_of_ne hT (by simp)))
  · rw [hrest.2]
    refine h.one u ?_
    rw [place_state, hth u] at hu
    exact hu
  · rw [Place.WellFormed]
    simp only [place_state, place_schedRr, hs, hrr, if_true]
    exact ⟨rfl, by simp only [show (k.place t).links = 0 from hout, zero_add]⟩
  · rw [hth u, if_neg hut]
  · rw [hth t]
    exact h.prio t
  · rw [hth t]
    exact h.prioOrig t

theorem initKernel_inv (cfg : Config) : KernelInv none (initKernel cfg) := by
  have h : KernelInv (some 0) (mainKernel cfg) := mainKernel_inv
  rw [initKernel_eq]
  split
  · rename_i hrr
    exact h.sliced_running rfl hrr
  · rename_i hrr
    have hwf : ((mainKernel cfg).place 0).WellFormed := by
      rw [Place.WellFormed]
      simp only [place_state, place_schedRr, mainKernel_thread_zero, hrr]
      exact h.out 0 rfl
    refine ⟨fun u _ => ?_, by simp, h.timer, h.readyThreads, h.mtxThreads, h.one, h.born,
      h.unborn, h.prio, h.prioOrig⟩
    by_cases hu : u = 0
    · rw [hu]
      exact hwf
    · exact h.place u fun e => hu (Option.some.inj e).symm

/-- A slice is positive. -/
theorem initKernel_slice (hrr : ((initKernel cfg).thread 0).flagSchedRr = true) :
    0 < ((initKernel cfg).thread 0).v := by
  rw [initKernel_eq] at hrr ⊢
  split at hrr
  · rename_i hs
    rw [if_pos hs, chxTimerInsert_thread (mainKernel_inv).timer,
      chxTimerInsert_vals (mainKernel_inv).timer]
    exact insertVals_pos cfg (k := mainKernel cfg) (t := 0)
  · rename_i hs
    exact absurd hrr hs

/-- The record of a thread in the first state. -/
theorem initKernel_thread (cfg : Config) (u : Tid) : ∃ v q, (initKernel cfg).thread u =
    { (mainKernel cfg).thread u with v := v, parent := q } := by
  rw [initKernel_eq]
  split
  · exact ⟨_, _, chxTimerInsert_thread (mainKernel_inv).timer⟩
  · exact ⟨_, _, rfl⟩

theorem initKernel_rest (cfg : Config) : (initKernel cfg).running = some 0 ∧
    (initKernel cfg).nthread = 1 ∧ (initKernel cfg).pendsv = false ∧
    (initKernel cfg).masked = decide (prioInhibitPreemption ≤ cfg.prioMainInit) ∧
    (initKernel cfg).objects = (mainKernel cfg).objects ∧
    (initKernel cfg).ghost.wake = fun _ => none := by
  rw [initKernel_eq]
  split
  · rw [chxTimerInsert_eq (mainKernel_inv).timer.threads]
    exact ⟨rfl, rfl, rfl, rfl, rfl, rfl⟩
  · exact ⟨rfl, rfl, rfl, rfl, rfl, rfl⟩

theorem init_inv (cfg : Config) : MachineInv cfg (init cfg) := by
  obtain ⟨hrun, hn, hpend, hmask, -, hwake⟩ := initKernel_rest cfg
  have hk := initKernel_inv cfg
  have hzero : ((initKernel cfg).thread 0).state = .running := by
    obtain ⟨v, q, hth⟩ := initKernel_thread cfg 0
    rw [hth]
    rfl
  have hvalue : ValueInv none (initKernel cfg) := by
    refine ⟨fun u _ => congrFun hwake u, fun u _ _ w v hwv => ?_, fun u hs hrr _ => ?_⟩
    · rw [hwake] at hwv
      cases hwv
    · have hu := hk.one u hs
      rw [hrun] at hu
      cases hu
      exact initKernel_slice hrr
  have hruns : RunInv (initKernel cfg) := by
    refine ⟨fun u hu => ?_, fun hp => ?_⟩
    · rw [hrun] at hu
      cases hu
      exact .inl hzero
    · rw [hpend] at hp
      cases hp
  refine ⟨hk, hvalue, hruns, fun u => .single trivial trivial, fun u hu => ?_, fun u _ => rfl⟩
  have hu' : u = 0 := by
    have : u < 1 := hn ▸ hu
    omega
  rw [hu']
  exact .inr hzero

/-- **The invariant holds in every reachable state of every run.** -/
theorem machineInv_of_reach {ok : State → Event → Prop} (h : Reach (step cfg) ok (init cfg) s) :
    MachineInv cfg s :=
  h.invariant (init_inv cfg) fun _ _ _ hi _ hs => hi.keeps hs

end Chopstx
