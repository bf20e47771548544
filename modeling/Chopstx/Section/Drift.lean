import Chopstx.Section.Frame

/-!
# What happens to a thread that does nothing itself

A thread that is not the one which goes to sleep, ends or is created keeps its state,
goes from one of the states of running and ready to the other, or is woken up.  In the
last case the waker has noted itself and the value that it stored.

* `Active` - running, or about to; `WokenBy` - who can wake a thread that waits in a given state.
* `Drift` - the three cases, and `Move.drift`, `Path.drift` - a move and a sequence of moves let
  every thread drift that they do not connect to anything.
* `Path.nthread_le`, `Path.ncall_le`, `Path.born` - threads and calls of `chopstx_poll` that come
  into being on the way.
-/

namespace Chopstx

open Kernel

/-! ## States -/

namespace ThreadState

/-- Running, or about to. -/
def Active (s : ThreadState) : Prop := s = .ready ∨ s = .running

def Ended (s : ThreadState) : Prop := s = .exited ∨ s = .finished

@[simp] theorem active_ready : Active .ready := .inl rfl

@[simp] theorem active_running : Active .running := .inr rfl

theorem Ended.not_active {s : ThreadState} (h : s.Ended) : ¬ s.Active := by
  rcases h with rfl | rfl <;> simp [Active]

end ThreadState

/-- Who wakes a thread that waits in this state, its `parent` being this queue, and
the value. -/
inductive WokenBy : ThreadState → Option Qh → Waker → Nat → Prop
  | mtx (m : Mid) : WokenBy .waitMtx (some (.mtx m)) (.handOver m) 0
  | cnd {q : Option Qh} {w : Waker} {v : Nat} : WakesUntimed w v → WokenBy .waitCnd q w v
  | join {q : Option Qh} {w : Waker} {v : Nat} : WakesUntimed w v → WokenBy .waitExit q w v
  | timed {s : ThreadState} {q : Option Qh} {n : Nat} {w : Waker} {v : Nat} :
      s = .waitTime ∨ s = .waitPoll → WakesTimed n w v → WokenBy s q w v
  | expired {s : ThreadState} {q : Option Qh} : s = .waitTime ∨ s = .waitPoll →
      WokenBy s q .timer 0
  | loose {q : Option Qh} {w : Waker} {v : Nat} : WakesUntimed w v → WokenBy .waitPoll q w v

theorem WokenBy.not_active {s : ThreadState} {q : Option Qh} {w : Waker} {v : Nat}
    (h : WokenBy s q w v) : ¬ s.Active := by
  cases h with
  | timed hs _ => rcases hs with rfl | rfl <;> simp [ThreadState.Active]
  | expired hs => rcases hs with rfl | rfl <;> simp [ThreadState.Active]
  | _ => simp [ThreadState.Active]

theorem WokenBy.not_ended {s : ThreadState} {q : Option Qh} {w : Waker} {v : Nat}
    (h : WokenBy s q w v) : ¬ s.Ended := by
  cases h with
  | timed hs _ => rcases hs with rfl | rfl <;> simp [ThreadState.Ended]
  | expired hs => rcases hs with rfl | rfl <;> simp [ThreadState.Ended]
  | _ => simp [ThreadState.Ended]

/-- What may happen to the thread `u`. -/
inductive Drift (k k' : Kernel) (u : Tid) : Prop
  | same (hn : ¬ (k.thread u).state.Active) (hs : (k'.thread u).state = (k.thread u).state)
      (hp : (k'.thread u).parent = (k.thread u).parent)
      (hv : (k.thread u).state ≠ .waitTime → (k.thread u).state ≠ .waitPoll →
        (k'.thread u).v = (k.thread u).v)
      (hw : k'.ghost.wake u = k.ghost.wake u)
  | active (hs : (k.thread u).state.Active) (hs' : (k'.thread u).state.Active)
      (hw : k'.ghost.wake u = k.ghost.wake u)
  | ended (hs : (k.thread u).state.Ended) (hs' : (k'.thread u).state.Ended)
      (hv : (k'.thread u).v = (k.thread u).v)
  | woken {w : Waker} {v : Nat} (hb : WokenBy (k.thread u).state (k.thread u).parent w v)
      (hs' : (k'.thread u).state.Active) (hw : k'.ghost.wake u = some (w, v))

namespace Drift

variable {k k₁ k₂ : Kernel} {u : Tid}

theorem of_eq (hs : (k₁.thread u).state = (k.thread u).state)
    (hp : (k₁.thread u).parent = (k.thread u).parent)
    (hv : (k.thread u).state ≠ .waitTime → (k.thread u).state ≠ .waitPoll →
      ¬ (k.thread u).state.Active → (k₁.thread u).v = (k.thread u).v)
    (hw : k₁.ghost.wake u = k.ghost.wake u) : Drift k k₁ u := by
  by_cases ha : (k.thread u).state.Active
  · exact .active ha (hs ▸ ha) hw
  · exact .same ha hs hp (fun h₁ h₂ => hv h₁ h₂ ha) hw

theorem refl : Drift k k u := of_eq rfl rfl (fun _ _ _ => rfl) rfl

theorem trans (h : Drift k k₁ u) (h' : Drift k₁ k₂ u) : Drift k k₂ u := by
  cases h with
  | same hn hs hp hv hw =>
      cases h' with
      | same hn' hs' hp' hv' hw' =>
          refine .same hn (hs'.trans hs) (hp'.trans hp) (fun h₁ h₂ => ?_) (hw'.trans hw)
          rw [hv' (hs ▸ h₁) (hs ▸ h₂), hv h₁ h₂]
      | active ha _ _ => exact absurd (hs ▸ ha) hn
      | ended he he' hv' =>
          rw [hs] at he
          refine .ended he he' (hv'.trans (hv ?_ ?_)) <;>
          rcases he with he | he <;> simp [he]
      | woken hb ha hw' =>
          rw [hs, hp] at hb
          exact .woken hb ha hw'
  | active ha ha' hw =>
      cases h' with
      | same hn' _ _ _ _ => exact absurd ha' hn'
      | active _ ha'' hw' => exact .active ha ha'' (hw'.trans hw)
      | ended he _ _ => exact absurd ha' he.not_active
      | woken hb _ _ => exact absurd ha' hb.not_active
  | ended he he' hv =>
      cases h' with
      | same _ hs' _ hv' _ =>
          refine .ended he (hs' ▸ he') ((hv' ?_ ?_).trans hv) <;>
          rcases he' with he' | he' <;> simp [he']
      | active ha _ _ => exact absurd ha he'.not_active
      | ended _ he'' hv' => exact .ended he he'' (hv'.trans hv)
      | woken hb _ _ => exact absurd he' hb.not_ended
  | woken hb ha hw =>
      cases h' with
      | same hn' _ _ _ _ => exact absurd ha hn'
      | active _ ha' hw' => exact .woken hb ha' (hw'.trans hw)
      | ended he _ _ => exact absurd ha he.not_active
      | woken hb' _ _ => exact absurd ha hb'.not_active

theorem active_of (hd : Drift k k₁ u) (ha : (k.thread u).state.Active) :
    (k₁.thread u).state.Active := by
  cases hd with
  | same hn _ _ _ _ => exact absurd ha hn
  | active _ ha' _ => exact ha'
  | ended he _ _ => exact absurd ha he.not_active
  | woken _ ha' _ => exact ha'

theorem ended_of (hd : Drift k k₁ u) (he : (k.thread u).state.Ended) :
    (k₁.thread u).state.Ended ∧ (k₁.thread u).v = (k.thread u).v := by
  cases hd with
  | same hn hs hp hv hw =>
      refine ⟨hs ▸ he, hv ?_ ?_⟩ <;> rcases he with he | he <;> simp [he]
  | active ha _ _ => exact absurd ha he.not_active
  | ended _ he' hv => exact ⟨he', hv⟩
  | woken hb _ _ => exact absurd he hb.not_ended

end Drift

variable {cfg : Config} {k k' : Kernel} {t u : Tid} {off off' : Option Tid} {op : Op}
  {P : Op → Prop}

theorem Untouched.drift (h : Untouched k k' u) (hk : KernelInv off k)
    (hw : k'.ghost.wake u = k.ghost.wake u) : Drift k k' u := by
  refine .of_eq h.state (by rw [h.thread]) (fun h₁ h₂ hn => h.value fun hm => ?_) hw
  rcases hk.holds_of_mem hm with hs | hs | hs
  · exact h₁ hs
  · exact h₂ hs
  · exact hn (.inr hs)

/-- What happens to the target of a wake-up. -/
theorem WakesQueued.wokenBy {q : Qh} {w : Waker} {v : Nat} (hw : WakesQueued q w v)
    (hin : (k.place u).IsIn q) (hwf : (k.place u).WellFormed) :
    WokenBy (k.thread u).state (k.thread u).parent w v := by
  have hs := hwf.holds hin
  have hp : (k.thread u).parent = some q := hin.1
  rw [hp]
  cases hw with
  | handOver m =>
      rw [show (k.thread u).state = .waitMtx from hs]
      exact .mtx m
  | cnd c hw =>
      rw [show (k.thread u).state = .waitCnd from hs]
      exact .cnd hw
  | join hw =>
      rw [show (k.thread u).state = .waitExit from hs]
      exact .join hw

/-- In a context switch every thread drifts. -/
theorem switchThread_drift (h : KernelInv none k) : Drift k (k.switchThread cfg) u := by
  rcases switchThread_switched cfg h with ⟨-, heq⟩ | ⟨t, hsw⟩
  · rw [heq]
    exact .of_eq rfl rfl (fun _ _ _ => rfl) rfl
  · by_cases hut : u = t
    · subst hut
      exact .active (.inl hsw.ready) (by rw [hsw.self]; exact .inr rfl) (by rw [hsw.wake])
    · refine .of_eq (by rw [hsw.others u hut]) (by rw [hsw.others u hut]) (fun h₁ h₂ hn => ?_)
        (by rw [hsw.wake])
      refine hsw.value u hut fun hm => ?_
      rcases h.holds_of_mem hm with hs | hs | hs
      · exact h₁ hs
      · exact h₂ hs
      · exact hn (.inr hs)

/-- **A move lets every thread drift** that it does not connect to anything. -/
theorem Move.drift (hm : Move cfg op (off, k) (off', k')) (h : KernelInv off k)
    (hc : ¬ op.Connects u) (hu : u < k.nthread) : Drift k k' u := by
  by_cases hsw : op = .switch
  · subst hsw
    cases hm with
    | switch hs => exact switchThread_drift h
  by_cases hex : op = .expire
  · subst hex
    cases hm with
    | expire hp hr =>
        have he := chxTimerExpired_expired h
        have hw := he.wake u
        by_cases hmem : .thread u ∈ k.expired
        · have hs' : (((k.setSystick { k.systick with pending := false }).chxTimerExpired).thread
              u).state.Active := by
            rw [he.self u hmem]
            exact .inl rfl
          by_cases hrun : k.running = some u
          · rw [if_neg (by simp [hrun])] at hw
            exact .active (by rcases hr u hrun with hs | hs <;> simp [hs]) hs' hw
          · rw [if_pos ⟨hmem, hrun⟩] at hw
            refine .woken (.expired ?_) hs' hw
            rcases h.holds_of_mem (he.mem _ hmem) with hs | hs | hs
            · exact .inl hs
            · exact .inr hs
            · exact absurd (h.one u hs) hrun
        · rw [if_neg (by simp [hmem])] at hw
          refine .of_eq ?_ ?_ (fun _ _ _ => ?_) hw <;> rw [he.others u hmem]
  by_cases ht : op.target = some u
  · cases hm with
    | flags | prio | acquire | drop =>
        cases ht
        refine .of_eq ?_ ?_ (fun _ _ _ => ?_) rfl <;> simp [acquire_thread, dropMutex_thread]
    | raise hp hlt hq hst =>
        cases ht
        refine .of_eq ?_ ?_ (fun _ _ _ => ?_) rfl
        · simp [llPrioEnqueue_thread, setPrio]
        · simp only [llPrioEnqueue_thread, Function.update_self]
          exact hq.1.symm
        · simp [llPrioEnqueue_thread, setPrio]
    | wakeTimed hs hd hw =>
        cases ht
        refine .woken (.timed hs hw) ?_ (Function.update_self ..)
        rw [resume_thread, Function.update_self]
        exact .inl rfl
    | wakeQueued hq hw =>
        cases ht
        refine .woken (hw.wokenBy hq (h.place' _)) ?_ (Function.update_self ..)
        rw [resume_thread, Function.update_self]
        exact .inl rfl
    | wakeLoose hs hp hw =>
        cases ht
        refine .woken (hs ▸ .loose hw) ?_ (Function.update_self ..)
        rw [resume_thread, Function.update_self]
        exact .inl rfl
    | slice hr hs he =>
        cases ht
        have hm' : Move cfg (.slice u) (none, k) (some u, k') := .slice hr hs he
        refine .active (.inr hs) (.inr ?_) (hm'.wake_eq h (by simp) (by simp))
        rw [(h.slice hs he).2.2.2 u]
        exact hs
    | yield hs =>
        cases ht
        refine .active (.inr hs) (.inl ?_) rfl
        simp [chxReadyEnqueue_thread]
    | push hr hs hf =>
        cases ht
        refine .active (.inr hs) (.inl ?_) rfl
        simp [chxReadyPush_thread]
    | norun hr hs =>
        cases ht
        exact .active (.inl hs) (.inl hs) rfl
    | finish hlt hs =>
        cases ht
        refine .ended hs (.inr ?_) ?_ <;> simp
    | create fp =>
        cases ht
        exact absurd hu (lt_irrefl _)
    | block | sleep | pollSleep | die => cases ht; exact absurd rfl hc
    | _ => cases ht
  · exact (hm.untouched h ht hsw hex).drift h (hm.wake_eq h (fun w hw => ht (hw ▸ rfl)) hex)

theorem Path.nthread_le (hp : Path cfg P (off, k) (off', k')) (h : KernelInv off k) :
    k.nthread ≤ k'.nthread := by
  have key := hp.keeps (I := fun a => KernelInv a.1 a.2 ∧ k.nthread ≤ a.2.nthread) ?_ ⟨h, le_rfl⟩
  · exact key.2
  · rintro op ⟨off, k₁⟩ ⟨off', k₂⟩ hop hm ⟨hk, hn⟩
    exact ⟨hk.move hm, hn.trans (hm.nthread_le hk)⟩

theorem Path.ncall_le (hp : Path cfg P (off, k) (off', k')) (h : KernelInv off k) :
    k.ncall ≤ k'.ncall := by
  have key := hp.keeps (I := fun a => KernelInv a.1 a.2 ∧ k.ncall ≤ a.2.ncall) ?_ ⟨h, le_rfl⟩
  · exact key.2
  · rintro op ⟨off, k₁⟩ ⟨off', k₂⟩ hop hm ⟨hk, hn⟩
    exact ⟨hk.move hm, hn.trans (hm.ncall_le hk)⟩

/-- So does a path. -/
theorem Path.drift (hp : Path cfg P (off, k) (off', k')) (h : KernelInv off k)
    (hc : ∀ op, P op → ¬ op.Connects u) (hu : u < k.nthread) : Drift k k' u := by
  have key := hp.keeps
    (I := fun a => KernelInv a.1 a.2 ∧ u < a.2.nthread ∧ Drift k a.2 u) ?_ ⟨h, hu, .refl⟩
  · exact key.2.2
  · rintro op ⟨off, k₁⟩ ⟨off', k₂⟩ hop hm ⟨hk, hlt, hd⟩
    exact ⟨hk.move hm, hlt.trans_le (hm.nthread_le hk), hd.trans (hm.drift hk (hc op hop) hlt)⟩

/-- A thread created on the way is about to run. -/
theorem Path.born {n : Nat} (hp : Path cfg P (off, k) (off', k')) (h : KernelInv off k)
    (hc : ∀ op u, P op → op.Connects u → u < n) (hn : n ≤ k.nthread)
    (hk : ∀ u, n ≤ u → u < k.nthread → (k.thread u).state.Active) :
    ∀ u, n ≤ u → u < k'.nthread → (k'.thread u).state.Active := by
  have key := hp.keeps (I := fun a => KernelInv a.1 a.2 ∧ n ≤ a.2.nthread ∧
    ∀ u, n ≤ u → u < a.2.nthread → (a.2.thread u).state.Active) ?_ ⟨h, hn, hk⟩
  · exact key.2.2
  · rintro op ⟨off, k₁⟩ ⟨off', k₂⟩ hop hm ⟨hk, hn, hact⟩
    refine ⟨hk.move hm, hn.trans (hm.nthread_le hk), fun u hu hlt => ?_⟩
    by_cases hu' : u < k₁.nthread
    · have hd := hm.drift hk (fun hc' => absurd (hc op u hop hc') (not_lt.2 hu)) hu'
      cases hd with
      | same hna _ _ _ _ => exact absurd (hact u hu hu') hna
      | active _ ha _ => exact ha
      | ended he _ _ => exact absurd (hact u hu hu') he.not_active
      | woken _ ha _ => exact ha
    · by_cases hop' : op.KeepsObjects
      · rw [show k₂.nthread = k₁.nthread from congrArg Objects.nthread (hm.objects hk hop')] at hlt
        exact absurd hlt hu'
      · cases hm with
        | create fp =>
            have hu₁ : u = k₁.nthread := by
              have : u < k₁.nthread + 1 := hlt
              omega
            rw [hu₁, chxReadyEnqueue_thread, Function.update_self]
            exact .inl rfl
        | aux | count | acquire | drop | proxy | fire | link | ready | enable | disable =>
            exact absurd hlt hu'
        | _ => exact absurd trivial hop'

end Chopstx
