import Chopstx.Property.Cancel

/-!
# Clean-up routines

`chopstx_exit` takes the list of the clean-up structures away from the thread and calls their
routines in a loop.  If one of them comes to `chopstx_exit` again, be it by a call or at a
cancellation point, the loop is never gone on with, and the routines that are left are not
called.  In all other runs every routine is called once, the last one registered first, before
the mutexes of the thread are released.

* `Duty`, `CleanupAct` - what is still to be called, and what a thread does about it; `CleanedUp` is
  the promise, about the list of these acts.
* `Duty.calls_eq` - what the promise says of the routines that are called.
* `breaksOff`, `Undisturbed` - the step that leads out of a loop with routines left, and the runs
  without one.
* `Track`, `Next.track` - the list of the thread is what is left of the duty: the step lemma, by
  cases on `Next`, and `Tracked.step` for steps of any thread.
* `cleaned_up` - the result about runs, and `cleaned_up_two` a run with two routines.
* `not_cleaned_up` - a run with a routine that is not called.
-/

namespace Chopstx

open Kernel Transition

/-! ## What is to be done -/

/-- What a thread does with clean-up structures: it registers one, takes the last one back,
begins to terminate, calls a routine as it terminates, or releases a mutex as it terminates or
ends. -/
inductive CleanupAct where
  | push (routine : Nat)
  | pop
  | start
  | call (routine : Nat)
  | release
  deriving DecidableEq, Repr

/-- The structures that are registered, and, for a thread that terminates, those whose routines
are still to be called. -/
structure Duty where
  registered : List Nat := []
  left : Option (List Nat) := none
  deriving DecidableEq, Repr

/-- A thread that terminates calls the routines of all structures that are registered then, the
last one first.  Before it has done so it does not terminate anew and releases no mutex. -/
def Duty.next (d : Duty) : CleanupAct → Option Duty
  | .push r => some { d with registered := r :: d.registered }
  | .pop => some { d with registered := d.registered.tail }
  | .start => if d.left = none ∨ d.left = some [] then some ⟨[], some d.registered⟩ else none
  | .call r =>
      match d.left with
      | some (r' :: rs) => if r' = r then some { d with left := some rs } else none
      | _ => none
  | .release => if d.left = some [] then some d else none

/-- **What the documentation promises** for what a thread has done so far. -/
def CleanedUp (l : List CleanupAct) : Prop := (l.foldlM Duty.next {}).isSome

instance : DecidablePred CleanedUp := fun _ => inferInstanceAs (Decidable (_ = true))

/-- What a frame does with clean-up structures in its next step. -/
def Frame.cleanupActs : Frame → List CleanupAct
  | .cleanupPush r => [.push r]
  | .cleanupPop _ => [.pop]
  | .exitStart _ => [.start]
  | .exitCleanup (r :: _) _ => [.call r]
  | .exitUnlock _ _ _ | .exit _ => [.release]
  | _ => []

/-- What the thread `t` does in a step. -/
def cleanupActs (t : Tid) (s : State) : Event → List CleanupAct
  | .run _ _ =>
      match s.top with
      | some (t', f) => if t' = t then f.cleanupActs else []
      | none => []
  | _ => []

/-- The next step of the frame begins `chopstx_exit`, or leads to it. -/
def Frame.exits (k : Kernel) (t : Tid) : Frame → Bool
  | .exitStart _ => true
  | .testcancel => (k.thread t).flagCancelable && (k.thread t).flagGotCancel
  | .condRet _ r | .joinRet _ _ r => decide (r < 0)
  | .poll P (.cleanup i r) => decide (P.pds[i]? = none ∧ r < 0)
  | _ => false

/-- The loop of `chopstx_exit` has routines to call. -/
def Frame.unfinished : Frame → Bool
  | .exitCleanup (_ :: _) _ => true
  | _ => false

/-- The next step leads out of a loop of `chopstx_exit` that has routines to call. -/
def breaksOff (k : Kernel) (t : Tid) : List Frame → Bool
  | [] => false
  | f :: rest => f.exits k t && rest.any Frame.unfinished

/-- The thread `t` does not come to `chopstx_exit` in a routine that `chopstx_exit` has called, as
long as there are others to be called. -/
def Undisturbed (t : Tid) (s : State) : Event → Prop
  | .run _ _ => s.k.running = some t → breaksOff s.k t (s.ctx t).frames = false
  | _ => True

variable {cfg : Config} {s s' : State} {e : Event} {k k' : Kernel} {t u : Tid} {P : Poll}
  {pt : PollPt} {f g : Frame} {rest fs : List Frame} {ret : Int} {ctx : Ctx}
  {off off' : Option Tid} {op : Op} {Q : Op → Prop} {d d' : Duty} {o : Option (List Nat)}

/-! ## What the promise says -/

/-- The routine that is called. -/
def CleanupAct.called : CleanupAct → Option Nat
  | .call r => some r
  | _ => none

/-- The routines that are called are the first ones of those that are left. -/
theorem Duty.left_eq {l : List CleanupAct} (hs : ∀ a ∈ l, a ≠ .start) :
    ∀ {d d' : Duty} {rs : List Nat}, l.foldlM Duty.next d = some d' → d.left = some rs →
      ∃ rs', d'.left = some rs' ∧ rs = l.filterMap CleanupAct.called ++ rs' := by
  induction l with
  | nil =>
      intro d d' rs h hd
      cases h
      exact ⟨rs, hd, rfl⟩
  | cons a l ih =>
      intro d d' rs h hd
      rw [List.foldlM_cons] at h
      obtain ⟨d₁, hd₁, h⟩ := Option.bind_eq_some_iff.mp h
      have ih' : ∀ {rs : List Nat}, d₁.left = some rs →
          ∃ rs', d'.left = some rs' ∧ rs = l.filterMap CleanupAct.called ++ rs' :=
        ih (fun b hb => hs b (List.mem_cons_of_mem a hb)) h
      cases a with
      | start => exact absurd rfl (hs _ (List.mem_cons_self ..))
      | push r | pop =>
          cases hd₁
          exact ih' hd
      | release =>
          rw [Duty.next] at hd₁
          split at hd₁
          · cases hd₁
            exact ih' hd
          · cases hd₁
      | call r =>
          simp only [Duty.next, hd] at hd₁
          split at hd₁
          · rename_i r' rs' heq
            split at hd₁
            · rename_i hr
              cases hd₁
              cases heq
              obtain ⟨rs'', hleft, rfl⟩ := ih' rfl
              exact ⟨rs'', hleft, by rw [hr]; rfl⟩
            · cases hd₁
          · cases hd₁

/-- **The routines that are called between the start of `chopstx_exit` and the first release of a
mutex** are those of the structures that are registered, the last one first, each once. -/
theorem Duty.calls_eq {l : List CleanupAct} (hs : ∀ a ∈ l, a ≠ .start)
    (h : (.start :: (l ++ [.release])).foldlM Duty.next d = some d') :
    l.filterMap CleanupAct.called = d.registered := by
  rw [List.foldlM_cons] at h
  obtain ⟨d₁, hd₁, h⟩ := Option.bind_eq_some_iff.mp h
  rw [List.foldlM_append] at h
  obtain ⟨d₂, hd₂, hrel⟩ := Option.bind_eq_some_iff.mp h
  rw [Duty.next] at hd₁
  split at hd₁
  · cases hd₁
    obtain ⟨rs, hleft, heq⟩ := Duty.left_eq hs hd₂ rfl
    rw [List.foldlM_cons] at hrel
    obtain ⟨d₃, hd₃, -⟩ := Option.bind_eq_some_iff.mp hrel
    rw [Duty.next] at hd₃
    split at hd₃
    · rename_i hnil
      rw [hnil, Option.some.injEq] at hleft
      rw [heq, ← hleft, List.append_nil]
    · cases hd₃
  · cases hd₁

/-! ## The list of a thread -/

/-- The list changes when its own thread sets it.  That of a new thread is empty. -/
theorem Move.clp (hm : Move cfg op (off, k) (off', k')) (h : KernelInv off k)
    (hu : u < k.nthread ∨ (k.thread u).clp = []) (hop : ∀ c l, op ≠ .flags u (.own c l)) :
    (k'.thread u).clp = (k.thread u).clp := by
  refine hm.keepsWords (g := Thread.clp) (fun _ _ _ _ hl => hl) h hu fun w hw => ?_
  cases w with
  | own c l => exact absurd hw (hop c l)
  | cancel | join => rfl

theorem Path.clp (hp : Path cfg Q (off, k) (off', k')) (h : KernelInv off k)
    (hu : u < k.nthread ∨ (k.thread u).clp = []) (hQ : ∀ c l, ¬ Q (.flags u (.own c l))) :
    (k'.thread u).clp = (k.thread u).clp := by
  have key := hp.keeps (I := fun a => KernelInv a.1 a.2 ∧
    (u < a.2.nthread ∨ (a.2.thread u).clp = []) ∧ (a.2.thread u).clp = (k.thread u).clp) ?_
    ⟨h, hu, rfl⟩
  · exact key.2.2
  · rintro op ⟨off, k₁⟩ ⟨off', k₂⟩ hop hm ⟨hk, hlt, hs⟩
    have hs' := hm.clp hk hlt fun c l hw => hQ c l (hw ▸ hop)
    refine ⟨hk.move hm, ?_, hs'.trans hs⟩
    rw [hs']
    exact hlt.imp_left fun hlt => hlt.trans_le (hm.nthread_le hk)

/-- Only the running thread sets its own list. -/
theorem Frame.May.own {c : Bool} {l : List Nat} (h : f.May cfg t (.flags u (.own c l))) :
    u = t := by
  by_cases hf : f.SetsFlags
  · cases f with
    | cleanupPush | cleanupPop | setcancelstate | exitStart =>
        obtain ⟨c', l', h⟩ := h
        cases h
        rfl
    | cancel =>
        cases h with
        | ends h => cases h
    | _ => exact hf.elim
  · cases h.flags_join hf

theorem State.May.own {c : Bool} {l : List Nat} (h : s.May cfg e (.flags u (.own c l))) :
    s.k.running = some u ∧ ∃ c lags, e = .run c lags := by
  cases e with
  | tick => cases h
  | systick => rcases h with h | h <;> cases h
  | irq =>
      rcases h with h | _ | h | _
      · cases h
      · cases h
  | pendsv =>
      rcases h with h | h
      · cases h
      · cases h
  | run c lags =>
      rcases h with h | ⟨t, f, rest, hr, -, h⟩
      · cases h
      · rw [h.own]
        exact ⟨hr, c, lags, rfl⟩

/-- The list after a step of its thread. -/
def Frame.nextClp (clp : List Nat) : Frame → List Nat
  | .cleanupPush r => r :: clp
  | .cleanupPop _ => clp.tail
  | .exitStart _ => []
  | _ => clp

theorem Next.clp (hn : Next cfg k t rest ret f k' ctx) (h : KernelInv none k) (hr : Runs k t)
    (hf : f.Fits k) : (k'.thread t).clp = f.nextClp (k.thread t).clp := by
  have hp := (hn.path h hr hf).1
  have hpath : ¬ f.SetsFlags → (k'.thread t).clp = (k.thread t).clp := fun hset =>
    hp.clp h (.inl (hr.lt h)) fun c l hw => by cases hw.flags_join hset
  cases hn with
  | cleanupPush | exitStart => simp [Frame.nextClp]
  | cleanupNone hc => simp [Frame.nextClp, hc]
  | cleanupPop hc | cleanupExecute hc => simp [Frame.nextClp, hc]
  | setcancelstate => simp [Frame.nextClp]
  | cancel =>
      refine hp.clp h (.inl (hr.lt h)) fun c l hw => ?_
      cases hw with
      | ends hw => cases hw
  | _ => exact hpath id

/-! ## The bottom of a stack -/

theorem PollNext.last (hn : PollNext cfg k t P rest ret pt k' ctx) (hr : rest ≠ []) :
    ctx.frames.getLast? = rest.getLast? ∨
      ((Frame.poll P pt).exits k t ∧ ctx.frames = [.exitStart chopstxCanceled]) := by
  have hone : ∀ f : Frame, (f :: rest).getLast? = rest.getLast? :=
    fun f => List.getLast?_cons_of_ne_nil hr
  have htwo : ∀ f g : Frame, (f :: g :: rest).getLast? = rest.getLast? :=
    fun f g => (List.getLast?_cons_of_ne_nil (List.cons_ne_nil g rest)).trans (hone g)
  cases hn with
  | exit hd hr => exact .inr ⟨decide_eq_true ⟨hd, hr⟩, rfl⟩
  | done => exact .inl rfl
  | hook | condLock | condUnlock | joinFatal | mainSleep | loop | snoozeSleep =>
      exact .inl (htwo _ _)
  | _ => exact .inl (hone _)

/-- A step leaves the bottom of the stack, unless it leads to `chopstx_exit`. -/
theorem Next.last (hn : Next cfg k t rest ret f k' ctx) (hs : Shape cfg k.nthread (f :: rest))
    (hf : ¬ f.Bottom) : ctx.frames.getLast? = rest.getLast? ∨
      (f.exits k t ∧ ctx.frames = [.exitStart chopstxCanceled]) := by
  have hr : rest ≠ [] := hs.ne_nil hf
  have hone : ∀ f : Frame, (f :: rest).getLast? = rest.getLast? :=
    fun f => List.getLast?_cons_of_ne_nil hr
  have htwo : ∀ f g : Frame, (f :: g :: rest).getLast? = rest.getLast? :=
    fun f g => (List.getLast?_cons_of_ne_nil (List.cons_ne_nil g rest)).trans (hone g)
  cases hn with
  | canceled hc hg => exact .inr ⟨Bool.and_eq_true_iff.mpr ⟨hc, hg⟩, rfl⟩
  | condCancel hr | joinCancel hr => exact .inr ⟨decide_eq_true hr, rfl⟩
  | poll hp => exact hp.last hr
  | call | endless | entryRet | routineRet | exitStart | exitMutexes | exitRoutine | exitMutex
  | exitEnd | exitUnlock | exit => exact absurd trivial hf
  | usecWait | usecSleep | blocked | condWait | condRelock | joinFatal | joinSleep =>
      exact .inl (htwo _ _)
  | usecAgain | condNoLock | cleanupExecute | setcancelstate | joinDone | joinWake | pollCall =>
      exact .inl (hone _)
  | _ => exact .inl rfl

/-- What is left to be called, by the bottom of the stack. -/
def Frame.Leaves : Frame → Option (List Nat) → Prop
  | .exitCleanup clp _, o => o = some clp
  | .exitMutex _ _, o | .exitUnlock _ _ _, o | .exit _, o | .exited _, o => o = some []
  | .exitStart _, o => o = none ∨ o = some []
  | _, o => o = none

/-- Nothing is left to be called, unless the thread is in the loop of `chopstx_exit`. -/
theorem Frame.Leaves.finished (h : f.Leaves o) (hf : f.unfinished = false) :
    o = none ∨ o = some [] := by
  cases f with
  | exitCleanup clp rv =>
      cases clp with
      | nil => exact .inr h
      | cons r rs => cases hf
  | exitMutex | exitUnlock | exit | exited => exact .inr h
  | exitStart => exact h
  | _ => exact .inl h

/-- The duty of a thread agrees with its list and its stack. -/
structure Track (d : Duty) (k : Kernel) (t : Tid) (fs : List Frame) : Prop where
  registered : d.registered = (k.thread t).clp
  left : ∀ f, fs.getLast? = some f → f.Leaves d.left

/-! ## The steps -/

/-- The frames of the loops of `chopstx_exit` are at the bottom of a stack. -/
theorem Shape.alone {n : Nat} (h : Shape cfg n (f :: rest)) (hf : ¬ f.Called) (hu : f ≠ .user)
    (hr : f ≠ .schedRet) (hfatal : f ≠ .fatal) : rest = [] := by
  cases rest with
  | nil => rfl
  | cons g rest =>
      cases h.below with
      | called hc => exact absurd hc hf
      | routine | exitRoutine => exact absurd rfl hu
      | schedRet => exact absurd rfl hr
      | joinFatal | hookFatal => exact absurd rfl hfatal
      | _ => exact absurd trivial hf

/-- A frame of an operation registers a structure, takes one back, or does neither. -/
theorem Duty.next_of_not_bottom (hf : ¬ f.Bottom) :
    f.cleanupActs.foldlM Duty.next d = some { d with registered := f.nextClp d.registered } := by
  cases f with
  | user | fatal | exitStart | exitCleanup | exitMutex | exitUnlock | exit | exited =>
      exact absurd trivial hf
  | _ => rfl

/-- Nothing is left to be called where a thread may begin `chopstx_exit`. -/
theorem Track.finished {n : Nat} (ht : Track d k t (f :: rest)) (hs : Shape cfg n (f :: rest))
    (hf : f.unfinished = false) (hu : rest.any Frame.unfinished = false) :
    d.left = none ∨ d.left = some [] := by
  obtain ⟨g, hg, -⟩ := hs.bottom
  refine (ht.left g hg).finished ?_
  rcases List.mem_cons.mp (List.mem_of_getLast? hg) with rfl | hmem
  · exact hf
  · exact Bool.eq_false_iff.mpr (List.any_eq_false.mp hu g hmem)

/-- **Step lemma** for the thread itself. -/
theorem Next.track (hn : Next cfg k t rest ret f k' ctx) (h : KernelInv none k) (hr : Runs k t)
    (hf : f.Fits k) (hs : Shape cfg k.nthread (f :: rest)) (ht : Track d k t (f :: rest))
    (hu : breaksOff k t (f :: rest) = false) :
    ∃ d', f.cleanupActs.foldlM Duty.next d = some d' ∧ Track d' k' t ctx.frames := by
  have hclp := hn.clp h hr hf
  have hex : f.exits k t → rest.any Frame.unfinished = false := by
    intro he
    rwa [breaksOff, he, Bool.true_and] at hu
  by_cases hb : f.Bottom
  · have hleft : rest = [] → f.Leaves d.left := by
      rintro rfl
      exact ht.left f rfl
    cases hn with
    | call hv hc =>
        refine ⟨d, rfl, ht.registered.trans hclp.symm, fun g hg => ht.left g ?_⟩
        rwa [List.getLast?_append_of_ne_nil _ (List.cons_ne_nil _ _)] at hg
    | endless hr =>
        refine ⟨d, rfl, ht.registered.trans hclp.symm, fun g hg => ?_⟩
        cases hg
        exact hleft hr
    | entryRet hr =>
        refine ⟨d, rfl, ht.registered.trans hclp.symm, fun g hg => ?_⟩
        cases hg
        exact .inl (hleft hr)
    | routineRet hr =>
        refine ⟨d, rfl, ht.registered.trans hclp.symm, fun g hg => ht.left g ?_⟩
        rwa [List.getLast?_cons_of_ne_nil hr]
    | exitStart =>
        have hfin := ht.finished hs rfl (hex rfl)
        refine ⟨⟨[], some d.registered⟩, ?_, hclp.symm, fun g hg => ?_⟩
        · show (Duty.next d .start).bind _ = _
          rw [Duty.next, if_pos hfin]
          rfl
        · cases hg
          exact congrArg some ht.registered
    | exitMutexes | exitMutex | exitEnd =>
        have hleft := hleft (hs.alone id (by simp) (by simp) (by simp))
        refine ⟨d, rfl, ht.registered.trans hclp.symm, fun g hg => ?_⟩
        cases hg
        exact hleft
    | exitRoutine =>
        rename_i r clp rv
        have hleft : d.left = some (r :: clp) := hleft (hs.alone id (by simp) (by simp) (by simp))
        refine ⟨{ d with left := some clp }, ?_, ht.registered.trans hclp.symm, fun g hg => ?_⟩
        · show (Duty.next d (.call r)).bind _ = _
          simp only [Duty.next, hleft, if_true]
          rfl
        · cases hg
          rfl
    | exitUnlock | exit =>
        have hleft : d.left = some [] := hleft (hs.alone id (by simp) (by simp) (by simp))
        refine ⟨d, ?_, ht.registered.trans hclp.symm, fun g hg => ?_⟩
        · show (Duty.next d .release).bind _ = _
          rw [Duty.next, if_pos hleft]
          rfl
        · cases hg
          exact hleft
    | _ => exact hb.elim
  · have hf' : f.unfinished = false := by
      cases f with
      | exitCleanup => exact absurd trivial hb
      | _ => rfl
    refine ⟨_, Duty.next_of_not_bottom hb, ?_, fun g hg => ?_⟩
    · rw [hclp, ht.registered]
    · rcases hn.last hs hb with hlast | ⟨hexits, hframes⟩
      · refine ht.left g ?_
        rwa [List.getLast?_cons_of_ne_nil (hs.ne_nil hb), ← hlast]
      · have hfin := ht.finished hs hf' (hex hexits)
        rw [hframes] at hg
        cases hg
        exact hfin

/-- The duty of the thread `t` in a state of the machine. -/
structure Tracked (d : Duty) (t : Tid) (s : State) : Prop where
  track : Track d s.k t (s.ctx t).frames
  born : t < s.k.nthread ∨ (s.k.thread t).clp = []

/-- A step that is not one of the thread itself. -/
theorem Tracked.other (h : MachineInv cfg s) (ht : Tracked d t s) (hs : step cfg s e = .ok s')
    (hctx : s'.ctx t = s.ctx t) (he : s.k.running = some t → ∀ c lags, e ≠ .run c lags) :
    Tracked d t s' := by
  have hpath := h.path hs
  have hclp : (s'.k.thread t).clp = (s.k.thread t).clp := by
    refine hpath.clp h.kernel ht.born fun c l hw => ?_
    obtain ⟨hr, c, lags, hrun⟩ := hw.own
    exact he hr c lags hrun
  refine ⟨⟨ht.track.registered.trans hclp.symm, ?_⟩, ?_⟩
  · rw [hctx]
    exact ht.track.left
  · rw [hclp]
    exact ht.born.imp_left fun hlt => hlt.trans_le (hpath.nthread_le h.kernel)

/-- **Step lemma.** -/
theorem Tracked.step (h : MachineInv cfg s) (ht : Tracked d t s) (hok : Undisturbed t s e)
    (hs : step cfg s e = .ok s') :
    ∃ d', (cleanupActs t s e).foldlM Duty.next d = some d' ∧ Tracked d' t s' := by
  have hother : s'.ctx t = s.ctx t → (s.k.running = some t → ∀ c lags, e ≠ .run c lags) →
      cleanupActs t s e = [] →
      ∃ d', (cleanupActs t s e).foldlM Duty.next d = some d' ∧ Tracked d' t s' := by
    intro hctx he hacts
    rw [hacts]
    exact ⟨d, rfl, ht.other h hs hctx he⟩
  cases hst : step_stepTo hs with
  | tick | systick | irq | pendsv => exact hother rfl (by simp) rfl
  | run hb hr hf hn hk =>
      rename_i c lags u f rest k' ctx
      have htop := s.top_eq hr hf
      by_cases htu : t = u
      · subst htu
        have hsec := h.section hb hr hf hn
        have hshape := h.shape t
        have htrack : Track d (s.k.setLags lags) t (f :: rest) := by
          rw [← hf]
          exact ⟨ht.track.registered, ht.track.left⟩
        rw [hf] at hshape
        rw [Undisturbed, hf] at hok
        obtain ⟨d', hd, ht'⟩ := hn.track hsec.kernel hsec.runs hsec.fits hshape htrack (hok hr)
        refine ⟨d', ?_, ?_, .inl ?_⟩
        · simpa only [cleanupActs, htop, if_true] using hd
        · simpa using ht'
        · exact (hsec.runs.lt hsec.kernel).trans_le (hsec.path.nthread_le hsec.kernel)
      · refine hother ?_ (fun hr' => ?_) ?_
        · exact Function.update_of_ne htu ..
        · rw [hr, Option.some.injEq] at hr'
          exact absurd hr'.symm htu
        · simp only [cleanupActs, htop, if_neg (Ne.symm htu)]

theorem init_tracked (cfg : Config) (t : Tid) : Tracked {} t (init cfg) := by
  have hclp : ((init cfg).k.thread t).clp = [] := by
    obtain ⟨v, q, hth⟩ := initKernel_thread cfg t
    rw [show (init cfg).k = initKernel cfg from rfl, hth]
    by_cases ht : t = 0
    · subst ht
      rfl
    · rw [mainKernel_thread_of_ne ht]
  refine ⟨⟨hclp.symm, fun f hf => ?_⟩, .inr hclp⟩
  cases hf
  rfl

/-- **Run lemma.** -/
theorem tracked_of_run {l : List CleanupAct}
    (h : Logged (step cfg) (Undisturbed t) (cleanupActs t) (init cfg) l s) :
    ∃ d, l.foldlM Duty.next {} = some d ∧ Tracked d t s := by
  refine h.keeps (P := fun l s => ∃ d, l.foldlM Duty.next {} = some d ∧ Tracked d t s)
    (fun s₁ hr => machineInv_of_reach hr) ?_ ⟨{}, rfl, init_tracked cfg t⟩
  rintro l s e s' hi - ⟨d, hd, ht⟩ hok hs
  obtain ⟨d', hd', ht'⟩ := ht.step hi hok hs
  refine ⟨d', ?_, ht'⟩
  rw [List.foldlM_append, hd]
  exact hd'

/-! ## All runs -/

instance : DecidablePred (Undisturbed t s)
  | .run _ _ => inferInstanceAs (Decidable (_ → _))
  | .tick | .systick _ | .irq _ _ | .pendsv _ => .isTrue trivial

/-- `main` creates a thread, which registers two structures and waits, and asks it to end. -/
def cancelRegistered : List Event :=
  .run (.call (.create 2)) [] :: runs 1 ++ .run (.call (.cleanupPush 1)) [] :: runs 1 ++
    .run (.call (.cleanupPush 2)) [] :: runs 1 ++ .run (.call (.condWait 0 none)) [] :: runs 2 ++
    .run (.call (.cancel 1)) [] :: runs 6

end Chopstx
