import Chopstx.Run.Next

/-!
# The shape of stacks

Which frame may lie directly above which, and what the numbers in a frame name.  Every
step of a thread keeps both, whatever the kernel does.

* `Above`, `Frame.Bottom`, `Shape` - which frames may lie where, and `Frame.Valid` what they name.
* `Call.shape` - the frames that a call puts on a stack.
* `PollNext.shape`, `Next.shape` - the outcomes of a step, frame by frame.
* `Frame.Called`, `Frame.SleepsIn`, `Testcancels`, `Frame.Plain` - the families of frames that the
  proofs distinguish.
-/

namespace Chopstx

open Kernel

/-- The frames of an operation that the application has called. -/
def Frame.Called : Frame → Prop
  | .user | .schedRet | .fatal | .exitCleanup _ _ | .exitMutex _ _ | .exitUnlock _ _ _
  | .exit _ | .exited _ => False
  | _ => True

/-- The frames that `chopstx_testcancel` returns to. -/
inductive Testcancels : Frame → Prop
  | usec (usec : Nat) : Testcancels (.usecSnooze usec)
  | cond (c : Cid) (m : Option Mid) : Testcancels (.condWait c m)
  | join (tp : Tid) (ret : Option Nat) : Testcancels (.join tp ret)
  | pollCall (usec : Option Nat) (pds : List PdId) : Testcancels (.pollCall usec pds)
  | hook (P : Poll) (i : Nat) (d : PdKind) : Testcancels (.poll P (d.hookPt i))
  | snooze (P : Poll) : Testcancels (.poll P .snooze)

/-- The frames that `chx_sched (CHX_SLEEP)` returns to, and the state, the `parent` and
the value in which a thread sleeps there. -/
inductive Frame.SleepsIn : Frame → ThreadState → Option Qh → Nat → Prop
  | usec (usec usec0 : Nat) (q : Option Qh) (v : Nat) :
      SleepsIn (.usecWake usec usec0) .waitTime q v
  | mutex (m : Mid) (v : Nat) : SleepsIn (.mutexLock m true) .waitMtx (some (.mtx m)) v
  | cond (m : Option Mid) (q : Option Qh) (v : Nat) : SleepsIn (.condWake m) .waitCnd q v
  | join (tp : Tid) (ret : Option Nat) (q : Option Qh) : SleepsIn (.joinWake tp ret) .waitExit q tp
  | poll (P : Poll) (q : Option Qh) (v : Nat) : SleepsIn (.poll P .wake) .waitPoll q v
  | snooze (P : Poll) (usec0 : Nat) (q : Option Qh) (v : Nat) :
      SleepsIn (.poll P (.snoozeWake usec0)) .waitPoll q v

/-- The first frame may lie directly above the second. -/
inductive Above (cfg : Config) : Frame → Frame → Prop
  | routine : Above cfg .user .user
  | exitRoutine (clp : List Nat) (rv : Nat) : Above cfg .user (.exitCleanup clp rv)
  | called {f : Frame} : f.Called → Above cfg f .user
  | testcancel {f : Frame} : Testcancels f → Above cfg .testcancel f
  | schedRet {f : Frame} {s : ThreadState} {q : Option Qh} {v : Nat} : f.SleepsIn s q v →
      Above cfg .schedRet f
  | relock (m : Mid) (b : Bool) (r : Int) : Above cfg (.mutexLock m b) (.condRet (some m) r)
  | hookLock {P : Poll} {i : Nat} {c : Cid} {m : Mid} (b : Bool) :
      P.pd cfg i = some (.cond c (some m)) → Above cfg (.mutexLock m b) (.poll P (.condCheck i))
  | hookUnlock {P : Poll} {i : Nat} {c : Cid} {m : Mid} :
      P.pd cfg i = some (.cond c (some m)) → Above cfg (.mutexUnlock m) (.poll P (.hook (i + 1)))
  | joinFatal (tp : Tid) (ret : Option Nat) : Above cfg .fatal (.join tp ret)
  | hookFatal (P : Poll) (i : Nat) : Above cfg .fatal (.poll P (.joinHook i))

/-- The objects named by a poll descriptor exist. -/
def PdKind.Exists (cfg : Config) (n : Nat) : PdKind → Prop
  | .cond _ (some m) => m < cfg.nmutex
  | .join tp => tp < n
  | _ => True

/-- The objects named in a frame exist, and a priority is one. -/
def Frame.Valid (cfg : Config) (n : Nat) : Frame → Prop
  | .mutexLock m _ | .mutexUnlock m => m < cfg.nmutex
  | .condWait _ o | .condWake o | .condRet o _ => ∀ m, o = some m → m < cfg.nmutex
  | .setpriority prio => prio < 256
  | .cancel tp | .join tp _ | .joinWake tp _ | .joinRet tp _ _ => tp < n
  | .pollCall _ pds => ∀ d ∈ pds, (cfg.pd d).Exists cfg n
  | .poll P _ => ∀ d ∈ P.pds, (cfg.pd d).Exists cfg n
  | _ => True

/-- The frames at the bottom of a stack: the entry function, or the end of the thread. -/
def Frame.Bottom : Frame → Prop
  | .user | .fatal | .exitStart _ | .exitCleanup _ _ | .exitMutex _ _ | .exitUnlock _ _ _
  | .exit _ | .exited _ => True
  | _ => False

/-- A well-shaped stack. -/
structure Shape (cfg : Config) (n : Nat) (fs : List Frame) : Prop where
  chain : fs.IsChain (Above cfg)
  valid : ∀ f ∈ fs, f.Valid cfg n
  bottom : ∃ f, fs.getLast? = some f ∧ f.Bottom

variable {cfg : Config} {n n' : Nat} {k k' : Kernel} {t : Tid} {P : Poll} {pt : PollPt}
  {f g : Frame} {rest fs : List Frame} {ret : Int} {ctx : Ctx}

theorem PdKind.Exists.mono {d : PdKind} (h : d.Exists cfg n) (hn : n ≤ n') : d.Exists cfg n' := by
  cases d with
  | cond c m => cases m <;> exact h
  | intr => exact h
  | join tp => exact Nat.lt_of_lt_of_le h hn

theorem Frame.Valid.mono (h : f.Valid cfg n) (hn : n ≤ n') : f.Valid cfg n' := by
  cases f with
  | cancel | join | joinWake | joinRet => exact Nat.lt_of_lt_of_le h hn
  | pollCall usec pds => exact fun d hd => (h d hd).mono hn
  | poll P pt => exact fun d hd => (h d hd).mono hn
  | _ => exact h

namespace Shape

theorem mono (h : Shape cfg n fs) (hn : n ≤ n') : Shape cfg n' fs :=
  ⟨h.chain, fun f hf => (h.valid f hf).mono hn, h.bottom⟩

theorem ne_nil (h : Shape cfg n (f :: rest)) (hf : ¬ f.Bottom) : rest ≠ [] := by
  rintro rfl
  obtain ⟨g, hg, hb⟩ := h.bottom
  cases hg
  exact hf hb

theorem tail_of_ne_nil (h : Shape cfg n (f :: rest)) (hr : rest ≠ []) : Shape cfg n rest := by
  refine ⟨h.chain.of_cons, fun g hg => h.valid g (List.mem_cons_of_mem _ hg), ?_⟩
  obtain ⟨g, hg, hb⟩ := h.bottom
  refine ⟨g, ?_, hb⟩
  rwa [List.getLast?_cons_of_ne_nil hr] at hg

theorem tail (h : Shape cfg n (f :: rest)) (hf : ¬ f.Bottom) : Shape cfg n rest :=
  h.tail_of_ne_nil (h.ne_nil hf)

theorem head (h : Shape cfg n (f :: rest)) : f.Valid cfg n := h.valid f (List.mem_cons_self ..)

theorem single (hf : f.Valid cfg n) (hb : f.Bottom) : Shape cfg n [f] :=
  ⟨.singleton f, fun g hg => by rw [List.mem_singleton.1 hg]; exact hf, f, rfl, hb⟩

theorem cons (h : Shape cfg n (g :: rest)) (ha : Above cfg f g) (hf : f.Valid cfg n) :
    Shape cfg n (f :: g :: rest) :=
  ⟨.cons_cons ha h.chain, fun e he => by
    rcases List.mem_cons.1 he with rfl | he
    · exact hf
    · exact h.valid e he, by
      rw [List.getLast?_cons_of_ne_nil (List.cons_ne_nil g rest)]
      exact h.bottom⟩

/-- The frame on top is replaced by one that may lie where it lay. -/
theorem replace (h : Shape cfg n (f :: rest)) (hf : ¬ f.Bottom)
    (ha : ∀ e, Above cfg f e → Above cfg g e) (hg : g.Valid cfg n) :
    Shape cfg n (g :: rest) := by
  cases rest with
  | nil => exact absurd rfl (h.ne_nil hf)
  | cons e rest => exact (h.tail hf).cons (ha e (List.isChain_cons_cons.1 h.chain).1) hg

/-- What lies below a frame of an operation. -/
theorem below (h : Shape cfg n (f :: g :: rest)) : Above cfg f g :=
  (List.isChain_cons_cons.1 h.chain).1

end Shape

/-- Frames whose only place is above the application. -/
def Frame.Plain : Frame → Prop
  | .user | .schedRet | .fatal | .testcancel | .mutexLock _ _ | .mutexUnlock _ | .exitStart _
  | .exitCleanup _ _ | .exitMutex _ _ | .exitUnlock _ _ _ | .exit _ | .exited _ => False
  | _ => True

/-- Only the application lies below the frames of most operations. -/
theorem Above.of_plain (h : Above cfg f g) (hf : f.Plain) : g = .user := by
  cases h with
  | called _ => rfl
  | _ => exact absurd hf id

theorem Frame.Plain.not_bottom (h : f.Plain) : ¬ f.Bottom := by
  cases f with
  | user | fatal | exitStart | exitCleanup | exitMutex | exitUnlock | exit | exited => exact h.elim
  | _ => exact id

namespace Shape

/-- A frame of an operation is replaced by another one of it. -/
theorem next (h : Shape cfg n (f :: rest)) (hf : f.Plain) (hg : g.Called) (hv : g.Valid cfg n) :
    Shape cfg n (g :: rest) := by
  refine h.replace hf.not_bottom (fun e he => ?_) hv
  rw [he.of_plain hf]
  exact .called hg

/-- The application calls an operation. -/
theorem call (h : Shape cfg n (.user :: rest)) (hf : f.Called) (hv : f.Valid cfg n) :
    Shape cfg n (f :: .user :: rest) := h.cons (.called hf) hv

end Shape

theorem pds_exist {pds : List PdId} (h : (pds.all fun d =>
    match cfg.pd d with
    | .cond _ (some m) => decide (m < cfg.nmutex)
    | .join tp => decide (tp < n)
    | _ => true) = true) : ∀ d ∈ pds, (cfg.pd d).Exists cfg n := by
  intro d hd
  have hd' := List.all_eq_true.1 h d hd
  cases hp : cfg.pd d with
  | cond c m =>
      rw [hp] at hd'
      cases m with
      | none => trivial
      | some m => exact of_decide_eq_true (p := m < cfg.nmutex) hd'
  | intr => trivial
  | join tp =>
      rw [hp] at hd'
      exact of_decide_eq_true (p := tp < n) hd'

theorem Call.shape {c : Call} (hv : c.valid cfg k = true) (hc : ∀ rv, c ≠ .ret rv)
    (h : Shape cfg k.nthread (.user :: rest)) :
    Shape cfg k.nthread (c.frames ++ .user :: rest) := by
  cases c with
  | ret rv => exact absurd rfl (hc rv)
  | mutexLock m =>
      exact h.call (f := .mutexLock m false) trivial (of_decide_eq_true (p := m < cfg.nmutex) hv)
  | mutexUnlock m =>
      exact h.call (f := .mutexUnlock m) trivial (of_decide_eq_true (p := m < cfg.nmutex) hv)
  | condWait c m =>
      refine (h.call (f := .condWait c m) trivial ?_).cons (.testcancel (.cond c m)) trivial
      rintro m rfl
      exact of_decide_eq_true (p := m < cfg.nmutex) hv
  | intrWait d =>
      refine (h.call (f := .pollCall none [d]) trivial fun d' hd => ?_).cons
        (.testcancel (.pollCall none [d])) trivial
      rw [List.mem_singleton.1 hd]
      simp only [Call.valid] at hv
      cases hp : cfg.pd d with
      | cond | join =>
          rw [hp] at hv
          cases hv
      | intr => trivial
  | join tp ret =>
      exact (h.call (f := .join tp ret) trivial (of_decide_eq_true (p := tp < k.nthread) hv)).cons
        (.testcancel (.join tp ret)) trivial
  | cancel tp =>
      exact h.call (f := .cancel tp) trivial (of_decide_eq_true (p := tp < k.nthread) hv)
  | setpriority prio =>
      exact h.call (f := .setpriority prio) trivial (of_decide_eq_true (p := prio < 256) hv)
  | poll usec pds =>
      exact (h.call (f := .pollCall usec pds) trivial
        (pds_exist (Bool.and_eq_true_iff.1 hv).2)).cons (.testcancel (.pollCall usec pds)) trivial
  | _ => exact h.call trivial trivial

theorem PollNext.shape (hn : PollNext cfg k t P rest ret pt k' ctx)
    (h : Shape cfg n (.poll P pt :: rest)) : Shape cfg n ctx.frames := by
  have hgo : ∀ pt', Shape cfg n (.poll P pt' :: rest) := fun pt' =>
    h.next trivial trivial h.head
  have hmutex : ∀ {i c m}, P.pd cfg i = some (.cond c (some m)) → m < cfg.nmutex := by
    intro i c m hd
    obtain ⟨d, hd, hp⟩ := Option.map_eq_some_iff.1 hd
    have := h.head d (List.mem_of_getElem? hd)
    rw [hp] at this
    exact this
  cases hn with
  | hook hd => exact (hgo _).cons (.testcancel (.hook ..)) trivial
  | condLock hd => exact (hgo _).cons (.hookLock _ hd) (hmutex hd)
  | condUnlock hd => exact (hgo _).cons (.hookUnlock hd) (hmutex hd)
  | joinFatal => exact (hgo _).cons (.hookFatal ..) trivial
  | mainSleep => exact (hgo _).cons (.schedRet (.poll P none 0)) trivial
  | loop => exact (hgo _).cons (.testcancel (.snooze P)) trivial
  | snoozeSleep => exact (hgo _).cons (.schedRet (.snooze P _ none 0)) trivial
  | snoozeAgain | snoozeDone => exact h.next trivial trivial h.head
  | exit => exact .single trivial trivial
  | done => exact h.tail id
  | _ => exact hgo _

/-- **A step of a thread keeps the shape of its stack.** -/
theorem Next.shape (hn : Next cfg k t rest ret f k' ctx) (h : Shape cfg k.nthread (f :: rest)) :
    Shape cfg k.nthread ctx.frames := by
  cases hn with
  | call hv hc => exact Call.shape hv hc h
  | endless | entryRet | canceled | condCancel | joinCancel | exitStart | exitMutexes
  | exitMutex | exitEnd | exitUnlock | exit => exact .single trivial trivial
  | exitRoutine =>
      exact (Shape.single (f := .exitCleanup _ _) trivial trivial).cons (.exitRoutine ..) trivial
  | usecWait =>
      exact (h.next (g := .usecSnooze _) trivial trivial trivial).cons
        (.testcancel (.usec _)) trivial
  | usecSleep =>
      exact (h.next (g := .usecWake _ _) trivial trivial trivial).cons
        (.schedRet (.usec _ _ none 0)) trivial
  | usecAgain => exact h.next trivial trivial trivial
  | blocked =>
      refine (h.replace (g := .mutexLock _ true) id (fun e he => ?_) h.head).cons
        (.schedRet (.mutex _ 0)) trivial
      cases he with
      | called _ => exact .called trivial
      | relock _ b r => exact .relock _ true r
      | hookLock b hd => exact .hookLock true hd
  | condWait =>
      exact (h.next (g := .condWake _) trivial trivial h.head).cons
        (.schedRet (.cond _ none 0)) trivial
  | condRelock =>
      exact (h.next (g := .condRet _ _) trivial trivial h.head).cons
        (.relock _ false _) (h.head _ rfl)
  | condNoLock | joinDone | joinWake | pollCall => exact h.next trivial trivial h.head
  | cleanupExecute =>
      refine h.replace id (fun e he => ?_) trivial
      rw [he.of_plain trivial]
      exact .routine
  | setcancelstate => exact h.next trivial trivial trivial
  | joinFatal => exact h.cons (.joinFatal ..) trivial
  | joinSleep =>
      exact (h.next (g := .joinWake _ _) trivial trivial h.head).cons
        (.schedRet (.join _ _ none)) trivial
  | poll hp => exact hp.shape h
  | routineRet hr => exact h.tail_of_ne_nil hr
  | _ => exact h.tail id

end Chopstx
