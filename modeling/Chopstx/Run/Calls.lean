import Chopstx.Run.Invariant
import Chopstx.Section.Events

/-!
# The calls of `chopstx_poll`

Every call of `chopstx_poll` has a number, and at any time it is in the stack of one thread at
most, at one place.  So the code of a call is run by its thread only, and in all other steps
nothing happens to it but events (`MachineInv.fires`).

* `Frame.callNo`, `calls`, `State.InCode` - the calls in a stack, and the steps of their code.
* `CallsInv`, `CallsInv.step`, `callsInv_of_reach` - every call is in one place of one stack.
* `State.At` - a thread is in a call at a point of its code.
* `MachineInv.fires` - in any other step events happen to the call, and nothing else does.
* `Frame.Helper`, `Next.helper` - the functions that `chopstx_poll` calls.
-/

namespace Chopstx

open Kernel Transition

variable {cfg : Config} {k k' : Kernel} {t u : Tid} {f g : Frame} {rest fs : List Frame} {ret : Int}
  {ctx : Ctx} {s s' : State} {e : Event} {op : Op} {n c : Nat} {p : PxId}

/-! ## Whose code makes a move -/

/-- The call that the frame belongs to. -/
def Frame.callNo : Frame → Option Nat
  | .poll P _ => some P.call
  | _ => none

/-- Only the code of a call changes its counter and its proxies. -/
theorem Frame.May.foreign (h : f.May cfg t op) (hf : f.callNo ≠ some n) : op.Foreign n := by
  have hpoll : ∀ {P pt}, f = .poll P pt → P.call ≠ n := by
    rintro P pt rfl hP
    exact hf (congrArg some hP)
  cases op with
  | count c =>
      cases f with
      | poll P pt =>
          have hne := hpoll rfl
          cases pt <;> simp only [Frame.May, PollPt.May] at h <;> grind [Op.Foreign, Poll.px]
      | _ =>
          simp only [Frame.May] at h
          grind
  | proxy p | link p q | unlink p =>
      cases f with
      | poll P pt =>
          have hne := hpoll rfl
          cases pt <;> simp only [Frame.May, PollPt.May] at h <;> grind [Op.Foreign, Poll.px]
      | _ =>
          simp only [Frame.May] at h
          grind
  | _ => trivial

/-- No code lets events happen and writes the field `ready` of a descriptor itself. -/
theorem Frame.May.fire_or_ready (f : Frame) (cfg : Config) (t : Tid) :
    (∀ p, ¬ f.May cfg t (.fire p)) ∨ ∀ d b, ¬ f.May cfg t (.ready d b) := by
  cases f with
  | poll P pt =>
      left
      intro p h
      cases pt <;> simp only [Frame.May, PollPt.May] at h <;> grind
  | claimIrq d | intrDone d =>
      left
      intro p h
      simp only [Frame.May] at h
      grind
  | _ =>
      right
      intro d b h
      simp only [Frame.May] at h
      grind

/-- The step is one of the code of the call. -/
def State.InCode (s : State) (n : Nat) : Event → Prop
  | .run _ _ => ∃ t f, s.top = some (t, f) ∧ f.callNo = some n
  | _ => False

theorem State.May.foreign (h : s.May cfg e op) (hc : ¬ s.InCode n e) : op.Foreign n := by
  cases e with
  | tick =>
      cases h
      trivial
  | systick =>
      rcases h with rfl | rfl <;> trivial
  | irq =>
      rcases h with rfl | h
      · trivial
      · rcases h with _ | h | _
        · trivial
        · cases h <;> trivial
        · trivial
  | pendsv =>
      rcases h with rfl | h
      · trivial
      · cases h <;> trivial
  | run =>
      rcases h with rfl | ⟨t, f, rest, hr, hf, hmay⟩
      · trivial
      · exact hmay.foreign fun hn => hc ⟨t, f, State.top_eq hr hf, hn⟩

theorem State.May.fire_or_ready (s : State) (cfg : Config) (e : Event) :
    (∀ p, ¬ s.May cfg e (.fire p)) ∨ ∀ d b, ¬ s.May cfg e (.ready d b) := by
  cases e with
  | tick =>
      left
      intro p h
      cases h
  | systick =>
      left
      intro p h
      rcases h with h | h <;> cases h
  | irq =>
      right
      intro d b h
      rcases h with h | h
      · cases h
      · rcases h with _ | h | _
        cases h
  | pendsv =>
      left
      intro p h
      rcases h with h | h <;> cases h
  | run =>
      cases htop : s.top with
      | none =>
          left
          intro p h
          rcases h with h | ⟨t, f, rest, hr, hf, -⟩
          · cases h
          · cases htop.symm.trans (State.top_eq hr hf)
      | some x =>
          obtain ⟨t, f⟩ := x
          rcases Frame.May.fire_or_ready f cfg t with hno | hno
          · left
            intro p h
            rcases h with h | ⟨t', f', rest, hr, hf, hmay⟩
            · cases h
            · cases htop.symm.trans (State.top_eq hr hf)
              exact hno p hmay
          · right
            intro d b h
            rcases h with h | ⟨t', f', rest, hr, hf, hmay⟩
            · cases h
            · cases htop.symm.trans (State.top_eq hr hf)
              exact hno d b hmay

/-- **What a step does to a call whose code it is not**: events happen. -/
theorem MachineInv.fires (h : MachineInv cfg s) (hs : step cfg s e = .ok s') (hn : n < s.k.ncall)
    (hc : ¬ s.InCode n e) : ∃ F, Fires n F s.k s'.k := by
  obtain ⟨F, hF, -⟩ := (h.path hs).fires h.kernel (fun op hop => hop.foreign hc) hn
    (State.May.fire_or_ready s cfg e)
  exact ⟨F, hF⟩

/-! ## The stacks -/

/-- The calls in a stack. -/
def calls (fs : List Frame) : List Nat := fs.filterMap Frame.callNo

@[simp] theorem calls_nil : calls [] = [] := rfl

@[simp] theorem calls_append (fs gs : List Frame) : calls (fs ++ gs) = calls fs ++ calls gs :=
  List.filterMap_append

theorem calls_cons_of_none (h : f.callNo = none) : calls (f :: fs) = calls fs :=
  List.filterMap_cons_none h

theorem calls_cons_of_some (h : f.callNo = some n) : calls (f :: fs) = n :: calls fs :=
  List.filterMap_cons_some h

theorem calls_frames (c : Call) : calls c.frames = [] := by
  cases c <;> rfl

/-- A step of a thread enters at most one call, which gets a new number. -/
theorem Next.calls (hn : Next cfg k t rest ret f k' ctx) :
    (calls ctx.frames).Sublist (calls (f :: rest)) ∨
      f.callNo = none ∧ calls ctx.frames = k.ncall :: calls rest ∧ k'.ncall = k.ncall + 1 := by
  cases hn with
  | pollCall => exact .inr ⟨rfl, rfl, rfl⟩
  | poll hp => cases hp <;> exact .inl (by simp [Chopstx.calls, List.filterMap_cons, Frame.callNo])
  | call hv hc =>
      left
      rw [calls_append, calls_frames]
      exact .refl _
  | _ => exact .inl (by simp [Chopstx.calls, List.filterMap_cons, Frame.callNo])

/-- Every call is in one place of one stack. -/
structure CallsInv (s : State) : Prop where
  lt : ∀ t, ∀ n ∈ calls (s.ctx t).frames, n < s.k.ncall
  nodup : ∀ t, (calls (s.ctx t).frames).Nodup
  apart : ∀ t u, t ≠ u → ∀ n ∈ calls (s.ctx t).frames, n ∉ calls (s.ctx u).frames

/-- The stack of one thread changes: its calls are some of those before, or there is a new one. -/
theorem CallsInv.update (h : CallsInv s) {k' : Kernel} (hn : s.k.ncall ≤ k'.ncall)
    (hctx : (calls ctx.frames).Sublist (calls (s.ctx t).frames) ∨
      ∃ l, l.Sublist (calls (s.ctx t).frames) ∧ calls ctx.frames = s.k.ncall :: l ∧
        k'.ncall = s.k.ncall + 1) :
    CallsInv ⟨k', Function.update s.ctx t ctx⟩ := by
  have hself : ∀ n ∈ calls ctx.frames, n ∈ calls (s.ctx t).frames ∨
      n = s.k.ncall ∧ k'.ncall = s.k.ncall + 1 := by
    intro n hmem
    rcases hctx with hsub | ⟨l, hsub, heq, hsucc⟩
    · exact .inl (hsub.subset hmem)
    · rw [heq] at hmem
      rcases List.mem_cons.1 hmem with rfl | hmem
      · exact .inr ⟨rfl, hsucc⟩
      · exact .inl (hsub.subset hmem)
  have hapart : ∀ u, u ≠ t → ∀ n ∈ calls ctx.frames, n ∉ calls (s.ctx u).frames := by
    intro u hu n hmem hmem'
    rcases hself n hmem with hm | ⟨rfl, -⟩
    · exact h.apart t u hu.symm n hm hmem'
    · exact absurd (h.lt u _ hmem') (lt_irrefl _)
  refine ⟨fun u n hmem => ?_, fun u => ?_, fun u v huv n hmem hmem' => ?_⟩
  · by_cases hu : u = t
    · subst hu
      simp only [Function.update_self] at hmem
      rcases hself n hmem with hm | ⟨rfl, hsucc⟩
      · exact (h.lt u n hm).trans_le hn
      · exact hsucc ▸ Nat.lt_succ_self _
    · simp only [Function.update_of_ne hu] at hmem
      exact (h.lt u n hmem).trans_le hn
  · by_cases hu : u = t
    · subst hu
      simp only [Function.update_self]
      rcases hctx with hsub | ⟨l, hsub, heq, -⟩
      · exact (h.nodup u).sublist hsub
      · rw [heq]
        refine List.nodup_cons.2 ⟨fun hmem => ?_, (h.nodup u).sublist hsub⟩
        exact absurd (h.lt u _ (hsub.subset hmem)) (lt_irrefl _)
    · simp only [Function.update_of_ne hu]
      exact h.nodup u
  · by_cases hu : u = t
    · subst hu
      simp only [Function.update_self] at hmem
      simp only [Function.update_of_ne huv.symm] at hmem'
      exact hapart v huv.symm n hmem hmem'
    · simp only [Function.update_of_ne hu] at hmem
      by_cases hv : v = t
      · subst hv
        simp only [Function.update_self] at hmem'
        exact hapart u hu n hmem' hmem
      · simp only [Function.update_of_ne hv] at hmem'
        exact h.apart u v huv n hmem hmem'

/-- **Every step keeps the calls apart.** -/
theorem CallsInv.step (h : CallsInv s) (hi : MachineInv cfg s) (hs : step cfg s e = .ok s') :
    CallsInv s' := by
  have hn := (hi.path hs).ncall_le hi.kernel
  cases step_stepTo hs with
  | tick | systick | irq | pendsv =>
      exact ⟨fun t n hmem => (h.lt t n hmem).trans_le hn, h.nodup, h.apart⟩
  | run hb hr hf hstep hk =>
      refine h.update hn ?_
      rw [hf]
      rcases hstep.calls with hsub | ⟨hnone, heq, hsucc⟩
      · exact .inl hsub
      · refine .inr ⟨calls _, ?_, heq, hsucc⟩
        rw [calls_cons_of_none hnone]

theorem callsInv_of_reach {ok : State → Event → Prop} (h : Reach (step cfg) ok (init cfg) s) :
    CallsInv s := by
  refine Reach.invariant_of (P := CallsInv) (fun _ => machineInv_of_reach) ?_
    (fun s e s' hi _ hc _ hs => hc.step hi hs) h
  have hnil : ∀ t, calls ((init cfg).ctx t).frames = [] := fun _ => rfl
  refine ⟨fun t n hn => ?_, fun t => ?_, fun t u _ n hn => ?_⟩
  · rw [hnil] at hn
    cases hn
  · rw [hnil]
    exact List.nodup_nil
  · rw [hnil] at hn
    cases hn

/-! ## A call in the stack of its thread -/

/-- The thread is in the call `P.call` above `rest`, at the point `pt`; the frames `pre` are those
of the functions that the code of the call has called. -/
def State.At (s : State) (t : Tid) (pre : List Frame) (P : Poll) (pt : PollPt) (rest : List Frame) :
    Prop :=
  (s.ctx t).frames = pre ++ .poll P pt :: rest

variable {pre : List Frame} {P : Poll} {pt : PollPt}

theorem State.At.mem (h : s.At t pre P pt rest) : P.call ∈ calls (s.ctx t).frames := by
  rw [h, calls_append, calls_cons_of_some (n := P.call) rfl]
  exact List.mem_append_right _ (List.mem_cons_self ..)

/-- The code of a call is run by its thread, when nothing is above it in the stack. -/
theorem State.At.inCode (h : s.At t pre P pt rest) (hc : CallsInv s) (hin : s.InCode P.call e) :
    s.k.running = some t ∧ pre = [] ∧ ∃ c lags, e = .run c lags := by
  cases e with
  | run c lags =>
      obtain ⟨u, f, htop, hf⟩ := hin
      rw [State.top] at htop
      split at htop
      · cases htop
      · rename_i v hr
        obtain ⟨g, hg, hx⟩ := Option.map_eq_some_iff.1 htop
        cases hx
        obtain ⟨l, hl⟩ := List.head?_eq_some_iff.1 hg
        have hmem : P.call ∈ calls (s.ctx u).frames := by
          rw [hl, calls_cons_of_some hf]
          exact List.mem_cons_self ..
        have hut : u = t := by
          by_contra hut
          exact hc.apart u t hut _ hmem h.mem
        subst hut
        refine ⟨hr, ?_, c, lags, rfl⟩
        cases pre with
        | nil => rfl
        | cons f' pre =>
            -- then the call would be in the stack twice
            have hframes := h
            rw [State.At, List.cons_append, hl] at hframes
            have hnd := hc.nodup u
            rw [hl, (List.cons.inj hframes).2, calls_cons_of_some hf, List.nodup_cons,
              calls_append, calls_cons_of_some (n := P.call) rfl] at hnd
            exact absurd (List.mem_append_right _ (List.mem_cons_self ..)) hnd.1
  | _ => exact hin.elim

/-- The frames of the functions that `chopstx_poll` calls. -/
def Frame.Helper : Frame → Prop
  | .testcancel | .schedRet | .mutexLock _ _ | .mutexUnlock _ | .fatal => True
  | _ => False

theorem Above.helper (h : Above cfg f g) (hg : g.Helper ∨ ∃ P pt, g = .poll P pt) : f.Helper := by
  cases h with
  | routine | exitRoutine | called =>
      rcases hg with hg | ⟨P, pt, hg⟩
      · exact hg.elim
      · cases hg
  | _ => trivial

/-- What is above a frame of a call. -/
theorem Shape.helpers {n : Nat} (h : Shape cfg n (pre ++ .poll P pt :: rest)) :
    ∀ f ∈ pre, f.Helper := by
  induction pre with
  | nil =>
      intro f hf
      cases hf
  | cons g gs ih =>
      rw [List.cons_append] at h
      have htail : ∀ f ∈ gs, f.Helper := ih (h.tail_of_ne_nil (by simp))
      refine List.forall_mem_cons.2 ⟨?_, htail⟩
      cases gs with
      | nil => exact h.below.helper (.inr ⟨P, pt, rfl⟩)
      | cons g' gs => exact h.below.helper (.inl (htail g' (List.mem_cons_self ..)))

/-- A helper returns or goes on, unless the thread is canceled. -/
theorem Next.helper (hn : Next cfg k t rest ret f k' ctx) (hf : f.Helper) :
    (∃ fs, ctx.frames = fs ++ rest) ∨
      f = .testcancel ∧ (k.thread t).flagCancelable = true ∧ (k.thread t).flagGotCancel = true ∧
        k' = k ∧ ctx.frames = [.exitStart chopstxCanceled] := by
  cases hn with
  | canceled hc hg => exact .inr ⟨rfl, hc, hg, rfl, rfl⟩
  | testcancel => exact .inl ⟨[], rfl⟩
  | schedRet => exact .inl ⟨[], rfl⟩
  | acquired => exact .inl ⟨[], rfl⟩
  | blocked => exact .inl ⟨[_, _], rfl⟩
  | mutexUnlock => exact .inl ⟨[], rfl⟩
  | _ => exact hf.elim

end Chopstx
