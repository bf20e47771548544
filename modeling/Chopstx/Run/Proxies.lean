import Chopstx.Run.Calls

/-!
# The proxies of the calls of `chopstx_poll`

A call of `chopstx_poll` has proxies of its own, and its hooks put one after another into a
queue.  So a proxy is linked nowhere when it is initialized and when it is put into a queue,
whatever other threads and calls do in between.

* `Kernel.Unlinked`, `PollPt.reached` - proxies in no queue, and the first one not put into a queue.
* `ProxiesInv`, `ProxiesInv.step` - what is linked belongs to a call that has begun, and a call
  links its proxies in order.
* `Kernel.Sorted`, `MachineInv.sorted` - every step keeps the queues sorted, those of the code of a
  call too (`PollNext.sorted`).
* `sorted_of_reach` - in every reachable state.
-/

namespace Chopstx

open Kernel Transition

/-- The proxy is in no queue. -/
def Kernel.Unlinked (k : Kernel) (p : PxId) : Prop := ∀ q, .proxy p ∉ k.queue q

/-- The first proxy that the call has not put into a queue yet, up to its last hook. -/
def PollPt.reached : PollPt → Option Nat
  | .init _ => some 0
  | .hook i | .condHook i | .condCheck i | .condLoad i | .condStore i _ | .condReady i
  | .condClear i | .condEnqueue i | .intrHook i | .joinHook i => some i
  | .condEnd i => some (i + 1)
  | _ => none

variable {cfg : Config} {k k' : Kernel} {off off' : Option Tid} {op : Op} {R : Op → Prop}
  {t u : Tid} {P : Poll} {pt : PollPt} {f : Frame} {rest fs : List Frame} {ret : Int} {ctx : Ctx}
  {s s' : State} {e : Event} {p : PxId}

/-! ## Moves and paths -/

/-- A proxy that is linked nowhere is put into a queue by a move of its own only. -/
theorem Move.unlinked (hm : Move cfg op (off, k) (off', k')) (h : KernelInv off k)
    (hl : ∀ q, op ≠ .link p q) (hp : k.Unlinked p) : k'.Unlinked p := by
  intro q
  by_cases hu : op = .unlink p
  · subst hu
    cases hm with
    | unlink => exact fun hm => hp q (List.mem_of_mem_filter hm)
  · by_cases hf : op = .fire p
    · subst hf
      cases hm with
      | fire hmem => exact absurd hmem (hp _)
    · rw [hm.mem_proxy h hl hu hf]
      exact hp q

theorem Path.unlinked (hp : Path cfg R (off, k) (off', k')) (h : KernelInv off k)
    (hR : ∀ op, R op → ∀ q, op ≠ .link p q) (hu : k.Unlinked p) : k'.Unlinked p := by
  have key := hp.keeps (I := fun a => KernelInv a.1 a.2 ∧ a.2.Unlinked p) ?_ ⟨h, hu⟩
  · exact key.2
  · rintro op ⟨off, k₁⟩ ⟨off', k₂⟩ hop hm ⟨hk, hu⟩
    exact ⟨hk.move hm, hm.unlinked hk (hR op hop) hu⟩

/-! ## The code of a call -/

/-- The code of a call goes on, with fewer proxies that are not in a queue yet. -/
structure PollGoesOn (k k' : Kernel) (P : Poll) (pt : PollPt) (rest fs : List Frame) : Prop where
  intro ::
  goes : ∃ pre P' pt', fs = pre ++ .poll P' pt' :: rest ∧ calls pre = [] ∧ P'.call = P.call ∧
    ∀ i', pt'.reached = some i' → ∃ i, pt.reached = some i ∧ i ≤ i' ∧
      ∀ j, i' ≤ j → k.Unlinked (P.px j) → k'.Unlinked (P.px j)

theorem PollGoesOn.later {P' : Poll} {l fs : List Frame} {pt' : PollPt}
    (hfs : fs = l ++ .poll P' pt' :: rest) (hl : calls l = []) (hP : P'.call = P.call)
    (hnone : pt'.reached = none) : PollGoesOn k k' P pt rest fs :=
  ⟨_, _, _, hfs, hl, hP, fun i' hi' => by
    rw [hnone] at hi'
    cases hi'⟩

theorem PollGoesOn.at {l fs : List Frame} {pt' : PollPt} {i i' : Nat}
    (hfs : fs = l ++ .poll P pt' :: rest) (hl : calls l = []) (hi : pt.reached = some i)
    (hi' : pt'.reached = some i') (hle : i ≤ i')
    (hu : ∀ j, i' ≤ j → k.Unlinked (P.px j) → k'.Unlinked (P.px j)) :
    PollGoesOn k k' P pt rest fs :=
  ⟨_, _, _, hfs, hl, rfl, fun x hx => by
    cases hi'.symm.trans hx
    exact ⟨_, hi, hle, hu⟩⟩

/-- A hook puts its own proxy into a queue at most. -/
theorem hook_unlinked (cfg : Config) {i j : Nat} (h : KernelInv none k) (hj : i + 1 ≤ j)
    (hR : ∀ op, R op → ∃ d, op.Polls cfg (P.px i) d) (hp : Path cfg R (none, k) (none, k'))
    (hu : k.Unlinked (P.px j)) : k'.Unlinked (P.px j) := by
  refine hp.unlinked h (fun op hop q hq => ?_) hu
  obtain ⟨d, hd⟩ := hR op hop
  subst hq
  generalize hp' : P.px j = p at hd
  cases hd
  rw [Poll.px, Poll.px, PxId.mk.injEq] at hp'
  omega

theorem PollNext.goesOn (hn : PollNext cfg k t P rest ret pt k' ctx) (h : KernelInv none k) :
    PollGoesOn k k' P pt rest ctx.frames ∨ ctx.frames = [.exitStart chopstxCanceled] ∨
      ctx.frames = rest := by
  cases hn with
  | init | initEnd | condHook | checkTrue | checkFalse | condLoad | condStore | condClear
  | condEnd => exact .inl (.at (l := []) rfl rfl rfl rfl le_rfl fun j _ hu => hu)
  | condLock | joinFatal | condUnlock =>
      exact .inl (.at (l := [_]) rfl rfl rfl rfl le_rfl fun j _ hu => hu)
  | condReady => exact .inl (.at (l := []) rfl rfl rfl rfl (Nat.le_succ _) fun j _ hu => hu)
  | @hook i d hd =>
      have hreached : ((cfg.pd d).hookPt i).reached = some i := by
        cases cfg.pd d <;> rfl
      exact .inl (.at (l := [.testcancel]) rfl rfl rfl hreached le_rfl fun j _ hu => hu)
  | condEnqueue hd hc =>
      refine .inl (.at (l := []) rfl rfl rfl rfl (Nat.le_succ _) fun j hj => ?_)
      exact hook_unlinked cfg h hj (fun op hop => ⟨_, hop⟩) (condHookEnqueue_path (d := 0))
  | intrHook hd hn =>
      refine .inl (.at (l := []) rfl rfl rfl rfl (Nat.le_succ _) fun j hj => ?_)
      exact hook_unlinked cfg h hj (fun op hop => ⟨_, hop⟩) (chxIntrHook_path hn)
  | joinHook hd hj hf =>
      refine .inl (.at (l := []) rfl rfl rfl rfl (Nat.le_succ _) fun j hj => ?_)
      exact hook_unlinked cfg h hj (fun op hop => ⟨_, hop⟩) chxJoinHook_path
  | hookEnd | mainReady | mainLoop | wake | snoozeReady | snoozeEnd | snoozeAgain | snoozeDone
  | cleanup => exact .inl (.later (l := []) rfl rfl rfl rfl)
  | mainSleep | loop | snoozeSleep => exact .inl (.later (l := [_]) rfl rfl rfl rfl)
  | exit => exact .inr (.inl rfl)
  | done => exact .inr (.inr rfl)

/-! ## The stacks -/

theorem mem_calls (h : .poll P pt ∈ fs) : P.call ∈ calls fs := List.mem_filterMap.2 ⟨_, h, rfl⟩

/-- A stack is above `rest` in one way only. -/
theorem poll_unique {P' : Poll} {pt' : PollPt} {l l' : List Frame}
    (h : l ++ .poll P pt :: rest = l' ++ .poll P' pt' :: rest) : P = P' ∧ pt = pt' := by
  have hcons : ∀ (l : List Frame) f, l ++ f :: rest = l ++ [f] ++ rest := fun l f => by simp
  rw [hcons, hcons] at h
  cases (List.append_inj' (List.append_cancel_right h) rfl).2
  exact ⟨rfl, rfl⟩

/-- What is known of the call when its code has gone on. -/
theorem goes_of_eq {Q : Poll → PollPt → Prop} {l : List Frame}
    (h : (∃ l P' pt', fs = l ++ .poll P' pt' :: rest ∧ Q P' pt') ∨
      fs = [.exitStart chopstxCanceled] ∨ fs = rest) (hfs : fs = l ++ .poll P pt :: rest) :
    Q P pt := by
  rcases h with ⟨l', P', pt', hfs', hQ⟩ | hfs' | hfs'
  · obtain ⟨rfl, rfl⟩ := poll_unique (hfs.symm.trans hfs')
    exact hQ
  · have hmem : Frame.poll P pt ∈ fs := by simp [hfs]
    rw [hfs'] at hmem
    simp at hmem
  · have hlen := congrArg List.length (hfs.symm.trans hfs')
    simp only [List.length_append, List.length_cons] at hlen
    omega

/-- Where the calls in the stack of a thread after a step of it come from. -/
theorem Next.poll_mem {P₂ : Poll} {pt₂ : PollPt} (hn : Next cfg k t rest ret f k' ctx)
    (h : KernelInv none k) (hmem : .poll P₂ pt₂ ∈ ctx.frames) :
    .poll P₂ pt₂ ∈ rest ∨
      (P₂.call = k.ncall ∧ pt₂ = .init 0 ∧ f.callNo = none) ∨
      ∃ P pt l, f = .poll P pt ∧ PollNext cfg k t P rest ret pt k' ctx ∧
        ctx.frames = l ++ .poll P₂ pt₂ :: rest := by
  cases hn with
  | poll hp =>
      rcases hp.goesOn h with ⟨l, P', pt', hfs, hl, -⟩ | hfs | hfs
      · rw [hfs] at hmem
        rcases List.mem_append.1 hmem with hm | hm
        · have hcall := mem_calls hm
          rw [hl] at hcall
          cases hcall
        · rcases List.mem_cons.1 hm with heq | hm
          · cases heq
            exact .inr (.inr ⟨_, _, l, rfl, hp, hfs⟩)
          · exact .inl hm
      · rw [hfs] at hmem
        simp at hmem
      · rw [hfs] at hmem
        exact .inl hmem
  | pollCall =>
      rcases List.mem_cons.1 hmem with heq | hm
      · cases heq
        exact .inr (.inl ⟨rfl, rfl, rfl⟩)
      · exact .inl hm
  | call hv hc =>
      rcases List.mem_append.1 hmem with hm | hm
      · have hcall := mem_calls hm
        rw [calls_frames] at hcall
        cases hcall
      · exact .inl (by simpa using hm)
  | _ => simp_all

/-- The code of a call puts its next proxy into a queue, or none. -/
theorem PollNext.reached {P₂ : Poll} {pt₂ : PollPt} {l : List Frame}
    (hn : PollNext cfg k t P rest ret pt k' ctx) (h : KernelInv none k)
    (hfs : ctx.frames = l ++ .poll P₂ pt₂ :: rest) :
    P₂.call = P.call ∧ ∀ i', pt₂.reached = some i' → ∃ i, pt.reached = some i ∧ i ≤ i' ∧
      ∀ j, i' ≤ j → k.Unlinked (P.px j) → k'.Unlinked (P.px j) := by
  refine goes_of_eq (Q := fun P₂ pt₂ => P₂.call = P.call ∧ ∀ i', pt₂.reached = some i' →
    ∃ i, pt.reached = some i ∧ i ≤ i' ∧
      ∀ j, i' ≤ j → k.Unlinked (P.px j) → k'.Unlinked (P.px j)) ?_ hfs
  refine (hn.goesOn h).imp_left fun hgoes => ?_
  obtain ⟨l, P', pt', hfs, -, hcall, hfresh⟩ := hgoes
  exact ⟨l, P', pt', hfs, hcall, hfresh⟩

/-- What is linked belongs to a call that has begun, and a call puts its proxies into the queues
one after another. -/
structure ProxiesInv (s : State) : Prop where
  begun : ∀ p, s.k.ncall ≤ p.call → s.k.Unlinked p
  fresh : ∀ t P pt, .poll P pt ∈ (s.ctx t).frames → ∀ i, pt.reached = some i → ∀ j, i ≤ j →
    s.k.Unlinked (P.px j)

/-- Others put no proxy of a call into a queue. -/
theorem MachineInv.unlinked (h : MachineInv cfg s) (hs : step cfg s e = .ok s')
    (hc : ¬ s.InCode p.call e) (hu : s.k.Unlinked p) : s'.k.Unlinked p := by
  refine (h.path hs).unlinked h.kernel (fun op hop q hq => ?_) hu
  subst hq
  exact hop.foreign hc rfl

theorem State.of_top (h : s.top = some (t, f)) :
    s.k.running = some t ∧ ∃ rest, (s.ctx t).frames = f :: rest := by
  rw [State.top] at h
  split at h
  · cases h
  · rename_i v hr
    obtain ⟨g, hg, hx⟩ := Option.map_eq_some_iff.1 h
    cases hx
    exact ⟨hr, List.head?_eq_some_iff.1 hg⟩

theorem CallsInv.inCode_lt {n : Nat} (hc : CallsInv s) (h : s.InCode n e) : n < s.k.ncall := by
  cases e with
  | run c lags =>
      obtain ⟨t, f, htop, hf⟩ := h
      obtain ⟨-, rest, hfr⟩ := State.of_top htop
      refine hc.lt t n ?_
      rw [hfr, calls_cons_of_some hf]
      exact List.mem_cons_self ..
  | _ => exact h.elim

/-- A call of another thread, or one that is not on top of the stack, is not run. -/
theorem CallsInv.not_inCode (hc : CallsInv s) (hmem : .poll P pt ∈ (s.ctx u).frames)
    (hne : ∀ rest, s.k.running = some u → (s.ctx u).frames ≠ .poll P pt :: rest) :
    ¬ s.InCode P.call e := by
  intro hin
  obtain ⟨l, rest, hl⟩ := List.append_of_mem hmem
  obtain ⟨hr, rfl, -⟩ := State.At.inCode hl hc hin
  exact hne rest hr hl

/-- **Every step keeps the order in which a call puts its proxies into the queues.** -/
theorem ProxiesInv.step (h : ProxiesInv s) (hi : MachineInv cfg s) (hc : CallsInv s)
    (hs : step cfg s e = .ok s') : ProxiesInv s' := by
  have hn := (hi.path hs).ncall_le hi.kernel
  have hbegun : ∀ p, s.k.ncall ≤ p.call → s'.k.Unlinked p := fun p hp =>
    hi.unlinked hs (fun hin => absurd (hc.inCode_lt hin) (not_lt.2 hp)) (h.begun p hp)
  have hothers : ∀ u P pt, .poll P pt ∈ (s.ctx u).frames → ¬ s.InCode P.call e →
      ∀ i, pt.reached = some i → ∀ j, i ≤ j → s'.k.Unlinked (P.px j) :=
    fun u P pt hm hin i hi' j hj => hi.unlinked hs hin (h.fresh u P pt hm i hi' j hj)
  refine ⟨fun p hp => hbegun p (hn.trans hp), ?_⟩
  cases step_stepTo hs with
  | tick | systick | irq | pendsv => exact fun u P pt hm => hothers u P pt hm id
  | @run c lags t f rest k' ctx hb hr hf hnext hk =>
      intro u P pt hm i hi' j hj
      by_cases hu : u = t
      · subst hu
        simp only [Function.update_self] at hm
        have hk₀ := setLags_inv hi.kernel lags
        rcases hnext.poll_mem hk₀ hm with hm | ⟨hcall, -⟩ | ⟨P₀, pt₀, l, rfl, hn, hfs⟩
        · have hm' : .poll P pt ∈ (s.ctx u).frames := by
            rw [hf]
            exact List.mem_cons_of_mem _ hm
          refine hothers u P pt hm' (hc.not_inCode hm' fun rest' _ heq => ?_) i hi' j hj
          -- then the call would be in the stack twice
          have hnd := hc.nodup u
          have hfe := (List.cons.inj (hf.symm.trans heq)).1
          rw [hf, hfe, calls_cons_of_some (n := P.call) rfl] at hnd
          exact absurd (mem_calls hm) (List.nodup_cons.1 hnd).1
        · exact hbegun (P.px j) hcall.ge
        · obtain ⟨hcall, hfresh⟩ := hn.reached hk₀ hfs
          obtain ⟨i₀, hi₀, hle, hkeep⟩ := hfresh i hi'
          have hpx : P.px j = P₀.px j := by rw [Poll.px, Poll.px, hcall]
          rw [hpx]
          refine hkeep j hj ?_
          have hm₀ : .poll P₀ pt₀ ∈ (s.ctx u).frames := by
            rw [hf]
            exact List.mem_cons_self ..
          exact h.fresh u P₀ pt₀ hm₀ i₀ hi₀ j (hle.trans hj)
      · simp only [Function.update_of_ne hu] at hm
        refine hothers u P pt hm (hc.not_inCode hm fun _ hr' _ => hu ?_) i hi' j hj
        exact Option.some.inj (hr'.symm.trans hr)

/-- At first only `main` may be in a queue, for its slice. -/
theorem initKernel_queue {q : Qh} (hq : q ≠ .timer) : (initKernel cfg).queue q = [] := by
  rw [initKernel_eq]
  split
  · exact chxTimerInsert_queue_of_ne mainKernel_inv.timer hq
  · rfl

theorem initKernel_unlinked : (initKernel cfg).Unlinked p := by
  intro q hm
  by_cases hq : q = .timer
  · subst hq
    obtain ⟨t, ht⟩ := (initKernel_inv cfg).timer.threads _ hm
    cases ht
  · rw [initKernel_queue hq] at hm
    cases hm

theorem proxiesInv_of_reach {ok : State → Event → Prop} (h : Reach (step cfg) ok (init cfg) s) :
    ProxiesInv s := by
  refine Reach.invariant_of (P := ProxiesInv) (I := fun s => MachineInv cfg s ∧ CallsInv s)
    (fun _ h => ⟨machineInv_of_reach h, callsInv_of_reach h⟩) ?_
    (fun s e s' hi _ hp _ hs => hp.step hi.1 hi.2 hs) h
  exact ⟨fun p _ => initKernel_unlinked, fun _ _ _ _ _ _ _ _ => initKernel_unlinked⟩

/-! ## The sorted queues -/

/-- The sorted queues are sorted, for some numbers of arrival. -/
def Kernel.Sorted (k : Kernel) : Prop := ∃ A, k.Ordered A

/-- The move is none of a proxy that depends on where the proxy is. -/
def Op.Placid : Op → Prop
  | .link _ _ | .proxy _ => False
  | _ => True

theorem Op.Placid.orderly (h : op.Placid) : op.Orderly k k' := by
  cases op with
  | link | proxy => exact h.elim
  | _ => trivial

theorem Move.sorted (hm : Move cfg op (off, k) (off', k')) (h : KernelInv off k)
    (hop : op.Orderly k k') (hs : k.Sorted) : k'.Sorted := by
  obtain ⟨A, hA⟩ := hs
  obtain ⟨B, hB⟩ := A.exists_next k.queues k'.queues (op.Pushes off) h.timer.nodup
  exact ⟨B, hm.ordered h hop hB hA⟩

theorem Path.sorted (hp : Path cfg R (off, k) (off', k')) (h : KernelInv off k)
    (hR : ∀ op, R op → op.Placid) (hs : k.Sorted) : k'.Sorted := by
  have key := hp.keeps (I := fun a => KernelInv a.1 a.2 ∧ a.2.Sorted) ?_ ⟨h, hs⟩
  · exact key.2
  · rintro op ⟨off, k₁⟩ ⟨off', k₂⟩ hop hm ⟨hk, hs⟩
    exact ⟨hk.move hm, hm.sorted hk (hR op hop).orderly hs⟩

theorem Op.sleepsOps_placid {op' : Op} {before after : Op → Prop}
    (h : Sleeps.Ops t before op' after op) (hb : ∀ o, before o → o.Placid) (ho : op'.Placid)
    (ha : ∀ o, after o → o.Placid) : op.Placid := by
  cases h with
  | before h => exact hb _ h
  | slice => trivial
  | op => exact ho
  | after h => exact ha _ h
  | switch => trivial

theorem State.May.placid (h : s.May cfg e op) (hc : ∀ n, ¬ s.InCode n e) : op.Placid := by
  cases op with
  | link p q | proxy p => exact absurd rfl (h.foreign (hc p.call))
  | _ => trivial

/-- A proxy that is linked nowhere is put into its queue. -/
theorem link_sorted (cfg : Config) {q : Qh} (h : KernelInv none k)
    (hq : q = .intr ∨ q = .join ∨ ∃ c, q = .cnd c) (hu : k.Unlinked p) (hs : k.Sorted) :
    (k.llPrioEnqueue (.proxy p) q).Sorted ∧ KernelInv none (k.llPrioEnqueue (.proxy p) q) := by
  have hm : Move cfg (.link p q) (none, k) (none, k.llPrioEnqueue (.proxy p) q) := .link hq
  exact ⟨hm.sorted h hu hs, h.move hm⟩

/-- What is written into a proxy, other than its priority, does not move it. -/
theorem modPx_sorted (cfg : Config) (p : PxId) (g : Px → Px) (h : KernelInv none k)
    (hg : (g (k.px p)).prio = (k.px p).prio ∨ k.Unlinked p) (hs : k.Sorted) :
    (k.modPx p g).Sorted ∧ KernelInv none (k.modPx p g) := by
  have hm : Move cfg (.proxy p) (none, k) (none, k.modPx p g) := .proxy g
  refine ⟨hm.sorted h (hg.imp (fun hg => ?_) id) hs, h.move hm⟩
  simpa using hg

theorem joinReq_sorted (cfg : Config) (h : KernelInv none k) (hs : k.Sorted) :
    (k.modThread t fun th => { th with flagJoinReq := true }).Sorted := by
  have hm : Move cfg (.flags t .join) (none, k) (none, k.modThread t Flag.join.set) := .flags .join
  exact hm.sorted h trivial hs

theorem unlock_sorted (hs : k.Sorted) : k.chxCpuSchedUnlock.Sorted := hs

/-- **The code of a call of `chopstx_poll` keeps the queues sorted.** -/
theorem PollNext.sorted (hn : PollNext cfg k t P rest ret pt k' ctx) (h : KernelInv none k)
    (hu : ∀ i, pt.reached = some i → ∀ j, i ≤ j → k.Unlinked (P.px j))
    (hp : Path cfg (pt.May cfg t P) (none, k) (none, k')) (hs : k.Sorted) : k'.Sorted := by
  have hplacid : (∀ op, pt.May cfg t P op → op.Placid) → k'.Sorted := fun hR => hp.sorted h hR hs
  have hlock : k.chxCpuSchedLock.Sorted := hs
  have hnone : ∀ op, Op.None op → op.Placid := fun _ ho => ho.elim
  cases hn with
  | init hi => exact (modPx_sorted cfg _ _ h (.inr (hu 0 rfl _ (Nat.zero_le _))) hs).1
  | hook hd => exact (modPx_sorted cfg _ _ h (.inl rfl) hs).1
  | condEnqueue hd hc =>
      exact (link_sorted cfg (lock_inv h) (.inr (.inr ⟨_, rfl⟩)) (hu _ rfl _ le_rfl) hlock).1
  | @intrHook i d n hd hn =>
      obtain ⟨hs₁, h₁⟩ := modPx_sorted cfg (P.px i) (fun px => { px with v := n })
        (lock_inv h) (.inl rfl) hlock
      rw [chxIntrHook]
      split
      · exact hs₁
      · exact (link_sorted cfg h₁ (.inl rfl) (hu _ rfl _ le_rfl) hs₁).1
  | @joinHook i d tp hd hj hf =>
      rw [chxJoinHook]
      split
      · exact hlock
      · have hm : Move cfg (.ready d false) (none, k.chxCpuSchedLock) (none, _) := .ready
        obtain ⟨hs₁, h₁⟩ := modPx_sorted cfg (P.px i) (fun px => { px with v := tp })
          ((lock_inv h).move hm) (.inl rfl) hlock
        obtain ⟨hs₂, h₂⟩ := link_sorted cfg h₁ (.inr (.inl rfl)) (hu i rfl i le_rfl) hs₁
        exact unlock_sorted (joinReq_sorted cfg h₂ hs₂)
  | @cleanup i d r hd =>
      have hm : Move cfg (.unlink (P.px i)) (none, k.chxCpuSchedLock) (none, _) := .unlink
      have hs₁ := hm.sorted (lock_inv h) trivial hlock
      rw [pollCleanup]
      split
      · exact hlock
      · cases cfg.pd d with
        | cond | intr | join => exact hs₁
  | condStore =>
      refine hplacid ?_
      rintro op rfl
      trivial
  | condReady | condClear =>
      refine hplacid ?_
      rintro op ⟨d, b, -, rfl⟩
      trivial
  | mainReady | mainSleep | mainLoop | snoozeReady | snoozeEnd | snoozeSleep =>
      refine hplacid ?_
      rintro op (rfl | hop)
      · trivial
      · exact Op.sleepsOps_placid hop hnone trivial hnone
  | _ => exact hs

/-- **Every step keeps the queues sorted.** -/
theorem MachineInv.sorted (h : MachineInv cfg s) (hp : ProxiesInv s) (hs : step cfg s e = .ok s')
    (hk : s.k.Sorted) : s'.k.Sorted := by
  by_cases hc : ∃ n, s.InCode n e
  · obtain ⟨n, hc⟩ := hc
    cases e with
    | run c lags =>
        obtain ⟨t, f, htop, hf⟩ := hc
        obtain ⟨hr, rest, hfr⟩ := State.of_top htop
        cases step_stepTo hs with
        | run hb hr' hf' hn hstep =>
            cases hr.symm.trans hr'
            cases hfr.symm.trans hf'
            have hsec := h.section hb hr hfr hn
            cases f with
            | poll P pt =>
                cases hn with
                | poll hn =>
                    refine hn.sorted (setLags_inv h.kernel lags) (fun i hi j hj => ?_) hsec.path hk
                    refine hp.fresh t P pt ?_ i hi j hj
                    rw [hfr]
                    exact List.mem_cons_self ..
            | _ => cases hf
    | _ => exact hc.elim
  · exact (h.path hs).sorted h.kernel (fun op hop => hop.placid fun n hn => hc ⟨n, hn⟩) hk

theorem sorted_of_reach {ok : State → Event → Prop} (h : Reach (step cfg) ok (init cfg) s) :
    s.k.Sorted := by
  refine Reach.invariant_of (P := fun s => s.k.Sorted)
    (I := fun s => MachineInv cfg s ∧ ProxiesInv s)
    (fun _ h => ⟨machineInv_of_reach h, proxiesInv_of_reach h⟩) ?_
    (fun s e s' hi _ hk _ hs => hi.1.sorted hi.2 hs hk) h
  refine ⟨⟨0, fun _ _ => 0⟩, fun q hq => ?_⟩
  have hnil : (init cfg).k.queues.list q = [] := initKernel_queue hq.ne_timer
  constructor
  · rw [hnil]
    exact List.Pairwise.nil
  · rw [hnil]
    intro x hx
    cases hx

end Chopstx
