import Chopstx.Run.Proxies

/-!
# Who sleeps in `chopstx_poll` misses no event

While a thread sleeps in `chopstx_poll`, the counter of its call is 0, and the proxies of all its
descriptors are linked where their events are looked for.  An event takes a proxy out of its
queue, counts up, and wakes the thread in the same section.

* `Kernel.Heeds`, `chxWakeup_heeds`, `chxHandleIntr_heeds`, `MachineInv.heeds` - whoever counts for
  one of the descriptors wakes the thread.
* `PdKind.Awaits`, `PollPt.Waits`, `PollPt.Watches` - the queue in which a proxy waits, and what is
  known at a point of the code of a call.
* `PollNext.watches`, `Next.asleep` - a step of that code, and the step that goes to sleep.
* `WatchInv`, `watchInv_of_reach` - the invariant of all calls, in every reachable state.
-/

namespace Chopstx

open Kernel Transition

variable {cfg : Config} {k k' k₁ : Kernel} {off off' : Option Tid} {op : Op} {R : Op → Prop}
  {t u : Tid} {P : Poll} {pt : PollPt} {f : Frame} {rest fs : List Frame} {ret : Int} {ctx : Ctx}
  {s s' : State} {e : Event} {p : PxId} {q : Qh} {x : Pq} {b : Bool} {n i j : Nat} {F : List Nat}

/-! ## Events wake the thread -/

/-- The thread, which owns the proxies of the call, does not sleep in `chopstx_poll` once the
counter of the call is positive. -/
structure Kernel.Heeds (k : Kernel) (t : Tid) (n : Nat) : Prop where
  zero : (k.thread t).state = .waitPoll → k.counter n = 0
  master : ∀ i q, .proxy ⟨n, i⟩ ∈ k.queue q → (k.px ⟨n, i⟩).master = t

/-- The proxies that stay linked keep their master. -/
theorem Fires.master (hF : Fires n F k k')
    (h : ∀ i q, .proxy ⟨n, i⟩ ∈ k.queue q → (k.px ⟨n, i⟩).master = t) (i : Nat) (q : Qh)
    (hm : .proxy ⟨n, i⟩ ∈ k'.queue q) : (k'.px ⟨n, i⟩).master = t := by
  rw [hF.px]
  exact h i q ((hF.queue i q).1 hm).1

/-- What neither lets an event of the call happen nor puts the thread to sleep. -/
theorem Path.heeds (hp : Path cfg R (off, k) (off', k')) (h : KernelInv off k)
    (hR : ∀ op, R op → op.Foreign n ∧ ¬ op.Connects t ∧ ∀ i, op ≠ .fire ⟨n, i⟩)
    (ht : t < k.nthread) (hn : n < k.ncall) (hh : k.Heeds t n) : k'.Heeds t n := by
  have key := hp.keeps (I := fun a => KernelInv a.1 a.2 ∧ t < a.2.nthread ∧ n < a.2.ncall ∧
    a.2.Heeds t n) ?_ ⟨h, ht, hn, hh⟩
  · exact key.2.2.2
  · rintro op ⟨off, k₁⟩ ⟨off', k₂⟩ hop hm ⟨hk, ht, hn, hh⟩
    obtain ⟨hforeign, hconnects, hfire⟩ := hR op hop
    obtain ⟨F, hF, hFop⟩ := hm.fires hk hforeign hn
    have hnil : F = [] := List.eq_nil_iff_forall_not_mem.2 fun i hi => hfire i (hFop i hi)
    subst hnil
    refine ⟨hk.move hm, ht.trans_le (hm.nthread_le hk), hn.trans_le (hm.ncall_le hk),
      fun hs => ?_, hF.master hh.master⟩
    rw [hF.counter, hh.zero ?_, List.length_nil]
    cases hm.drift hk hconnects ht with
    | same _ hs' => exact hs'.symm.trans hs
    | active _ ha | woken _ ha => exact absurd ha (by rw [hs]; simp [ThreadState.Active])
    | ended _ he => exact absurd he (by rw [hs]; simp [ThreadState.Ended])

/-- **`chx_wakeup` wakes the thread** when it counts for one of its descriptors. -/
theorem chxWakeup_heeds (cfg : Config) (h : KernelInv none k) (hx : x ∈ k.queue q)
    (hq : q = .join ∨ (∃ c, q = .cnd c) ∨ ∃ p, x = .proxy p)
    (hw : (k.llDequeue x).chxWakeup x = .ok (k', b)) (ht : t < k.nthread) (hn : n < k.ncall)
    (hh : k.Heeds t n) : k'.Heeds t n := by
  cases x with
  | thread u =>
      cases hw
      have hin := h.isIn_of_mem hx
      have hm : Move cfg (.wake u (.others none)) (none, k)
          (none, (k.llDequeue (.thread u)).resume u (.others none) 1) := by
        refine .wakeQueued (q := q) hin ?_
        rcases hq with rfl | ⟨c, rfl⟩ | ⟨p, hp⟩
        · exact .join .others
        · exact .cnd c .others
        · cases hp
      refine (hm.path (P := (· = .wake u (.others none))) rfl).heeds h ?_ ht hn hh
      rintro op rfl
      exact ⟨trivial, id, by simp⟩
  | proxy p =>
      have hm : Move cfg (.fire p) (none, k) (none, (k.llDequeue (.proxy p)).fireProxy p) :=
        .fire hx
      have hk₁ := h.move hm
      have ht₁ := ht.trans_le (hm.nthread_le h)
      have hn₁ := hn.trans_le (hm.ncall_le h)
      obtain ⟨F, hF, -⟩ := hm.fires h (show (Op.fire p).Foreign n from trivial) hn
      -- what the thread sleeps for is not among the events, or the thread is woken
      have hcase : p.call ≠ n ∧ ((k.llDequeue (.proxy p)).fireProxy p).Heeds t n ∨
          (((k.llDequeue (.proxy p)).fireProxy p).px p).master = t := by
        by_cases hp : p.call = n
        · subst hp
          exact .inr (hh.master p.idx q hx)
        · refine .inl ⟨hp, (hm.path (P := (· = .fire p)) rfl).heeds h ?_ ht hn hh⟩
          rintro op rfl
          refine ⟨trivial, id, ?_⟩
          rintro i ⟨⟩
          exact hp rfl
      rw [chxWakeup] at hw
      split at hw
      · rename_i hs
        obtain ⟨k₂, hwake, hk⟩ := res_bind_eq_ok.1 hw
        obtain rfl : k₂ = k' := congrArg Prod.fst (Except.ok.inj hk)
        obtain ⟨left, hp⟩ := wakeSleeper_path cfg hk₁ (.inr hs) hwake
        have hops : ∀ op : Op, op = .wake (((k.llDequeue (.proxy p)).fireProxy p).px p).master
            (.others left) → op.Foreign n ∧ ¬ op.Connects t ∧ ∀ i, op ≠ .fire ⟨n, i⟩ := by
          rintro op rfl
          exact ⟨trivial, id, by simp⟩
        rcases hcase with ⟨-, hheeds⟩ | hmaster
        · exact hp.heeds hk₁ hops ht₁ hn₁ hheeds
        · obtain ⟨G, hG, -⟩ := hp.fires hk₁ (fun op hop => (hops op hop).1) hn₁
            (.inr fun d b hop => by cases hop)
          refine ⟨fun hs' => ?_, hG.master (hF.master hh.master)⟩
          rw [hmaster] at hwake
          have hready : (k₂.thread t).state = .ready := by
            rw [wakeSleeper] at hwake
            split at hwake
            · obtain ⟨r, -, hk⟩ := res_bind_eq_ok.1 hwake
              cases hk
              rw [resume_thread, Function.update_self]
            · cases hwake
              rw [resume_thread, Function.update_self]
          rw [hready] at hs'
          cases hs'
      · rename_i hs
        cases hw
        rcases hcase with ⟨-, hheeds⟩ | hmaster
        · exact hheeds
        · exact ⟨fun hs' => absurd (hmaster ▸ hs') hs, hF.master hh.master⟩

/-- The loop of `chopstx_cond_broadcast`. -/
theorem wakeAll_heeds (cfg : Config) {c : Cid} {fuel : Nat} (h : KernelInv none k)
    (hw : wakeAll c fuel k = .ok (k', b)) (ht : t < k.nthread) (hn : n < k.ncall)
    (hh : k.Heeds t n) : k'.Heeds t n := by
  induction fuel generalizing k b with
  | zero =>
      rw [wakeAll] at hw
      split at hw
      · cases hw
        exact hh
      · cases hw
  | succ fuel ih =>
      rw [wakeAll] at hw
      cases hq : k.queue (.cnd c) with
      | nil =>
          simp only [llPop, hq] at hw
          cases hw
          exact hh
      | cons x l =>
          simp only [llPop, hq] at hw
          obtain ⟨⟨k₁, b₁⟩, hk₁, hw⟩ := res_bind_eq_ok.1 hw
          obtain ⟨⟨k₂, b₂⟩, hk₂, hw⟩ := res_bind_eq_ok.1 hw
          cases hw
          have hx : x ∈ k.queue (.cnd c) := by
            rw [hq]
            exact List.mem_cons_self ..
          have hp : Path cfg Op.Wakes (none, k) (none, k₁) :=
            chxWakeup_path h hx (.inr (.inl ⟨c, rfl⟩)) hk₁
          have hh₁ := chxWakeup_heeds cfg h hx (.inr (.inl ⟨c, rfl⟩)) hk₁ ht hn hh
          exact ih (h.path hp) hk₂ (ht.trans_le (hp.nthread_le h)) (hn.trans_le (hp.ncall_le h)) hh₁

/-- The wake-up in `chopstx_cond_signal`. -/
theorem wakeFirst_heeds (cfg : Config) {c : Cid} (h : KernelInv none k)
    (hw : k.wakeFirst c = .ok (k', b)) (ht : t < k.nthread) (hn : n < k.ncall)
    (hh : k.Heeds t n) : k'.Heeds t n := by
  cases hq : k.queue (.cnd c) with
  | nil =>
      simp only [wakeFirst, llPop, hq] at hw
      cases hw
      exact hh
  | cons x l =>
      simp only [wakeFirst, llPop, hq] at hw
      have hx : x ∈ k.queue (.cnd c) := by
        rw [hq]
        exact List.mem_cons_self ..
      exact chxWakeup_heeds cfg h hx (.inr (.inl ⟨c, rfl⟩)) hw ht hn hh

/-- The loop of `chx_exit` over `q_join`. -/
theorem wakeJoiner_heeds (cfg : Config) (h : KernelInv none k) (hw : k.wakeJoiner u = .ok k')
    (ht : t < k.nthread) (hn : n < k.ncall) (hh : k.Heeds t n) : k'.Heeds t n := by
  rw [wakeJoiner] at hw
  split at hw
  · split at hw
    · rename_i x hx
      obtain ⟨⟨k₁, b⟩, hk₁, hk⟩ := res_bind_eq_ok.1 hw
      cases hk
      exact chxWakeup_heeds cfg h (List.mem_of_find?_eq_some hx) (.inl rfl) hk₁ ht hn hh
    · cases hw
      exact hh
  · cases hw
    exact hh

/-- **`chx_handle_intr`** wakes the thread when it counts for one of its descriptors. -/
theorem chxHandleIntr_heeds (cfg : Config) {m : Irq} (h : KernelInv none k)
    (hi : k.chxHandleIntr m = .ok k') (ht : t < k.nthread) (hn : n < k.ncall)
    (hh : k.Heeds t n) : k'.Heeds t n := by
  have hm : Move cfg (.irq m false) (none, k) (none, k.disableIntr m) := .disable
  rw [chxHandleIntr] at hi
  split at hi
  · rename_i p hf
    obtain ⟨⟨k₁, b⟩, hk₁, hi⟩ := res_bind_eq_ok.1 hi
    cases hi
    have hx := List.mem_of_find?_eq_some hf
    have hh₀ : (k.disableIntr m).Heeds t n := ⟨hh.zero, hh.master⟩
    have hp : Path cfg Op.Wakes (none, k.disableIntr m) (none, k₁) :=
      chxWakeup_path (h.move hm) hx (.inr (.inr ⟨p, rfl⟩)) hk₁
    have hh₁ := chxWakeup_heeds cfg (h.move hm) hx (.inr (.inr ⟨p, rfl⟩)) hk₁ ht hn hh₀
    have hreq : ∀ {b : Nat}, Path cfg (· = .pend true) (none, k₁)
        (none, k₁.chxRequestPreemption b) := request_path
    refine hreq.heeds ((h.move hm).path hp) ?_
      (ht.trans_le (hp.nthread_le (h.move hm))) (hn.trans_le (hp.ncall_le (h.move hm))) hh₁
    rintro op rfl
    exact ⟨trivial, id, by simp⟩
  · cases hi
    exact ⟨hh.zero, hh.master⟩

/-- A section that wakes threads up, and goes on or yields. -/
theorem yieldOrUnlock_heeds (h : KernelInv none k) (hr : Runs k u)
    (hy : k.yieldOrUnlock cfg u b = .ok k') (ht : t < k.nthread) (hn : n < k.ncall)
    (hh : k.Heeds t n) : k'.Heeds t n := by
  refine (yieldOrUnlock_path cfg h hr hy).1.heeds h (fun op hop => ?_) ht hn hh
  refine ⟨?_, hop.not_connects, ?_⟩
  · cases hop <;> trivial
  · rintro i rfl
    cases hop

/-- `chopstx_cond_signal`. -/
theorem chopstxCondSignal_heeds {c : Cid} (h : KernelInv none k) (hr : Runs k u)
    (hc : k.chopstxCondSignal cfg u c = .ok k') (ht : t < k.nthread) (hn : n < k.ncall)
    (hh : k.Heeds t n) : k'.Heeds t n := by
  obtain ⟨⟨k₁, b⟩, hw, hy⟩ := res_bind_eq_ok.1 hc
  have hp : Path cfg Op.Wakes (none, k.chxCpuSchedLock) (none, k₁) := wakeFirst_path (lock_inv h) hw
  exact yieldOrUnlock_heeds ((lock_inv h).path hp)
    (hp.runs (fun _ => Op.Wakes.quiet) (lock_inv h) hr.lock).1 hy
    (ht.trans_le (hp.nthread_le (lock_inv h))) (hn.trans_le (hp.ncall_le (lock_inv h)))
    (wakeFirst_heeds cfg (lock_inv h) hw ht hn ⟨hh.zero, hh.master⟩)

/-- `chopstx_cond_broadcast`. -/
theorem chopstxCondBroadcast_heeds {c : Cid} (h : KernelInv none k) (hr : Runs k u)
    (hc : k.chopstxCondBroadcast cfg u c = .ok k') (ht : t < k.nthread) (hn : n < k.ncall)
    (hh : k.Heeds t n) : k'.Heeds t n := by
  obtain ⟨⟨k₁, b⟩, hw, hy⟩ := res_bind_eq_ok.1 hc
  have hp : Path cfg Op.Wakes (none, k.chxCpuSchedLock) (none, k₁) := wakeAll_path (lock_inv h) hw
  exact yieldOrUnlock_heeds ((lock_inv h).path hp)
    (hp.runs (fun _ => Op.Wakes.quiet) (lock_inv h) hr.lock).1 hy
    (ht.trans_le (hp.nthread_le (lock_inv h))) (hn.trans_le (hp.ncall_le (lock_inv h)))
    (wakeAll_heeds cfg (lock_inv h) hw ht hn ⟨hh.zero, hh.master⟩)

/-- `chx_exit`, by another thread. -/
theorem chxExit_heeds {rv : Nat} (h : KernelInv none k) (hr : Runs k u) (hut : u ≠ t)
    (hx : k.chxExit cfg u rv = .ok k') (ht : t < k.nthread) (hn : n < k.ncall)
    (hh : k.Heeds t n) : k'.Heeds t n := by
  obtain ⟨k₁, hw, hx⟩ := res_bind_eq_ok.1 hx
  have hp : Path cfg Op.Wakes (none, k.chxCpuSchedLock) (none, k₁) :=
    wakeJoiner_path (lock_inv h) hw
  have h₁ := (lock_inv h).path hp
  have hr₁ := (hp.runs (fun _ => Op.Wakes.quiet) (lock_inv h) hr.lock).1
  have hh₁ : k₁.Heeds t n := wakeJoiner_heeds cfg (lock_inv h) hw ht hn ⟨hh.zero, hh.master⟩
  obtain ⟨k₂, he, hx⟩ := res_bind_eq_ok.1 hx
  cases hx
  obtain ⟨hm, -, hr₂⟩ := slice_move cfg h₁ hr₁ he
  have hst : (if (k₂.thread u).flagDetached then ThreadState.finished else .exited) = .exited ∨
      (if (k₂.thread u).flagDetached then ThreadState.finished else .exited) = .finished := by
    split
    · exact .inr rfl
    · exact .inl rfl
  have hsl : Sleeps cfg u Op.None (.die u rv) Op.None k₁ _ :=
    ⟨k₁, k₂, _, _, .refl, hm, .die hr₂.2 hst, .refl, rfl⟩
  obtain ⟨hpath, -⟩ := hsl.path rfl (fun _ ho => ho.elim) (fun _ ho => ho.elim) h₁ hr₁
  refine hpath.heeds h₁ (fun op hop => ?_) (ht.trans_le (hp.nthread_le (lock_inv h)))
    (hn.trans_le (hp.ncall_le (lock_inv h))) hh₁
  cases hop with
  | before ho | after ho => exact ho.elim
  | slice | switch => exact ⟨trivial, id, by simp⟩
  | op => exact ⟨trivial, hut, by simp⟩

/-- **A step of others wakes the thread** when it counts for one of its descriptors. -/
theorem MachineInv.heeds (h : MachineInv cfg s) (hs : step cfg s e = .ok s')
    (hc : ¬ s.InCode n e) (hne : ∀ c lags, e = .run c lags → s.k.running ≠ some t)
    (ht : t < s.k.nthread) (hn : n < s.k.ncall) (hh : s.k.Heeds t n) : s'.k.Heeds t n := by
  by_cases hfire : ∃ i, s.May cfg e (.fire ⟨n, i⟩)
  · obtain ⟨i, hfire⟩ := hfire
    cases step_stepTo hs with
    | tick => cases hfire
    | systick | pendsv => rcases hfire with hf | hf <;> cases hf
    | irq hi hm hk =>
        exact chxHandleIntr_heeds cfg (setLags_inv h.kernel _) hk ht hn ⟨hh.zero, hh.master⟩
    | @run c lags u f rest k' ctx hb hr hf hnext hk =>
        have hut : u ≠ t := by
          rintro rfl
          exact hne c lags rfl hr
        have hsec := h.section hb hr hf hnext
        rcases hfire with hfire | ⟨u', f', rest', hr', hf', hmay⟩
        · cases hfire
        · cases hr.symm.trans hr'
          cases hf.symm.trans hf'
          have hh₀ : (s.k.setLags lags).Heeds t n := ⟨hh.zero, hh.master⟩
          cases hnext with
          | condSignal hc => exact chopstxCondSignal_heeds hsec.kernel hsec.runs hc ht hn hh₀
          | condBroadcast hc => exact chopstxCondBroadcast_heeds hsec.kernel hsec.runs hc ht hn hh₀
          | exit hx => exact chxExit_heeds hsec.kernel hsec.runs hut hx ht hn hh₀
          | poll hp =>
              exfalso
              cases hp <;> simp only [Frame.May, PollPt.May] at hmay <;> grind
          | _ =>
              exfalso
              simp only [Frame.May] at hmay
              grind
  · refine (h.path hs).heeds h.kernel (fun op hop => ⟨hop.foreign hc, fun hcon => ?_, ?_⟩) ht hn hh
    · obtain ⟨hr, c, lags, he⟩ := hop.connects hcon
      exact hne c lags he hr
    · rintro i rfl
      exact hfire ⟨i, hop⟩

/-! ## The proxies of a call -/

/-- The proxies that have been initialized. -/
def PollPt.inited (len : Nat) : PollPt → Nat
  | .init i => i
  | _ => len

/-- The descriptors that are registered, or have been. -/
def PollPt.hooked (len : Nat) (pt : PollPt) : Nat := pt.reached.getD len

/-- The queue in which a proxy waits for the event of its descriptor, and its value. -/
inductive PdKind.Awaits : PdKind → Qh → Nat → Prop
  | cond (c : Cid) (m : Option Mid) (v : Nat) : Awaits (.cond c m) (.cnd c) v
  | intr (irq : Irq) : Awaits (.intr irq) .intr irq
  | join (tp : Tid) : Awaits (.join tp) .join tp

/-- The proxy is in a queue. -/
def Kernel.Queued (k : Kernel) (p : PxId) : Prop := ∃ q, .proxy p ∈ k.queue q

/-- As long as the counter is 0, every descriptor that is registered has its proxy linked. -/
def PollPt.Waits (k : Kernel) (P : Poll) : PollPt → Prop
  | .condReady _ => 0 < k.counter P.call
  | .cleanup _ _ => True
  | pt => k.counter P.call = 0 → ∀ j < pt.hooked P.pds.length, k.Queued (P.px j)

/-- What is known of the proxies of a call at a point of its code. -/
structure PollPt.Watches (cfg : Config) (k : Kernel) (t : Tid) (P : Poll) (pt : PollPt) : Prop where
  inited : pt.inited P.pds.length ≤ P.pds.length
  hooked : pt.hooked P.pds.length ≤ pt.inited P.pds.length
  master : ∀ j < pt.inited P.pds.length, (k.px (P.px j)).master = t
  linked : ∀ j q, .proxy (P.px j) ∈ k.queue q → j < pt.hooked P.pds.length ∧
    ∃ kd, P.pd cfg j = some kd ∧ kd.Awaits q (k.px (P.px j)).v
  waits : pt.Waits k P

/-- Events do not matter, as the counter goes up. -/
theorem PollPt.Waits.fires (h : pt.Waits k P) (hF : Fires P.call F k k') : pt.Waits k' P := by
  have hwaits : (k.counter P.call = 0 → ∀ j < pt.hooked P.pds.length, k.Queued (P.px j)) →
      k'.counter P.call = 0 → ∀ j < pt.hooked P.pds.length, k'.Queued (P.px j) := by
    intro h hc j hj
    rw [hF.counter] at hc
    obtain ⟨q, hq⟩ := h (by omega) j hj
    refine ⟨q, (hF.queue j q).2 ⟨hq, ?_⟩⟩
    rw [List.length_eq_zero_iff.1 (by omega : F.length = 0)]
    simp
  cases pt with
  | condReady => exact Nat.lt_of_lt_of_le h hF.counter_le
  | cleanup => trivial
  | _ => exact hwaits h

theorem PollPt.Watches.fires (h : pt.Watches cfg k t P) (hF : Fires P.call F k k') :
    pt.Watches cfg k' t P := by
  refine ⟨h.inited, h.hooked, fun j hj => ?_, fun j q hq => ?_, h.waits.fires hF⟩
  · exact (congrArg Px.master (hF.px j)).trans (h.master j hj)
  · rw [show k'.px (P.px j) = k.px (P.px j) from hF.px j]
    exact h.linked j q ((hF.queue j q).1 hq).1

/-- The code goes on, and links no proxy. -/
theorem PollPt.Watches.go {pt' : PollPt} (h : pt.Watches cfg k t P)
    (hq : ∀ j q, .proxy (P.px j) ∈ k'.queue q → .proxy (P.px j) ∈ k.queue q)
    (hp : ∀ j, (k'.px (P.px j)).master = (k.px (P.px j)).master ∧
      (k'.px (P.px j)).v = (k.px (P.px j)).v)
    (hi : pt'.inited P.pds.length = pt.inited P.pds.length)
    (hh : pt'.hooked P.pds.length = pt.hooked P.pds.length) (hw : pt'.Waits k' P) :
    pt'.Watches cfg k' t P := by
  refine ⟨hi ▸ h.inited, hi ▸ hh ▸ h.hooked, fun j hj => ?_, fun j q hm => ?_, hw⟩
  · rw [(hp j).1]
    exact h.master j (hi ▸ hj)
  · rw [(hp j).2, hh]
    exact h.linked j q (hq j q hm)

/-- A hook has linked the next proxy, or the counter has gone up. -/
theorem PollPt.Watches.hook {pt' : PollPt} {kd : PdKind} (h : pt.Watches cfg k t P)
    (hi : pt.inited P.pds.length = P.pds.length) (hh : pt.hooked P.pds.length = i)
    (hi' : pt'.inited P.pds.length = P.pds.length) (hh' : pt'.hooked P.pds.length = i + 1)
    (hd : P.pd cfg i = some kd) (hlen : i < P.pds.length)
    (hpx : ∀ j, (k'.px (P.px j)).master = (k.px (P.px j)).master ∧
      (j ≠ i → (k'.px (P.px j)).v = (k.px (P.px j)).v))
    (hq : ∀ j q, .proxy (P.px j) ∈ k'.queue q → .proxy (P.px j) ∈ k.queue q ∨
      j = i ∧ kd.Awaits q (k'.px (P.px j)).v)
    (hw : pt'.Waits k' P) : pt'.Watches cfg k' t P := by
  refine ⟨hi'.le, ?_, fun j hj => ?_, fun j q hm => ?_, hw⟩
  · rw [hh', hi']
    exact hlen
  · rw [hi'] at hj
    rw [(hpx j).1]
    exact h.master j (by rw [hi]; exact hj)
  · rw [hh']
    rcases hq j q hm with hm | ⟨rfl, ha⟩
    · obtain ⟨hlt, hex⟩ := h.linked j q hm
      rw [hh] at hlt
      rw [(hpx j).2 hlt.ne]
      exact ⟨hlt.trans (Nat.lt_succ_self i), hex⟩
    · exact ⟨Nat.lt_succ_self j, kd, hd, ha⟩

/-- What a step of the code of a call leads to. -/
def WatchGoes (cfg : Config) (t : Tid) (P : Poll) (rest : List Frame) (k' : Kernel)
    (fs : List Frame) : Prop :=
  ∃ l P' pt', fs = l ++ .poll P' pt' :: rest ∧ P'.call = P.call ∧ P'.pds = P.pds ∧
    pt'.Watches cfg k' t P'

theorem WatchGoes.of {l : List Frame} {pt' : PollPt} (hfs : fs = l ++ .poll P pt' :: rest)
    (h : pt'.Watches cfg k' t P) : WatchGoes cfg t P rest k' fs :=
  ⟨l, P, pt', hfs, rfl, rfl, h⟩

theorem WatchGoes.stay {l : List Frame} {pt' : PollPt} (hfs : fs = l ++ .poll P pt' :: rest)
    (h : pt.Watches cfg k t P) (hi : pt'.inited P.pds.length = pt.inited P.pds.length)
    (hh : pt'.hooked P.pds.length = pt.hooked P.pds.length)
    (hw : pt.Waits k P → pt'.Waits k P) : WatchGoes cfg t P rest k fs :=
  .of hfs (h.go (fun _ _ => id) (fun _ => ⟨rfl, rfl⟩) hi hh (hw h.waits))

/-- A section in which no event happens. -/
theorem Path.fires_nil (hp : Path cfg R (off, k) (off', k')) (h : KernelInv off k)
    (hn : n < k.ncall) (hR : ∀ op, R op → op.Foreign n ∧ ∀ p, op ≠ .fire p) :
    Fires n [] k k' := by
  have hfire : ∀ p, ¬ R (.fire p) := fun p hp => (hR _ hp).2 p rfl
  obtain ⟨F, hF, hRF⟩ := hp.fires h (fun op hop => (hR op hop).1) hn (.inl hfire)
  have hnil : F = [] := List.eq_nil_iff_forall_not_mem.2 fun i hi => hfire _ (hRF i hi)
  exact hnil ▸ hF

/-- The moves of the sections in which a call puts its thread to sleep. -/
theorem PollPt.May.sleeps (h : pt.May cfg t P op) (hpt : pt = .main ∨ pt = .snooze) :
    op.Foreign n ∧ (∀ p, op ≠ .fire p) ∧ ∀ d b, op ≠ .ready d b := by
  have hops : ∀ {o : Op}, o.Foreign n → (∀ p, o ≠ .fire p) → (∀ d b, o ≠ .ready d b) →
      op = .aux ∨ Sleeps.Ops t Op.None o Op.None op →
        op.Foreign n ∧ (∀ p, op ≠ .fire p) ∧ ∀ d b, op ≠ .ready d b := by
    rintro o ho hf hr (rfl | hop)
    · exact ⟨trivial, by simp, by simp⟩
    · cases hop with
      | before h | after h => exact h.elim
      | slice | switch => exact ⟨trivial, by simp, by simp⟩
      | op => exact ⟨ho, hf, hr⟩
  rcases hpt with rfl | rfl
  · exact hops (o := .pollSleep t) trivial (by simp) (by simp) h
  · exact hops (o := .sleep t .waitPoll) trivial (by simp) (by simp) h

/-- The section in which a call puts its thread to sleep. -/
theorem PollNext.fires_nil (hn : PollNext cfg k t P rest ret pt k' ctx) (h : KernelInv none k)
    (hr : Runs k t) (hcall : n < k.ncall) (hpt : pt = .main ∨ pt = .snooze) : Fires n [] k k' :=
  (hn.path h hr).1.fires_nil h hcall fun _ hop =>
    ⟨(hop.sleeps hpt).1, (hop.sleeps (n := n) hpt).2.1⟩

/-- The queues after a proxy has been put into one. -/
theorem mem_llPrioEnqueue {y : Pq} {q' : Qh} :
    y ∈ (k.llPrioEnqueue x q).queue q' ↔ y ∈ k.queue q' ∨ q' = q ∧ y = x := by
  by_cases hq : q' = q
  · subst hq
    rw [llPrioEnqueue_queue_perm.mem_iff]
    simp [or_comm]
  · rw [llPrioEnqueue_queue_of_ne hq]
    simp [hq]

/-- What of a proxy is no place in a queue. -/
theorem llPrioEnqueue_px : ((k.llPrioEnqueue x q).px p).master = (k.px p).master ∧
    ((k.llPrioEnqueue x q).px p).v = (k.px p).v ∧
      ((k.llPrioEnqueue x q).px p).readyP = (k.px p).readyP := by
  cases x with
  | thread u => exact ⟨rfl, rfl, rfl⟩
  | proxy p' =>
      by_cases hp : p = p'
      · subst hp
        simp [llPrioEnqueue, setParent]
      · simp [llPrioEnqueue, setParent, hp]

/-- What is not written into a proxy stays as it is. -/
theorem modPx_px_of {β : Type} (φ : Px → β) {g : Px → Px} (hg : ∀ y, φ (g y) = φ y) (p p' : PxId) :
    φ ((k.modPx p' g).px p) = φ (k.px p) := by
  rw [modPx_px]
  by_cases hp : p = p'
  · subst hp
    rw [Function.update_self, hg]
  · rw [Function.update_of_ne hp]

/-- What is written into another proxy, or into none but its value. -/
theorem modPx_other {g : Px → Px} (hg : ∀ y, (g y).master = y.master) {j : Nat} :
    ((k.modPx (P.px i) g).px (P.px j)).master = (k.px (P.px j)).master ∧
      (j ≠ i → ((k.modPx (P.px i) g).px (P.px j)).v = (k.px (P.px j)).v) := by
  refine ⟨modPx_px_of Px.master hg _ _, fun hj => ?_⟩
  rw [modPx_px, Function.update_of_ne (by simpa [Poll.px] using hj)]

/-- The counter has gone up when a descriptor was found ready. -/
theorem PollPt.Waits.of_pos {pt' : PollPt} (h : 0 < k.counter P.call) : pt'.Waits k P := by
  cases pt' with
  | condReady => exact h
  | cleanup => trivial
  | _ => exact fun hc => absurd hc h.ne'

/-- A hook has put its proxy into a queue. -/
theorem PollPt.Watches.link {pt' : PollPt} {kd : PdKind} (k₁ : Kernel) (h : pt.Watches cfg k t P)
    (hi : pt.inited P.pds.length = P.pds.length) (hh : pt.hooked P.pds.length = i)
    (hi' : pt'.inited P.pds.length = P.pds.length) (hh' : pt'.hooked P.pds.length = i + 1)
    (hd : P.pd cfg i = some kd) (hlen : i < P.pds.length)
    (hpx : ∀ j, (k₁.px (P.px j)).master = (k.px (P.px j)).master ∧
      (j ≠ i → (k₁.px (P.px j)).v = (k.px (P.px j)).v))
    (hqk : k₁.queue = k.queue) (ha : kd.Awaits q (k₁.px (P.px i)).v)
    (hq : k'.queue = (k₁.llPrioEnqueue (.proxy (P.px i)) q).queue)
    (hp : k'.px = (k₁.llPrioEnqueue (.proxy (P.px i)) q).px)
    (hw : k.counter P.call = 0 → ∀ j < i, k.Queued (P.px j)) (hc : k'.counter = k.counter)
    (hw' : (k'.counter P.call = 0 → ∀ j < i + 1, k'.Queued (P.px j)) → pt'.Waits k' P) :
    pt'.Watches cfg k' t P := by
  have hmem : ∀ j q', .proxy (P.px j) ∈ k'.queue q' ↔
      .proxy (P.px j) ∈ k.queue q' ∨ q' = q ∧ j = i := by
    intro j q'
    rw [hq, mem_llPrioEnqueue, hqk]
    simp [Poll.px]
  refine h.hook hi hh hi' hh' hd hlen (fun j => ?_) (fun j q' hm => ?_) (hw' fun hz j hj => ?_)
  · rw [hp]
    obtain ⟨hm, hv, -⟩ := llPrioEnqueue_px (k := k₁) (x := .proxy (P.px i)) (q := q) (p := P.px j)
    exact ⟨hm.trans (hpx j).1, fun hj => hv.trans ((hpx j).2 hj)⟩
  · refine ((hmem j q').1 hm).imp id ?_
    rintro ⟨rfl, rfl⟩
    refine ⟨rfl, ?_⟩
    rw [hp, (llPrioEnqueue_px (k := k₁) (x := .proxy (P.px j)) (q := q') (p := P.px j)).2.1]
    exact ha
  · rw [hc] at hz
    rcases Nat.lt_succ_iff_lt_or_eq.1 hj with hj | rfl
    · obtain ⟨q', hm⟩ := hw hz j hj
      exact ⟨q', (hmem j q').2 (.inl hm)⟩
    · exact ⟨q, (hmem j q).2 (.inr ⟨rfl, rfl⟩)⟩

/-- **A step of the code of a call**: it goes on, or the thread exits, or the call returns. -/
theorem PollNext.watches (hn : PollNext cfg k t P rest ret pt k' ctx) (h : KernelInv none k)
    (hr : Runs k t) (hcall : P.call < k.ncall) (hw : pt.Watches cfg k t P) :
    WatchGoes cfg t P rest k' ctx.frames ∨ ctx.frames = [.exitStart chopstxCanceled] ∨
      ctx.frames = rest := by
  have hlt : ∀ {i : Nat} {d : PdId}, P.pds[i]? = some d → i < P.pds.length := fun hd =>
    (List.getElem?_eq_some_iff.1 hd).1
  have hpd : ∀ {i : Nat} {d : PdId}, P.pds[i]? = some d → P.pd cfg i = some (cfg.pd d) :=
    fun hd => by rw [Poll.pd, hd, Option.map_some]
  have hnext := hn
  cases hn with
  | @init i hi =>
      refine .inl (.of (l := []) rfl ⟨hi, Nat.zero_le _, fun j hj => ?_, fun j q hm => ?_, ?_⟩)
      · rw [chxProxyInit, modPx_px]
        by_cases hji : j = i
        · rw [hji, Function.update_self]
        · have hne : P.px j ≠ P.px i := by simpa [Poll.px] using hji
          rw [Function.update_of_ne hne]
          refine hw.master j ?_
          change j < i
          change j < i + 1 at hj
          omega
      · exact absurd (hw.linked j q hm).1 (Nat.not_lt_zero j)
      · exact fun _ j hj => absurd hj (Nat.not_lt_zero j)
  | @initEnd i hi =>
      have heq : i = P.pds.length := le_antisymm hw.inited hi
      subst heq
      exact .inl (.stay (l := []) rfl hw rfl rfl id)
  | @hook i d hd =>
      have hpts : ∀ len, ((cfg.pd d).hookPt i).inited len = len ∧
          ((cfg.pd d).hookPt i).hooked len = i := by
        intro len
        cases cfg.pd d <;> exact ⟨rfl, rfl⟩
      have hwaits : ((cfg.pd d).hookPt i).Waits
          (k.modPx (P.px i) fun px => { px with readyP := some d }) P := by
        cases cfg.pd d <;> exact hw.waits
      refine .inl (.of (l := [.testcancel]) rfl (hw.go (fun _ _ => id) (fun j => ?_) (hpts _).1
        (hpts _).2 hwaits))
      exact ⟨(modPx_other (g := fun px => { px with readyP := some d }) fun _ => rfl).1,
        modPx_px_of (g := fun px => { px with readyP := some d }) Px.v (fun _ => rfl) _ _⟩
  | @hookEnd i hd =>
      have heq : i = P.pds.length := le_antisymm hw.hooked (List.getElem?_eq_none_iff.1 hd)
      subst heq
      exact .inl (.stay (l := []) rfl hw rfl rfl id)
  | condLock => exact .inl (.stay (l := [_]) rfl hw rfl rfl id)
  | condUnlock => exact .inl (.stay (l := [_]) rfl hw rfl rfl id)
  | condHook | checkTrue | checkFalse | condLoad | condEnd =>
      exact .inl (.stay (l := []) rfl hw rfl rfl id)
  | @condStore i c =>
      refine .inl (.of (l := []) rfl (hw.go (fun _ _ => id) (fun _ => ⟨rfl, rfl⟩) rfl rfl ?_))
      change 0 < Function.update k.counter P.call (c + 1) P.call
      rw [Function.update_self]
      exact Nat.succ_pos c
  | @condReady i d hd =>
      exact .inl (.of (l := []) rfl (hw.hook rfl rfl rfl rfl (hpd hd) (hlt hd)
        (fun _ => ⟨rfl, fun _ => rfl⟩) (fun _ _ => .inl) (.of_pos hw.waits)))
  | condClear =>
      exact .inl (.of (l := []) rfl
        (hw.go (fun _ _ => id) (fun _ => ⟨rfl, rfl⟩) rfl rfl hw.waits))
  | @condEnqueue i d c m hd hc =>
      refine .inl (.of (l := []) rfl (hw.link k.chxCpuSchedLock (q := .cnd c) rfl rfl rfl rfl
        (hpd hd) (hlt hd) (fun _ => ⟨rfl, fun _ => rfl⟩) rfl ?_ rfl rfl hw.waits rfl id))
      rw [hc]
      exact .cond c m _
  | @intrHook i d m hd hm =>
      have hv := fun j => modPx_other (k := k.chxCpuSchedLock) (P := P) (i := i) (j := j)
        (g := fun px => { px with v := m }) fun _ => rfl
      have key : PollPt.Watches cfg (k.chxIntrHook (P.px i) d m) t P (.hook (i + 1)) := by
        rw [chxIntrHook]
        split
        · refine hw.hook rfl rfl rfl rfl (hpd hd) (hlt hd) hv (fun _ _ => .inl) (.of_pos ?_)
          change 0 < Function.update k.counter P.call (k.counter P.call + 1) P.call
          rw [Function.update_self]
          exact Nat.succ_pos _
        · refine hw.link (k.chxCpuSchedLock.modPx (P.px i) fun px => { px with v := m })
            (i := i) (q := .intr) rfl rfl rfl rfl (hpd hd) (hlt hd) hv rfl ?_ rfl rfl hw.waits
            rfl id
          rw [hm, modPx_px, Function.update_self]
          exact .intr m
      exact .inl (.of (l := []) rfl key)
  | joinFatal =>
      exact .inl (.of (l := [_]) rfl (hw.go (fun _ _ => id) (fun _ => ⟨rfl, rfl⟩) rfl rfl hw.waits))
  | @joinHook i d tp hd hj hf =>
      have key : PollPt.Watches cfg (k.chxJoinHook (P.px i) d tp) t P (.hook (i + 1)) := by
        rw [chxJoinHook]
        split
        · refine hw.hook rfl rfl rfl rfl (hpd hd) (hlt hd) (fun _ => ⟨rfl, fun _ => rfl⟩)
            (fun _ _ => .inl) (.of_pos ?_)
          change 0 < Function.update k.counter P.call (k.counter P.call + 1) P.call
          rw [Function.update_self]
          exact Nat.succ_pos _
        · have hv := fun j => modPx_other (k := k.chxCpuSchedLock.setReady d false) (P := P)
            (i := i) (j := j) (g := fun px => { px with v := tp }) fun _ => rfl
          refine hw.link ((k.chxCpuSchedLock.setReady d false).modPx (P.px i) fun px =>
              { px with v := tp }) (i := i) (q := .join) rfl rfl rfl rfl (hpd hd) (hlt hd) hv rfl ?_
            rfl rfl hw.waits rfl id
          rw [hj, modPx_px, Function.update_self]
          exact .join tp
      exact .inl (.of (l := []) rfl key)
  | mainReady | snoozeReady =>
      exact .inl (.of (l := []) rfl (hw.go (fun _ _ => id) (fun _ => ⟨rfl, rfl⟩) rfl rfl trivial))
  | mainLoop =>
      exact .inl (.of (l := []) rfl (hw.go (fun _ _ => id) (fun _ => ⟨rfl, rfl⟩) rfl rfl hw.waits))
  | wake => exact .inl (.stay (l := []) rfl hw rfl rfl fun _ => trivial)
  | loop => exact .inl (.stay (l := [_]) rfl hw rfl rfl id)
  | snoozeAgain =>
      exact .inl ⟨[], _, _, rfl, rfl, rfl, hw.inited, hw.hooked, hw.master, hw.linked, hw.waits⟩
  | snoozeDone =>
      exact .inl ⟨[], _, _, rfl, rfl, rfl, hw.inited, hw.hooked, hw.master, hw.linked, trivial⟩
  | mainSleep hc hu hz =>
      have hF := hnext.fires_nil h hr hcall (.inl rfl)
      exact .inl (.of (l := [_]) rfl ((hw.fires hF).go (fun _ _ => id) (fun _ => ⟨rfl, rfl⟩) rfl rfl
        (hw.fires hF).waits))
  | snoozeEnd hc hz =>
      have hF := hnext.fires_nil h hr hcall (.inr rfl)
      exact .inl (.of (l := []) rfl
        ((hw.fires hF).go (fun _ _ => id) (fun _ => ⟨rfl, rfl⟩) rfl rfl trivial))
  | snoozeSleep hc hz =>
      have hF := hnext.fires_nil h hr hcall (.inr rfl)
      exact .inl (.of (l := [_]) rfl ((hw.fires hF).go (fun _ _ => id) (fun _ => ⟨rfl, rfl⟩) rfl rfl
        (hw.fires hF).waits))
  | @cleanup i d r hd =>
      have key : PollPt.Watches cfg (k.pollCleanup cfg (P.px i) d) t P (.cleanup (i + 1) r) := by
        rw [pollCleanup]
        split
        · exact hw.go (fun _ _ => id) (fun _ => ⟨rfl, rfl⟩) rfl rfl trivial
        · cases cfg.pd d with
          | cond | intr | join =>
              exact hw.go (fun _ _ => List.mem_of_mem_filter) (fun _ => ⟨rfl, rfl⟩) rfl rfl trivial
      exact .inl (.of (l := []) rfl key)
  | exit => exact .inr (.inl rfl)
  | done => exact .inr (.inr rfl)

/-! ## All calls -/

/-- The calls in all stacks watch their descriptors, and who sleeps in one has nothing counted. -/
structure WatchInv (cfg : Config) (s : State) : Prop where
  watches : ∀ t P pt, .poll P pt ∈ (s.ctx t).frames → pt.Watches cfg s.k t P
  asleep : ∀ t P pt rest, (s.ctx t).frames = .schedRet :: .poll P pt :: rest →
    (s.k.thread t).state = .waitPoll → s.k.counter P.call = 0

/-- `schedRet` is above a call only when the call has put its thread to sleep. -/
theorem Next.asleep {P' : Poll} {pt' : PollPt} {m : Nat} (hn : Next cfg k t rest ret f k' ctx)
    (h : KernelInv none k) (hr : Runs k t) (hsh : Shape cfg m (f :: rest))
    (hf : ctx.frames = .schedRet :: .poll P' pt' :: fs)
    (hcall : ∀ n, f.callNo = some n → n < k.ncall) : k'.counter P'.call = 0 := by
  have hrest : rest ≠ .schedRet :: .poll P' pt' :: fs := by
    rintro rfl
    cases hsh.below with
    | testcancel htc => cases htc
    | schedRet hsl => cases hsl
  have hzero : Fires P'.call [] k k' → k.counter P'.call = 0 → k'.counter P'.call = 0 :=
    fun hF hc => hF.counter.trans hc
  cases hn with
  | poll hp =>
      have hp' := hp
      cases hp with
      | mainSleep hc hu hz =>
          cases hf
          exact hzero (hp'.fires_nil h hr (hcall _ rfl) (.inl rfl)) hc
      | snoozeSleep hc hz =>
          cases hf
          exact hzero (hp'.fires_nil h hr (hcall _ rfl) (.inr rfl)) hc
      | done => exact absurd hf hrest
      | _ => cases hf
  | call hv hc =>
      rename_i c
      cases c <;> cases hf
  | _ => first | exact absurd hf hrest | cases hf

/-- **Every step keeps the calls watching their descriptors.** -/
theorem WatchInv.step (h : WatchInv cfg s) (hi : MachineInv cfg s) (hc : CallsInv s)
    (hp : ProxiesInv s) (hs : step cfg s e = .ok s') : WatchInv cfg s' := by
  have hmem : ∀ {u P pt}, .poll P pt ∈ (s.ctx u).frames → P.call < s.k.ncall := fun hm =>
    hc.lt _ _ (mem_calls hm)
  have hothers : ∀ u P pt, .poll P pt ∈ (s.ctx u).frames → ¬ s.InCode P.call e →
      pt.Watches cfg s'.k u P := by
    intro u P pt hm hin
    obtain ⟨F, hF⟩ := hi.fires hs (hmem hm) hin
    exact (h.watches u P pt hm).fires hF
  -- a thread that sleeps in a call does not run
  have hsleeps : ∀ u P pt rest, (s.ctx u).frames = .schedRet :: .poll P pt :: rest →
      (∀ c lags, e = .run c lags → s.k.running ≠ some u) →
        (s'.k.thread u).state = .waitPoll → s'.k.counter P.call = 0 := by
    intro u P pt rest hf hne hst
    have hm : .poll P pt ∈ (s.ctx u).frames := by simp [hf]
    have hw := h.watches u P pt hm
    have hlt : u < s.k.nthread := by
      by_contra hge
      rw [hi.fresh u (not_lt.1 hge)] at hf
      cases hf
    have hin : ¬ s.InCode P.call e := hc.not_inCode hm fun rest' _ heq => by
      rw [hf] at heq
      cases heq
    refine (hi.heeds hs hin hne hlt (hmem hm) ⟨h.asleep u P pt rest hf, fun i q hq => ?_⟩).zero hst
    exact hw.master i ((hw.linked i q hq).1.trans_le hw.hooked)
  cases step_stepTo hs with
  | tick | systick | irq | pendsv =>
      exact ⟨fun u P pt hm => hothers u P pt hm id,
        fun u P pt rest hf => hsleeps u P pt rest hf (by simp)⟩
  | @run c lags t f rest k' ctx hb hr hf hnext hk =>
      have hk₀ := setLags_inv hi.kernel lags
      have hsec := hi.section hb hr hf hnext
      refine ⟨fun u P pt hm => ?_, fun u P pt fs hfs hst => ?_⟩
      · by_cases hu : u = t
        · subst hu
          simp only [Function.update_self] at hm
          rcases hnext.poll_mem hk₀ hm with hm | ⟨hcall, rfl, -⟩ | ⟨P₀, pt₀, l, rfl, hn, hfs⟩
          · have hm' : .poll P pt ∈ (s.ctx u).frames := by
              rw [hf]
              exact List.mem_cons_of_mem _ hm
            refine hothers u P pt hm' (hc.not_inCode hm' fun rest' _ heq => ?_)
            -- then the call would be in the stack twice
            have hnd := hc.nodup u
            have hfe := (List.cons.inj (hf.symm.trans heq)).1
            rw [hf, hfe, calls_cons_of_some (n := P.call) rfl] at hnd
            exact absurd (mem_calls hm) (List.nodup_cons.1 hnd).1
          · have hnew : ∀ j q, .proxy (P.px j) ∉ k'.queue q := fun j q =>
              hi.unlinked hs (p := P.px j)
                (fun hin => absurd (hc.inCode_lt hin) (not_lt.2 hcall.ge))
                (hp.begun (P.px j) hcall.ge) q
            exact ⟨Nat.zero_le _, le_rfl, fun j hj => absurd hj (Nat.not_lt_zero j),
              fun j q hm => absurd hm (hnew j q), fun _ j hj => absurd hj (Nat.not_lt_zero j)⟩
          · have hm₀ : .poll P₀ pt₀ ∈ (s.ctx u).frames := by
              rw [hf]
              exact List.mem_cons_self ..
            have hw₀ := h.watches u P₀ pt₀ hm₀
            have hgoes := hn.watches hk₀ hsec.runs (hmem hm₀)
              ⟨hw₀.inited, hw₀.hooked, hw₀.master, hw₀.linked, hw₀.waits⟩
            exact (goes_of_eq hgoes hfs).2.2
        · simp only [Function.update_of_ne hu] at hm
          refine hothers u P pt hm (hc.not_inCode hm fun _ hr' _ => hu ?_)
          exact Option.some.inj (hr'.symm.trans hr)
      · by_cases hu : u = t
        · subst hu
          simp only [Function.update_self] at hfs
          have hsh := hi.shape u
          rw [hf] at hsh
          refine hnext.asleep hk₀ hsec.runs hsh hfs fun n hn => ?_
          refine hc.lt u n ?_
          rw [hf, calls_cons_of_some hn]
          exact List.mem_cons_self ..
        · simp only [Function.update_of_ne hu] at hfs
          refine hsleeps u P pt fs hfs (fun c' lags' _ hr' => hu ?_) hst
          exact Option.some.inj (hr'.symm.trans hr)

theorem watchInv_of_reach {ok : State → Event → Prop} (h : Reach (step cfg) ok (init cfg) s) :
    WatchInv cfg s := by
  refine Reach.invariant_of (P := WatchInv cfg)
    (I := fun s => MachineInv cfg s ∧ CallsInv s ∧ ProxiesInv s)
    (fun _ h => ⟨machineInv_of_reach h, callsInv_of_reach h, proxiesInv_of_reach h⟩) ?_
    (fun s e s' hi _ hw _ hs => hw.step hi.1 hi.2.1 hi.2.2 hs) h
  have hframes : ∀ t, ((init cfg).ctx t).frames = [.user] := fun _ => rfl
  refine ⟨fun t P pt hm => ?_, fun t P pt rest hf => ?_⟩
  · rw [hframes] at hm
    simp at hm
  · rw [hframes] at hf
    cases hf

end Chopstx
