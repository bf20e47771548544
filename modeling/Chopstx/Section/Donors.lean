import Chopstx.Library.Donation
import Chopstx.Section.Api
import Chopstx.Section.Drift

/-!
# Who waits for whom

A thread that is queued on a mutex waits for the owner of the mutex, and a thread in
`chopstx_join` for its target.  With the priorities this makes the threads `Donors`, and
each function of the scheduler does one of the things that can happen to donors: most
change nothing, the loops of priority inheritance hand a priority on along a chain, and the
hand-over of a mutex frees its waiters and gives its former owner a new priority.

* `waitsFor` - who can wake a thread up, and `Kernel.donors` the threads as `Donors`.
* `inherit_donors` - the loops of priority inheritance are a `Lift`.
* `chxWakeup_donors`, `wakeAll_donors`, `wakeJoiner_donors`, `setPrio_donors`, `requeue_donors` -
  the other functions, and `Op.KeepsDonors` the moves that change nothing.
-/

namespace Chopstx

open Kernel Donation

namespace Kernel

/-- Who can wake the thread up: the owner of the mutex that it is queued on, or the thread
whose exit it waits for. -/
def waitsFor (k : Kernel) (u : Tid) : Option Tid :=
  match (k.thread u).state with
  | .waitMtx =>
      match (k.thread u).parent with
      | some (.mtx m) => (k.mutex m).owner
      | _ => none
  | .waitExit => some (k.thread u).v
  | _ => none

def donors (k : Kernel) : Donors Tid Nat where
  waits := k.waitsFor
  prio u := (k.thread u).prio
  orig u := (k.thread u).prioOrig

/-- Is the thread queued on the mutex? -/
def queuedOn (k : Kernel) (m : Mid) (u : Tid) : Bool := decide (.thread u ∈ k.queue (.mtx m))

/-- The entry of `q_join` that `chx_exit` wakes up. -/
def joiner (k : Kernel) (t : Tid) : Option Pq :=
  if (k.thread t).flagJoinReq then (k.queue .join).find? fun p => k.pqV p = t else none

end Kernel

/-- The states of a thread that waits for another thread. -/
def ThreadState.Waits (s : ThreadState) : Prop := s = .waitMtx ∨ s = .waitExit

/-- The moves that neither change a priority nor who waits for whom. -/
def Op.KeepsDonors : Op → Prop
  | .prio _ | .raise _ | .wake _ _ | .block _ _ _ | .acquire _ _ | .drop _ _ | .create _ => False
  | _ => True

variable {cfg : Config} {k k' k₁ : Kernel} {t tp u : Tid} {m : Mid} {off off' : Option Tid}
  {op : Op} {P : Op → Prop} {o : Option Tid}

/-! ## Records -/

theorem waitsFor_eq_none (h : ¬ (k.thread u).state.Waits) : k.waitsFor u = none := by
  rw [waitsFor]
  split
  · rename_i hs
    exact absurd (.inl hs) h
  · rename_i hs
    exact absurd (.inr hs) h
  · rfl

theorem waitsFor_congr (hs : (k'.thread u).state = (k.thread u).state)
    (hp : (k'.thread u).parent = (k.thread u).parent)
    (hv : (k.thread u).state = .waitExit → (k'.thread u).v = (k.thread u).v)
    (ho : ∀ m, (k'.mutex m).owner = (k.mutex m).owner) : k'.waitsFor u = k.waitsFor u := by
  rw [waitsFor, waitsFor, hs, hp]
  cases h : (k.thread u).state with
  | waitMtx =>
      cases (k.thread u).parent with
      | none => rfl
      | some q =>
          cases q with
          | mtx m => exact ho m
          | _ => rfl
  | waitExit => exact congrArg some (hv h)
  | _ => rfl

/-- A thread that waits for no thread before and after. -/
theorem waitsFor_congr_none (h : ¬ (k.thread u).state.Waits) (h' : ¬ (k'.thread u).state.Waits) :
    k'.waitsFor u = k.waitsFor u := by
  rw [waitsFor_eq_none h, waitsFor_eq_none h']

theorem donors_congr (ht : k'.thread = k.thread) (hm : k'.mutex = k.mutex) :
    k'.donors = k.donors := by
  refine Donors.ext (funext fun u => waitsFor_congr ?_ ?_ (fun _ => ?_) fun m => ?_)
    (funext fun u => ?_) (funext fun u => ?_)
  · rw [ht]
  · rw [ht]
  · rw [ht]
  · rw [hm]
  · exact congrArg (fun th : Tid → Thread => (th u).prio) ht
  · exact congrArg (fun th : Tid → Thread => (th u).prioOrig) ht

theorem requeue_snd : (k.requeue t).2 = k.waitsFor t := by
  rw [requeue, waitsFor]
  cases (k.thread t).state with
  | waitMtx =>
      cases (k.thread t).parent with
      | none => rfl
      | some q => cases q <;> rfl
  | _ => rfl

/-- A thread waits for the owner of the mutex that it is queued on, or for its target. -/
theorem KernelInv.waitsFor_eq_some (h : KernelInv none k) :
    k.waitsFor u = some t ↔ (∃ m, (k.mutex m).owner = some t ∧ .thread u ∈ k.queue (.mtx m)) ∨
      (k.thread u).state = .waitExit ∧ (k.thread u).v = t := by
  constructor
  · intro hw
    rw [waitsFor] at hw
    split at hw
    · rename_i hs
      obtain ⟨m, hin⟩ := (h.place' u).waitMtx hs
      have hp : (k.thread u).parent = some (.mtx m) := hin.1
      rw [hp] at hw
      exact .inl ⟨m, hw, mem_of_isIn hin⟩
    · rename_i hs
      exact .inr ⟨hs, Option.some.inj hw⟩
    · cases hw
  · rintro (⟨m, ho, hm⟩ | ⟨hs, rfl⟩)
    · have hs : (k.thread u).state = .waitMtx := h.holds_of_mem hm
      have hp : (k.thread u).parent = some (.mtx m) := (h.isIn_of_mem hm).1
      rw [waitsFor, hs, hp]
      exact ho
    · rw [waitsFor, hs]

/-- The thread is queued on this mutex. -/
theorem KernelInv.queuedOn_iff (h : KernelInv none k) :
    k.queuedOn m u = true ↔
      (k.thread u).state = .waitMtx ∧ (k.thread u).parent = some (.mtx m) := by
  rw [queuedOn, decide_eq_true_eq]
  refine ⟨fun hm => ⟨h.holds_of_mem hm, (h.isIn_of_mem hm).1⟩, fun ⟨hs, hp⟩ => ?_⟩
  obtain ⟨m', hin⟩ := (h.place' u).waitMtx hs
  cases hin.1.symm.trans hp
  exact mem_of_isIn hin

/-! ## Moves -/

theorem Move.owner (hm : Move cfg op (off, k) (off', k')) (h : KernelInv off k)
    (hop : op.KeepsDonors) : k'.mutex = k.mutex := by
  by_cases ho : op.KeepsObjects
  · exact congrArg Objects.mutex (hm.objects h ho)
  · cases hm with
    | aux | count | proxy | fire | link | ready | enable | disable => rfl
    | acquire | drop | create => exact hop.elim
    | _ => exact absurd trivial ho

/-- A state that is none of those of a thread that waits. -/
theorem not_waits_of {s s' : ThreadState} (h : s = s') (hn : s' ≠ .waitMtx ∧ s' ≠ .waitExit) :
    ¬ s.Waits := by
  subst h
  exact fun hw => hw.elim hn.1 hn.2

theorem Untouched.waitsFor (hu : Untouched k k' u) (h : KernelInv off k)
    (ho : k'.mutex = k.mutex) : k'.waitsFor u = k.waitsFor u := by
  refine waitsFor_congr hu.state (by rw [hu.thread]) (fun hs => hu.value fun hm => ?_)
    fun m => by rw [ho]
  rcases h.holds_of_mem hm with h' | h' | h' <;> rw [hs] at h' <;> cases h'

/-- The thread that is switched to was ready before. -/
theorem switchThread_donors (h : KernelInv none k) :
    (k.switchThread cfg).donors = k.donors := by
  rcases switchThread_switched cfg h with ⟨-, heq⟩ | ⟨t, hsw⟩
  · rw [heq]
    rfl
  · have howner : (k.switchThread cfg).mutex = k.mutex := congrArg Objects.mutex hsw.objects
    refine Donors.ext (funext fun u => ?_) (funext fun u => ?_) (funext fun u => ?_)
    · change (k.switchThread cfg).waitsFor u = k.waitsFor u
      by_cases hut : u = t
      · subst hut
        refine waitsFor_congr_none (not_waits_of hsw.ready (by simp)) (not_waits_of rfl ?_)
        rw [hsw.self]
        simp
      · refine waitsFor_congr (by rw [hsw.others u hut]) (by rw [hsw.others u hut])
          (fun hs => hsw.value u hut fun hm => ?_) fun m => by rw [howner]
        rcases h.holds_of_mem hm with h' | h' | h' <;> rw [hs] at h' <;> cases h'
    · change ((k.switchThread cfg).thread u).prio = (k.thread u).prio
      by_cases hut : u = t
      · subst hut
        rw [hsw.self]
      · rw [hsw.others u hut]
    · change ((k.switchThread cfg).thread u).prioOrig = (k.thread u).prioOrig
      by_cases hut : u = t
      · subst hut
        rw [hsw.self]
      · rw [hsw.others u hut]

/-- Most moves change neither a priority nor who waits for whom. -/
theorem Move.donors (hm : Move cfg op (off, k) (off', k')) (h : KernelInv off k)
    (hop : op.KeepsDonors) : k'.donors = k.donors := by
  by_cases hsw : op = .switch
  · subst hsw
    cases hm with
    | switch hs => exact switchThread_donors h
  have hprio : ∀ u, (k'.thread u).prio = (k.thread u).prio ∧
      (k'.thread u).prioOrig = (k.thread u).prioOrig := by
    intro u
    by_cases hr : op.KeepsRecords
    · rw [hm.record h hr u]
      exact ⟨rfl, rfl⟩
    · cases hm with
      | @flags _ _ t w =>
          by_cases hut : u = t
          · subst hut
            simp
          · simp [hut]
      | prio | raise | acquire | drop | create => exact hop.elim
      | _ => exact absurd trivial hr
  have howner := hm.owner h hop
  refine Donors.ext (funext fun u => ?_) (funext fun u => (hprio u).1)
    (funext fun u => (hprio u).2)
  change k'.waitsFor u = k.waitsFor u
  by_cases ht : op.target = some u
  · cases hm with
    | flags w =>
        cases ht
        exact waitsFor_congr (by simp) (by simp) (fun _ => by simp) fun _ => rfl
    | slice hr hs he =>
        cases ht
        have hs' : (k'.thread u).state = .running := by
          rw [(h.slice hs he).2.2.2 u]
          exact hs
        exact waitsFor_congr_none (not_waits_of hs (by simp)) (not_waits_of hs' (by simp))
    | sleep hs hst hpos hle =>
        cases ht
        refine waitsFor_congr_none (not_waits_of hs (by simp)) (not_waits_of rfl ?_)
        rw [chxTimerInsert_thread h.timer_modThread, modThread_thread, Function.update_self]
        rcases hst with rfl | rfl <;> simp
    | pollSleep hs =>
        cases ht
        exact waitsFor_congr_none (not_waits_of hs (by simp)) (not_waits_of rfl (by simp))
    | die hs hst =>
        cases ht
        refine waitsFor_congr_none (not_waits_of hs (by simp)) (not_waits_of rfl ?_)
        rcases hst with rfl | rfl <;> simp
    | finish hlt hs =>
        cases ht
        refine waitsFor_congr_none (fun hw => ?_) (not_waits_of rfl (by simp))
        rcases hw with hw | hw <;> rcases hs with hs | hs <;> (rw [hw] at hs; cases hs)
    | yield hs =>
        cases ht
        refine waitsFor_congr_none (not_waits_of hs (by simp)) (not_waits_of rfl ?_)
        simp [chxReadyEnqueue_thread]
    | push hr hs hf =>
        cases ht
        refine waitsFor_congr_none (not_waits_of hs (by simp)) (not_waits_of rfl ?_)
        simp [chxReadyPush_thread]
    | norun => rfl
    | prio | raise | wakeTimed | wakeQueued | wakeLoose | block | acquire | drop | create =>
        exact hop.elim
    | _ => cases ht
  · by_cases hex : op = .expire
    · subst hex
      cases hm with
      | expire hp hr =>
          have he := chxTimerExpired_expired h
          by_cases hu : .thread u ∈ k.expired
          · have hst := h.holds_of_mem (he.mem _ hu)
            refine waitsFor_congr_none (fun hw => ?_) (not_waits_of rfl ?_)
            · rcases hst with hs | hs | hs <;> rcases hw with hw | hw <;>
              (rw [hw] at hs; cases hs)
            · rw [he.self u hu]
              simp
          · refine waitsFor_congr ?_ ?_ (fun _ => ?_) fun m => by rw [howner]
            · rw [he.others u hu]
            · rw [he.others u hu]
            · rw [he.others u hu]
    · exact (hm.untouched h ht hsw hex).waitsFor h howner

/-- A thread that is woken up waits for nobody any more. -/
theorem Move.donors_wake {w : Waker} (hm : Move cfg (.wake t w) (off, k) (off', k'))
    (h : KernelInv off k) : k'.donors = k.donors.free t := by
  have hobj : k'.mutex = k.mutex := congrArg Objects.mutex (hm.objects h trivial)
  have hrec := fun u => hm.record h trivial u
  refine Donors.ext (funext fun u => ?_) (funext fun u => ?_) (funext fun u => ?_)
  · change k'.waitsFor u = if decide (u = t) = true then none else k.waitsFor u
    by_cases hut : u = t
    · subst hut
      rw [if_pos (decide_eq_true rfl)]
      have hs : (k'.thread u).state = .ready := by
        cases hm with
        | wakeTimed | wakeQueued | wakeLoose => simp [resume_thread]
      exact waitsFor_eq_none (not_waits_of hs (by simp))
    · rw [if_neg (by simpa using hut)]
      refine (hm.untouched h ?_ (by simp) (by simp)).waitsFor h hobj
      rintro ⟨⟩
      exact hut rfl
  · change (k'.thread u).prio = (k.thread u).prio
    rw [hrec u]
  · change (k'.thread u).prioOrig = (k.thread u).prioOrig
    rw [hrec u]

/-- The running thread is put into a queue: it waits for the owner of the mutex, for its
target, or for no thread. -/
theorem Move.donors_block {q : Qh} {v : Option Nat}
    (hm : Move cfg (.block t q v) (off, k) (off', k')) (h : KernelInv off k) :
    k'.donors = k.donors.redirect (fun u => decide (u = t)) (match q with
      | .mtx m => (k.mutex m).owner
      | .join => some (v.getD (k.thread t).v)
      | _ => none) := by
  have hobj : k'.mutex = k.mutex := congrArg Objects.mutex (hm.objects h trivial)
  have hrec := fun u => hm.record h trivial u
  refine Donors.ext (funext fun u => ?_) (funext fun u => ?_) (funext fun u => ?_)
  · change k'.waitsFor u = if decide (u = t) = true then _ else k.waitsFor u
    by_cases hut : u = t
    · subst hut
      rw [if_pos (decide_eq_true rfl)]
      cases hm with
      | block hs hq =>
          cases hq <;> simp [waitsFor, llPrioEnqueue, setParent]
    · rw [if_neg (by simpa using hut)]
      refine (hm.untouched h ?_ (by simp) (by simp)).waitsFor h hobj
      rintro ⟨⟩
      exact hut rfl
  · change (k'.thread u).prio = (k.thread u).prio
    rw [hrec u]
  · change (k'.thread u).prioOrig = (k.thread u).prioOrig
    rw [hrec u]

/-- One mutex has another owner, and perhaps lists of mutexes have changed. -/
theorem KernelInv.donors_of_owner (h : KernelInv none k)
    (hrec : ∀ u, k'.thread u = { k.thread u with mutexList := (k'.thread u).mutexList })
    (hown : ∀ n, (k'.mutex n).owner = if n = m then o else (k.mutex n).owner) :
    k'.donors = k.donors.redirect (k.queuedOn m) o := by
  refine Donors.ext (funext fun u => ?_) (funext fun u => ?_) (funext fun u => ?_)
  · change k'.waitsFor u = if k.queuedOn m u = true then o else k.waitsFor u
    simp only [h.queuedOn_iff]
    rw [waitsFor, hrec u, waitsFor]
    cases hs : (k.thread u).state with
    | waitMtx =>
        obtain ⟨n, hin⟩ := (h.place' u).waitMtx hs
        have hp : (k.thread u).parent = some (.mtx n) := hin.1
        simp only [hp, hown]
        by_cases hn : n = m <;> simp [hn]
    | _ => simp
  · change (k'.thread u).prio = (k.thread u).prio
    rw [hrec u]
  · change (k'.thread u).prioOrig = (k.thread u).prioOrig
    rw [hrec u]

theorem update_mutexList {th : Tid → Thread} {l : Option Mid} (u : Tid) :
    Function.update th t { th t with mutexList := l } u = { th u with
      mutexList := (Function.update th t { th t with mutexList := l } u).mutexList } := by
  by_cases hut : u = t
  · subst hut
    simp
  · simp [hut]

theorem acquire_donors (h : KernelInv none k) :
    (k.acquire t m).donors = k.donors.redirect (k.queuedOn m) (some t) := by
  refine h.donors_of_owner (fun u => ?_) fun n => ?_
  · rw [acquire_thread]
    exact update_mutexList u
  · rw [acquire_mutex, Function.update_apply]
    split <;> rfl

theorem dropMutex_donors (h : KernelInv none k) :
    (k.dropMutex t m).donors = k.donors.redirect (k.queuedOn m) none := by
  refine h.donors_of_owner (fun u => ?_) fun n => ?_
  · rw [dropMutex_thread]
    exact update_mutexList u
  · rw [dropMutex_mutex, Function.update_apply]
    split <;> rfl

/-! ## Paths -/

/-- A path of such moves changes nothing. -/
theorem Path.donors (hp : Path cfg P (off, k) (off', k')) (h : KernelInv off k)
    (hP : ∀ op, P op → op.KeepsDonors) : k'.donors = k.donors := by
  have key := hp.keeps (I := fun a => KernelInv a.1 a.2 ∧ a.2.donors = k.donors) ?_ ⟨h, rfl⟩
  · exact key.2
  · rintro op ⟨off, k₁⟩ ⟨off', k₂⟩ hop hm ⟨hk, hd⟩
    exact ⟨hk.move hm, (hm.donors hk (hP op hop)).trans hd⟩

theorem Op.Ends.keepsDonors (h : op.Ends t) : op.KeepsDonors := by
  cases h <;> trivial

theorem yieldOrUnlock_donors {b : Bool} (h : KernelInv none k) (hr : Runs k t)
    (hy : k.yieldOrUnlock cfg t b = .ok k') : k'.donors = k.donors :=
  (yieldOrUnlock_path cfg h hr hy).1.donors h fun _ => Op.Ends.keepsDonors

/-! ## Wake-up -/

/-- A sleeper waits for no thread, before and after. -/
theorem wakeSleeper_donors (cfg : Config) (h : KernelInv none k)
    (hs : (k.thread t).state = .waitTime ∨ (k.thread t).state = .waitPoll)
    (hw : k.wakeSleeper t = .ok k') : k'.donors = k.donors := by
  obtain ⟨left, hp⟩ := wakeSleeper_path cfg h hs hw
  have hnone : k.waitsFor t = none := by
    rcases hs with hs | hs <;> exact waitsFor_eq_none (not_waits_of hs (by simp))
  have key := hp.keeps (I := fun a => KernelInv a.1 a.2 ∧ a.2.donors = k.donors) ?_ ⟨h, rfl⟩
  · exact key.2
  · rintro op ⟨off, k₁⟩ ⟨off', k₂⟩ rfl hm ⟨hk, hd⟩
    refine ⟨hk.move hm, ?_⟩
    rw [hm.donors_wake hk, hd]
    exact Donors.free_eq hnone

/-- `chx_wakeup` frees the thread that it wakes up. -/
theorem chxWakeup_donors (cfg : Config) {x : Pq} {q : Qh} {b : Bool} (h : KernelInv none k)
    (hx : x ∈ k.queue q)
    (hq : q = .join ∨ (∃ c, q = .cnd c) ∨ ∃ p, x = .proxy p)
    (hw : (k.llDequeue x).chxWakeup x = .ok (k', b)) :
    k'.donors = match x with
      | .thread t => k.donors.free t
      | .proxy _ => k.donors := by
  cases x with
  | thread t =>
      cases hw
      have hin := h.isIn_of_mem hx
      have hm : Move cfg (.wake t (.others none)) (none, k)
          (none, (k.llDequeue (.thread t)).resume t (.others none) 1) := by
        refine .wakeQueued (q := q) hin ?_
        rcases hq with rfl | ⟨c, rfl⟩ | ⟨p, hp⟩
        · exact .join .others
        · exact .cnd c .others
        · cases hp
      exact hm.donors_wake h
  | proxy p =>
      have hm : Move cfg (.fire p) (none, k) (none, (k.llDequeue (.proxy p)).fireProxy p) :=
        .fire hx
      have hd := hm.donors h trivial
      rw [chxWakeup] at hw
      split at hw
      · rename_i hs
        obtain ⟨k₁, hk₁, hk⟩ := res_bind_eq_ok.1 hw
        cases hk
        exact (wakeSleeper_donors cfg (h.move hm) (.inr hs) hk₁).trans hd
      · cases hw
        exact hd

/-- An entry of the queue of a condition variable waits for no thread. -/
theorem chxWakeup_cnd_donors (cfg : Config) {x : Pq} {c : Cid} {b : Bool} (h : KernelInv none k)
    (hx : x ∈ k.queue (.cnd c)) (hw : (k.llDequeue x).chxWakeup x = .ok (k', b)) :
    k'.donors = k.donors := by
  rw [chxWakeup_donors cfg h hx (.inr (.inl ⟨c, rfl⟩)) hw]
  cases x with
  | thread t => exact Donors.free_eq (waitsFor_eq_none (not_waits_of (h.holds_of_mem hx) (by simp)))
  | proxy p => rfl

theorem wakeAll_donors (cfg : Config) {c : Cid} {fuel : Nat} {b : Bool} (h : KernelInv none k)
    (hw : wakeAll c fuel k = .ok (k', b)) : k'.donors = k.donors := by
  induction fuel generalizing k b with
  | zero =>
      rw [wakeAll] at hw
      split at hw
      · cases hw
        rfl
      · cases hw
  | succ fuel ih =>
      rw [wakeAll] at hw
      cases hq : k.queue (.cnd c) with
      | nil =>
          simp only [llPop, hq] at hw
          cases hw
          rfl
      | cons x rest =>
          simp only [llPop, hq] at hw
          obtain ⟨⟨k₁, b₁⟩, hx, hk⟩ := res_bind_eq_ok.1 hw
          obtain ⟨⟨k₂, b₂⟩, hrest, hk₂⟩ := res_bind_eq_ok.1 hk
          cases hk₂
          have hmem : x ∈ k.queue (.cnd c) := hq ▸ List.mem_cons_self ..
          have hpath : Path cfg Op.Wakes (none, k) (none, k₁) :=
            chxWakeup_path h hmem (.inr (.inl ⟨c, rfl⟩)) hx
          exact (ih (h.path hpath) hrest).trans (chxWakeup_cnd_donors cfg h hmem hx)

theorem wakeFirst_donors (cfg : Config) {c : Cid} {b : Bool} (h : KernelInv none k)
    (hw : k.wakeFirst c = .ok (k', b)) : k'.donors = k.donors := by
  cases hq : k.queue (.cnd c) with
  | nil =>
      simp only [wakeFirst, llPop, hq] at hw
      cases hw
      rfl
  | cons x rest =>
      simp only [wakeFirst, llPop, hq] at hw
      exact chxWakeup_cnd_donors cfg h (hq ▸ List.mem_cons_self ..) hw

/-- `chx_exit` frees the thread that joins. -/
theorem wakeJoiner_donors (cfg : Config) (h : KernelInv none k) (hw : k.wakeJoiner t = .ok k') :
    k'.donors = match k.joiner t with
      | some (.thread u) => k.donors.free u
      | _ => k.donors := by
  rw [wakeJoiner] at hw
  rw [joiner]
  split at hw
  · rename_i hf
    rw [if_pos hf]
    split at hw
    · rename_i x hx
      obtain ⟨⟨k₁, b⟩, hk₁, hk⟩ := res_bind_eq_ok.1 hw
      cases hk
      rw [hx, chxWakeup_donors cfg h (List.mem_of_find?_eq_some hx) (.inl rfl) hk₁]
      cases x <;> rfl
    · rename_i hx
      cases hw
      rw [hx]
  · rename_i hf
    cases hw
    rw [if_neg hf]

/-! ## Priority inheritance -/

theorem setPrio_donors {p : Nat} : (k.setPrio t p).donors = k.donors.raise t p := by
  refine Donors.ext (funext fun u => ?_) (funext fun u => ?_) (funext fun u => ?_)
  · change (k.setPrio t p).waitsFor u = k.waitsFor u
    by_cases hut : u = t
    · subst hut
      exact waitsFor_congr (by simp [setPrio]) (by simp [setPrio]) (fun _ => by simp [setPrio])
        fun _ => rfl
    · exact waitsFor_congr (by simp [setPrio, hut]) (by simp [setPrio, hut])
        (fun _ => by simp [setPrio, hut]) fun _ => rfl
  · change ((k.setPrio t p).thread u).prio = Function.update k.donors.prio t p u
    by_cases hut : u = t
    · subst hut
      simp [setPrio]
    · simp [setPrio, hut, donors]
  · change ((k.setPrio t p).thread u).prioOrig = (k.thread u).prioOrig
    by_cases hut : u = t
    · subst hut
      simp [setPrio]
    · simp [setPrio, hut]

theorem requeue_donors : ((k.requeue t).1).donors = k.donors := by
  have hre : (k.reEnqueue t).donors = k.donors := by
    rw [reEnqueue]
    cases hp : (k.thread t).parent with
    | none => rfl
    | some q =>
        have hth : ((k.llDequeue (.thread t)).llPrioEnqueue (.thread t) q).thread = k.thread := by
          rw [llPrioEnqueue_thread, llDequeue_thread, ← hp]
          exact Function.update_eq_self ..
        exact donors_congr hth rfl
  rw [requeue]
  cases (k.thread t).state with
  | ready | waitMtx | waitCnd => exact hre
  | _ => rfl

/-- **The loops of priority inheritance hand the priority on along the chain.** -/
theorem inherit_donors (cfg : Config) {wakes : Bool} {p fuel : Nat} (h : KernelInv none k)
    (hp : p < 256)
    (hi : k.inherit wakes p fuel o = .ok k') : Donors.Lift p k.donors o k'.donors := by
  induction fuel generalizing k o with
  | zero =>
      cases o with
      | none =>
          cases hi
          exact .nobody
      | some tp =>
          rw [inherit] at hi
          split at hi
          · cases hi
          · rename_i hge
            cases hi
            exact .enough (not_lt.1 hge)
  | succ fuel ih =>
      cases o with
      | none =>
          cases hi
          exact .nobody
      | some tp =>
          rw [inherit] at hi
          split at hi
          · rename_i hlt
            simp only at hi
            have hst : ((k.setPrio tp p).thread tp).state = (k.thread tp).state := by
              rw [setPrio_thread, Function.update_self]
            refine .raise hlt ?_
            rw [← setPrio_donors]
            split at hi
            · rename_i hs
              -- a thread that sleeps is woken up, and the loop ends
              have hs' := hs.2
              rw [hst] at hs'
              have hm : Move cfg (.prio tp) (none, k) (none, k.setPrio tp p) := by
                refine .prio hp (h.prioOrig tp) ?_ ?_ ?_ <;>
                rcases hs' with hs' | hs' <;> simp [hs']
              have hnone : k.donors.waits tp = none := by
                rcases hs' with hs' | hs' <;>
                exact waitsFor_eq_none (not_waits_of hs' (by simp))
              rw [wakeSleeper_donors cfg (h.move hm) hs.2 hi, hnone]
              exact .nobody
            · obtain ⟨op, hop, hm⟩ := requeue_move cfg h hlt hp
              have hl := ih (h.move hm) hi
              rw [requeue_donors, requeue_snd] at hl
              have hw : (k.setPrio tp p).waitsFor tp = k.donors.waits tp :=
                congrFun (congrArg Donors.waits setPrio_donors) tp
              rwa [hw] at hl
          · rename_i hge
            cases hi
            exact .enough (not_lt.1 hge)

end Chopstx
