import Chopstx.Library.EventBoard
import Chopstx.Run.Watch

/-!
# The descriptors of a call of `chopstx_poll` as a board of sources

The proxies of a call are linked and its descriptors reported like the sources of a board.  The
hooks register the descriptors one after another, the clean-up loop takes them off, and
everything else that happens are events, as long as nobody else touches the descriptors.

* `Kernel.board` - the board of a call, as in `Chopstx.Library.EventBoard`.
* `PollPt.named`, `PollPt.cleaned`, `PollPt.Board`, `PollPt.Sound` - what is known of it at a point
  of the code.
* `Apart` - no other code writes to the descriptors of the call, or has proxies that report to them.
* `PollPt.Sound.fires` - what others do to the board.
* `PollNext.sound` - what a step of the code of the call does to it (`PollGoes`).
-/

namespace Chopstx

open Kernel Transition EventBoard

variable {cfg : Config} {k k' : Kernel} {t u : Tid} {off off' : Option Tid} {op : Op}
  {R : Op → Prop} {f : Frame} {pre rest fs : List Frame} {P : Poll} {pt : PollPt} {ret : Int}
  {ctx : Ctx} {s s' : State} {e : Event} {n i j : Nat} {pds : List PdId} {d : PdId}

/-! ## The board -/

/-- The board of a call with these descriptors. -/
def Kernel.board (k : Kernel) (n : Nat) (pds : List PdId) : Board where
  linked j := ∃ q, .proxy ⟨n, j⟩ ∈ k.queue q
  ready j := (pds[j]?).any k.ready
  counter := k.counter n

theorem board_linked : (k.board n pds).linked j ↔ ∃ q, .proxy ⟨n, j⟩ ∈ k.queue q := Iff.rfl

theorem board_ready (hd : pds[i]? = some d) : (k.board n pds).ready i = k.ready d := by
  change (pds[i]?).any k.ready = _
  rw [hd, Option.any_some]

theorem board_ready_none (hd : pds[i]? = none) : (k.board n pds).ready i = false := by
  change (pds[i]?).any k.ready = _
  rw [hd, Option.any_none]

/-- The descriptors whose proxies have been told which one they report to. -/
def PollPt.named (len : Nat) : PollPt → Nat
  | .init _ => 0
  | .hook i => i
  | .condHook i | .condCheck i | .condLoad i | .condStore i _ | .condReady i | .condClear i
  | .condEnqueue i | .condEnd i | .intrHook i | .joinHook i => i + 1
  | _ => len

/-- The descriptors that the clean-up loop has taken off. -/
def PollPt.cleaned : PollPt → Nat
  | .cleanup i _ => i
  | _ => 0

/-- What is known of the board at a point of the code of the call. -/
def PollPt.Board (b : Board) (len : Nat) : PollPt → Prop
  | .condReady i => b.Finds i
  | .condStore i c => b.Ok 0 i ∧ c ≤ b.counter
  | .condEnqueue i => b.Ok 0 i ∧ b.ready i = false
  | pt => b.Ok pt.cleaned (pt.hooked len)

/-- **The board is in order at this point of the code of the call.** -/
structure PollPt.Sound (k : Kernel) (n : Nat) (pds : List PdId) (pt : PollPt) : Prop where
  board : pt.Board (k.board n pds) pds.length
  hooked : pt.hooked pds.length ≤ pds.length
  named : ∀ j < pt.named pds.length, (k.px ⟨n, j⟩).readyP = pds[j]?

theorem PollPt.hooked_le_named (len : Nat) : pt.hooked len ≤ pt.named len := by
  cases pt <;> simp [hooked, reached, named]

theorem PollPt.Board.linked_lt {b : EventBoard.Board} {len : Nat} (h : pt.Board b len)
    (hj : b.linked j) : j < pt.hooked len := by
  cases pt with
  | condReady => exact (h.linked j hj).1
  | condStore | condEnqueue => exact (h.1.linked j hj).2.1
  | _ => exact (Board.Ok.linked h j hj).2.1

/-- Events keep the board in order. -/
theorem PollPt.Board.fires {b b' : EventBoard.Board} {len : Nat} {F : Finset Nat}
    (h : pt.Board b len) (hf : Board.Fires F b b') : pt.Board b' len := by
  cases pt with
  | condReady i => exact Board.Finds.fires h hf
  | condStore i c =>
      refine ⟨h.1.fires hf, h.2.trans ?_⟩
      rw [hf.counter]
      exact Nat.le_add_right ..
  | condEnqueue i =>
      refine ⟨h.1.fires hf, (hf.ready_eq fun hl => ?_).trans h.2⟩
      exact absurd (h.1.linked i hl).2.1 (lt_irrefl i)
  | _ => exact Board.Ok.fires h hf

/-! ## What others do -/

/-- Code that lets events happen neither links a proxy nor writes one. -/
theorem Frame.May.fire_or_proxy (f : Frame) (cfg : Config) (t : Tid) :
    (∀ p, ¬ f.May cfg t (.fire p)) ∨
      ∀ p, ¬ f.May cfg t (.proxy p) ∧ ∀ q, ¬ f.May cfg t (.link p q) := by
  cases f with
  | poll P pt =>
      left
      intro p h
      cases pt <;> simp only [Frame.May, PollPt.May] at h <;> grind
  | _ =>
      right
      refine fun p => ⟨fun h => ?_, fun q h => ?_⟩ <;> simp only [Frame.May] at h <;> grind

theorem State.May.fire_or_proxy (s : State) (cfg : Config) (e : Event) :
    (∀ p, ¬ s.May cfg e (.fire p)) ∨
      ∀ p, ¬ s.May cfg e (.proxy p) ∧ ∀ q, ¬ s.May cfg e (.link p q) := by
  cases e with
  | tick =>
      left
      intro p h
      cases h
  | systick =>
      left
      intro p h
      rcases h with h | h <;> cases h
  | irq =>
      right
      refine fun p => ⟨fun h => ?_, fun q h => ?_⟩ <;> rcases h with h | h | h | h <;> cases h
  | pendsv =>
      left
      intro p h
      rcases h with h | h <;> cases h
  | run c lags =>
      cases htop : s.top with
      | none =>
          left
          intro p h
          rcases h with h | ⟨t, f, rest, hr, hf, -⟩
          · cases h
          · cases htop.symm.trans (State.top_eq hr hf)
      | some x =>
          obtain ⟨t, f⟩ := x
          have hmay : ∀ {op : Op}, op ≠ .pass → s.May cfg (.run c lags) op → f.May cfg t op := by
            rintro op hne (h | ⟨t', f', rest, hr, hf, hmay⟩)
            · exact absurd h hne
            · cases htop.symm.trans (State.top_eq hr hf)
              exact hmay
          refine (Frame.May.fire_or_proxy f cfg t).imp (fun hno p h => ?_) fun hno p => ?_
          · exact hno p (hmay (by simp) h)
          · exact ⟨fun h => (hno p).1 (hmay (by simp) h),
              fun q h => (hno p).2 q (hmay (by simp) h)⟩

/-- No other code touches the descriptors of the call: it writes the field `ready` of none, and no
proxy of another call reports to one. -/
structure Apart (cfg : Config) (n : Nat) (pds : List PdId) (s : State) : Prop where
  writes : ∀ u f, s.top = some (u, f) → f.callNo ≠ some n → ∀ d ∈ pds, ∀ b,
    ¬ f.May cfg u (.ready d b)
  events : ∀ p q, .proxy p ∈ s.k.queue q → p.call ≠ n → ∀ d ∈ pds, (s.k.px p).readyP ≠ some d

theorem Apart.ready (h : Apart cfg n pds s) (hc : ¬ s.InCode n e) (hd : d ∈ pds) (b : Bool) :
    ¬ s.May cfg e (.ready d b) := by
  cases e with
  | run c lags =>
      rintro (hop | ⟨t, f, rest, hr, hf, hmay⟩)
      · cases hop
      · have htop := State.top_eq hr hf
        exact h.writes t f htop (fun hn => hc ⟨t, f, htop, hn⟩) d hd b hmay
  | tick => rintro ⟨⟩
  | systick | pendsv => rintro (h | h) <;> cases h
  | irq =>
      rintro (h | h | h | h)
      · cases h
      · rename_i h
        cases h

/-- **What others do to the board of a call** is to let events happen. -/
theorem PollPt.Sound.fires (h : pt.Sound s.k n pds) (hi : MachineInv cfg s)
    (hs : step cfg s e = .ok s') (hn : n < s.k.ncall) (hc : ¬ s.InCode n e) (hnd : pds.Nodup)
    (ha : Apart cfg n pds s) :
    ∃ F, Board.Fires F (s.k.board n pds) (s'.k.board n pds) ∧ pt.Sound s'.k n pds := by
  obtain ⟨F, hF⟩ := hi.fires hs hn hc
  have hnamed : ∀ j, (s.k.board n pds).linked j → (s.k.px ⟨n, j⟩).readyP = pds[j]? := fun j hj =>
    h.named j ((h.board.linked_lt hj).trans_le (hooked_le_named _))
  have hlt : ∀ j, (s.k.board n pds).linked j → j < pds.length := fun j hj =>
    (h.board.linked_lt hj).trans_le h.hooked
  have hfires : Board.Fires F.toFinset (s.k.board n pds) (s'.k.board n pds) := by
    refine ⟨fun j hj => hF.linked j (List.mem_toFinset.1 hj), fun j => ?_, fun j => ?_, ?_⟩
    · rw [board_linked, board_linked, List.mem_toFinset]
      simp only [hF.queue, exists_and_right]
    · simp only [List.mem_toFinset]
      cases hd : pds[j]? with
      | none =>
          have hj : j ∉ F := fun hj => by
            have := hlt j (hF.linked j hj)
            rw [List.getElem?_eq_none_iff] at hd
            omega
          simp [board_ready_none hd, hj]
      | some d =>
          rw [board_ready hd, board_ready hd]
          by_cases hj : j ∈ F
          · rw [hF.reports j hj d ((hnamed j (hF.linked j hj)).trans hd)]
            simp [hj]
          · rw [decide_eq_false hj, Bool.or_false]
            refine (hi.path hs).ready_eq hi.kernel (ha.ready hc (List.mem_of_getElem? hd))
              ((State.May.fire_or_proxy s cfg e).imp id fun hno => ⟨hno, ?_⟩)
            intro p q hp hpd
            have hcall : p.call = n := by
              by_contra hcall
              exact ha.events p q hp hcall d (List.mem_of_getElem? hd) hpd
            obtain ⟨c, i⟩ := p
            cases hcall
            have hij : pds[i]? = some d := (hnamed i ⟨q, hp⟩).symm.trans hpd
            have heq : i = j := (List.getElem?_inj (hlt i ⟨q, hp⟩) hnd).1 (hij.trans hd.symm)
            exact ⟨q, (hF.queue i q).2 ⟨hp, heq ▸ hj⟩⟩
    · rw [List.toFinset_card_of_nodup hF.nodup]
      exact hF.counter
  exact ⟨_, hfires, h.board.fires hfires, h.hooked, fun j hj => by rw [hF.px, h.named j hj]⟩

/-! ## What the code of the call does -/

/-- The code goes on, and neither touches the board nor tells a proxy its descriptor. -/
theorem PollPt.Sound.go {pt' : PollPt} (h : pt.Sound k n pds)
    (hb : k'.board n pds = k.board n pds)
    (hB : pt.Board (k.board n pds) pds.length → pt'.Board (k.board n pds) pds.length)
    (hpx : ∀ j < pt'.named pds.length, j < pt.named pds.length ∧
      (k'.px ⟨n, j⟩).readyP = (k.px ⟨n, j⟩).readyP)
    (hh : pt'.hooked pds.length ≤ pds.length) : pt'.Sound k' n pds := by
  refine ⟨hb ▸ hB h.board, hh, fun j hj => ?_⟩
  obtain ⟨hlt, heq⟩ := hpx j hj
  rw [heq, h.named j hlt]

/-- What a step of the code of a call leads to. -/
def PollGoes (n : Nat) (pds : List PdId) (rest : List Frame) (k' : Kernel) (ctx : Ctx) : Prop :=
  ∃ l P pt, ctx.frames = l ++ .poll P pt :: rest ∧ P.call = n ∧ P.pds = pds ∧ pt.Sound k' n pds

theorem PollGoes.of {l : List Frame} {pt' : PollPt} (hfs : ctx.frames = l ++ .poll P pt' :: rest)
    (h : pt'.Sound k' P.call P.pds) : PollGoes P.call P.pds rest k' ctx :=
  ⟨l, P, pt', hfs, rfl, rfl, h⟩

theorem PollGoes.stay {l : List Frame} {pt' : PollPt} (hfs : ctx.frames = l ++ .poll P pt' :: rest)
    (h : pt.Sound k P.call P.pds)
    (hB : pt.Board (k.board P.call P.pds) P.pds.length →
      pt'.Board (k.board P.call P.pds) P.pds.length)
    (hp : pt'.named P.pds.length ≤ pt.named P.pds.length)
    (hh : pt'.hooked P.pds.length ≤ P.pds.length) : PollGoes P.call P.pds rest k ctx :=
  .of hfs (h.go rfl hB (fun _ hj => ⟨hj.trans_le hp, rfl⟩) hh)

/-- What a descriptor's field says above the registered ones. -/
theorem board_ready_update {b : Bool} (hnd : pds.Nodup) (hd : pds[i]? = some d) (hj : j ≠ i) :
    ((k.setReady d b).board n pds).ready j = (k.board n pds).ready j := by
  cases hd' : pds[j]? with
  | none => rw [board_ready_none hd', board_ready_none hd']
  | some d' =>
      rw [board_ready hd', board_ready hd']
      refine Function.update_of_ne ?_ ..
      rintro rfl
      exact hj ((List.getElem?_inj (List.getElem?_eq_some_iff.1 hd').1 hnd).1 (hd'.trans hd.symm))

theorem board_setReady {b : Bool} (hd : pds[i]? = some d) :
    ((k.setReady d b).board n pds).ready i = b := by
  rw [board_ready hd]
  exact Function.update_self ..

/-- The section in which the call puts its thread to sleep leaves the board as it is. -/
theorem PollNext.board (pds : List PdId) (hn : PollNext cfg k t P rest ret pt k' ctx)
    (h : KernelInv none k) (hr : Runs k t) (hcall : P.call < k.ncall)
    (hpt : pt = .main ∨ pt = .snooze) :
    Board.Fires ∅ (k.board P.call pds) (k'.board P.call pds) ∧
      ∀ j, k'.px ⟨P.call, j⟩ = k.px ⟨P.call, j⟩ := by
  have hF := hn.fires_nil h hr hcall hpt
  have hready : ∀ d, k'.ready d = k.ready d := fun d => (hn.path h hr).1.ready_eq h
    (fun b hop => (hop.sleeps (n := 0) hpt).2.2 d b rfl)
    (.inl fun p hop => (hop.sleeps (n := 0) hpt).2.1 p rfl)
  refine ⟨⟨by simp, fun j => ?_, fun j => ?_, hF.counter⟩, hF.px⟩
  · rw [board_linked, board_linked]
    simp [hF.queue]
  · cases hd : pds[j]? with
    | none => simp [board_ready_none hd]
    | some d => simp [board_ready hd, hready]

/-- The proxy is put into a queue. -/
theorem board_link {q : Qh} : ((k.llPrioEnqueue (.proxy ⟨n, i⟩) q).board n pds).linked j ↔
    (k.board n pds).linked j ∨ j = i := by
  simp [board_linked, mem_llPrioEnqueue, exists_or]

/-- The proxy is taken out of its queue. -/
theorem board_unlink : ((k.llDequeue (.proxy ⟨n, i⟩)).board n pds).linked j ↔
    (k.board n pds).linked j ∧ j ≠ i := by
  simp [board_linked]

/-- The next descriptor is registered: its proxy is put into a queue. -/
theorem board_ok_link (k' : Kernel) (h : (k.board n pds).Ok 0 i) (hd : pds[i]? = some d)
    (hnamed : ∀ j < i + 1, (k.px ⟨n, j⟩).readyP = pds[j]?)
    (hl : ∀ j, (k'.board n pds).linked j ↔ (k.board n pds).linked j ∨ j = i)
    (hr : ∀ j < i, (k'.board n pds).ready j = (k.board n pds).ready j)
    (hi : k'.ready d = false) (hc : k'.counter n = k.counter n)
    (hp : ∀ j, (k'.px ⟨n, j⟩).readyP = (k.px ⟨n, j⟩).readyP) :
    (k'.board n pds).Ok 0 (i + 1) ∧ i + 1 ≤ pds.length ∧
      ∀ j < i + 1, (k'.px ⟨n, j⟩).readyP = pds[j]? :=
  ⟨h.link hl hr ((board_ready hd).trans hi) hc, (List.getElem?_eq_some_iff.1 hd).1,
    fun j hj => (hp j).trans (hnamed j hj)⟩

/-- The next descriptor is registered: it is reported at once. -/
theorem board_ok_report (k' : Kernel) (h : (k.board n pds).Ok 0 i) (hd : pds[i]? = some d)
    (hnamed : ∀ j < i + 1, (k.px ⟨n, j⟩).readyP = pds[j]?)
    (hl : (k'.board n pds).linked = (k.board n pds).linked)
    (hr : ∀ j < i, (k'.board n pds).ready j = (k.board n pds).ready j)
    (hi : k'.ready d = true) (hc : k'.counter n = k.counter n + 1)
    (hp : ∀ j, (k'.px ⟨n, j⟩).readyP = (k.px ⟨n, j⟩).readyP) :
    (k'.board n pds).Ok 0 (i + 1) ∧ i + 1 ≤ pds.length ∧
      ∀ j < i + 1, (k'.px ⟨n, j⟩).readyP = pds[j]? := by
  have hfinds : Board.Finds { k.board n pds with counter := k.counter n + 1 } i :=
    h.finds rfl rfl le_rfl rfl
  exact ⟨hfinds.report hl hr ((board_ready hd).trans hi) hc, (List.getElem?_eq_some_iff.1 hd).1,
    fun j hj => (hp j).trans (hnamed j hj)⟩

/-- **A step of the code of a call keeps its board in order.** -/
theorem PollNext.sound (hn : PollNext cfg k t P rest ret pt k' ctx) (h : KernelInv none k)
    (hr : Runs k t) (hcall : P.call < k.ncall) (hnd : P.pds.Nodup)
    (hs : pt.Sound k P.call P.pds) :
    PollGoes P.call P.pds rest k' ctx ∨ ctx.frames = [.exitStart chopstxCanceled] ∨
      ctx.frames = rest ∧ ctx.ret = k.counter P.call ∧ k' = k ∧
        ∃ i, P.pds.length ≤ i ∧ (k.board P.call P.pds).Ok i P.pds.length := by
  have hlt : ∀ {i : Nat} {d : PdId}, P.pds[i]? = some d → i < P.pds.length := fun hd =>
    (List.getElem?_eq_some_iff.1 hd).1
  have hge : ∀ {i : Nat}, P.pds[i]? = none → P.pds.length ≤ i := fun hd =>
    List.getElem?_eq_none_iff.1 hd
  have hnext := hn
  cases hn with
  | init hi =>
      exact .inl (.of (l := []) rfl (hs.go rfl id (by simp [PollPt.named]) (Nat.zero_le _)))
  | initEnd hi => exact .inl (.stay (l := []) rfl hs id le_rfl (Nat.zero_le _))
  | @hook i d hd =>
      have hpts : ∀ len, ((cfg.pd d).hookPt i).hooked len = i ∧
          ((cfg.pd d).hookPt i).named len = i + 1 ∧
          ((k.board P.call P.pds).Ok 0 i →
            ((cfg.pd d).hookPt i).Board (k.board P.call P.pds) len) := by
        intro len
        cases cfg.pd d <;> exact ⟨rfl, rfl, id⟩
      obtain ⟨hh, hnm, hB⟩ := hpts P.pds.length
      refine .inl (.of (l := [.testcancel]) rfl
        ⟨hB hs.board, by rw [hh]; exact (hlt hd).le, fun j hj => ?_⟩)
      rw [hnm] at hj
      rw [modPx_px, Poll.px]
      rcases Nat.lt_succ_iff_lt_or_eq.1 hj with hj | rfl
      · rw [Function.update_of_ne (by simp [hj.ne])]
        exact hs.named j hj
      · rw [Function.update_self, hd]
  | @hookEnd i hd =>
      have heq : i = P.pds.length := le_antisymm hs.hooked (hge hd)
      subst heq
      exact .inl (.stay (l := []) rfl hs id le_rfl le_rfl)
  | condLock hd => exact .inl (.stay (l := [_]) rfl hs id le_rfl hs.hooked)
  | condHook | checkTrue | checkFalse =>
      exact .inl (.stay (l := []) rfl hs id le_rfl hs.hooked)
  | condLoad => exact .inl (.stay (l := []) rfl hs (fun hB => ⟨hB, le_rfl⟩) le_rfl hs.hooked)
  | @condStore i c =>
      refine .inl (.of (l := []) rfl ⟨?_, hs.hooked, hs.named⟩)
      exact hs.board.1.finds rfl rfl hs.board.2 (Function.update_self ..)
  | @condReady i d hd =>
      refine .inl (.of (l := []) rfl ⟨?_, hlt hd, hs.named⟩)
      exact hs.board.report rfl (fun j hj => board_ready_update hnd hd hj.ne)
        (board_setReady hd) rfl
  | @condClear i d hd =>
      refine .inl (.of (l := []) rfl ⟨⟨?_, board_setReady hd⟩, hs.hooked, hs.named⟩)
      exact Board.Ok.congr hs.board (fun _ => Iff.rfl)
        (fun j hj => board_ready_update hnd hd hj.ne) rfl
  | @condEnqueue i d c m hd hc =>
      have hready : k.ready d = false := (board_ready (n := P.call) hd).symm.trans hs.board.2
      obtain ⟨hB, hlen, hnamed⟩ := board_ok_link (k.condHookEnqueue (P.px i) c)
        hs.board.1 hd hs.named (fun j => board_link) (fun j _ => rfl)
        hready rfl
        fun j => (llPrioEnqueue_px (x := .proxy (P.px i)) (q := .cnd c) (p := ⟨P.call, j⟩)).2.2
      exact .inl (.of (l := []) rfl ⟨hB, hlen, hnamed⟩)
  | condUnlock hd => exact .inl (.stay (l := [_]) rfl hs id le_rfl hs.hooked)
  | condEnd hd => exact .inl (.stay (l := []) rfl hs id le_rfl hs.hooked)
  | @intrHook i d m hd hm =>
      have hv : ∀ p, ((k.chxCpuSchedLock.modPx (P.px i) fun px => { px with v := m }).px p).readyP =
          (k.px p).readyP := fun p =>
        modPx_px_of (k := k.chxCpuSchedLock) (g := fun px => { px with v := m }) Px.readyP
          (fun _ => rfl) p (P.px i)
      have key : (k.chxIntrHook (P.px i) d m).ready d = k.ready d ∧
          PollPt.Sound (k.chxIntrHook (P.px i) d m) P.call P.pds (.hook (i + 1)) := by
        rw [chxIntrHook]
        split
        · rename_i hready
          obtain ⟨hB, hlen, hnamed⟩ := board_ok_report
            (((k.chxCpuSchedLock.modPx (P.px i) fun px =>
              { px with v := m }).bumpCounter P.call).chxCpuSchedUnlock)
            hs.board hd hs.named rfl (fun _ _ => rfl) hready (Function.update_self ..) fun j => hv _
          exact ⟨rfl, hB, hlen, hnamed⟩
        · rename_i hready
          obtain ⟨hB, hlen, hnamed⟩ := board_ok_link
            ((((k.chxCpuSchedLock.modPx (P.px i) fun px => { px with v := m }).llPrioEnqueue
              (.proxy (P.px i)) .intr).enableIntr m P.call).chxCpuSchedUnlock)
            hs.board hd hs.named (fun j => board_link) (fun _ _ => rfl)
            (Bool.eq_false_iff.2 hready) rfl fun j =>
              (llPrioEnqueue_px (x := .proxy (P.px i)) (q := .intr)
                (p := ⟨P.call, j⟩)).2.2.trans (hv _)
          exact ⟨rfl, hB, hlen, hnamed⟩
      exact .inl (.of (l := []) rfl key.2)
  | joinFatal =>
      exact .inl (.of (l := [_]) rfl (hs.go rfl id (fun _ hj => ⟨hj, rfl⟩) hs.hooked))
  | @joinHook i d tp hd hj hf =>
      have key : PollPt.Sound (k.chxJoinHook (P.px i) d tp) P.call P.pds (.hook (i + 1)) := by
        rw [chxJoinHook]
        split
        · obtain ⟨hB, hlen, hnamed⟩ := board_ok_report
            (((k.chxCpuSchedLock.bumpCounter P.call).setReady d true).chxCpuSchedUnlock)
            hs.board hd hs.named rfl (fun j hj => board_ready_update hnd hd hj.ne)
            (Function.update_self ..) (Function.update_self ..) fun j => rfl
          exact ⟨hB, hlen, hnamed⟩
        · have hv : ∀ p, (((k.chxCpuSchedLock.setReady d false).modPx (P.px i) fun px =>
              { px with v := tp }).px p).readyP = (k.px p).readyP := fun p =>
            modPx_px_of (k := k.chxCpuSchedLock.setReady d false)
              (g := fun px => { px with v := tp }) Px.readyP (fun _ => rfl) p (P.px i)
          obtain ⟨hB, hlen, hnamed⟩ := board_ok_link
            (((((k.chxCpuSchedLock.setReady d false).modPx (P.px i) fun px =>
              { px with v := tp }).llPrioEnqueue (.proxy (P.px i)) .join).modThread tp fun th =>
                { th with flagJoinReq := true }).chxCpuSchedUnlock)
            hs.board hd hs.named (fun j => board_link)
            (fun j hj => board_ready_update hnd hd hj.ne) (Function.update_self ..) rfl
            fun j =>
              (llPrioEnqueue_px (x := .proxy (P.px i)) (q := .join)
                (p := ⟨P.call, j⟩)).2.2.trans (hv _)
          exact ⟨hB, hlen, hnamed⟩
      exact .inl (.of (l := []) rfl key)
  | mainReady | mainLoop | snoozeReady =>
      exact .inl (.of (l := []) rfl (hs.go rfl id (fun _ hj => ⟨hj, rfl⟩) le_rfl))
  | wake => exact .inl (.stay (l := []) rfl hs id le_rfl le_rfl)
  | loop => exact .inl (.stay (l := [_]) rfl hs id le_rfl le_rfl)
  | snoozeAgain | snoozeDone => exact .inl ⟨[], _, _, rfl, rfl, rfl, hs.board, le_rfl, hs.named⟩
  | mainSleep hc hu hz =>
      obtain ⟨hf, hp⟩ := hnext.board P.pds h hr hcall (.inl rfl)
      refine .inl (.of (l := [_]) rfl ⟨Board.Ok.fires hs.board hf, le_rfl, fun j hj => ?_⟩)
      rw [hp, hs.named j hj]
  | snoozeEnd hc hz =>
      obtain ⟨hf, hp⟩ := hnext.board P.pds h hr hcall (.inr rfl)
      refine .inl (.of (l := []) rfl ⟨Board.Ok.fires hs.board hf, le_rfl, fun j hj => ?_⟩)
      rw [hp, hs.named j hj]
  | snoozeSleep hc hz =>
      obtain ⟨hf, hp⟩ := hnext.board P.pds h hr hcall (.inr rfl)
      refine .inl (.of (l := [_]) rfl ⟨Board.Ok.fires hs.board hf, le_rfl, fun j hj => ?_⟩)
      rw [hp, hs.named j hj]
  | @cleanup i d r hd =>
      have key : PollPt.Sound (k.pollCleanup cfg (P.px i) d) P.call P.pds (.cleanup (i + 1) r) := by
        have hok : (k.board P.call P.pds).Ok i P.pds.length := hs.board
        have hoff : ∀ {k' : Kernel}, (∀ j, (k'.board P.call P.pds).linked j ↔
            (k.board P.call P.pds).linked j ∧ j ≠ i) → k'.ready = k.ready →
              k'.counter = k.counter → k'.px = k.px →
                PollPt.Sound k' P.call P.pds (.cleanup (i + 1) r) := by
          intro k' hl hr hc hp
          refine ⟨hok.off hl (funext fun j => ?_) (congrFun hc _), le_rfl, fun j hj => ?_⟩
          · change (P.pds[j]?).any k'.ready = (P.pds[j]?).any k.ready
            rw [hr]
          · rw [hp]
            exact hs.named j hj
        rw [pollCleanup]
        split
        · rename_i hready
          refine hoff (fun j => (and_iff_left_of_imp ?_).symm) rfl rfl rfl
          -- a linked proxy has not been reported
          rintro hj rfl
          have hnot := (hok.linked j hj).2.2
          rw [board_ready hd] at hnot
          exact absurd hready (by simp [hnot])
        · cases cfg.pd d with
          | cond | intr | join => exact hoff (fun j => board_unlink) rfl rfl rfl
      exact .inl (.of (l := []) rfl key)
  | exit => exact .inr (.inl rfl)
  | @done i r hd hz => exact .inr (.inr ⟨rfl, rfl, rfl, i, hge hd, hs.board⟩)

end Chopstx
