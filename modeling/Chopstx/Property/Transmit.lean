import Chopstx.Usart.Driver
import Chopstx.Property.RingBuffer

/-!
# The transmission of the USART driver

`usart_main` writes a byte to DR while TXE is set, in the order in which the bytes were
accepted, and where it waits for TXE, the interrupt for it is enabled.  The last of these needs
that no `usart_config` stores a CR1 without TXEIE in the meantime.

`Hand` says, for one device, what the flags of SR, CR1 and `tx_ready` have to do with each
other, by what `usart_main` is about to do with the device.

* `Transmits` - the law: the bytes written to DR, TXE, and the interrupt.
* `Keeps` - the condition on `usart_config`.
* `Phase`, `Main.phase` - what `usart_main` is about to do with a device.
* `Wired`, `DevOk`, `DriverInv` - the invariant of one device and of all, over that of
  `Chopstx.Property.RingBuffer`.
* `handleIntr_inv`, `handleTxReady_inv`, `mainStep_inv`, `cfgStep_inv` - one lemma for each part of
  the code; `DriverInv.step` puts them together.
* `usart_transmits` - the result about runs, and `usart_transmits_one` one with one byte.
* `transmission_stalls` - a run with `usart_config` at the wrong time.
-/

namespace Chopstx.Usart

open Transition

/-! ## The law -/

/-- The bytes among those moved that were taken out for the caller. -/
def takenOf (ms : List Moved) : List UInt8 :=
  ms.filterMap fun m => match m with
    | .take v => some v
    | _ => none

/-- The bytes that were taken out of a buffer and not dropped. -/
def taken (log : List Event) : List UInt8 :=
  (removed log).filterMap fun x => if x.2 then none else some x.1

/-- Where a byte for DR is: `usart_main` is in `rb_ll_get`, or has it. -/
inductive Loading where
  | no
  | getting
  | loaded (c : UInt8)

/-- Where the byte for a device is, by the place of `usart_main`. -/
def Main.loading (d : Dev) : Main → Loading
  | .get e => if e = d then .getting else .no
  | .dr e c => if e = d then .loaded c else .no
  | _ => .no

/-- The byte that `usart_main` has taken out of the buffer and not yet written to DR. -/
def Loading.inFlight (b : State) : Loading → List UInt8
  | .no => []
  | .getting =>
      match inCall mainThread b.log with
      | some x => takenOf x.2
      | none => []
  | .loaded c => [c]

/-- The transmission: DR is written while TXE is set only; the bytes accepted for a device are
those removed from its buffer and those left in it, in order, and of those removed the ones
that were not flushed are written to DR, in order; and where `usart_main` waits with `tx_ready`
clear, TXEIE is set. -/
structure Transmits (s : Driver) : Prop where
  txe : ∀ d, ∀ x ∈ (s.dev d).dr, x.2 = true
  fifo : ∀ d, ∃ q, RefinesFifo 256 (s.dev d).a2h q
  order : ∀ d, taken (s.dev d).a2h.log = (s.dev d).dr.map Prod.fst ++
    (s.main.loading d).inFlight (s.dev d).a2h
  txeie : ∀ d, s.main = .poll → (s.dev d).txReady = false →
    has cr1Txeie ((s.dev d).reg .cr1) = true

/-- The interrupt for TXE is enabled, and `handle_intr` has not yet seen TXE. -/
def Driver.awaits (s : Driver) (d : Dev) : Bool :=
  has cr1Txeie ((s.dev d).reg .cr1) &&
    match s.main with
    | .clearRead e _ | .clearWrite e _ _ => e ≠ d
    | _ => true

/-- The device and the value, where the next step of a thread in `usart_config` stores CR1. -/
def Driver.storesCr1 (s : Driver) (t : Nat) : Option (Dev × BitVec 32) :=
  match s.cfg t with
  | some ⟨d, .set .cr1 v :: _, _⟩ => some (d, v)
  | some ⟨d, .and .cr1 m :: _, some v⟩ => some (d, v &&& m)
  | some ⟨d, .or .cr1 m :: _, some v⟩ => some (d, v ||| m)
  | _ => none

/-- The steps that keep the interrupt: `usart_config` does not store a CR1 without TXEIE for a
device that awaits the interrupt for TXE. -/
def Keeps (s : Driver) : Step → Prop
  | .cfg t => ∀ x ∈ s.storesCr1 t, s.awaits x.1 = true → has cr1Txeie x.2 = true
  | _ => True

/-! ## The flags of a device -/

/-- What `usart_main` is doing with a device: it has seen TXE in `handle_intr`, or has not; it
has a byte for DR, or has just written one. -/
inductive Phase where
  | other
  | seen
  | unseen
  | loaded
  | sending
  deriving DecidableEq

/-- The phase of a device, by the place of `usart_main`. -/
def Main.phase (d : Dev) : Main → Phase
  | .clearRead e _ | .clearWrite e _ _ => if e = d then .seen else .other
  | .rx e r | .put e r _ | .notify e r _ =>
      if e = d then if has srTxe r then .seen else .unseen else .other
  | .get e | .dr e _ => if e = d then .loaded else .other
  | .sr e | .ieRead e | .ieWrite e _ => if e = d then .sending else .other
  | .poll | .intr _ | .tx _ => .other

/-- What the flags are in a phase. -/
def Hand (p : Phase) (txReady txe txeie : Bool) : Prop :=
  match p with
  | .other => if txReady then txe = true else txeie = true
  | .seen => txe = true
  | .unseen => txReady = false ∧ txeie = true
  | .loaded => txReady = true ∧ txe = true
  | .sending => txReady = true

/-- The value of SR that led to `CR1 &= ~USART_CR1_TXEIE` has TXE. -/
def Main.SawTxe : Main → Prop
  | .clearRead _ r | .clearWrite _ r _ => has srTxe r = true
  | _ => True

/-! ## The bytes of a device -/

/-- The bytes `out` are those taken out of the buffer `b`, but for the one on its way.
`usart_main` is in `rb_ll_get` just where it says so, and other threads write or flush. -/
structure Wired (b : State) (out : List UInt8) (l : Loading) : Prop where
  holds : ∃ q, Inv 256 b q
  main : ∀ x, inCall mainThread b.log = some x → x.1 = .rbLlGet ∧ l = .getting
  get : l = .getting → ∃ ns, inCall mainThread b.log = some (.rbLlGet, ns)
  others : ∀ t x, t ≠ mainThread → inCall t b.log = some x →
    x.1 = .rbLlFlush ∨ ∃ buf, x.1 = .rbWrite buf
  order : taken b.log = out ++ l.inFlight b

section

variable {log : List Event} {t u : Nat} {ms ns : List Moved} {c : Call} {a : Answer}

theorem inCall_call : inCall t (log ++ [.call t c]) = some (c, []) := by
  rw [inCall_append]
  simp [track]

theorem inCall_call_ne (hu : u ≠ t) : inCall t (log ++ [.call u c]) = inCall t log := by
  rw [inCall_append]
  simp [track, hu]

theorem inCall_ret : inCall t (log ++ [.ret t a]) = none := by
  rw [inCall_append]
  simp [track]

theorem inCall_ret_ne (hu : u ≠ t) : inCall t (log ++ [.ret u a]) = inCall t log := by
  rw [inCall_append]
  simp [track, hu]

theorem taken_append {log' : List Event} : taken (log ++ log') = taken log ++ taken log' := by
  rw [taken, removed, List.filterMap_append, List.filterMap_append]
  rfl

theorem taken_moved : taken (ms.map (.moved t)) = takenOf ms := by
  induction ms with
  | nil => rfl
  | cons m ms ih =>
      rw [List.map_cons, ← List.singleton_append, taken_append, ih]
      cases m <;> rfl

theorem takenOf_append : takenOf (ms ++ ns) = takenOf ms ++ takenOf ns :=
  List.filterMap_append

/-- A call that writes or flushes takes nothing out for its caller. -/
theorem Serving.takenOf_eq_nil (h : Serving c ms) (hc : c = .rbLlFlush ∨ ∃ buf, c = .rbWrite buf) :
    takenOf ms = [] := by
  rcases hc with rfl | ⟨buf, rfl⟩
  · obtain ⟨vs, rfl⟩ := h
    rw [takenOf, List.filterMap_map]
    exact List.filterMap_eq_nil_iff.mpr fun _ _ => rfl
  · refine List.filterMap_eq_nil_iff.mpr fun m hm => ?_
    obtain ⟨v, -, rfl⟩ := List.mem_map.mp (h.subset hm)
    rfl

end

namespace Wired

variable {b b' : State} {out : List UInt8} {l : Loading} {c : UInt8}

theorem step_inv {a : Action} (h : Wired b out l) (hs : step b a = .ok b') :
    ∃ q, Inv 256 b' q := by
  obtain ⟨q, hi⟩ := h.holds
  rcases hi.step a with ⟨b₁, q', h1, hi'⟩ | he
  · rw [hs] at h1
    cases h1
    exact ⟨q', hi'⟩
  · rw [hs] at he
    cases he

/-- What is on its way depends on the call of `usart_main` only. -/
theorem inFlight_congr (h : inCall mainThread b'.log = inCall mainThread b.log) :
    l.inFlight b' = l.inFlight b := by
  cases l <;> simp only [Loading.inFlight, h]

/-- **A thread in `usart_write`.** -/
theorem write {a : Action} (h : Wired b out l) (ha : a.writes = true) (hs : step b a = .ok b') :
    Wired b' out l := by
  have hholds := h.step_inv hs
  cases a with
  | call t c =>
      obtain ⟨-, hlog, -⟩ := step_call hs
      obtain ⟨ht, hc⟩ : t ≠ mainThread ∧ (c = .rbLlFlush ∨ ∃ buf, c = .rbWrite buf) := by
        cases c with
        | rbWrite buf => exact ⟨of_decide_eq_true ha, .inr ⟨buf, rfl⟩⟩
        | rbLlFlush => exact ⟨of_decide_eq_true ha, .inl rfl⟩
        | _ => cases ha
      have hmain : inCall mainThread b'.log = inCall mainThread b.log := by
        rw [hlog, inCall_call_ne ht]
      refine ⟨hholds, hmain ▸ h.main, hmain ▸ h.get, fun u x hu hx => ?_, ?_⟩
      · rw [hlog] at hx
        by_cases hut : u = t
        · subst hut
          rw [inCall_call] at hx
          cases hx
          exact hc
        · rw [inCall_call_ne (Ne.symm hut)] at hx
          exact h.others u x hu hx
      · rw [inFlight_congr hmain, hlog, taken_append, h.order]
        simp [taken, removed]
  | run t =>
      have ht : t ≠ mainThread := of_decide_eq_true ha
      obtain ⟨q, hi⟩ := h.holds
      obtain ⟨c, ns, ms, hc, hrun⟩ := hi.run_log hs
      have hcall := h.others t _ ht hc
      have hnone : ∀ ms', Serving c (ns ++ ms') → takenOf ms' = [] := by
        intro ms' hserv
        have hnil := hserv.takenOf_eq_nil hcall
        rw [takenOf_append, List.append_eq_nil_iff] at hnil
        exact hnil.2
      rcases hrun with ⟨-, hlog, hserv⟩ | ⟨-, a, hlog, hserv⟩
      · have hmain : inCall mainThread b'.log = inCall mainThread b.log := by
          rw [hlog, inCall_moved_ne ht]
        refine ⟨hholds, hmain ▸ h.main, hmain ▸ h.get, fun u x hu hx => ?_, ?_⟩
        · rw [hlog] at hx
          by_cases hut : u = t
          · subst hut
            rw [inCall_moved hc] at hx
            cases hx
            exact hcall
          · rw [inCall_moved_ne (Ne.symm hut)] at hx
            exact h.others u x hu hx
        · rw [inFlight_congr hmain, hlog, taken_append, taken_moved, hnone ms hserv, h.order,
            List.append_nil]
      · have hmain : inCall mainThread b'.log = inCall mainThread b.log := by
          rw [hlog, inCall_ret_ne ht, inCall_moved_ne ht]
        refine ⟨hholds, hmain ▸ h.main, hmain ▸ h.get, fun u x hu hx => ?_, ?_⟩
        · rw [hlog] at hx
          by_cases hut : u = t
          · subst hut
            rw [inCall_ret] at hx
            cases hx
          · rw [inCall_ret_ne (Ne.symm hut), inCall_moved_ne (Ne.symm hut)] at hx
            exact h.others u x hu hx
        · rw [inFlight_congr hmain, hlog, taken_append, taken_append, taken_moved,
            hnone ms hserv.serving, h.order]
          simp [taken, removed]

/-- **`usart_main` calls `rb_ll_get`.** -/
theorem call (h : Wired b out .no) (hs : step b (.call mainThread .rbLlGet) = .ok b') :
    Wired b' out .getting := by
  obtain ⟨-, hlog, -⟩ := step_call hs
  have hin : inCall mainThread b'.log = some (.rbLlGet, []) := by
    rw [hlog, inCall_call]
  refine ⟨h.step_inv hs, fun x hx => ?_, fun _ => ⟨[], hin⟩, fun u x hu hx => ?_, ?_⟩
  · rw [hin] at hx
    cases hx
    exact ⟨rfl, rfl⟩
  · rw [hlog, inCall_call_ne (Ne.symm hu)] at hx
    exact h.others u x hu hx
  · rw [Loading.inFlight, hin, hlog, taken_append, h.order]
    simp [taken, removed, takenOf, Loading.inFlight]

/-- **A step of `rb_ll_get`** in `usart_main`, which may return with a byte or with -1. -/
theorem run (h : Wired b out .getting) (hs : step b (.run mainThread) = .ok b') :
    b'.pc mainThread ≠ .idle ∧ Wired b' out .getting ∨
      b'.pc mainThread = .idle ∧
        ((∃ v : UInt8, lastAnswer b' = some v.toNat ∧ Wired b' out (.loaded v)) ∨
          lastAnswer b' = some (-1) ∧ Wired b' out .no) := by
  have hholds := h.step_inv hs
  obtain ⟨q, hi⟩ := h.holds
  obtain ⟨ns₀, hget⟩ := h.get rfl
  obtain ⟨c, ns, ms, hc, hrun⟩ := hi.run_log hs
  rw [hget] at hc
  cases hc
  have horder : taken b.log = out ++ takenOf ns₀ := by
    rw [h.order, Loading.inFlight, hget]
  rcases hrun with ⟨hpc, hlog, hserv⟩ | ⟨hpc, a, hlog, hserv⟩
  · have hin : inCall mainThread b'.log = some (.rbLlGet, ns₀ ++ ms) := by
      rw [hlog, inCall_moved hget]
    refine .inl ⟨hpc, hholds, fun x hx => ?_, fun _ => ⟨_, hin⟩, fun u x hu hx => ?_, ?_⟩
    · rw [hin] at hx
      cases hx
      exact ⟨rfl, rfl⟩
    · rw [hlog, inCall_moved_ne (Ne.symm hu)] at hx
      exact h.others u x hu hx
    · have hflight : Loading.getting.inFlight b' = takenOf (ns₀ ++ ms) := by
        rw [Loading.inFlight, hin]
      rw [hflight, hlog, taken_append, taken_moved, horder, takenOf_append, List.append_assoc]
  · have hin : inCall mainThread b'.log = none := by
      rw [hlog, inCall_ret]
    have hlast : b'.log.getLast? = some (.ret mainThread a) := by
      rw [hlog, List.getLast?_concat]
    have htaken : taken b'.log = out ++ takenOf (ns₀ ++ ms) := by
      rw [hlog, taken_append, taken_append, taken_moved, horder, takenOf_append,
        List.append_assoc]
      simp [taken, removed]
    have hback : ∀ l, l ≠ .getting → out ++ takenOf (ns₀ ++ ms) = out ++ l.inFlight b' →
        Wired b' out l := by
      intro l hl horder'
      refine ⟨hholds, fun x hx => ?_, fun he => absurd he hl, fun u x hu hx => ?_,
        htaken.trans horder'⟩
      · rw [hin] at hx
        cases hx
      · rw [hlog, inCall_ret_ne (Ne.symm hu), inCall_moved_ne (Ne.symm hu)] at hx
        exact h.others u x hu hx
    refine .inr ⟨hpc, ?_⟩
    rcases hserv with ⟨v, hms, rfl⟩ | ⟨hms, rfl⟩
    · refine .inl ⟨v, by rw [lastAnswer, hlast]; rfl, hback _ (by simp) ?_⟩
      rw [hms]
      rfl
    · refine .inr ⟨by rw [lastAnswer, hlast], hback _ (by simp) ?_⟩
      rw [hms]
      rfl

/-- **The byte is written to DR.** -/
theorem sent (h : Wired b out (.loaded c)) : Wired b (out ++ [c]) .no := by
  refine ⟨h.holds, fun x hx => ?_, (by simp), h.others, ?_⟩
  · cases (h.main x hx).2
  · rw [h.order]
    simp [Loading.inFlight]

theorem start {buf : List UInt8} (hbuf : buf.length = 256) :
    Wired (Usart.start buf 256) [] .no :=
  ⟨⟨[], .start (by decide) (by decide) hbuf⟩, by rintro _ ⟨⟩, by rintro ⟨⟩,
    by rintro _ _ - ⟨⟩, rfl⟩

end Wired

/-! ## The steps -/

/-- The invariant for a device. -/
structure DevOk (x : DevState) (p : Phase) (l : Loading) : Prop where
  hand : Hand p x.txReady (has srTxe x.sr) (has cr1Txeie (x.reg .cr1))
  txe : ∀ b ∈ x.dr, b.2 = true
  wired : Wired x.a2h (x.dr.map Prod.fst) l

/-- The invariant of the driver. -/
structure DriverInv (s : Driver) : Prop where
  dev : ∀ d, DevOk (s.dev d) (s.main.phase d) (s.main.loading d)
  saw : s.main.SawTxe

/-- The place has nothing to do with the other devices. -/
def Main.At (e : Dev) (m : Main) : Prop :=
  ∀ d, d ≠ e → m.phase d = .other ∧ m.loading d = .no

/-- The device that a place is about. -/
def Main.dev : Main → Option Dev
  | .poll => none
  | .intr e | .clearRead e _ | .clearWrite e _ _ | .rx e _ | .put e _ _ | .notify e _ _ => some e
  | .tx e | .get e | .dr e _ | .sr e | .ieRead e | .ieWrite e _ => some e

theorem Main.at_dev {m : Main} {e : Dev} (h : m.dev = some e) : m.At e := by
  intro d hd
  cases m <;> cases h <;> simp [Main.phase, Main.loading, Ne.symm hd]

section

variable {r v : BitVec 32}

theorem has_srTxe : has srTxe r = r.getLsbD 7 := by
  have htwo : srTxe = BitVec.twoPow 32 7 := by decide
  rw [has, htwo, BitVec.and_twoPow]
  cases r.getLsbD 7 <;> decide

theorem has_srTxe_rxFlags : has srTxe (r &&& ~~~rxFlags) = has srTxe r := by
  rw [has_srTxe, has_srTxe, BitVec.getLsbD_and]
  exact Bool.and_true _

theorem has_srTxe_receive : has srTxe (r ||| (v &&& ~~~srTxe)) = has srTxe r := by
  rw [has_srTxe, has_srTxe, BitVec.getLsbD_or, BitVec.getLsbD_and]
  have hoff : (~~~srTxe).getLsbD 7 = false := by decide
  rw [hoff, Bool.and_false, Bool.or_false]

theorem has_srTxe_or : has srTxe (r ||| srTxe) = true := by
  rw [has_srTxe, BitVec.getLsbD_or]
  exact Bool.or_true _

theorem has_cr1Txeie_or : has cr1Txeie (v ||| cr1Txeie) = true := has_srTxe_or

end

section

variable {s s' : Driver} {d e : Dev} {x x' : DevState} {p p' : Phase} {l l' : Loading}

/-- The flags, the bytes written and the buffer are all that counts. -/
theorem DevOk.congr (h : DevOk x p l) (hsr : has srTxe x'.sr = has srTxe x.sr)
    (hcr1 : x'.reg .cr1 = x.reg .cr1) (hdr : x'.dr = x.dr) (htx : x'.txReady = x.txReady)
    (ha2h : x'.a2h = x.a2h) : DevOk x' p l := by
  refine ⟨?_, hdr ▸ h.txe, by rw [ha2h, hdr]; exact h.wired⟩
  rw [hsr, hcr1, htx]
  exact h.hand

theorem goto_dev {m : Main} : (s.goto m).dev = s.dev := rfl

theorem upd_self {f : DevState → DevState} : (s.upd d f).dev d = f (s.dev d) :=
  Function.update_self ..

theorem upd_of_ne {f : DevState → DevState} (h : d ≠ e) : (s.upd e f).dev d = s.dev d :=
  Function.update_of_ne h ..

/-- **What is done in the part for a device** concerns this device only. -/
theorem DriverInv.at (h : DriverInv s) (hdev : ∀ d, d ≠ e → s'.dev d = s.dev d)
    (hm : s.main.dev = some e) (hm' : s'.main.At e)
    (hx : DevOk (s'.dev e) (s'.main.phase e) (s'.main.loading e)) (hsaw : s'.main.SawTxe) :
    DriverInv s' := by
  refine ⟨fun d => ?_, hsaw⟩
  by_cases hd : d = e
  · rw [hd]
    exact hx
  · have hold := h.dev d
    have hat := Main.at_dev hm d hd
    rw [hat.1, hat.2] at hold
    rw [(hm' d hd).1, (hm' d hd).2, hdev d hd]
    exact hold

theorem afterIntr_phase : e.afterIntr.phase d = .other := by
  cases e <;> rfl

theorem afterIntr_loading : e.afterIntr.loading d = .no := by
  cases e <;> rfl

theorem afterTx_phase : e.afterTx.phase d = .other := by
  cases e <;> rfl

theorem afterTx_loading : e.afterTx.loading d = .no := by
  cases e <;> rfl

/-- The part for a device is left. -/
theorem DriverInv.leave {m : Main} (h : DriverInv s) (hdev : ∀ d, d ≠ e → s'.dev d = s.dev d)
    (hm : s.main.dev = some e) (hm' : s'.main = m) (hleave : m = e.afterIntr ∨ m = e.afterTx)
    (hx : DevOk (s'.dev e) .other .no) : DriverInv s' := by
  subst hm'
  rcases hleave with hl | hl
  · refine h.at hdev hm ?_ ?_ ?_
    · rw [hl]
      exact fun _ _ => ⟨afterIntr_phase, afterIntr_loading⟩
    · rw [hl, afterIntr_phase, afterIntr_loading]
      exact hx
    · rw [hl]
      cases e <;> trivial
  · refine h.at hdev hm ?_ ?_ ?_
    · rw [hl]
      exact fun _ _ => ⟨afterTx_phase, afterTx_loading⟩
    · rw [hl, afterTx_phase, afterTx_loading]
      exact hx
    · rw [hl]
      cases e <;> trivial

theorem DevOk.hand_of (h : DevOk x p l) (hand : Hand p' x.txReady (has srTxe x.sr)
    (has cr1Txeie (x.reg .cr1))) : DevOk x p' l :=
  ⟨hand, h.txe, h.wired⟩

/-- The transmission of no device is concerned. -/
structure Quiet (e : Dev) (s s' : Driver) : Prop where
  dev : ∀ d, d ≠ e → s'.dev d = s.dev d
  sr : has srTxe (s'.dev e).sr = has srTxe (s.dev e).sr
  reg : (s'.dev e).reg = (s.dev e).reg
  dr : (s'.dev e).dr = (s.dev e).dr
  txReady : (s'.dev e).txReady = (s.dev e).txReady
  a2h : (s'.dev e).a2h = (s.dev e).a2h

namespace Quiet

theorem ok (h : Quiet e s s') (hx : DevOk (s.dev e) p l) : DevOk (s'.dev e) p l :=
  hx.congr h.sr (congrFun h.reg _) h.dr h.txReady h.a2h

theorem upd {f : DevState → DevState} (h : Quiet e s s')
    (hsr : ∀ x, has srTxe (f x).sr = has srTxe x.sr) (hreg : ∀ x, (f x).reg = x.reg)
    (hdr : ∀ x, (f x).dr = x.dr) (htx : ∀ x, (f x).txReady = x.txReady)
    (ha2h : ∀ x, (f x).a2h = x.a2h) : Quiet e s (s'.upd e f) where
  dev d hd := (upd_of_ne hd).trans (h.dev d hd)
  sr := by rw [upd_self, hsr, h.sr]
  reg := by rw [upd_self, hreg, h.reg]
  dr := by rw [upd_self, hdr, h.dr]
  txReady := by rw [upd_self, htx, h.txReady]
  a2h := by rw [upd_self, ha2h, h.a2h]

theorem refl : Quiet e s s := ⟨fun _ _ => rfl, rfl, rfl, rfl, rfl, rfl⟩

theorem goto (h : Quiet e s s') (m : Main) : Quiet e s (s'.goto m) :=
  ⟨h.dev, h.sr, h.reg, h.dr, h.txReady, h.a2h⟩

theorem count (h : Quiet e s s') (f : Stat → Stat) : Quiet e s (s'.count e f) :=
  h.upd (fun _ => rfl) (fun _ => rfl) (fun _ => rfl) (fun _ => rfl) (fun _ => rfl)

theorem readDr (h : Quiet e s s') : Quiet e s (s'.readDr e) :=
  h.upd (fun _ => has_srTxe_rxFlags) (fun _ => rfl) (fun _ => rfl) (fun _ => rfl) (fun _ => rfl)

theorem stepH2a {a : Action} {s'' : Driver} (h : Quiet e s s') (hs : s'.stepH2a e a = .ok s'') :
    Quiet e s s'' ∧ s''.main = s'.main := by
  rw [Driver.stepH2a] at hs
  cases hb : step (s'.dev e).h2a a with
  | error f =>
      rw [hb] at hs
      cases hs
  | ok b =>
      rw [hb] at hs
      cases hs
      exact ⟨h.upd (fun _ => rfl) (fun _ => rfl) (fun _ => rfl) (fun _ => rfl) (fun _ => rfl),
        rfl⟩

end Quiet

theorem stepA2h_ok {a : Action} (h : s.stepA2h e a = .ok s') :
    ∃ b, step (s.dev e).a2h a = .ok b ∧ s' = s.upd e fun x => { x with a2h := b } := by
  rw [Driver.stepA2h] at h
  cases hb : step (s.dev e).a2h a with
  | error f =>
      rw [hb] at h
      cases h
  | ok b =>
      rw [hb] at h
      exact ⟨b, rfl, (Except.ok.inj h).symm⟩

/-- The part for the interrupt goes on, with the same value of SR. -/
theorem DriverInv.goOn {r bits : BitVec 32} (h : DriverInv s) (hq : Quiet e s s')
    (hx : DevOk (s.dev e) (Main.phase e (.rx e r)) .no) (hm : s.main.dev = some e)
    (hm' : s'.main = .notify e r bits ∨ s'.main = .put e r bits) : DriverInv s' := by
  rcases hm' with hm' | hm'
  · refine h.at hq.dev hm (Main.at_dev (by rw [hm']; rfl)) ?_ (by rw [hm']; trivial)
    rw [hm']
    exact hq.ok hx
  · refine h.at hq.dev hm (Main.at_dev (by rw [hm']; rfl)) ?_ (by rw [hm']; trivial)
    rw [hm']
    exact hq.ok hx

theorem bind_ok {α β ε : Type} {f : α → Except ε β} {x : Except ε α} {b : β}
    (h : (x >>= f) = .ok b) : ∃ a, x = .ok a ∧ f a = .ok b := by
  cases x with
  | error e => cases h
  | ok a => exact ⟨a, rfl, h⟩

/-- **`handle_intr`** where it looks at RXNE. -/
theorem handleRx_inv {r : BitVec 32} (h : DriverInv s) (hm : s.main = .rx e r)
    (hs : s.handleRx e r = .ok s') : DriverInv s' := by
  have hx := h.dev e
  have hdev : s.main.dev = some e := by
    rw [hm]
    rfl
  rw [hm] at hx
  rw [Driver.handleRx] at hs
  split at hs
  · simp only at hs
    split at hs
    · cases hs
      exact h.goOn ((Quiet.refl.readDr.count _).goto _) hx hdev (.inl rfl)
    · split at hs
      · cases hs
        exact h.goOn ((Quiet.refl.readDr.count _).goto _) hx hdev (.inl rfl)
      · split at hs
        · cases hs
          exact h.goOn ((Quiet.refl.readDr.count _).goto _) hx hdev (.inl rfl)
        · split at hs
          · obtain ⟨hq, hput⟩ := ((Quiet.refl.readDr.count _).goto _).stepH2a hs
            exact h.goOn hq hx hdev (.inr hput)
          · obtain ⟨hq, hput⟩ := (Quiet.refl.readDr.goto _).stepH2a hs
            exact h.goOn hq hx hdev (.inr hput)
  · split at hs
    · cases hs
      exact h.goOn ((Quiet.refl.readDr.count _).goto _) hx hdev (.inl rfl)
    · cases hs
      exact h.goOn (Quiet.refl.goto _) hx hdev (.inl rfl)

/-- **A step of `handle_intr`**, from the value of SR to the end. -/
theorem handleIntr_inv {cb : Bool} (h : DriverInv s) (hm : s.main.dev = some e)
    (hintr : (∃ r, s.main = .clearRead e r) ∨ (∃ r v, s.main = .clearWrite e r v) ∨
      (∃ r, s.main = .rx e r) ∨ (∃ r bits, s.main = .put e r bits) ∨
        ∃ r bits, s.main = .notify e r bits)
    (hs : s.mainStep cb = .ok s') : DriverInv s' := by
  have hx := h.dev e
  have hsaw := h.saw
  rcases hintr with ⟨r, hr⟩ | ⟨r, v, hr⟩ | ⟨r, hr⟩ | ⟨r, bits, hr⟩ | ⟨r, bits, hr⟩
  · rw [hr] at hx hsaw
    rw [Driver.mainStep, hr] at hs
    cases hs
    exact h.at (fun _ _ => rfl) hm (Main.at_dev rfl) hx hsaw
  · rw [hr] at hx hsaw
    rw [Driver.mainStep, hr] at hs
    cases hs
    have hphase : Main.phase e (.rx e r) = .seen := by
      have htxe : has srTxe r = true := hsaw
      rw [Main.phase, if_pos rfl, if_pos htxe]
    refine h.at (fun d hd => ?_) hm (Main.at_dev rfl) ?_ trivial
    · rw [goto_dev, Driver.setReg, upd_of_ne hd]
    show DevOk ((s.setReg e .cr1 (v &&& ~~~cr1Txeie)).dev e) (Main.phase e (.rx e r)) .no
    rw [hphase, Driver.setReg, upd_self]
    have hhand := hx.hand
    rw [Main.phase, if_pos rfl] at hhand
    exact ⟨hhand, hx.txe, hx.wired⟩
  · rw [Driver.mainStep, hr] at hs
    exact handleRx_inv h hr hs
  · rw [hr] at hx
    rw [Driver.mainStep, hr] at hs
    obtain ⟨s₁, hs₁, hs⟩ := bind_ok hs
    obtain ⟨hq, hput⟩ := Quiet.refl.stepH2a hs₁
    split at hs
    · cases hs
      split
      · exact h.goOn ((hq.goto _).count _) hx hm (.inl rfl)
      · exact h.goOn ((hq.goto _).count _) hx hm (.inl rfl)
    · cases hs
      exact h.goOn hq hx hm (.inr (hput.trans hr))
  · rw [hr] at hx
    rw [Driver.mainStep, hr] at hs
    cases hs
    have hq : Quiet e s (if bits ≠ 0 ∧ cb = true then
        s.count e fun x => { x with errNotifyOverflow := x.errNotifyOverflow + 1 } else s) := by
      split
      · exact Quiet.refl.count _
      · exact .refl
    have hok := hq.ok hx
    refine h.leave (fun d hd => ?_) hm rfl (.inl rfl) ?_
    · rw [goto_dev, upd_of_ne hd, hq.dev d hd]
    · rw [goto_dev, upd_self]
      refine ⟨?_, hok.txe, hok.wired⟩
      -- TXE was seen, and `tx_ready` is set; or it was not, and TXEIE still is.
      have hhand := hok.hand
      rw [Main.phase, if_pos rfl] at hhand
      cases htxe : has srTxe r with
      | true =>
          rw [htxe, if_pos rfl] at hhand
          exact hhand
      | false =>
          rw [htxe, if_neg Bool.false_ne_true] at hhand
          exact hhand.2

/-- **A step of `handle_tx_ready`**, from `rb_ll_get` to the end. -/
theorem handleTxReady_inv {cb : Bool} (h : DriverInv s) (hm : s.main.dev = some e)
    (htx : s.main = .get e ∨ (∃ c, s.main = .dr e c) ∨ s.main = .sr e ∨ s.main = .ieRead e ∨
      ∃ v, s.main = .ieWrite e v)
    (hs : s.mainStep cb = .ok s') : DriverInv s' := by
  have hx := h.dev e
  rcases htx with hr | ⟨c, hr⟩ | hr | hr | ⟨v, hr⟩
  · have hload : Main.loading e (.get e) = .getting := if_pos rfl
    have hphase : Main.phase e (.get e) = .loaded := if_pos rfl
    rw [hr, hload, hphase] at hx
    rw [Driver.mainStep, hr] at hs
    obtain ⟨s₁, hs₁, hs⟩ := bind_ok hs
    obtain ⟨b, hb, rfl⟩ := stepA2h_ok hs₁
    rw [upd_self] at hs
    rcases hx.wired.run hb with ⟨hpc, hw⟩ | ⟨hpc, ⟨c, hc, hw⟩ | ⟨hc, hw⟩⟩
    · rw [if_neg hpc] at hs
      cases hs
      refine h.at (fun d hd => upd_of_ne hd) hm (Main.at_dev hm) ?_ (by
        show s.main.SawTxe
        rw [hr]
        trivial)
      show DevOk ((s.upd e _).dev e) (s.main.phase e) (s.main.loading e)
      rw [upd_self, hr, hload, hphase]
      exact ⟨hx.hand, hx.txe, hw⟩
    · rw [if_pos hpc, hc] at hs
      cases hs
      refine h.at (fun d hd => ?_) hm (Main.at_dev rfl) ?_ trivial
      · rw [goto_dev, upd_of_ne hd]
      · have hbyte : UInt8.ofNat c.toNat = c := UInt8.ofNat_toNat
        have hload' : Main.loading e (.dr e (UInt8.ofNat c.toNat)) = .loaded c := by
          rw [Main.loading, if_pos rfl, hbyte]
        have hphase' : Main.phase e (.dr e (UInt8.ofNat c.toNat)) = .loaded := if_pos rfl
        rw [goto_dev, upd_self]
        show DevOk _ (Main.phase e (.dr e _)) (Main.loading e (.dr e _))
        rw [hload', hphase']
        exact ⟨hx.hand, hx.txe, hw⟩
    · rw [if_pos hpc, hc] at hs
      cases hs
      refine h.leave (fun d hd => ?_) hm rfl (.inr rfl) ?_
      · rw [goto_dev, upd_of_ne hd]
      · rw [goto_dev, upd_self]
        refine ⟨?_, hx.txe, hw⟩
        have hhand := hx.hand
        exact (if_pos hhand.1).mpr hhand.2
  · have hload : Main.loading e (.dr e c) = .loaded c := if_pos rfl
    have hphase : Main.phase e (.dr e c) = .loaded := if_pos rfl
    rw [hr, hload, hphase] at hx
    rw [Driver.mainStep, hr] at hs
    cases hs
    obtain ⟨htx, htxe⟩ := hx.hand
    refine h.at (fun d hd => ?_) hm (Main.at_dev rfl) ?_ trivial
    · rw [goto_dev, upd_of_ne hd]
    · have hphase' : Main.phase e (.sr e) = .sending := if_pos rfl
      rw [goto_dev, upd_self]
      show DevOk _ (Main.phase e (.sr e)) .no
      rw [hphase']
      refine ⟨htx, fun b hb => ?_, ?_⟩
      · rcases List.mem_append.mp hb with hb | hb
        · exact hx.txe b hb
        · rw [List.mem_singleton.mp hb]
          exact htxe
      · rw [List.map_append]
        exact hx.wired.sent
  · have hphase : Main.phase e (.sr e) = .sending := if_pos rfl
    rw [hr, hphase] at hx
    rw [Driver.mainStep, hr] at hs
    cases hs
    split
    · rename_i htxe
      refine h.leave (fun _ _ => rfl) hm rfl (.inr rfl) (hx.hand_of ?_)
      exact (if_pos hx.hand).mpr htxe
    · refine h.at (fun _ _ => rfl) hm (Main.at_dev rfl) ?_ trivial
      show DevOk (s.dev e) (Main.phase e (.ieRead e)) .no
      rw [Main.phase, if_pos rfl]
      exact hx
  · rw [hr] at hx
    rw [Driver.mainStep, hr] at hs
    cases hs
    exact h.at (fun _ _ => rfl) hm (Main.at_dev rfl) hx trivial
  · rw [hr] at hx
    rw [Driver.mainStep, hr] at hs
    cases hs
    refine h.leave (fun d hd => ?_) hm rfl (.inr rfl) ?_
    · rw [goto_dev, upd_of_ne hd, Driver.setReg, upd_of_ne hd]
    · rw [goto_dev, upd_self, Driver.setReg, upd_self]
      refine ⟨?_, hx.txe, hx.wired⟩
      show has cr1Txeie (Function.update (s.dev e).reg .cr1 (v ||| cr1Txeie) .cr1) = true
      rw [Function.update_self]
      exact has_cr1Txeie_or

/-- **A step of `usart_main`.** -/
theorem mainStep_inv {cb : Bool} (h : DriverInv s) (hs : s.mainStep cb = .ok s') :
    DriverInv s' := by
  cases hm : s.main with
  | poll =>
      rw [Driver.mainStep, hm] at hs
      cases hs
  | intr e =>
      have hx := h.dev e
      have hdev : s.main.dev = some e := by
        rw [hm]
        rfl
      rw [hm] at hx
      rw [Driver.mainStep, hm] at hs
      simp only at hs
      split at hs
      · cases hs
        cases htxe : has srTxe (s.dev e).sr with
        | true =>
            rw [if_pos rfl]
            refine h.at (fun _ _ => rfl) hdev (Main.at_dev rfl) ?_ htxe
            show DevOk (s.dev e) (Main.phase e (.clearRead e _)) .no
            rw [Main.phase, if_pos rfl]
            exact hx.hand_of htxe
        | false =>
            rw [if_neg Bool.false_ne_true]
            refine h.at (fun _ _ => rfl) hdev (Main.at_dev rfl) ?_ trivial
            show DevOk (s.dev e) (Main.phase e (.rx e _)) .no
            rw [Main.phase, if_pos rfl, htxe, if_neg Bool.false_ne_true]
            refine hx.hand_of ?_
            have hhand : Hand .other _ _ _ := hx.hand
            rw [htxe] at hhand ⊢
            cases htx : (s.dev e).txReady with
            | true =>
                rw [htx] at hhand
                exact absurd hhand Bool.false_ne_true
            | false =>
                rw [htx] at hhand
                exact ⟨rfl, hhand⟩
      · cases hs
        exact h.leave (fun _ _ => rfl) hdev rfl (.inl rfl) hx
  | tx e =>
      have hx := h.dev e
      have hdev : s.main.dev = some e := by
        rw [hm]
        rfl
      rw [hm] at hx
      rw [Driver.mainStep, hm] at hs
      simp only at hs
      split at hs
      · rename_i hready
        obtain ⟨b, hb, rfl⟩ := stepA2h_ok hs
        refine h.at (fun d hd => upd_of_ne hd) hdev (Main.at_dev rfl) ?_ trivial
        show DevOk (((s.goto (.get e)).upd e _).dev e) (Main.phase e (.get e))
          (Main.loading e (.get e))
        rw [upd_self, Main.phase, Main.loading, if_pos rfl, if_pos rfl]
        refine ⟨⟨hready.1, ?_⟩, hx.txe, hx.wired.call hb⟩
        have hhand : Hand .other _ _ _ := hx.hand
        rw [hready.1] at hhand
        exact hhand
      · cases hs
        exact h.leave (fun _ _ => rfl) hdev rfl (.inr rfl) hx
  | clearRead e r =>
      exact handleIntr_inv (e := e) h (by rw [hm]; rfl) (.inl ⟨r, hm⟩) hs
  | clearWrite e r v =>
      exact handleIntr_inv (e := e) h (by rw [hm]; rfl) (.inr (.inl ⟨r, v, hm⟩)) hs
  | rx e r =>
      exact handleIntr_inv (e := e) h (by rw [hm]; rfl) (.inr (.inr (.inl ⟨r, hm⟩))) hs
  | put e r bits =>
      exact handleIntr_inv (e := e) h (by rw [hm]; rfl)
        (.inr (.inr (.inr (.inl ⟨r, bits, hm⟩)))) hs
  | notify e r bits =>
      exact handleIntr_inv (e := e) h (by rw [hm]; rfl)
        (.inr (.inr (.inr (.inr ⟨r, bits, hm⟩)))) hs
  | get e => exact handleTxReady_inv (e := e) h (by rw [hm]; rfl) (.inl hm) hs
  | dr e c => exact handleTxReady_inv (e := e) h (by rw [hm]; rfl) (.inr (.inl ⟨c, hm⟩)) hs
  | sr e => exact handleTxReady_inv (e := e) h (by rw [hm]; rfl) (.inr (.inr (.inl hm))) hs
  | ieRead e =>
      exact handleTxReady_inv (e := e) h (by rw [hm]; rfl) (.inr (.inr (.inr (.inl hm)))) hs
  | ieWrite e v =>
      exact handleTxReady_inv (e := e) h (by rw [hm]; rfl)
        (.inr (.inr (.inr (.inr ⟨v, hm⟩)))) hs

/-- What others do, while `usart_main` stays where it is. -/
theorem DriverInv.outside (h : DriverInv s) (hm : s'.main = s.main)
    (hx : ∀ d, DevOk (s.dev d) (s.main.phase d) (s.main.loading d) →
      DevOk (s'.dev d) (s.main.phase d) (s.main.loading d)) : DriverInv s' := by
  refine ⟨fun d => ?_, ?_⟩
  · rw [hm]
    exact hx d (h.dev d)
  · rw [hm]
    exact h.saw

/-- They change one device. -/
theorem DriverInv.outside_upd {f : DevState → DevState} (h : DriverInv s)
    (hx : DevOk (s.dev e) (s.main.phase e) (s.main.loading e) →
      DevOk (f (s.dev e)) (s.main.phase e) (s.main.loading e)) : DriverInv (s.upd e f) := by
  refine h.outside rfl fun d hd => ?_
  by_cases hde : d = e
  · subst hde
    rw [upd_self]
    exact hx hd
  · rw [upd_of_ne hde]
    exact hd

theorem Hand.txe {a b c : Bool} (h : Hand p a b c) : Hand p a true c := by
  cases p with
  | other =>
      cases a with
      | true => rfl
      | false => exact h
  | seen => rfl
  | unseen => exact h
  | loaded => exact ⟨h.1, rfl⟩
  | sending => exact h

/-- The hardware has put the byte away. -/
theorem txe_inv (h : DriverInv s) :
    DriverInv (s.upd e fun x => { x with sr := x.sr ||| srTxe }) := by
  refine h.outside_upd fun hx => ⟨?_, hx.txe, hx.wired⟩
  rw [has_srTxe_or]
  exact hx.hand.txe

theorem receive_inv {flags rdr : BitVec 32} (h : DriverInv s) :
    DriverInv (s.upd e fun x => { x with sr := x.sr ||| (flags &&& ~~~srTxe), rdr := rdr }) :=
  h.outside_upd fun hx => hx.congr has_srTxe_receive rfl rfl rfl rfl

theorem write_inv {a : Action} (h : DriverInv s) (ha : a.writes = true)
    (hs : s.stepA2h e a = .ok s') : DriverInv s' := by
  obtain ⟨b, hb, rfl⟩ := stepA2h_ok hs
  exact h.outside_upd fun hx => ⟨hx.hand, hx.txe, hx.wired.write ha hb⟩

theorem read_inv {a : Action} (h : DriverInv s) (hs : s.stepH2a e a = .ok s') : DriverInv s' := by
  obtain ⟨hq, hm⟩ := Quiet.refl.stepH2a hs
  refine h.outside hm fun d hx => ?_
  by_cases hd : d = e
  · subst hd
    exact hq.ok hx
  · rw [hq.dev d hd]
    exact hx

theorem poll_inv {intr app : Dev → Bool} (h : DriverInv s) (hs : s.pollReturns intr app = .ok s') :
    DriverInv s' := by
  rw [Driver.pollReturns] at hs
  split at hs
  · rename_i hm
    cases hs
    refine ⟨fun d => ?_, trivial⟩
    have hx := h.dev d
    rw [hm] at hx
    exact ⟨hx.hand, hx.txe, hx.wired⟩
  · cases hs

/-! ## `usart_config` -/

/-- A register is written.  If it is CR1, and the interrupt for TXE is awaited, TXEIE stays. -/
theorem setReg_inv {r : Reg} {v : BitVec 32} (h : DriverInv s)
    (hv : r = .cr1 → s.awaits e = true → has cr1Txeie v = true) :
    DriverInv (s.setReg e r v) := by
  refine h.outside_upd fun hx => ?_
  by_cases hr : r = .cr1
  · subst hr
    refine ⟨?_, hx.txe, hx.wired⟩
    show Hand (s.main.phase e) (s.dev e).txReady (has srTxe (s.dev e).sr)
      (has cr1Txeie (Function.update (s.dev e).reg .cr1 v .cr1))
    rw [Function.update_self]
    have hhand := hx.hand
    have hneed : s.main.phase e ≠ .seen → has cr1Txeie ((s.dev e).reg .cr1) = true →
        has cr1Txeie v = true := by
      intro hp hie
      refine hv rfl ?_
      rw [Driver.awaits, hie, Bool.true_and]
      split
      · rename_i d r hm
        refine decide_eq_true fun hd => hp ?_
        rw [hm, Main.phase, if_pos hd]
      · rename_i d r v hm
        refine decide_eq_true fun hd => hp ?_
        rw [hm, Main.phase, if_pos hd]
      · rfl
    cases hp : s.main.phase e with
    | other =>
        rw [hp] at hhand hneed
        cases htx : (s.dev e).txReady with
        | true =>
            rw [htx] at hhand
            exact hhand
        | false =>
            rw [htx] at hhand
            exact hneed (by simp) hhand
    | seen =>
        rw [hp] at hhand
        exact hhand
    | unseen =>
        rw [hp] at hhand hneed
        exact ⟨hhand.1, hneed (by simp) hhand.2⟩
    | loaded =>
        rw [hp] at hhand
        exact hhand
    | sending =>
        rw [hp] at hhand
        exact hhand
  · refine hx.congr rfl ?_ rfl rfl rfl
    exact Function.update_of_ne (Ne.symm hr) ..

theorem DriverInv.setCfg {t : Nat} {c : Option Cfg} (h : DriverInv s) :
    DriverInv { s with cfg := Function.update s.cfg t c } :=
  h.outside rfl fun _ hx => hx

/-- **A step of a thread in `usart_config`.** -/
theorem cfgStep_inv {t : Nat} (h : DriverInv s) (hk : Keeps s (.cfg t))
    (hs : s.cfgStep t = .ok s') : DriverInv s' := by
  have hstore : ∀ d v, s.storesCr1 t = some (d, v) → s.awaits d = true → has cr1Txeie v = true :=
    fun d v hv => hk (d, v) hv
  rw [Driver.cfgStep] at hs
  split at hs
  · cases hs
  · rename_i c hc
    obtain ⟨d, ops, read⟩ := c
    simp only at hs
    split at hs
    · cases hs
      exact h.setCfg
    · cases hs
      refine (setReg_inv h fun hr => hstore _ _ ?_).setCfg
      rw [Driver.storesCr1, hc, hr]
    · cases hs
      exact h.setCfg
    · cases hs
      exact h.setCfg
    · cases hs
      refine (setReg_inv h fun hr => hstore _ _ ?_).setCfg
      rw [Driver.storesCr1, hc, hr]
    · cases hs
      refine (setReg_inv h fun hr => hstore _ _ ?_).setCfg
      rw [Driver.storesCr1, hc, hr]

/-! ## Every run -/

/-- **Step lemma.** -/
theorem DriverInv.step {a : Step} (h : DriverInv s) (hk : Keeps s a) (hs : s.step a = .ok s') :
    DriverInv s' := by
  cases a with
  | txe d =>
      cases hs
      exact txe_inv h
  | receive d flags rdr =>
      cases hs
      exact receive_inv h
  | config t d bits =>
      rw [Driver.step] at hs
      split at hs
      · cases hs
        exact h.setCfg
      · cases hs
  | cfg t => exact cfgStep_inv h hk hs
  | write d a =>
      rw [Driver.step] at hs
      split at hs
      · rename_i ha
        exact write_inv h ha hs
      · cases hs
  | read d a =>
      rw [Driver.step] at hs
      split at hs
      · exact read_inv h hs
      · cases hs
  | poll intr app => exact poll_inv h hs
  | main cb => exact mainStep_inv h hs

theorem DriverInv.start : DriverInv .start :=
  ⟨fun _ => ⟨by show has srTxe 0xc0 = true; decide, by rintro _ ⟨⟩,
    Wired.start List.length_replicate⟩,
    trivial⟩

theorem driverInv_of_reach (h : Reach Driver.step Keeps .start s) : DriverInv s :=
  h.invariant .start fun _ _ _ hi hk hs => hi.step hk hs

theorem DriverInv.transmits (h : DriverInv s) : Transmits s where
  txe d := (h.dev d).txe
  fifo d := by
    obtain ⟨q, hq⟩ := (h.dev d).wired.holds
    exact ⟨q, hq.refines⟩
  order d := (h.dev d).wired.order
  txeie d hm htx := by
    have hhand := (h.dev d).hand
    rw [hm, htx] at hhand
    exact hhand

/-- **The transmission of the USART driver**, in every run in which `usart_config` does not
switch off the interrupt for TXE that a device awaits. -/
theorem usart_transmits (h : Reach Driver.step Keeps .start s) : Transmits s :=
  (driverInv_of_reach h).transmits

end

/-! ## Where it stalls -/

/-- A thread writes one byte for USART2, and `usart_main` puts it into DR. -/
def sendOne : List Step :=
  [.write .usart2 (.call 1 (.rbWrite [65]))] ++ List.replicate 8 (.write .usart2 (.run 1)) ++
    [.poll (fun _ => false) (fun d => d = .usart2)] ++ List.replicate 12 (.main false)

/-- `B115200 | CS8 | STOP1B` -/
def config8n1 : BitVec 32 := 25 ||| cs8 ||| stop1b

/-- **`usart_config` while a byte is on its way**: TXEIE is cleared, and `usart_main` waits for
an interrupt that is not enabled. -/
theorem transmission_stalls : ∃ s : Driver, Reach Driver.step anyEvent .start s ∧
    s.main = .poll ∧ (s.dev .usart2).txReady = false ∧
      has cr1Txeie ((s.dev .usart2).reg .cr1) = false := by
  have hrun : runTest Driver.step (fun _ _ => true)
      (fun s => decide (s.main = .poll ∧ (s.dev .usart2).txReady = false ∧
        has cr1Txeie ((s.dev .usart2).reg .cr1) = false)) .start
      (sendOne ++ [.config 2 .usart2 config8n1] ++ List.replicate 7 (.cfg 2)) = true := by
    decide +kernel
  obtain ⟨s, hs, hp⟩ := reach_any_of_runTest hrun
  exact ⟨s, hs, of_decide_eq_true hp⟩

/-- The byte is written, `usart_main` waits for the interrupt, and USART3 is configured. -/
theorem usart_transmits_one : ∃ s : Driver, s.main = .poll ∧
    (s.dev .usart2).dr = [(65, true)] ∧ (s.dev .usart2).txReady = false ∧ Transmits s := by
  have hrun : runTest Driver.step
      (fun s a => match a with
        | .cfg t => decide (∀ x ∈ s.storesCr1 t, s.awaits x.1 = true → has cr1Txeie x.2 = true)
        | _ => true)
      (fun s => decide (s.main = .poll ∧ (s.dev .usart2).dr = [(65, true)] ∧
        (s.dev .usart2).txReady = false)) .start
      (sendOne ++ [.config 2 .usart3 config8n1] ++ List.replicate 7 (.cfg 2)) = true := by
    decide +kernel
  obtain ⟨s, hs, hp⟩ := reach_of_runTest hrun
  obtain ⟨hm, hdr, htx⟩ := of_decide_eq_true hp
  refine ⟨s, hm, hdr, htx, usart_transmits (hs.mono ?_)⟩
  intro s a hok
  cases a with
  | cfg t =>
      exact of_decide_eq_true
        (p := ∀ x ∈ s.storesCr1 t, s.awaits x.1 = true → has cr1Txeie x.2 = true) hok
  | _ => trivial

end Chopstx.Usart
