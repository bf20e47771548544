import Chopstx.Section.Edit

/-!
# The events of a call of `chopstx_poll`

What the rest of the system does to a call of `chopstx_poll` is to let events happen: a proxy
of the call is taken out of its queue, the counter of the call goes up by one, and the
descriptor of the proxy is reported ready.  `Fires` says that nothing else happens.

* `Op.Foreign` - a move that is none of the call's own code.
* `Move.fires`, `Path.fires` - such a move is at most one event, and a sequence of them is `Fires`.
* `Path.ready_eq` - the report of a descriptor stays unless one of its proxies is reached.
* `fireProxy_ready`, `Move.px_of` - an event writes the report of the proxy, and a proxy keeps the
  call and the descriptor that it belongs to.
-/

namespace Chopstx

open Kernel

/-- The move is none of the call's own code. -/
def Op.Foreign (n : Nat) : Op → Prop
  | .count c => c ≠ n
  | .proxy p | .link p _ | .unlink p => p.call ≠ n
  | _ => True

/-- Events have happened to the proxies of the call `n` with the indices in `F`, and nothing
else to the call. -/
structure Fires (n : Nat) (F : List Nat) (k k' : Kernel) : Prop where
  nodup : F.Nodup
  linked : ∀ i ∈ F, ∃ q, .proxy ⟨n, i⟩ ∈ k.queue q
  queue : ∀ i q, .proxy ⟨n, i⟩ ∈ k'.queue q ↔ .proxy ⟨n, i⟩ ∈ k.queue q ∧ i ∉ F
  counter : k'.counter n = k.counter n + F.length
  px : ∀ i, k'.px ⟨n, i⟩ = k.px ⟨n, i⟩
  reports : ∀ i ∈ F, ∀ d, (k.px ⟨n, i⟩).readyP = some d → k'.ready d = true

variable {cfg : Config} {k k' k₁ : Kernel} {off off' : Option Tid} {op : Op} {P : Op → Prop}
  {n i : Nat} {F G : List Nat}

namespace Fires

theorem of_eq (hq : ∀ i q, .proxy ⟨n, i⟩ ∈ k'.queue q ↔ .proxy ⟨n, i⟩ ∈ k.queue q)
    (hc : k'.counter n = k.counter n) (hp : ∀ i, k'.px ⟨n, i⟩ = k.px ⟨n, i⟩) :
    Fires n [] k k' :=
  ⟨List.nodup_nil, by simp, fun i q => by simp [hq], hc, hp, by simp⟩

theorem refl : Fires n [] k k := .of_eq (fun _ _ => Iff.rfl) rfl fun _ => rfl

/-- What is reported stays so, as long as nobody clears it. -/
theorem trans (h : Fires n F k k₁) (h' : Fires n G k₁ k')
    (hr : F = [] ∨ ∀ d, k₁.ready d = true → k'.ready d = true) : Fires n (F ++ G) k k' := by
  refine ⟨?_, fun i hi => ?_, fun i q => ?_, ?_, fun i => (h'.px i).trans (h.px i), ?_⟩
  · refine List.nodup_append.2 ⟨h.nodup, h'.nodup, ?_⟩
    rintro i hi j hj rfl
    obtain ⟨q, hq⟩ := h'.linked i hj
    exact ((h.queue i q).1 hq).2 hi
  · rcases List.mem_append.1 hi with hi | hi
    · exact h.linked i hi
    · obtain ⟨q, hq⟩ := h'.linked i hi
      exact ⟨q, ((h.queue i q).1 hq).1⟩
  · rw [h'.queue, h.queue, List.mem_append]
    tauto
  · rw [h'.counter, h.counter, List.length_append, Nat.add_assoc]
  · intro i hi d hd
    rcases List.mem_append.1 hi with hi | hi
    · rcases hr with rfl | hr
      · cases hi
      · exact hr d (h.reports i hi d hd)
    · exact h'.reports i hi d (by rw [h.px, hd])

/-- A counter only goes up. -/
theorem counter_le (h : Fires n F k k') : k.counter n ≤ k'.counter n := by
  rw [h.counter]
  exact Nat.le_add_right ..

/-- A proxy that has left its queue has got an event. -/
theorem counter_pos (h : Fires n F k k') {q : Qh} (hm : .proxy ⟨n, i⟩ ∈ k.queue q)
    (hn : .proxy ⟨n, i⟩ ∉ k'.queue q) : 0 < k'.counter n := by
  have hi : i ∈ F := by
    by_contra hi
    exact hn ((h.queue i q).2 ⟨hm, hi⟩)
  have hpos := List.length_pos_of_mem hi
  rw [h.counter]
  omega

end Fires

/-! ## Moves and paths -/

theorem fireProxy_ready {p : PxId} {d : PdId} (hd : k.ready d = true) :
    (k.fireProxy p).ready d = true := by
  rw [fireProxy]
  cases (k.px p).readyP with
  | none => exact hd
  | some d' =>
      by_cases hdd : d = d'
      · subst hdd
        exact Function.update_self ..
      · exact (Function.update_of_ne hdd ..).trans hd

/-- **A move of others** is at most one event of the call. -/
theorem Move.fires (hm : Move cfg op (off, k) (off', k')) (h : KernelInv off k)
    (hop : op.Foreign n) (hn : n < k.ncall) :
    ∃ F, Fires n F k k' ∧ ∀ i ∈ F, op = .fire ⟨n, i⟩ := by
  by_cases hf : ∃ i, op = .fire ⟨n, i⟩
  · obtain ⟨i, rfl⟩ := hf
    cases hm with
    | fire hmem =>
        refine ⟨[i], ⟨List.nodup_singleton i, ?_, fun j q => ?_, ?_, fun j => rfl, ?_⟩, ?_⟩
        · rintro j hj
          cases List.mem_singleton.1 hj
          exact ⟨_, hmem⟩
        · change _ ∈ (k.queue q).filter _ ↔ _
          simp
        · exact Function.update_self ..
        · rintro j hj d hd
          cases List.mem_singleton.1 hj
          simp only [fireProxy, llDequeue_px, hd]
          exact Function.update_self ..
        · rintro j hj
          rw [List.mem_singleton.1 hj]
  · refine ⟨[], .of_eq (fun i q => ?_) ?_ fun i => ?_, by simp⟩
    · refine hm.mem_proxy h ?_ ?_ (fun hfi => hf ⟨i, hfi⟩) q
      · rintro q rfl
        exact hop rfl
      · rintro rfl
        exact hop rfl
    · by_cases ho : op.KeepsObjects
      · exact congrArg (fun o : Objects => o.counter n) (hm.objects h ho)
      · cases hm with
        | aux masked counter ncall mem hle hc => exact hc n hn
        | count c => exact Function.update_of_ne (Ne.symm hop) ..
        | fire hmem =>
            rename_i p q
            refine Function.update_of_ne ?_ ..
            rintro rfl
            exact hf ⟨p.idx, rfl⟩
        | acquire | drop | create | proxy | link | ready | enable | disable => rfl
        | _ => exact absurd trivial ho
    · by_cases ho : op.KeepsObjects
      · exact congrArg (fun o : Objects => o.px ⟨n, i⟩) (hm.objects h ho)
      · cases hm with
        | proxy f =>
            refine Function.update_of_ne ?_ ..
            rintro rfl
            exact hop rfl
        | link hq =>
            refine Function.update_of_ne ?_ ..
            rintro rfl
            exact hop rfl
        | aux | count | acquire | drop | create | fire | ready | enable | disable => rfl
        | _ => exact absurd trivial ho

/-- Nothing that is reported is cleared. -/
theorem Move.ready_of (hm : Move cfg op (off, k) (off', k')) (h : KernelInv off k)
    (hop : ∀ d b, op ≠ .ready d b) (d : PdId) (hd : k.ready d = true) : k'.ready d = true := by
  by_cases ho : op.KeepsObjects
  · exact (congrArg (fun o : Objects => o.ready d) (hm.objects h ho)).trans hd
  · cases hm with
    | ready => exact absurd rfl (hop _ _)
    | fire hmem => exact fireProxy_ready hd
    | aux | count | acquire | drop | create | proxy | link | enable | disable => exact hd
    | _ => exact absurd trivial ho

/-- **What others do to a call**: they let events happen. -/
theorem Path.fires (hp : Path cfg P (off, k) (off', k')) (h : KernelInv off k)
    (hP : ∀ op, P op → op.Foreign n) (hn : n < k.ncall)
    (hr : (∀ p, ¬ P (.fire p)) ∨ ∀ d b, ¬ P (.ready d b)) :
    ∃ F, Fires n F k k' ∧ ∀ i ∈ F, P (.fire ⟨n, i⟩) := by
  have key := hp.keeps (I := fun a => KernelInv a.1 a.2 ∧ n < a.2.ncall ∧
    ∃ F, Fires n F k a.2 ∧ ∀ i ∈ F, P (.fire ⟨n, i⟩)) ?_ ⟨h, hn, [], .refl, by simp⟩
  · exact key.2.2
  · rintro op ⟨off, k₁⟩ ⟨off', k₂⟩ hop hm ⟨hk, hn, F, hF, hPF⟩
    obtain ⟨G, hG, hPG⟩ := hm.fires hk (hP op hop) hn
    refine ⟨hk.move hm, hn.trans_le (hm.ncall_le hk), F ++ G, hF.trans hG ?_, fun i hi => ?_⟩
    · rcases hr with hno | hno
      · refine .inl (List.eq_nil_iff_forall_not_mem.2 fun i hi => hno _ (hPF i hi))
      · exact .inr (hm.ready_of hk fun d b ho => hno d b (ho ▸ hop))
    · rcases List.mem_append.1 hi with hi | hi
      · exact hPF i hi
      · exact hPG i hi ▸ hop

/-! ## The field `ready` of a descriptor -/

/-- A move that neither writes the field nor lets an event happen leaves it alone. -/
theorem Move.ready_eq (hm : Move cfg op (off, k) (off', k')) (h : KernelInv off k) {d : PdId}
    (hop : ∀ b, op ≠ .ready d b)
    (hf : ∀ p, op = .fire p → (k.px p).readyP ≠ some d) : k'.ready d = k.ready d := by
  by_cases ho : op.KeepsObjects
  · exact congrArg (fun o : Objects => o.ready d) (hm.objects h ho)
  · cases hm with
    | ready =>
        rename_i d' b
        refine Function.update_of_ne ?_ ..
        rintro rfl
        exact hop b rfl
    | fire hmem =>
        rename_i p q
        have hne := hf p rfl
        simp only [fireProxy, llDequeue_px]
        cases hd : (k.px p).readyP with
        | none => rfl
        | some d' =>
            refine Function.update_of_ne ?_ ..
            rintro rfl
            exact hne hd
    | aux | count | acquire | drop | create | proxy | link | enable | disable => rfl
    | _ => exact absurd trivial ho

/-- A move that is none of proxies links no proxy. -/
theorem Move.px_of (hm : Move cfg op (off, k) (off', k')) (h : KernelInv off k) {p : PxId}
    (hop : op ≠ .proxy p ∧ ∀ q, op ≠ .link p q) :
    (k'.px p).readyP = (k.px p).readyP ∧
      ∀ q, .proxy p ∈ k'.queue q → .proxy p ∈ k.queue q := by
  refine ⟨?_, fun q hq => ?_⟩
  · by_cases ho : op.KeepsObjects
    · exact congrArg (fun o : Objects => (o.px p).readyP) (hm.objects h ho)
    · cases hm with
      | proxy f =>
          refine congrArg Px.readyP (Function.update_of_ne ?_ ..)
          rintro rfl
          exact hop.1 rfl
      | link hq =>
          rename_i p' q
          refine congrArg Px.readyP (Function.update_of_ne ?_ ..)
          rintro rfl
          exact hop.2 q rfl
      | aux | count | acquire | drop | create | fire | ready | enable | disable => rfl
      | _ => exact absurd trivial ho
  · by_cases hu : op = .unlink p
    · subst hu
      cases hm with
      | unlink => exact List.mem_of_mem_filter hq
    · by_cases hf : op = .fire p
      · subst hf
        cases hm with
        | fire => exact List.mem_of_mem_filter hq
      · rwa [hm.mem_proxy h hop.2 hu hf] at hq

/-- **The field of a descriptor stays as it is** if nobody writes it, and no event happens, or every
proxy that reports to it, and is linked, stays linked. -/
theorem Path.ready_eq (hp : Path cfg P (off, k) (off', k')) (h : KernelInv off k) {d : PdId}
    (hr : ∀ b, ¬ P (.ready d b))
    (hf : (∀ p, ¬ P (.fire p)) ∨ (∀ p, ¬ P (.proxy p) ∧ ∀ q, ¬ P (.link p q)) ∧
      ∀ p q, .proxy p ∈ k.queue q → (k.px p).readyP = some d → ∃ q, .proxy p ∈ k'.queue q) :
    k'.ready d = k.ready d := by
  rcases hf with hf | ⟨hf, hd⟩
  · have key := hp.keeps (I := fun a => KernelInv a.1 a.2 ∧ a.2.ready d = k.ready d) ?_ ⟨h, rfl⟩
    · exact key.2
    · rintro op ⟨off, k₁⟩ ⟨off', k₂⟩ hop hm ⟨hk, heq⟩
      refine ⟨hk.move hm, (hm.ready_eq hk (fun b hb => hr b (hb ▸ hop)) fun p hp => ?_).trans heq⟩
      exact absurd (hp ▸ hop) (hf p)
  · have key := hp.keeps (I := fun a => KernelInv a.1 a.2 ∧
      (∀ p q, .proxy p ∈ a.2.queue q → .proxy p ∈ k.queue q) ∧
      (∀ p, (a.2.px p).readyP = (k.px p).readyP) ∧
      (a.2.ready d = k.ready d ∨ ∃ p q, .proxy p ∈ k.queue q ∧ (k.px p).readyP = some d ∧
        ∀ q, .proxy p ∉ a.2.queue q)) ?_ ⟨h, fun _ _ => id, fun _ => rfl, .inl rfl⟩
    · obtain ⟨-, -, -, heq | ⟨p, q, hm, hpd, hn⟩⟩ := key
      · exact heq
      · obtain ⟨q', hq'⟩ := hd p q hm hpd
        exact absurd hq' (hn q')
    · rintro op ⟨off, k₁⟩ ⟨off', k₂⟩ hop hm ⟨hk, hsub, hpx, hcase⟩
      have hpxs : ∀ p, op ≠ .proxy p ∧ ∀ q, op ≠ .link p q := fun p =>
        ⟨fun ho => (hf p).1 (ho ▸ hop), fun q ho => (hf p).2 q (ho ▸ hop)⟩
      refine ⟨hk.move hm, fun p q hq => hsub p q ((hm.px_of hk (hpxs p)).2 q hq),
        fun p => (hm.px_of hk (hpxs p)).1.trans (hpx p), ?_⟩
      rcases hcase with heq | ⟨p, q, hp, hpd, hn⟩
      · by_cases hfp : ∃ p, op = .fire p ∧ (k₁.px p).readyP = some d
        · obtain ⟨p, rfl, hpd⟩ := hfp
          cases hm with
          | fire hmem =>
              refine .inr ⟨p, _, hsub p _ hmem, (hpx p).symm.trans hpd, fun q hq => ?_⟩
              simpa using (List.mem_filter.1 hq).2
        · refine .inl ((hm.ready_eq hk (fun b hb => hr b (hb ▸ hop)) fun p ho hpd => ?_).trans heq)
          exact hfp ⟨p, ho, hpd⟩
      · exact .inr ⟨p, q, hp, hpd, fun q' hq' => hn q' ((hm.px_of hk (hpxs p)).2 q' hq')⟩

end Chopstx
