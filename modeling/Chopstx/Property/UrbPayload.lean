import Chopstx.Property.StalledEndpoint

/-!
# The bytes of an URB are the bytes of its packets

Each `usbip_ep_ready` moves one packet for the URB that the endpoint is at.  Between its
submission and its reply an URB for a data endpoint has packets of 64 bytes each, and then a last
one: for the direction OUT they are the data that the client has sent, cut up, and for the
direction IN they make up the data of the reply.  (The direction is a word that the client sends.
What is neither OUT nor IN is moved as for IN, but its data are not sent.)  The log of a run keeps
the submissions, the packets and the replies in their order, whatever other URBs there are in
between.

* `Seen`, `shows` - what a step adds to the log.
* `Carries` - the packets of an URB so far, and `Carries.moves` one packet more.
* `Delivers`, `Honest` - what a reply says of the packets before it, and that all of a log do.
* `usbipEpReady_moves`, `usbipHandleUrb_new` - the functions of the server.
* `Tracks`, `step` - the invariant of the URBs in the list, and its step lemma.
* `replies_honest` - the result about runs, and `replies_honest_seventy` a reply of 70 bytes.
-/

namespace Chopstx.Usb.Usbip.Server

open Transition Memory

/-! ## What a run shows -/

/-- A submission, a packet for an URB, or a reply. -/
inductive Seen where
  | submitted (n : Nat) (x : Submit)
  | packet (n : Nat) (bs : List Byte)
  | replied (r : Reply)
  deriving DecidableEq, Repr

namespace State

variable (s : State)

/-- The packet that the endpoint moves for the URB, if there is room for it -/
def packet (e : Bool × Nat) (n : Nat) : Option (List Byte) :=
  let c := s.endp e
  let u := s.urb n
  if u.dir = dirOut then
    if c.len < u.count then none else some (u.data.read ⟨(), u.dataP⟩ u.count)
  else some (s.mem.read c.buf (if c.len > u.count then u.count else c.len))

/-- The submission or the packet of a step -/
def moved : Event → List Seen
  | .submit x _ => [.submitted s.nurb x]
  | .ready e =>
      match (s.endp e).urb with
      | none => []
      | some n => ((s.packet e n).map (Seen.packet n)).toList
  | _ => []

/-- The replies of a step -/
def replied (ev : Event) : List Seen :=
  match step s ev with
  | .ok s' => (s'.sent.drop s.sent.length).map Seen.replied
  | .error _ => []

/-- What a step shows -/
def shows (ev : Event) : List Seen := s.moved ev ++ s.replied ev

end State

/-- The packet, where it is one of the URB -/
def Seen.packetOf (n : Nat) : Seen → Option (List Byte)
  | .packet m bs => if m = n then some bs else none
  | _ => none

/-- The packets of an URB in the log -/
def packetsOf (n : Nat) (log : List Seen) : List (List Byte) := log.filterMap (Seen.packetOf n)

/-! ## One packet -/

/-- The data that the client has sent with a submission, as the server keeps them -/
def Submit.memory (x : Submit) : Memory Unit Byte := fun _ i => (x.data.getD []).getD i 0

/-- An URB that waits, after the packets `ps`: all of them were full. -/
structure Carries (x : Submit) (cmd : MsgCmd) (ps : List (List Byte)) (u : Urb) : Prop where
  seq : u.seq = x.seq
  dir : u.dir = cmd.dir
  len : u.len = cmd.len
  size : cmd.len.toNat ≤ urbDataSize
  pos : u.dataP = ps.flatten.length
  left : u.dataP + u.remain.toNat = cmd.len.toNat
  full : ∀ bs ∈ ps, bs.length = 64
  outData : cmd.dir = dirOut → u.data = x.memory ∧ ps.flatten = u.data.read ⟨(), 0⟩ u.dataP
  inData : cmd.dir ≠ dirOut → u.data.read ⟨(), 0⟩ u.dataP = ps.flatten

/-- What the reply to an URB says of its packets `ps`. -/
structure Delivers (x : Submit) (cmd : MsgCmd) (ps : List (List Byte)) (st : Int)
    (len : BitVec 32) (data : List Byte) : Prop where
  full : ∀ bs ∈ ps.dropLast, bs.length = 64
  size : ∀ bs ∈ ps, bs.length ≤ 64
  outData : cmd.dir = dirOut → st = 0 → ps.flatten = x.memory.read ⟨(), 0⟩ cmd.len.toNat
  inLen : cmd.dir ≠ dirOut → st = 0 ∧ len.toNat = ps.flatten.length ∧
    ps.flatten.length ≤ cmd.len.toNat
  inData : cmd.dir = dirIn → data = ps.flatten
  noData : cmd.dir ≠ dirIn → data = []

section

variable {s s' : State} {e : Bool × Nat} {n m : Nat} {x : Submit} {cmd : MsgCmd} {u : Urb}
  {ps : List (List Byte)} {bs : List Byte}

theorem dirOut_ne_dirIn : dirOut ≠ dirIn := by decide

theorem Urb.count_le (u : Urb) : u.count ≤ 64 := by
  rw [Urb.count]
  split <;> omega

theorem Urb.count_le_remain (u : Urb) : u.count ≤ u.remain.toNat := by
  rw [Urb.count]
  split <;> omega

/-- The URB after a packet of `k` bytes -/
def Urb.after (u : Urb) (k : Nat) : Urb :=
  { u with dataP := u.dataP + k, remain := u.remain - BitVec.ofNat 16 k }

theorem Urb.after_left {k : Nat} (u : Urb) (hk : k ≤ u.remain.toNat) :
    (u.after k).remain.toNat = u.remain.toNat - k := by
  have hlt := u.remain.isLt
  have hn : (BitVec.ofNat 16 k).toNat = k := Nat.mod_eq_of_lt (by omega)
  rw [Urb.after, BitVec.toNat_sub_of_le (by rw [BitVec.le_def, hn]; exact hk), hn]

/-- What one packet does. -/
structure Moves (s : State) (e : Bool × Nat) (n : Nat) (r : Int) (s₁ : State) : Prop where
  others : ∀ m, m ≠ n → s₁.urb m = s.urb m
  sent : s₁.sent = s.sent
  noRoom : s.packet e n = none → (s.urb n).dir = dirOut ∧ r = epipe ∧ s₁.urb n = s.urb n
  out : ∀ bs, s.packet e n = some bs → (s.urb n).dir = dirOut →
    bs = (s.urb n).data.read ⟨(), (s.urb n).dataP⟩ (s.urb n).count ∧
      s₁.urb n = (s.urb n).after (s.urb n).count ∧
      r = if (s₁.urb n).remain = 0 ∨ (s.urb n).count < 64 then 0 else 1
  inn : ∀ bs, s.packet e n = some bs → (s.urb n).dir ≠ dirOut →
    bs.length ≤ (s.urb n).count ∧ ∃ u, u = { (s.urb n).after bs.length with
        data := (s.urb n).data.write ⟨(), (s.urb n).dataP⟩ bs } ∧
      ((u.remain = 0 ∨ bs.length < 64) ∧ r = 0 ∧
          s₁.urb n = { u with len := u.len - u.remain.setWidth 32 } ∨
        ¬ (u.remain = 0 ∨ bs.length < 64) ∧ r = 1 ∧ s₁.urb n = u)

theorem setUrb_self : (s.setUrb n u).urb n = u := Function.update_self ..

theorem setUrb_other (h : m ≠ n) : (s.setUrb n u).urb m = s.urb m := Function.update_of_ne h ..

theorem hcHandleDataUrb_packet :
    Moves s e n (s.hcHandleDataUrb e n).1 (s.hcHandleDataUrb e n).2 := by
  have hcount : (if (s.urb n).remain.toNat > 64 then 64 else (s.urb n).remain.toNat) =
      (s.urb n).count := rfl
  rw [State.hcHandleDataUrb]
  simp only [hcount]
  by_cases hdir : (s.urb n).dir = dirOut
  · rw [if_pos hdir, State.writeDataTransaction]
    dsimp only
    by_cases hroom : (s.endp e).len < (s.urb n).count
    · have hnone : s.packet e n = none := by
        rw [State.packet]
        simp only [if_pos hdir, if_pos hroom]
      rw [if_pos hroom]
      dsimp only
      rw [if_pos (by decide)]
      refine ⟨fun m _ => ?_, ?_, fun _ => ⟨hdir, rfl, ?_⟩, fun bs hbs => ?_, fun bs hbs => ?_⟩
      · rw [State.setEndp_urb]
      · rw [State.setEndp_sent]
      · rw [State.setEndp_urb]
      · rw [hnone] at hbs
        cases hbs
      · rw [hnone] at hbs
        cases hbs
    · have hsome : s.packet e n =
          some ((s.urb n).data.read ⟨(), (s.urb n).dataP⟩ (s.urb n).count) := by
        rw [State.packet]
        simp only [if_pos hdir, if_neg hroom]
      rw [if_neg hroom]
      dsimp only
      rw [if_neg (by omega)]
      refine ⟨fun m hm => ?_, ?_, fun hno => ?_, fun bs hbs _ => ⟨?_, ?_, ?_⟩, fun bs _ hin => ?_⟩
      · exact (setUrb_other hm).trans (by simp)
      · exact State.setEndp_sent
      · rw [hsome] at hno
        cases hno
      · rw [hsome] at hbs
        exact (Option.some.inj hbs).symm
      · exact setUrb_self
      · rw [setUrb_self]
      · exact absurd hdir hin
  · have hsome : s.packet e n = some (s.mem.read (s.endp e).buf
        (if (s.endp e).len > (s.urb n).count then (s.urb n).count else (s.endp e).len)) := by
      rw [State.packet]
      simp only [if_neg hdir]
    rw [if_neg hdir, State.readDataTransaction]
    dsimp only
    generalize hk : (if (s.endp e).len > (s.urb n).count then (s.urb n).count
      else (s.endp e).len) = k at hsome
    have hle : k ≤ (s.urb n).count := by
      rw [← hk]
      split <;> omega
    rw [if_neg (by omega)]
    have hlen : (s.mem.read (s.endp e).buf k).length = k := length_read
    generalize s.mem.read (s.endp e).buf k = bs at hsome hlen
    subst hlen
    simp only [State.setUrb, Function.update_self, Int.toNat_natCast, BitVec.ofInt_natCast,
      Nat.cast_lt_ofNat]
    have hinn : ∀ {r : Int} {s₁ : State}, (∀ m, m ≠ n → s₁.urb m = s.urb m) → s₁.sent = s.sent →
        (∃ u, u = { (s.urb n).after bs.length with
            data := (s.urb n).data.write ⟨(), (s.urb n).dataP⟩ bs } ∧
          ((u.remain = 0 ∨ bs.length < 64) ∧ r = 0 ∧
              s₁.urb n = { u with len := u.len - u.remain.setWidth 32 } ∨
            ¬ (u.remain = 0 ∨ bs.length < 64) ∧ r = 1 ∧ s₁.urb n = u)) → Moves s e n r s₁ := by
      intro r s₁ hothers hsent hu
      refine ⟨hothers, hsent, fun hno => ?_, fun _ _ hout => absurd hout hdir, fun bs' hbs _ => ?_⟩
      · rw [hsome] at hno
        cases hno
      · obtain rfl := Option.some.inj (hsome.symm.trans hbs)
        exact ⟨hle, hu⟩
    split
    · rename_i hlast
      refine hinn (fun m hm => ?_) State.setEndp_sent ⟨_, rfl, .inl ⟨hlast, rfl, ?_⟩⟩
      · simp [Function.update_of_ne hm]
      · exact Function.update_self ..
    · rename_i hmore
      refine hinn (fun m hm => ?_) State.setEndp_sent ⟨_, rfl, .inr ⟨hmore, rfl, ?_⟩⟩
      · simp [Function.update_of_ne hm]
      · exact Function.update_self ..

/-! ## The packets of an URB that waits -/

theorem ptr_add (n : Nat) : (⟨(), n⟩ : Ptr Unit) = (⟨(), 0⟩ : Ptr Unit).add n := by
  rw [Ptr.add, Nat.zero_add]

theorem flatten_concat : (ps ++ [bs]).flatten = ps.flatten ++ bs := by
  rw [List.flatten_append, List.flatten_singleton]

theorem length_eq_concat {k : Nat} (h : ∀ b ∈ ps, b.length = k) (hbs : bs.length = k) :
    ∀ b ∈ ps ++ [bs], b.length = k := by
  intro b hb
  rcases List.mem_append.1 hb with hb | hb
  · exact h b hb
  · rw [List.mem_singleton.1 hb, hbs]

namespace Carries

theorem new (hsize : cmd.len.toNat ≤ urbDataSize) :
    Carries x cmd [] (State.newUrb x.seq cmd x.setup x.data) := by
  have hlt : cmd.len.toNat < 2 ^ 16 := hsize.trans_lt (by decide)
  refine ⟨rfl, rfl, rfl, hsize, rfl, ?_, fun _ hbs => ?_, fun _ => ⟨rfl, rfl⟩, fun _ => rfl⟩
  · show 0 + (cmd.len.setWidth 16).toNat = cmd.len.toNat
    rw [BitVec.toNat_setWidth, Nat.mod_eq_of_lt hlt, Nat.zero_add]
  · cases hbs

/-- Where the last packet does not need 64 bytes, the sizes are right. -/
theorem sizes (h : Carries x cmd ps u) (hbs : bs.length ≤ 64) :
    (∀ b ∈ (ps ++ [bs]).dropLast, b.length = 64) ∧ ∀ b ∈ ps ++ [bs], b.length ≤ 64 := by
  rw [List.dropLast_concat]
  refine ⟨h.full, fun b hb => ?_⟩
  rcases List.mem_append.1 hb with hb | hb
  · exact (h.full b hb).le
  · rw [List.mem_singleton.1 hb]
    exact hbs

/-- The device has no room for a packet. -/
theorem refused (h : Carries x cmd ps u) (hdir : cmd.dir = dirOut) {st : Int} (hst : st ≠ 0)
    {len : BitVec 32} : Delivers x cmd ps st len [] where
  full b hb := h.full b (List.mem_of_mem_dropLast hb)
  size b hb := (h.full b hb).le
  outData _ h := absurd h hst
  inLen hin := absurd hdir hin
  inData hin := absurd (hdir.symm.trans hin) dirOut_ne_dirIn
  noData _ := rfl

/-- The bytes of the packets so far, with one more -/
theorem out_flatten (h : Carries x cmd ps u) (hdir : cmd.dir = dirOut)
    (hbs : bs = u.data.read ⟨(), u.dataP⟩ u.count) :
    (ps ++ [bs]).flatten = x.memory.read ⟨(), 0⟩ (u.dataP + u.count) := by
  obtain ⟨hdata, hflat⟩ := h.outData hdir
  rw [flatten_concat, hflat, hbs, ptr_add u.dataP, ← read_add, hdata]

theorem out (h : Carries x cmd ps u) (hdir : cmd.dir = dirOut)
    (hbs : bs = u.data.read ⟨(), u.dataP⟩ u.count)
    (hmore : ¬ ((u.after u.count).remain = 0 ∨ u.count < 64)) :
    Carries x cmd (ps ++ [bs]) (u.after u.count) := by
  rw [not_or, not_lt] at hmore
  have hcount : u.count = 64 := le_antisymm u.count_le hmore.2
  have hlen : bs.length = u.count := by rw [hbs, length_read]
  have hflat := h.out_flatten hdir hbs
  have hleft := u.after_left u.count_le_remain
  have hrem := u.count_le_remain
  have hsum := h.left
  refine ⟨h.seq, h.dir, h.len, h.size, ?_, ?_, length_eq_concat h.full (hlen.trans hcount),
    fun _ => ⟨(h.outData hdir).1, ?_⟩, fun hin => absurd hdir hin⟩
  · rw [hflat, length_read]
    rfl
  · rw [hleft]
    show u.dataP + u.count + _ = _
    omega
  · rw [hflat, ← (h.outData hdir).1]
    rfl

/-- The last packet to the device -/
theorem out_last (h : Carries x cmd ps u) (hdir : cmd.dir = dirOut)
    (hbs : bs = u.data.read ⟨(), u.dataP⟩ u.count)
    (hlast : (u.after u.count).remain = 0 ∨ u.count < 64) {len : BitVec 32} :
    Delivers x cmd (ps ++ [bs]) 0 len [] := by
  have hlen : bs.length = u.count := by rw [hbs, length_read]
  have hsizes := h.sizes (hlen.trans_le u.count_le)
  refine ⟨hsizes.1, hsizes.2, fun _ _ => ?_, fun hin => absurd hdir hin,
    fun hin => absurd (hdir.symm.trans hin) dirOut_ne_dirIn, fun _ => rfl⟩
  have hall : u.count = u.remain.toNat := by
    rcases hlast with hzero | hlt
    · have hleft := u.after_left u.count_le_remain
      rw [hzero] at hleft
      have hz : (0 : BitVec 16).toNat = 0 := rfl
      have hle := u.count_le_remain
      omega
    · rw [Urb.count] at hlt ⊢
      split at hlt
      · omega
      · rename_i hle
        rw [if_neg hle]
  rw [h.out_flatten hdir hbs, hall, h.left]

/-- The bytes that have been read, with one packet more -/
theorem in_flatten (h : Carries x cmd ps u) (hdir : cmd.dir ≠ dirOut) :
    (u.data.write ⟨(), u.dataP⟩ bs).read ⟨(), 0⟩ (u.dataP + bs.length) = (ps ++ [bs]).flatten := by
  rw [ptr_add u.dataP, read_write_append, h.inData hdir, flatten_concat]

theorem inn (h : Carries x cmd ps u) (hdir : cmd.dir ≠ dirOut) (hle : bs.length ≤ u.count)
    (hmore : ¬ ((u.after bs.length).remain = 0 ∨ bs.length < 64)) :
    Carries x cmd (ps ++ [bs])
      { u.after bs.length with data := u.data.write ⟨(), u.dataP⟩ bs } := by
  rw [not_or, not_lt] at hmore
  have hcount : bs.length = 64 := le_antisymm (hle.trans u.count_le) hmore.2
  have hrem := hle.trans u.count_le_remain
  have hleft := u.after_left hrem
  have hsum := h.left
  refine ⟨h.seq, h.dir, h.len, h.size, ?_, ?_, length_eq_concat h.full hcount,
    fun hout => absurd hout hdir, fun _ => h.in_flatten hdir⟩
  · rw [flatten_concat, List.length_append, ← h.pos]
    rfl
  · show u.dataP + bs.length + (u.after bs.length).remain.toNat = _
    omega

/-- The last packet from the device -/
theorem in_last (h : Carries x cmd ps u) (hdir : cmd.dir ≠ dirOut) (hle : bs.length ≤ u.count)
    {data : List Byte} (hin : cmd.dir = dirIn → data =
      (u.data.write ⟨(), u.dataP⟩ bs).read ⟨(), 0⟩
        (u.len - (u.after bs.length).remain.setWidth 32).toNat)
    (hno : cmd.dir ≠ dirIn → data = []) :
    Delivers x cmd (ps ++ [bs]) 0 (u.len - (u.after bs.length).remain.setWidth 32) data := by
  have hsizes := h.sizes (hle.trans u.count_le)
  have hrem := hle.trans u.count_le_remain
  have hleft := u.after_left hrem
  have hsum := h.left
  have hlen : (u.len - (u.after bs.length).remain.setWidth 32).toNat = u.dataP + bs.length := by
    have hset : ((u.after bs.length).remain.setWidth 32).toNat = u.remain.toNat - bs.length := by
      rw [BitVec.toNat_setWidth, hleft]
      have hlt := u.remain.isLt
      exact Nat.mod_eq_of_lt (by omega)
    rw [BitVec.toNat_sub_of_le, h.len, hset]
    · omega
    · rw [BitVec.le_def, hset, h.len]
      omega
  have hflat : (ps ++ [bs]).flatten.length = u.dataP + bs.length := by
    rw [← h.in_flatten hdir, length_read]
  refine ⟨hsizes.1, hsizes.2, fun hout => absurd hout hdir, fun _ => ⟨rfl, ?_, ?_⟩, fun hd => ?_,
    hno⟩
  · rw [hlen, hflat]
  · rw [hflat]
    omega
  · rw [hin hd, hlen, h.in_flatten hdir]

end Carries

/-! ## The steps -/

theorem Moves.congr {t s₁ : State} {r : Int} (h : Moves t e n r s₁) (hurb : t.urb = s.urb)
    (hsent : t.sent = s.sent) (hpacket : t.packet e n = s.packet e n) : Moves s e n r s₁ := by
  obtain ⟨h₁, h₂, h₃, h₄, h₅⟩ := h
  rw [hurb, hpacket] at *
  exact ⟨h₁, h₂.trans hsent, h₃, h₄, h₅⟩

/-- The data of the reply to an URB that is finished -/
def Urb.dataOf (u : Urb) : List Byte :=
  if u.dir = dirIn ∧ u.len ≠ 0 then u.data.read ⟨(), 0⟩ u.len.toNat else []

theorem Urb.dataOf_other (h : u.dir ≠ dirIn) : u.dataOf = [] := if_neg fun hu => h hu.1

/-- No data are sent where there are none. -/
theorem Urb.dataOf_in (h : u.dir = dirIn) : u.dataOf = u.data.read ⟨(), 0⟩ u.len.toNat := by
  rw [Urb.dataOf]
  split
  · rfl
  · rename_i hno
    have hlen : u.len = 0 := not_not.1 fun hne => hno ⟨h, hne⟩
    rw [hlen]
    rfl

/-- The reply -/
def Urb.reply (u : Urb) (n : Nat) (r : Int) : Reply :=
  .finish n u.seq (if r < 0 then r else 0) u.len u.dataOf

/-- **`usbip_ep_ready`**: nothing happens, or a packet is moved for the URB that the endpoint is
at, and it is finished or not. -/
theorem usbipEpReady_moves (hs : s.usbipEpReady e = .ok s') :
    ((s.endp e).urb = none ∧ s' = s) ∨
      ∃ n r s₁, (s.endp e).urb = some n ∧ Moves s e n r s₁ ∧ s'.urb = s₁.urb ∧
        s'.sent = s.sent ++ if r ≤ 0 then [(s₁.urb n).reply n r] else [] := by
  rw [State.usbipEpReady] at hs
  split at hs
  · rename_i hnone
    cases hs
    exact .inl ⟨hnone, rfl⟩
  · rename_i n hn
    split at hs
    · cases hs
    · have hmoves := (hcHandleDataUrb_packet (e := e) (n := n)
        (s := s.setEndp e { s.endp e with eventfd := 0 })).congr (s := s) State.setEndp_urb
          State.setEndp_sent (by rw [State.packet, State.packet]; simp)
      simp only at hs
      generalize (s.setEndp e { s.endp e with eventfd := 0 }).hcHandleDataUrb e n = res at hs hmoves
      obtain ⟨r, s₁⟩ := res
      refine .inr ⟨n, r, s₁, hn, hmoves, ?_⟩
      simp only at hs
      split at hs
      · rename_i hr
        split at hs
        · cases hs
        · cases hs
          rw [if_pos hr]
          refine ⟨State.setEndp_urb, State.setEndp_sent.trans ?_⟩
          rw [← hmoves.sent]
          rfl
      · rename_i hr
        cases hs
        rw [if_neg hr, List.append_nil]
        exact ⟨rfl, hmoves.sent⟩

/-- **`usbip_handle_urb`**: the new URB is put into the list as it has been received, the command
fails, or it is one for endpoint 0. -/
theorem usbipHandleUrb_new {a : Answer} (hx : x.cmd = some cmd)
    (hs : s.usbipHandleUrb x a = .ok s') :
    cmd.len.toNat ≤ urbDataSize ∧
      ((s'.sent = s.sent ∧ s'.urb s.nurb = State.newUrb x.seq cmd x.setup x.data) ∨
        (∃ seq st, s'.sent = s.sent ++ [.fail s.nurb seq st]) ∨
        (cmd.ep = 0 ∧ ∃ seq st len data,
          s'.sent = s.sent ++ [.finish s.nurb seq st len data])) := by
  rw [State.usbipHandleUrb, hx] at hs
  simp only at hs
  split at hs
  · cases hs
  · rename_i hsize
    refine ⟨not_lt.1 hsize, ?_⟩
    have hsent : (s.linkUrb.setUrb s.nurb (State.newUrb x.seq cmd x.setup x.data)).sent = s.sent :=
      State.linkUrb_sent
    have hnew : (s.linkUrb.setUrb s.nurb (State.newUrb x.seq cmd x.setup x.data)).urb s.nurb =
        State.newUrb x.seq cmd x.setup x.data := setUrb_self
    generalize s.linkUrb.setUrb s.nurb (State.newUrb x.seq cmd x.setup x.data) = s₁ at hs hsent hnew
    have hleave : ∀ r, (s₁.leave s.nurb r).sent =
        s.sent ++ [.fail s.nurb (s₁.urb s.nurb).seq r] := by
      intro r
      rw [← hsent]
      rfl
    split at hs
    · cases hs
      exact .inr (.inl ⟨_, _, hleave _⟩)
    · split at hs
      · cases hs
        exact .inr (.inl ⟨_, _, hleave _⟩)
      · split at hs
        · rename_i hep
          cases hs
          obtain ⟨len, data, hfin⟩ := usbipFinishUrb_sent (n := s.nurb) (r := a.r)
            (s := s₁.setUrb s.nurb { s₁.urb s.nurb with len := a.len, data := a.data })
          exact .inr (.inr ⟨hep, _, _, _, _, hfin.trans (congrArg (· ++ [_]) hsent)⟩)
        · obtain ⟨⟨r, s₂⟩, hres, rfl⟩ := map_ok hs
          rw [State.usbipHandleDataUrb] at hres
          split at hres
          · cases hres
          · split at hres
            · cases hres
              exact .inr (.inl ⟨_, _, hleave _⟩)
            · cases hres
              exact .inr (.inl ⟨_, _, hleave _⟩)
            · cases hres
              refine .inl ?_
              split
              · exact ⟨State.setEndp_sent.trans hsent, by rw [if_pos rfl, State.setEndp_urb, hnew]⟩
              · exact ⟨hsent, hnew⟩
            · cases hres
              refine .inl ?_
              split
              · exact ⟨State.setEndp_sent.trans hsent, by rw [if_pos rfl, State.setEndp_urb, hnew]⟩
              · exact ⟨hsent, hnew⟩

/-- **One packet of an URB**: it finishes the URB, and the reply is an honest one, or the URB goes
on. -/
theorem Carries.moves {s₁ : State} {r : Int} (h : Carries x cmd ps (s.urb n))
    (hm : Moves s e n r s₁) (hb : s.packet e n = some bs) :
    (r ≤ 0 → (s₁.urb n).seq = x.seq ∧
        Delivers x cmd (ps ++ [bs]) (if r < 0 then r else 0) (s₁.urb n).len (s₁.urb n).dataOf) ∧
      (¬ r ≤ 0 → Carries x cmd (ps ++ [bs]) (s₁.urb n)) := by
  by_cases hdir : (s.urb n).dir = dirOut
  · obtain ⟨hbs, hu, hr⟩ := hm.out bs hb hdir
    have hdir' := h.dir.symm.trans hdir
    have hdata : (s₁.urb n).dataOf = [] := by
      rw [hu]
      exact Urb.dataOf_other fun hin => dirOut_ne_dirIn (hdir.symm.trans hin)
    rw [hdata, hr, hu]
    split
    · rename_i hlast
      exact ⟨fun _ => ⟨h.seq, h.out_last hdir' hbs hlast⟩, fun hno => absurd le_rfl hno⟩
    · rename_i hmore
      exact ⟨fun hle => absurd hle (by decide), fun _ => h.out hdir' hbs hmore⟩
  · have hdir' : cmd.dir ≠ dirOut := fun hout => hdir (h.dir.trans hout)
    obtain ⟨hle, u, rfl, ⟨-, rfl, hu⟩ | ⟨hmore, rfl, hu⟩⟩ := hm.inn bs hb hdir
    · refine ⟨fun _ => ?_, fun hno => absurd le_rfl hno⟩
      have hd : (s₁.urb n).dir = cmd.dir := by
        rw [hu]
        exact h.dir
      have hin : cmd.dir = dirIn → (s₁.urb n).dataOf =
          (s₁.urb n).data.read ⟨(), 0⟩ (s₁.urb n).len.toNat := fun hi => Urb.dataOf_in (hd.trans hi)
      have hno : cmd.dir ≠ dirIn → (s₁.urb n).dataOf = [] := fun hi =>
        Urb.dataOf_other fun h => hi (hd.symm.trans h)
      rw [hu] at hin hno ⊢
      exact ⟨h.seq, h.in_last hdir' hle hin hno⟩
    · refine ⟨fun hle => absurd hle (by decide), fun _ => ?_⟩
      rw [hu]
      exact h.inn hdir' hle hmore

/-! ## The log -/

variable {log : List Seen} {l : List Nat} {t : Seen} {ev : Event}

theorem packetsOf_concat : packetsOf n (log ++ [t]) = packetsOf n log ++ (t.packetOf n).toList := by
  rw [packetsOf, List.filterMap_append]
  cases h : t.packetOf n with
  | none => simp [h, packetsOf]
  | some bs => simp [h, packetsOf]

/-- Every reply to a finished URB for a data endpoint says what its packets were. -/
def Honest (log : List Seen) : Prop :=
  ∀ pre n seq st len data, pre ++ [.replied (.finish n seq st len data)] <+: log →
    ∀ x cmd, Seen.submitted n x ∈ pre → x.cmd = some cmd → cmd.ep ≠ 0 →
      seq = x.seq ∧ Delivers x cmd (packetsOf n pre) st len data

theorem Honest.nil : Honest [] := by
  intro pre n seq st len data hpre
  have hnil := List.prefix_nil.1 hpre
  simp at hnil

/-- One more entry, which is not such a reply or is an honest one -/
theorem Honest.concat (h : Honest log) (ht : ∀ n seq st len data,
    t = .replied (.finish n seq st len data) → ∀ x cmd, Seen.submitted n x ∈ log →
      x.cmd = some cmd → cmd.ep ≠ 0 → seq = x.seq ∧ Delivers x cmd (packetsOf n log) st len data) :
    Honest (log ++ [t]) := by
  intro pre n seq st len data hpre
  rcases List.prefix_concat_iff.1 hpre with heq | hle
  · obtain ⟨rfl, hlast⟩ := List.append_inj' heq rfl
    exact ht n seq st len data (List.head_eq_of_cons_eq hlast).symm
  · exact h pre n seq st len data hle

/-- The URBs that wait carry the packets of the log. -/
structure Tracks (log : List Seen) (s : State) : Prop where
  honest : Honest log
  submitted : ∀ n x, Seen.submitted n x ∈ log → n < s.nurb
  packets : ∀ n bs, Seen.packet n bs ∈ log → n < s.nurb
  waits : ∀ n ∈ s.urbs, ∀ x cmd, Seen.submitted n x ∈ log → x.cmd = some cmd →
    Carries x cmd (packetsOf n log) (s.urb n)

/-- The URBs that wait after a step waited before it, or one has just been submitted. -/
theorem urbs_step (h : Reach step anyEvent .init s) (hs : step s ev = .ok s') :
    s.nurb ≤ s'.nurb ∧ ∀ n ∈ s'.urbs, n < s.nurb ∧ n ∈ s.urbs ∨
      n = s.nurb ∧ s'.sent = s.sent ∧ ∃ x a, ev = .submit x a := by
  obtain ⟨l, hq⟩ := queued_of_reach h
  obtain ⟨l', ht⟩ := step_turned hq hs
  refine ⟨ht.nurb_le, ?_⟩
  rw [hq.listed.urbs_eq, ht.listed.urbs_eq]
  have hold : ∀ n ∈ l, n < s.nurb ∧ n ∈ l := fun n hn => ⟨hq.listed.lt n hn, hn⟩
  clear hs
  intro n hn
  cases ht.turn with
  | stay | answer => exact .inl (hold n hn)
  | queue hn' hep hnew hs =>
      rcases List.mem_cons.1 hn with rfl | hn
      · exact .inr ⟨rfl, hs, _, _, rfl⟩
      · exact .inl (hold n hn)
  | takeBack hl | finish hl =>
      subst hl
      exact .inl (hold n (((List.sublist_cons_self _ _).append_left _).subset hn))

theorem replied_eq {rs : List Reply} (hs : step s ev = .ok s') (hsent : s'.sent = s.sent ++ rs) :
    s.replied ev = rs.map Seen.replied := by
  rw [State.replied, hs]
  dsimp only
  rw [hsent, List.drop_left]

namespace Tracks

/-- The URBs that wait, and their records, are the same or fewer. -/
theorem mono (h : Tracks log s) (hn : s.nurb ≤ s'.nurb) (hmem : ∀ n ∈ s'.urbs, n ∈ s.urbs)
    (hurb : ∀ n ∈ s'.urbs, s'.urb n = s.urb n) : Tracks log s' where
  honest := h.honest
  submitted n x hx := (h.submitted n x hx).trans_le hn
  packets n bs hb := (h.packets n bs hb).trans_le hn
  waits n hm x cmd hx hcmd := by
    rw [hurb n hm]
    exact h.waits n (hmem n hm) x cmd hx hcmd

/-- A reply is sent, which is an honest one. -/
theorem reply (h : Tracks log s) {r : Reply} (hr : ∀ n seq st len data,
    r = .finish n seq st len data → ∀ x cmd, Seen.submitted n x ∈ log → x.cmd = some cmd →
      cmd.ep ≠ 0 → seq = x.seq ∧ Delivers x cmd (packetsOf n log) st len data) :
    Tracks (log ++ [.replied r]) s := by
  have hmem : ∀ t : Seen, t ∈ log ++ [.replied r] → t = .replied r ∨ t ∈ log := fun t ht =>
    (List.mem_append.1 ht).elim .inr fun ht => .inl (List.mem_singleton.1 ht)
  refine ⟨h.honest.concat ?_, fun n x hx => ?_, fun n bs hb => ?_, fun n hn x cmd hx hcmd => ?_⟩
  · intro n seq st len data heq
    exact hr n seq st len data (Seen.replied.inj heq)
  · rcases hmem _ hx with hx | hx
    · cases hx
    · exact h.submitted n x hx
  · rcases hmem _ hb with hb | hb
    · cases hb
    · exact h.packets n bs hb
  · rcases hmem _ hx with hx | hx
    · cases hx
    · rw [packetsOf_concat]
      exact (List.append_nil _).symm ▸ h.waits n hn x cmd hx hcmd

/-- A submission -/
theorem submit (h : Tracks log s) (hreach : Reach step anyEvent .init s) {a : Answer}
    (hs : step s (.submit x a) = .ok s') : Tracks (log ++ s.shows (.submit x a)) s' := by
  obtain ⟨cmd, hcmd, -⟩ := usbipHandleUrb_ok.1 ⟨s', hs⟩
  obtain ⟨l, hq⟩ := queued_of_reach hreach
  have hnew := (usbipHandleUrb_submitted hq.listed hcmd hs).1
  obtain ⟨hsize, hcases⟩ := usbipHandleUrb_new hcmd hs
  have hurbs := (urbs_step hreach hs).2
  -- the new number has not been in the log
  have hfresh : ∀ y, Seen.submitted s.nurb y ∈ log ++ [.submitted s.nurb x] → y = x := by
    intro y hy
    rcases List.mem_append.1 hy with hy | hy
    · exact absurd (h.submitted _ _ hy) (lt_irrefl _)
    · cases List.mem_singleton.1 hy
      rfl
  have hlog : ∀ n y, n < s.nurb → Seen.submitted n y ∈ log ++ [.submitted s.nurb x] →
      Seen.submitted n y ∈ log := by
    intro n y hn hy
    rcases List.mem_append.1 hy with hy | hy
    · exact hy
    · cases List.mem_singleton.1 hy
      exact absurd hn (lt_irrefl _)
  have hone : Tracks (log ++ [.submitted s.nurb x]) s' := by
    refine ⟨h.honest.concat ?_, fun n y hy => ?_, fun n bs hb => ?_, fun n hn y cmd' hy hcmd' => ?_⟩
    · rintro n seq st len data ⟨⟩
    · rw [hnew.nurb]
      rcases List.mem_append.1 hy with hy | hy
      · exact (h.submitted n y hy).trans (Nat.lt_succ_self _)
      · cases List.mem_singleton.1 hy
        exact Nat.lt_succ_self _
    · rw [hnew.nurb]
      rcases List.mem_append.1 hb with hb | hb
      · exact (h.packets n bs hb).trans (Nat.lt_succ_self _)
      · cases List.mem_singleton.1 hb
    · have hpk : packetsOf n (log ++ [.submitted s.nurb x]) = packetsOf n log := by
        rw [packetsOf_concat]
        exact List.append_nil _
      rw [hpk]
      rcases hurbs n hn with ⟨hlt, hmem⟩ | ⟨rfl, hsent, -⟩
      · rw [hnew.urb n hlt.ne]
        exact h.waits n hmem y cmd' (hlog n y hlt hy) hcmd'
      · obtain rfl := hfresh y hy
        obtain rfl : cmd = cmd' := Option.some.inj (hcmd.symm.trans hcmd')
        have hnil : packetsOf s.nurb log = [] := by
          rw [packetsOf, List.filterMap_eq_nil_iff]
          intro t ht
          cases t with
          | submitted | replied => rfl
          | packet m bs =>
              have hlt := h.packets m bs ht
              exact if_neg hlt.ne
        rw [hnil]
        rcases hcases with ⟨-, hurb⟩ | ⟨seq, st, hsent'⟩ | ⟨-, seq, st, len, data, hsent'⟩
        · rw [hurb]
          exact Carries.new hsize
        all_goals
          have hlen := congrArg List.length (hsent.symm.trans hsent')
          simp at hlen
  rw [State.shows, ← List.append_assoc]
  rcases hcases with ⟨hsent, -⟩ | ⟨seq, st, hsent⟩ | ⟨hep, seq, st, len, data, hsent⟩
  · rw [replied_eq hs (hsent.trans (List.append_nil _).symm)]
    exact (List.append_nil _).symm ▸ hone
  · rw [replied_eq hs hsent]
    refine hone.reply ?_
    rintro n seq' st' len data ⟨⟩
  · rw [replied_eq hs hsent]
    refine hone.reply ?_
    rintro n seq' st' len' data' ⟨⟩ y cmd' hy hcmd' hep'
    obtain rfl := hfresh y hy
    obtain rfl : cmd = cmd' := Option.some.inj (hcmd.symm.trans hcmd')
    exact absurd hep hep'

/-- A packet is moved for an URB that waits, which goes on waiting or not. -/
theorem packet (h : Tracks log s) (hn : n ∈ s.urbs) (hlt : n < s.nurb) (bs : List Byte)
    (hnurb : s.nurb ≤ s'.nurb) (hmem : ∀ m ∈ s'.urbs, m ∈ s.urbs)
    (hurb : ∀ m, m ≠ n → s'.urb m = s.urb m)
    (hcarries : n ∈ s'.urbs → ∀ x cmd, Seen.submitted n x ∈ log → x.cmd = some cmd →
      Carries x cmd (packetsOf n log ++ [bs]) (s'.urb n)) :
    Tracks (log ++ [.packet n bs]) s' := by
  have hsub : ∀ m y, Seen.submitted m y ∈ log ++ [.packet n bs] → Seen.submitted m y ∈ log := by
    intro m y hy
    rcases List.mem_append.1 hy with hy | hy
    · exact hy
    · cases List.mem_singleton.1 hy
  refine ⟨h.honest.concat ?_, fun m y hy => ?_, fun m cs hb => ?_, fun m hm y cmd hy hcmd => ?_⟩
  · rintro m seq st len data ⟨⟩
  · exact (h.submitted m y (hsub m y hy)).trans_le hnurb
  · rcases List.mem_append.1 hb with hb | hb
    · exact (h.packets m cs hb).trans_le hnurb
    · cases List.mem_singleton.1 hb
      exact hlt.trans_le hnurb
  · rw [packetsOf_concat]
    by_cases hmn : m = n
    · subst hmn
      have hone : (Seen.packetOf m (.packet m bs)).toList = [bs] := by
        rw [Seen.packetOf, if_pos rfl]
        rfl
      rw [hone]
      exact hcarries hm y cmd (hsub m y hy) hcmd
    · have hnone : (Seen.packetOf m (.packet n bs)).toList = [] := by
        rw [Seen.packetOf, if_neg fun h => hmn h.symm]
        rfl
      rw [hnone, List.append_nil, hurb m hmn]
      exact h.waits m (hmem m hm) y cmd (hsub m y hy) hcmd

/-- `usbip_ep_ready` -/
theorem ready (h : Tracks log s) (hreach : Reach step anyEvent .init s)
    (hs : step s (.ready e) = .ok s') : Tracks (log ++ s.shows (.ready e)) s' := by
  obtain ⟨hnurb, hurbs⟩ := urbs_step hreach hs
  have hmem : ∀ n ∈ s'.urbs, n ∈ s.urbs := by
    intro n hn
    rcases hurbs n hn with ⟨-, hold⟩ | ⟨-, -, x, a, hev⟩
    · exact hold
    · cases hev
  rcases usbipEpReady_moves hs with ⟨hnone, rfl⟩ | ⟨n, r, s₁, hn, hmoves, hurb, hsent⟩
  · have hshow : s'.shows (.ready e) = [] := by
      rw [State.shows, replied_eq hs (List.append_nil _).symm, State.moved]
      simp only [hnone]
      rfl
    rw [hshow, List.append_nil]
    exact h
  · obtain ⟨l, hq⟩ := queued_of_reach hreach
    have hwait : n ∈ s.urbs := hq.listed.urbs_eq ▸ (hq.current e n hn).1
    have hlt : n < s.nurb := hq.listed.lt n (hq.current e n hn).1
    have hothers : ∀ m, m ≠ n → s'.urb m = s.urb m := fun m hm => by
      rw [hurb, hmoves.others m hm]
    have hmoved : s.moved (.ready e) = ((s.packet e n).map (Seen.packet n)).toList := by
      rw [State.moved]
      simp only [hn]
    -- an URB that is finished waits no more
    have hgone : r ≤ 0 → n ∉ s'.urbs := by
      intro hr hn'
      have hnil := replies_waiting (hreach.tail _ trivial hs) n hn'
      rw [if_pos hr] at hsent
      rw [replies_concat hsent] at hnil
      simp [Urb.reply, Reply.answers] at hnil
    have hkept : ¬ r ≤ 0 → s'.urb n = s₁.urb n := fun _ => congrFun hurb n
    rw [State.shows, replied_eq hs hsent, hmoved]
    cases hb : s.packet e n with
    | none =>
        obtain ⟨hdir, rfl, hsame⟩ := hmoves.noRoom hb
        have hle : epipe ≤ 0 := by decide
        rw [if_pos hle]
        refine (h.mono hnurb hmem fun m hm => hothers m ?_).reply ?_
        · rintro rfl
          exact hgone hle hm
        · rintro m seq st len data ⟨⟩ x cmd hx hcmd -
          have hc := h.waits n hwait x cmd hx hcmd
          have hdata : (s₁.urb n).dataOf = [] := by
            rw [hsame]
            exact Urb.dataOf_other fun hin => dirOut_ne_dirIn (hdir.symm.trans hin)
          rw [hdata, hsame]
          exact ⟨hc.seq, hc.refused (hc.dir.symm.trans hdir) (by decide)⟩
    | some bs =>
        have hcarried : ∀ x cmd, Seen.submitted n x ∈ log → x.cmd = some cmd → _ :=
          fun x cmd hx hcmd => (h.waits n hwait x cmd hx hcmd).moves hmoves hb
        have hone : Tracks (log ++ [.packet n bs]) s' := by
          refine h.packet hwait hlt bs hnurb hmem hothers fun hn' x cmd hx hcmd => ?_
          have hr : ¬ r ≤ 0 := fun hr => hgone hr hn'
          rw [hkept hr]
          exact (hcarried x cmd hx hcmd).2 hr
        rw [← List.append_assoc]
        split
        · rename_i hr
          refine hone.reply ?_
          rintro m seq st len data ⟨⟩ x cmd hx hcmd -
          have hx' : Seen.submitted n x ∈ log := by
            rcases List.mem_append.1 hx with hx | hx
            · exact hx
            · cases List.mem_singleton.1 hx
          have hpk : packetsOf n (log ++ [.packet n bs]) = packetsOf n log ++ [bs] := by
            rw [packetsOf_concat, Seen.packetOf, if_pos rfl]
            rfl
          rw [hpk]
          exact (hcarried x cmd hx' hcmd).1 hr
        · exact (List.append_nil _).symm ▸ hone

/-- **Step lemma.** -/
theorem step (h : Tracks log s) (hreach : Reach Server.step anyEvent .init s)
    (hs : Server.step s ev = .ok s') : Tracks (log ++ s.shows ev) s' := by
  obtain ⟨hn, hurbs⟩ := urbs_step hreach hs
  cases ev with
  | submit x a => exact h.submit hreach hs
  | ready e => exact h.ready hreach hs
  | unlink seq flags =>
      obtain ⟨l, hq⟩ := queued_of_reach hreach
      obtain ⟨st, hsent, hurb⟩ : ∃ st, s'.sent = s.sent ++ [.unlink seq st] ∧ s'.urb = s.urb := by
        rcases usbipUnlinkUrb_cases hq.listed hs with rfl | ⟨p, q, n, s₁, -, -, hs₁, rfl⟩
        · exact ⟨0, rfl, rfl⟩
        · obtain ⟨hurb, -, -, -, hsent, -⟩ := unlinkUrbEp_spec hs₁
          exact ⟨econnreset, congrArg (· ++ [_]) hsent, hurb⟩
      rw [State.shows, replied_eq hs hsent]
      refine (h.reply ?_).mono hn (fun n hm => ?_) fun n _ => congrFun hurb n
      · rintro n seq' st' len data ⟨⟩
      · rcases hurbs n hm with ⟨-, hold⟩ | ⟨-, -, x, a, hev⟩
        · exact hold
        · cases hev
  | device e c M =>
      have hsent : s'.sent = s.sent ++ [] := by
        cases hs
        exact State.setEndp_sent.trans (List.append_nil _).symm
      have hurb : s'.urb = s.urb := by
        cases hs
        exact State.setEndp_urb
      rw [State.shows, replied_eq hs hsent]
      refine (List.append_nil log).symm ▸ h.mono hn (fun n hm => ?_) fun n _ => congrFun hurb n
      rcases hurbs n hm with ⟨-, hold⟩ | ⟨-, -, x, a, hev⟩
      · exact hold
      · cases hev

end Tracks

end

/-- **The replies are honest**: in every run, the reply that finishes an URB for a data endpoint is
the one to its submission, and its packets in between were of 64 bytes each but the last one.  For
the direction OUT they are the data of the submission, all of them if the status is 0.  For any
other direction the status is 0 and the length of the reply is theirs; the reply carries their
bytes for the direction IN, and no data for the others. -/
theorem replies_honest {s : State} {log : List Seen}
    (h : Logged step anyEvent State.shows .init log s) : Honest log := by
  have hstart : Tracks [] .init :=
    ⟨.nil, by simp, by simp, by simp⟩
  exact (h.keeps (P := Tracks) (I := fun s => Reach step anyEvent .init s) (fun _ hs => hs)
    (fun _ _ _ _ hr _ ht _ hs => ht.step hr hs) hstart).honest

/-- The device enables endpoint 1 IN with 70 bytes in its memory, and has sent a packet. -/
def fillIn1 (len : Nat) : Event :=
  .device (true, 1) ⟨1, .ready, ⟨.app, 0⟩, len⟩ fun _ i => BitVec.ofNat 8 i

/-- An URB of 100 bytes, for which the device has a full packet and one of 6 bytes. -/
theorem replies_honest_seventy : ∃ log : List Seen, Honest log ∧
    packetsOf 0 log = [(List.range 64).map (BitVec.ofNat 8), (List.range 6).map (BitVec.ofNat 8)] ∧
      log.getLast? = some (.replied (.finish 0 10 0 70
        ((List.range 64).map (BitVec.ofNat 8) ++ (List.range 6).map (BitVec.ofNat 8)))) := by
  have htest : logTest step (fun _ _ => true) State.shows
      (fun log _ => decide (packetsOf 0 log =
          [(List.range 64).map (BitVec.ofNat 8), (List.range 6).map (BitVec.ofNat 8)] ∧
        log.getLast? = some (.replied (.finish 0 10 0 70
          ((List.range 64).map (BitVec.ofNat 8) ++ (List.range 6).map (BitVec.ofNat 8)))))) []
      .init [fillIn1 64, .submit ⟨10, some ⟨1, 1, 1, 0, 100⟩, some (List.replicate 8 0), none⟩
        ⟨0, 0, fun _ _ => 0⟩, .ready (true, 1), fillIn1 6, .ready (true, 1)] = true := by
    decide +kernel
  obtain ⟨log, s, hrun, hlog⟩ := logged_of_logTest (.refl _) htest
  exact ⟨log, replies_honest (hrun.mono fun _ _ _ => trivial), of_decide_eq_true hlog⟩

end Chopstx.Usb.Usbip.Server
