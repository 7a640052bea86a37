import Csptp.Message.Object

/-! # What the decoder reads and writes

`netToCpuTlv` stays inside the size it is given, a TLV that it accepts is at least a header and at
most that size, and so the loop of `parse` stays inside the message. The subtraction
`messageLength - 44` before the loop is the one that nothing guards: `parse_safe_iff` says that the
decoder is safe exactly when it does not wrap. -/
namespace Csptp
open Octets Octets.Prog
set_option autoImplicit false

/-! ## One TLV -/

section OneTlv
variable {S : ℕ → Prop} {p : ℕ}

theorem within_netToCpuTs (h : ∀ a, p ≤ a → a < p + 10 → S a) : Within S (netToCpuTs p) :=
  ((within_swapAt fun a _ _ => h a (by omega) (by omega)).bind fun _ =>
    (within_swapAt fun a _ _ => h a (by omega) (by omega)).bind fun _ => within_pure _).bind fun _ =>
    (within_swapAt fun a _ _ => h a (by omega) (by omega)).bind fun _ => within_pure _

theorem within_netToCpuAltTime {len : ℕ} (h : ∀ a, p ≤ a → a < p + 20 → S a) :
    Within S (netToCpuAltTime p len 20) := by
  refine (within_load fun a _ _ => h a (by omega) (by omega)).bind fun nameLen => ?_
  refine Within.ite (fun _ => within_pure _) fun _ => ?_
  refine (within_swapAt fun a _ _ => h a (by omega) (by omega)).bind fun _ => ?_
  refine (within_swapAt fun a _ _ => h a (by omega) (by omega)).bind fun _ => ?_
  refine Within.bind ?_ fun _ => within_pure _
  exact (within_swapAt fun a _ _ => h a (by omega) (by omega)).bind fun _ =>
    (within_swapAt fun a _ _ => h a (by omega) (by omega)).bind fun _ => within_pure _

theorem within_netToCpuResponse {len : ℕ} (h : ∀ a, p ≤ a → a < p + 28 → S a) :
    Within S (netToCpuResponse p len 28) := by
  refine Within.ite (fun _ => within_pure _) fun _ => ?_
  refine (within_netToCpuTs fun a _ _ => h a (by omega) (by omega)).bind fun _ => ?_
  exact (within_swapAt fun a _ _ => h a (by omega) (by omega)).bind fun _ => within_pure _

theorem within_netToCpuStatus {len : ℕ} (h : ∀ a, p ≤ a → a < p + 32 → S a) :
    Within S (netToCpuStatus p len 32) := by
  refine (within_load fun a _ _ => h a (by omega) (by omega)).bind fun _ => ?_
  refine (within_load fun a _ _ => h a (by omega) (by omega)).bind fun _ => ?_
  refine Within.ite (fun _ => within_pure _) fun _ => ?_
  refine Within.ite (fun _ => within_pure _) fun _ => ?_
  refine (within_store fun a _ _ => h a (by omega) (by omega)).bind fun _ => ?_
  refine (within_store fun a _ _ => h a (by omega) (by omega)).bind fun _ => ?_
  refine (within_swapAt fun a _ _ => h a (by omega) (by omega)).bind fun _ => ?_
  refine (within_swapAt fun a _ _ => h a (by omega) (by omega)).bind fun _ => ?_
  exact (within_swapAt fun a _ _ => h a (by omega) (by omega)).bind fun _ => within_pure _

/-- The switch reads fixed fields only, which the minimum size covers. -/
theorem within_netToCpuBody {id : TlvTypeId} {len : ℕ}
    (h : ∀ a, p ≤ a → a < p + minTlvSize id → S a) :
    Within S (netToCpuBody id p len (minTlvSize id)) := by
  cases id with
  | invalidTlvId => exact within_pure _
  | alternateTimeOffsetIndicator => exact within_netToCpuAltTime h
  | csptpRequest => exact within_pure _
  | csptpResponse => exact within_netToCpuResponse h
  | csptpStatus => exact within_netToCpuStatus h
  | pad => exact within_pure _

theorem within_netToCpuTlv {size : ℕ} (hsize : tlvHdr < size)
    (h : ∀ a, p ≤ a → a < p + size → S a) : Within S (netToCpuTlv p size) := by
  rw [tlvHdr] at hsize
  refine (within_swapAt fun a _ _ => h a (by omega) (by omega)).bind fun tlvType => ?_
  refine (within_swapAt fun a _ _ => h a (by omega) (by omega)).bind fun lengthField => ?_
  refine Within.ite (fun _ => within_pure _) fun _ => ?_
  refine Within.ite (fun _ => within_pure _) fun hmin => ?_
  refine Within.ite (fun _ => within_pure _) fun hmax => ?_
  exact (within_netToCpuBody fun a _ _ => h a (by omega) (by omega)).bind fun _ => within_pure _

end OneTlv

theorem tlvHdr_le_minTlvSize {id : TlvTypeId} (h : minTlvSize id ≠ 0) : tlvHdr ≤ minTlvSize id := by
  cases id <;> simp_all [minTlvSize, tlvHdr, csptpReq]

/-- An accepted TLV is at least as long as its type asks, and at most the size left. -/
theorem netToCpuTlv_len {p size : ℕ} {m : Mem}
    (h : ((netToCpuTlv p size).run m).1.1 ≠ .invalidTlvId) :
    minTlvSize ((netToCpuTlv p size).run m).1.1 ≤ ((netToCpuTlv p size).run m).1.2 ∧
      tlvHdr ≤ ((netToCpuTlv p size).run m).1.2 ∧ ((netToCpuTlv p size).run m).1.2 ≤ size := by
  simp only [netToCpuTlv, run_bind, run_ite, run_pure] at h ⊢
  split_ifs at h ⊢ with h0 h1 h2 h3
  · exact absurd rfl h
  · exact absurd rfl h
  · exact absurd rfl h
  · have hmin := tlvHdr_le_minTlvSize h0
    dsimp only
    exact ⟨by omega, by omega, by omega⟩
  · exact absurd rfl h

/-! ## The TLV loop -/

/-- The records lie one behind the other from offset `a` to offset `b`, each with the fields of its
type. -/
def Tiles : List TlvRec → ℕ → ℕ → Prop
  | [], a, b => a = b
  | r :: rs, a, b => r.tlv = a ∧ minTlvSize r.id ≤ r.len ∧ Tiles rs (a + r.len) b

theorem Tiles.append {rs : List TlvRec} {a b : ℕ} {r : TlvRec} (h : Tiles rs a b) (ht : r.tlv = b)
    (hl : minTlvSize r.id ≤ r.len) : Tiles (rs ++ [r]) a (b + r.len) := by
  induction rs generalizing a with
  | nil =>
    have hab : a = b := h
    subst hab
    exact ⟨ht, hl, rfl⟩
  | cons x rs ih => exact ⟨h.1, h.2.1, ih h.2.2⟩

theorem Tiles.le {rs : List TlvRec} {a b : ℕ} (h : Tiles rs a b) : a ≤ b := by
  induction rs generalizing a with
  | nil => exact le_of_eq h
  | cons x rs ih =>
    have := ih h.2.2
    omega

theorem Tiles.mem {rs : List TlvRec} {a b : ℕ} (h : Tiles rs a b) {r : TlvRec} (hr : r ∈ rs) :
    a ≤ r.tlv ∧ r.tlv + r.len ≤ b ∧ minTlvSize r.id ≤ r.len := by
  induction rs generalizing a with
  | nil => exact absurd hr List.not_mem_nil
  | cons x rs ih =>
    obtain ⟨hx, hmin, hrest⟩ := h
    rcases List.mem_cons.mp hr with rfl | hr
    · exact ⟨hx.ge, hx ▸ hrest.le, hmin⟩
    · have := ih hrest hr
      omega

theorem Tiles.covers {rs : List TlvRec} {a b x : ℕ} (h : Tiles rs a b) (ha : a ≤ x) (hb : x < b) :
    ∃ r ∈ rs, r.tlv ≤ x ∧ x < r.tlv + r.len := by
  induction rs generalizing a with
  | nil =>
    have hab : a = b := h
    omega
  | cons r rs ih =>
    obtain ⟨rfl, -, hrest⟩ := h
    by_cases hx : x < r.tlv + r.len
    · exact ⟨r, List.mem_cons_self, ha, hx⟩
    · obtain ⟨y, hy, hin⟩ := ih hrest (Nat.le_of_not_lt hx)
      exact ⟨y, List.mem_cons_of_mem _ hy, hin⟩

/-- The loop touches only the `size` octets from its pointer on, never subtracts below zero, keeps
the records contiguous and accounts for every octet. -/
theorem parseTlvs_spec {S : ℕ → Prop} (k p size : ℕ) {a : ℕ} (tlvs : List TlvRec) (m : Mem)
    (hS : ∀ x, p ≤ x → x < p + size → S x) (hsize : size < 2 ^ 64) (ht : Tiles tlvs a p) :
    Safe S (parseTlvs k p size tlvs) m ∧
      ∃ q rest, (((parseTlvs k p size tlvs).run m).1.2 = (q, rest)) ∧ q + rest = p + size ∧
        Tiles ((parseTlvs k p size tlvs).run m).1.1 a q ∧
        ((parseTlvs k p size tlvs).run m).1.1.length ≤ tlvs.length + k := by
  induction k generalizing p size tlvs m with
  | zero => exact ⟨safe_pure _ _, p, size, rfl, rfl, ht, le_refl _⟩
  | succ k ih =>
    rw [parseTlvs]
    by_cases hgt : size > tlvHdr
    · rw [if_pos hgt]
      simp only [safe_bind, run_bind]
      have hsafe := within_netToCpuTlv hgt hS m
      by_cases hid : ((netToCpuTlv p size).run m).1.1 = .invalidTlvId
      · simp only [hid, if_true, run_pure]
        exact ⟨⟨hsafe, safe_pure _ _⟩, p, size, rfl, rfl, ht, by omega⟩
      · simp only [hid, if_false]
        obtain ⟨hmin, hlo, hhi⟩ := netToCpuTlv_len hid
        set len := ((netToCpuTlv p size).run m).1.2 with hlen
        set m' := ((netToCpuTlv p size).run m).2 with hm'
        have hrec := ht.append (r := ⟨p, len, ((netToCpuTlv p size).run m).1.1⟩) rfl hmin
        have hnext := ih (p + len) (size - len) _ m' (fun x _ _ => hS x (by omega) (by omega))
          (by omega) hrec
        simp only [safe_bind, run_bind, run_subSize hhi hsize]
        obtain ⟨hs, q, rest, hq, hsum, htiles, hcount⟩ := hnext
        refine ⟨⟨hsafe, safe_subSize.mpr hhi, hs⟩, q, rest, hq, by omega, htiles, ?_⟩
        rw [List.length_append, List.length_singleton] at hcount
        omega
    · rw [if_neg hgt]
      exact ⟨safe_pure _ _, p, size, rfl, rfl, ht, by simp⟩

/-! ## The whole decoder -/

section Header
variable {S : ℕ → Prop} (h : ∀ a, a < msgSize → S a)
include h

theorem within_netToCpuMsg : Within S netToCpuMsg := by
  unfold msgSize at h
  refine (within_swapAt fun a _ _ => h a (by omega)).bind fun _ => ?_
  refine (within_swapAt fun a _ _ => h a (by omega)).bind fun _ => ?_
  refine (within_swapAt fun a _ _ => h a (by omega)).bind fun _ => ?_
  exact (within_netToCpuTs fun a _ _ => h a (by omega)).bind fun _ => within_pure _

theorem within_parseHeader : Within S parseHeader := by
  unfold msgSize at h
  refine (within_load fun a _ _ => h a (by omega)).bind fun first => ?_
  split
  · exact within_pure _
  refine (within_load fun a _ _ => h a (by omega)).bind fun _ => ?_
  refine Within.ite (fun _ => within_pure _) fun _ => ?_
  refine (within_load fun a _ _ => h a (by omega)).bind fun _ => ?_
  refine Within.ite (fun _ => within_pure _) fun _ => ?_
  refine (within_load fun a _ _ => h a (by omega)).bind fun _ => ?_
  refine Within.ite (fun _ => within_pure _) fun _ => ?_
  refine (within_load fun a _ _ => h a (by omega)).bind fun _ => ?_
  refine Within.ite (fun _ => within_pure _) fun _ => ?_
  refine (within_loadOctets fun a _ _ => h a (by omega)).bind fun _ => ?_
  refine (within_load fun a _ _ => h a (by omega)).bind fun _ => ?_
  refine Within.ite (fun _ => within_pure _) fun _ => ?_
  refine (within_load fun a _ _ => h a (by omega)).bind fun _ => ?_
  refine Within.ite (fun _ => within_pure _) fun _ => ?_
  refine (within_load fun a _ _ => h a (by omega)).bind fun _ => ?_
  refine Within.ite (fun _ => within_pure _) fun _ => ?_
  refine (within_load fun a _ _ => h a (by omega)).bind fun _ => ?_
  exact Within.ite (fun _ => within_pure _) fun _ => within_pure _

theorem within_parseParams (type : MessageType) : Within S (parseParams type) := by
  unfold msgSize at h
  refine (within_load fun a _ _ => h a (by omega)).bind fun _ => ?_
  refine (within_load fun a _ _ => h a (by omega)).bind fun _ => ?_
  refine (within_load fun a _ _ => h a (by omega)).bind fun _ => ?_
  refine (within_load fun a _ _ => h a (by omega)).bind fun _ => ?_
  refine (within_load fun a _ _ => h a (by omega)).bind fun _ => ?_
  refine Within.bind ?_ fun _ => within_pure _
  refine Within.bind ?_ fun _ => (within_load fun a _ _ => h a (by omega)).bind fun _ => within_pure _
  refine (within_load fun a _ _ => h a (by omega)).bind fun _ => ?_
  exact (within_load fun a _ _ => h a (by omega)).bind fun _ => within_pure _

end Header

/-- The `messageLength` field of a received message. -/
def messageLength (m : Mem) : ℕ := (m 2).toNat * 256 + (m 3).toNat

theorem messageLength_lt (m : Mem) : messageLength m < 2 ^ 16 := by
  have h2 := (m 2).isLt
  have h3 := (m 3).isLt
  unfold messageLength
  omega

theorem netToCpuMsg_result (m : Mem) : (netToCpuMsg.run m).1 = messageLength m := by
  have hr : region m 2 (16 / 8) = [m 2, m 3] := rfl
  have hw : swap (ofOctets 16 [m 2, m 3]) = ofOctets 16 [m 3, m 2] := by
    have ho : octets (ofOctets 16 [m 2, m 3]) = [m 2, m 3] := octets_ofOctets _ rfl
    rw [swap, ho]
    rfl
  have hv : (ofOctets 16 [m 3, m 2]).toNat = messageLength m := by
    rw [ofOctets, BitVec.toNat_ofNat, Nat.mod_eq_of_lt (by simpa using leVal_lt [m 3, m 2])]
    simp only [leVal, messageLength]
    omega
  simp only [netToCpuMsg, run_bind, run_pure, run_swapAt (w := 16) rfl, hr, hw, hv]

theorem safe_parseMsg {len : ℕ} (bufSize : ℕ) {m : Mem} (h : msgSize ≤ len → msgSize ≤ messageLength m) :
    Safe (fun o => o < len) (parseMsg len bufSize) m := by
  rw [parseMsg]
  split_ifs with h1 h2
  · exact safe_pure _ _
  · exact safe_pure _ _
  have hhdr : ∀ a, a < msgSize → a < len := fun a ha => by omega
  simp only [safe_bind, netToCpuMsg_result]
  refine ⟨within_netToCpuMsg hhdr m, ?_⟩
  split_ifs with h3
  · exact safe_pure _ _
  have hge : msgSize ≤ messageLength m := h (by omega)
  have hlt := messageLength_lt m
  simp only [safe_bind, run_subSize hge (by omega), safe_subSize]
  refine ⟨hge, within_parseHeader hhdr _, ?_⟩
  cases (parseHeader.run (netToCpuMsg.run m).2).1 with
  | none => exact safe_pure _ _
  | some type =>
    simp only [safe_bind]
    refine ⟨?_, within_parseParams hhdr _ _, safe_pure _ _⟩
    exact (parseTlvs_spec (a := msgSize) maxTlvs _ _ [] _ (fun x _ _ => by omega) (by omega) rfl).1

/-- The shape of the object that the decoder leaves when it accepts such a message. -/
theorem parseMsg_layout {len bufSize : ℕ} {m : Mem} {self : PtpMsg} {params : PtpParams}
    (h : msgSize ≤ messageLength m) (hr : ((parseMsg len bufSize).run m).1 = some (self, params)) :
    msgSize ≤ len ∧ len ≤ bufSize ∧ self.len = messageLength m ∧ messageLength m ≤ len ∧
      self.attached = true ∧ self.type = some params.type ∧ self.tlvs.length ≤ maxTlvs ∧
      ∃ q, self.endPtr = some q ∧ Tiles self.tlvs msgSize q ∧ q ≤ messageLength m ∧
        self.left = (bufSize - q) % 2 ^ 64 := by
  simp only [parseMsg, run_ite, run_pure, run_bind, netToCpuMsg_result,
    run_subSize h (show messageLength m < 2 ^ 64 by have := messageLength_lt m; omega)] at hr
  split_ifs at hr with h1 h2 h3
  cases hh : (parseHeader.run (netToCpuMsg.run m).2).1 with
  | none => rw [hh] at hr; exact absurd hr (by simp)
  | some type =>
    rw [hh] at hr
    simp only [run_bind, run_pure, Option.some.injEq, Prod.mk.injEq] at hr
    obtain ⟨hself, hparams⟩ := hr
    have hlt := messageLength_lt m
    obtain ⟨-, q, rest, hq, hsum, htiles, hcount⟩ := parseTlvs_spec (S := fun _ => True) (a := msgSize)
      maxTlvs msgSize (messageLength m - msgSize) [] (parseHeader.run (netToCpuMsg.run m).2).2
      (fun _ _ _ => trivial) (by omega) rfl
    have htype : params.type = type := by
      rw [← hparams]
      simp only [parseParams, run_bind, run_pure]
    rw [hq] at hself
    rw [← hself, htype]
    refine ⟨by omega, by omega, rfl, by omega, rfl, rfl, by simpa using hcount, q, rfl, htiles,
      by omega, ?_⟩
    dsimp only
    congr 1
    omega

/-- What the decoder is asked to keep to on a buffer: accesses inside the received data, no wrapping
subtraction, and recorded TLVs inside a message that lies inside the data. -/
def ParserSafe (self : PtpMsg) (params : PtpParams) (b : Buf) : Prop :=
  Safe (fun o => o < b.len) (parseMsg b.len b.size) b.mem ∧
    ((self.parse params b).ok = true →
      (self.parse params b).self.len = messageLength b.mem ∧ messageLength b.mem ≤ b.len ∧
        ∀ r ∈ (self.parse params b).self.tlvs, msgSize ≤ r.tlv ∧ r.tlv + r.len ≤ messageLength b.mem)

/-- A message length below the header makes the subtraction wrap. -/
theorem not_safe_parseMsg {len bufSize : ℕ} {m : Mem} (hlen : len ≤ bufSize) (hmin : msgSize ≤ len)
    (h : messageLength m < msgSize) : ¬ Safe (fun o => o < len) (parseMsg len bufSize) m := by
  intro hs
  rw [parseMsg, if_neg (by omega), if_neg (by omega), safe_bind, netToCpuMsg_result,
    if_neg (by omega), safe_bind, safe_subSize] at hs
  omega

/-- The decoder keeps to its bounds exactly when the received data is too short to be decoded or its
`messageLength` covers the header. -/
theorem parse_safe_iff (self : PtpMsg) (params : PtpParams) (b : Buf) :
    ParserSafe self params b ↔ (msgSize ≤ b.len → msgSize ≤ messageLength b.mem) := by
  constructor
  · intro h hlen
    by_contra hlt
    exact not_safe_parseMsg b.len_le hlen (by omega) h.1
  · intro h
    refine ⟨safe_parseMsg _ h, fun hok => ?_⟩
    cases hr : ((parseMsg b.len b.size).run b.mem).1 with
    | none => simp [PtpMsg.parse_of_none _ _ hr] at hok
    | some r =>
      have hlen : msgSize ≤ b.len := by
        by_contra hshort
        rw [parseMsg, if_neg (by have := b.len_le; omega), if_pos (by omega)] at hr
        exact absurd hr (by simp)
      obtain ⟨-, -, hself, hle, -, -, -, q, -, htiles, hq, -⟩ := parseMsg_layout (h hlen) hr
      rw [PtpMsg.parse_of_some _ _ hr]
      refine ⟨hself, hle, fun t ht => ?_⟩
      have hmem := htiles.mem ht
      exact ⟨hmem.1, by omega⟩

/-- A Sync header whose `messageLength` is 43, alone in its buffer. -/
def shortMessage : Buf where
  mem := blit (fun _ => 0) 0 [0x30, 0x12, 0, 43, 0, 0, 4, 0, 0, 0, 0, 0, 0, 0, 0, 0, 0, 0, 0, 0, 0, 0,
    0, 0, 0, 0, 0, 0, 0, 0, 0, 0, 0, 0x7f, 0, 0, 0, 0, 0, 0, 0, 0, 0, 0]
  size := 44
  len := 44
  len_le := le_refl _
  size_lt := by norm_num

/-- The decoder wraps on it and touches the octet behind the buffer. -/
theorem shortMessage_unsafe :
    ¬ ParserSafe .detach .zero shortMessage ∧
      (parseMsg shortMessage.len shortMessage.size).Touches shortMessage.mem 44 := by
  refine ⟨fun h => ?_, by unfold Touches; decide +kernel⟩
  exact not_safe_parseMsg (le_refl _) (by decide) (by decide +kernel) h.1

end Csptp
