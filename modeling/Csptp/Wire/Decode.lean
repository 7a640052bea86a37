import Csptp.Wire.Draft

/-! # Reading what was built

`parse_wire` says what `_parse` makes of a message whose octets are known: the parameters come back,
and the recorded TLVs are the ones that `recorded` keeps, now in host order. For any other message,
`parse_congr` says that nothing but the received octets matters. -/
namespace Csptp
open Octets Octets.Prog
set_option autoImplicit false

/-! ## The TLV loop on known octets -/

/-- The TLVs that the loop of `_parse` records with `k` free records. -/
def recorded : ℕ → List Tlv → List Tlv
  | 0, _ => []
  | _ + 1, [] => []
  | k + 1, t :: ts => if tlvsSize (t :: ts) > tlvHdr then t :: recorded k ts else []

theorem recorded_append {k : ℕ} {ts us : List Tlv} (hs : ∀ t ∈ ts, tlvHdr < t.size)
    (hk : ts.length ≤ k) : recorded k (ts ++ us) = ts ++ recorded (k - ts.length) us := by
  induction ts generalizing k with
  | nil => rfl
  | cons t ts ih =>
    obtain ⟨k, rfl⟩ : ∃ j, k = j + 1 := ⟨k - 1, by rw [List.length_cons] at hk; omega⟩
    have ht := hs t List.mem_cons_self
    rw [List.length_cons] at hk
    rw [List.cons_append, recorded, if_pos (by rw [tlvsSize_cons]; omega),
      ih (fun u hu => hs u (List.mem_cons_of_mem _ hu)) (by omega), List.length_cons,
      Nat.add_sub_add_right, List.cons_append]

theorem recorded_of_length_le_one {k : ℕ} {ts : List Tlv} (h : ts.length ≤ 1) :
    recorded k ts = [] ∨ recorded k ts = ts := by
  match k, ts with
  | 0, _ => exact .inl rfl
  | _ + 1, [] => exact .inl rfl
  | k + 1, [t] =>
    rw [recorded]
    split
    · right
      cases k <;> rfl
    · exact .inl rfl
  | _, _ :: _ :: _ => simp at h

theorem run_parseTlvs (k : ℕ) {p : ℕ} (acc : List TlvRec) {m : Mem} {ts : List Tlv}
    (h : Holds m p (tlvsOctets .net ts)) (hlt : tlvsSize ts < 2 ^ 64) :
    (parseTlvs k p (tlvsSize ts) acc).run m =
      ((acc ++ records p (recorded k ts), p + tlvsSize (recorded k ts),
        tlvsSize ts - tlvsSize (recorded k ts)), blit m p (tlvsOctets .host (recorded k ts))) := by
  induction k generalizing p acc m ts with
  | zero => simp [parseTlvs, recorded, records]
  | succ k ih =>
    cases ts with
    | nil => simp [parseTlvs, recorded, records, tlvHdr]
    | cons t ts =>
      rw [parseTlvs, recorded]
      by_cases hgt : tlvsSize (t :: ts) > tlvHdr
      · rw [tlvsOctets_cons, holds_append, Tlv.octets_length] at h
        rw [tlvsSize_cons] at hlt
        have hrest : Holds (blit m p (t.octets .host)) (p + t.size) (tlvsOctets .net ts) :=
          h.2.blit_of_disjoint (by rw [Tlv.octets_length]; omega)
        have hone := run_netToCpuTlv h.1 (Nat.le_add_right t.size (tlvsSize ts))
        have hsub : t.size + tlvsSize ts - t.size = tlvsSize ts := by omega
        rw [if_pos hgt, if_pos hgt]
        simp only [tlvsSize_cons, run_bind, hone, if_neg t.id_valid,
          run_subSize (Nat.le_add_right t.size (tlvsSize ts)) hlt, hsub, ih _ hrest (by omega)]
        rw [records, tlvsOctets_cons, ← blit_append, Tlv.octets_length, List.append_assoc,
          List.singleton_append, Nat.add_assoc, Nat.add_sub_add_left]
      · rw [if_neg hgt, if_neg hgt]
        simp [records]

/-! ## A whole message -/

section Message
variable {buf : Buf} {params : PtpParams} {c : Octet} {ts : List Tlv}

/-- What `_parse` returns and leaves on a message of known octets. -/
theorem parse_wire (self : PtpMsg) (prms : PtpParams) {len : ℕ}
    (h : Holds buf.mem 0 (headerOctets .net params c (BitVec.ofNat 16 len) ++ tlvsOctets .net ts))
    (hlen : len = 44 + tlvsSize ts) (hlt : len < 2 ^ 16) (hle : len ≤ buf.len)
    (hc : params.type.controlField = some c) (hf : params.flagField2.toNat < 64) :
    (self.parse prms buf).ok = true ∧ (self.parse prms buf).params = params ∧
      (self.parse prms buf).self.tlvs = records 44 (recorded maxTlvs ts) ∧
      Holds (self.parse prms buf).buf.mem 44 (tlvsOctets .host (recorded maxTlvs ts)) := by
  have hfits := buf.len_le
  obtain ⟨hhdr, hts⟩ := holds_append.mp h
  rw [headerOctets_length, Nat.zero_add] at hts
  have hmsg := run_netToCpuMsg hhdr
  rw [BitVec.toNat_ofNat, Nat.mod_eq_of_lt hlt] at hmsg
  set m := blit buf.mem 0 (headerOctets .host params c (BitVec.ofNat 16 len)) with hm
  have hhost : HeaderFields m .host params c (BitVec.ofNat 16 len) :=
    holds_headerOctets.mp (holds_blit _ _ _)
  have hts' : Holds m msgSize (tlvsOctets .net ts) :=
    hts.blit_of_disjoint (by rw [headerOctets_length]; omega)
  have hloop := run_parseTlvs maxTlvs [] hts' (by omega)
  have hsub : len - msgSize = tlvsSize ts := by rw [msgSize]; omega
  have hhost' : HeaderFields (blit m msgSize (tlvsOctets .host (recorded maxTlvs ts))) .host params c
      (BitVec.ofNat 16 len) := by
    rw [← holds_headerOctets]
    exact (holds_headerOctets.mpr hhost).blit_of_disjoint (by rw [headerOctets_length, msgSize]; omega)
  have hrun : (parseMsg buf.len buf.size).run buf.mem = (some (
      { attached := true, type := some params.type, len := len,
        endPtr := some (msgSize + tlvsSize (recorded maxTlvs ts)),
        left := (tlvsSize ts - tlvsSize (recorded maxTlvs ts) + buf.size - len) % 2 ^ 64,
        tlvs := records msgSize (recorded maxTlvs ts) }, params),
      blit m msgSize (tlvsOctets .host (recorded maxTlvs ts))) := by
    rw [parseMsg, if_neg (by omega), if_neg (by rw [msgSize]; omega)]
    simp only [run_bind, hmsg, if_neg (show ¬ len > buf.len by omega),
      run_subSize (show msgSize ≤ len by rw [msgSize]; omega) (show len < 2 ^ 64 by omega), hsub,
      run_parseHeader hhost hc hf, hloop, run_parseParams hhost', run_pure, List.nil_append]
  have hparse := PtpMsg.parse_of_some self prms (congrArg Prod.fst hrun)
  rw [hparse, hrun]
  exact ⟨rfl, rfl, rfl, holds_blit _ _ _⟩

/-- The octets of a finished message are a header and TLVs, the last of them perhaps a PAD. -/
theorem wireOctets_eq (params : PtpParams) (c : Octet) {size : ℕ}
    (hs : size = 44 + tlvsSize ts ∨ 44 + tlvsSize ts + 4 ≤ size) (hlt : size < 2 ^ 16) :
    ∃ pads, pads.length ≤ 1 ∧ (∀ t ∈ pads, t.id = .pad) ∧
      size = 44 + tlvsSize (ts.map Tlv.zeroFill ++ pads) ∧
      wireOctets params c ts size = headerOctets .net params c (BitVec.ofNat 16 size) ++
        tlvsOctets .net (ts.map Tlv.zeroFill ++ pads) := by
  by_cases h : size = 44 + tlvsSize ts
  · refine ⟨[], Nat.zero_le _, fun t ht => absurd ht List.not_mem_nil, by simpa using h, ?_⟩
    rw [wireOctets, if_pos h, List.append_nil, List.append_nil]
  · have hlen : (List.replicate (size - (44 + tlvsSize ts) - 4) (0#8)).length < 2 ^ 16 := by
      rw [List.length_replicate]
      omega
    refine ⟨[.pad ⟨_, hlen⟩], le_refl _, fun t ht => ?_, ?_, ?_⟩
    · rw [List.mem_singleton.mp ht]
      rfl
    · simp only [tlvsSize_append, tlvsSize_zeroFill, tlvsSize_cons, tlvsSize_nil, Tlv.size,
        List.length_replicate]
      omega
    · rw [wireOctets, if_neg h, tlvsOctets_append, List.append_assoc]
      congr 2
      simp only [tlvsOctets_cons, tlvsOctets_nil, Tlv.octets, Tlv.header, Tlv.body, Tlv.id, Tlv.size,
        List.length_replicate, List.append_nil, Nat.add_sub_cancel_left]
      rfl

end Message

/-! ## Any message -/

theorem parseMsg_congr {len : ℕ} (bufSize : ℕ) {m m' : Mem}
    (hmin : msgSize ≤ len → msgSize ≤ messageLength m) (he : ∀ o, o < len → m o = m' o) :
    ((parseMsg len bufSize).run m').1 = ((parseMsg len bufSize).run m).1 ∧
      ∀ o, o < len → ((parseMsg len bufSize).run m).2 o = ((parseMsg len bufSize).run m').2 o := by
  obtain ⟨hr, -, hm⟩ := run_congr (safe_parseMsg bufSize hmin).touches he
  exact ⟨hr, hm⟩

theorem parseMsg_params {len bufSize : ℕ} {m : Mem} {r : PtpMsg × PtpParams}
    (h : ((parseMsg len bufSize).run m).1 = some r) :
    r.2.flagField2.toNat < 64 ∧ ∃ c, r.2.type.controlField = some c := by
  simp only [parseMsg, run_ite, run_pure, run_bind] at h
  split_ifs at h with h1 h2 h3
  have hsize := run_subSize_lt (netToCpuMsg.run m).1 msgSize (netToCpuMsg.run m).2
  generalize (subSize (netToCpuMsg.run m).1 msgSize).run (netToCpuMsg.run m).2 = s at h hsize
  cases hh : (parseHeader.run s.2).1 with
  | none => simp [hh] at h
  | some type =>
    obtain ⟨hmem, hflags, hc⟩ := parseHeader_some hh
    simp only [hh, hmem, run_bind, run_pure, Option.some.injEq] at h
    -- the TLVs lie behind the header
    have hsafe := (parseTlvs_spec (S := fun o => msgSize ≤ o) (a := msgSize) maxTlvs
      msgSize s.1 [] s.2 (fun x hx _ => hx) hsize rfl).1
    have hkeep := run_frame (p := parseTlvs maxTlvs msgSize s.1 []) (m := s.2) (o := 7)
      fun ht => absurd (hsafe.touches 7 ht) (by decide)
    obtain ⟨htype, hflag⟩ := run_parseParams_fields type
      ((parseTlvs maxTlvs msgSize s.1 []).run s.2).2
    rw [← h, htype, hflag, hkeep]
    exact ⟨hflags, hc⟩
theorem parse_flagField2_lt {self : PtpMsg} {params : PtpParams} {buf : Buf}
    (h : (self.parse params buf).ok = true) : (self.parse params buf).params.flagField2.toNat < 64 := by
  cases hrun : ((parseMsg buf.len buf.size).run buf.mem).1 with
  | none => simp [PtpMsg.parse_of_none _ _ hrun] at h
  | some x =>
    rw [PtpMsg.parse_of_some _ _ hrun]
    exact (parseMsg_params hrun).1

end Csptp
