import Csptp.Wire.Scan

/-! # The grammar of a message

`HeaderValid` and `Tiling` say what a message is in terms of the octets that came in and of TLV values.
`_parse` accepts the valid headers, and it records the longest tiling unless a PAD TLV without data ends
the message: the loop does not look at the last four octets. -/
namespace Csptp
open Octets Octets.Prog
set_option autoImplicit false

/-! ## The header -/

/-- The fields with required values have them, and the type fits the control field. -/
structure HeaderValid (m : Mem) : Prop where
  type : (m 0).toNat % 16 = 0 ∧ m 32 = 0 ∨ (m 0).toNat % 16 = 8 ∧ m 32 = 2
  majorSdoId : (m 0).toNat / 16 = 3
  versionPTP : m 1 = 0x12
  minorSdoId : m 5 = 0
  flagField1 : m 6 = 4 ∨ m 6 = 6
  flagField2 : (m 7).toNat < 64
  sourcePortIdentity : ∀ o, 20 ≤ o → o < 30 → m o = 0
  logMessageInterval : m 33 = 0x7f

theorem ofLow_iff : ∀ v : Octet, (MessageType.ofLow (v &&& 0xf#8) = some .sync ↔ v.toNat % 16 = 0) ∧
    (MessageType.ofLow (v &&& 0xf#8) = some .followUp ↔ v.toNat % 16 = 8) := by decide +kernel

theorem majorSdoId_iff : ∀ v : Octet, v >>> 4 = majorSdoId ↔ v.toNat / 16 = 3 := by decide +kernel

theorem flagField1_iff : ∀ v : Octet, v &&& ~~~twoStepsFlag = unicastFlag ↔ v = 4 ∨ v = 6 := by
  decide +kernel

theorem region_eq_zeros {m : Mem} {p n : ℕ} :
    region m p n = List.replicate n 0 ↔ ∀ o, p ≤ o → o < p + n → m o = 0 := by
  have hzeros : region (fun _ => 0) p n = List.replicate n 0 := by
    apply List.ext_getElem (by simp)
    intro i hi _
    rw [region_getElem, List.getElem_replicate]
  rw [← hzeros, region_eq_iff]

theorem source_iff (m : Mem) :
    region m 20 8 = List.replicate 8 0#8 ∧ ofOctets 16 (region m 28 2) = 0 ↔
      ∀ o, 20 ≤ o → o < 30 → m o = 0 := by
  have hport : ofOctets 16 (region m 28 2) = 0 ↔ region m 28 2 = List.replicate 2 0#8 := by
    constructor
    · intro h
      have hoctets := octets_ofOctets (w := 16) (region m 28 2) rfl
      rw [h] at hoctets
      exact hoctets.symm
    · intro h
      rw [h]
      rfl
  rw [hport, ← region_eq_zeros (n := 10), region_add m 20 8 2]
  constructor
  · rintro ⟨hclock, hport⟩
    rw [hclock, hport]
    rfl
  · intro h
    exact List.append_inj h (by simp)

theorem type_iff (m : Mem) :
    (∃ type, MessageType.ofLow (m 0 &&& 0xf#8) = some type ∧ some (m 32) = type.controlField) ↔
      ((m 0).toNat % 16 = 0 ∧ m 32 = 0 ∨ (m 0).toNat % 16 = 8 ∧ m 32 = 2) := by
  rw [← (ofLow_iff (m 0)).1, ← (ofLow_iff (m 0)).2]
  constructor
  · rintro ⟨type, htype, hcontrol⟩
    cases type with
    | sync => exact .inl ⟨htype, Option.some.inj hcontrol⟩
    | followUp => exact .inr ⟨htype, Option.some.inj hcontrol⟩
    | _ => simp [MessageType.controlField] at hcontrol
  · rintro (⟨htype, hcontrol⟩ | ⟨htype, hcontrol⟩)
    · exact ⟨_, htype, congrArg some hcontrol⟩
    · exact ⟨_, htype, congrArg some hcontrol⟩

theorem parseHeader_iff (m : Mem) :
    ((parseHeader.run m).1.isSome = true ↔ HeaderValid m) ∧ (parseHeader.run m).2 = m := by
  have hoctet (o : ℕ) : ofOctets 8 (region m o (8 / 8)) = m o := ofOctets_region_octet rfl
  have htype := type_iff m
  simp only [parseHeader, run_bind, run_load, hoctet]
  cases hlow : MessageType.ofLow (m 0 &&& 0xf#8) with
  | none =>
    refine ⟨⟨fun h => absurd h (by simp), fun h => ?_⟩, rfl⟩
    obtain ⟨type, hsome, -⟩ := htype.mpr h.type
    rw [hlow] at hsome
    exact absurd hsome (by simp)
  | some type =>
    rw [hlow] at htype
    have hcontrol : some (m 32) = type.controlField ↔
        ∃ type', some type = some type' ∧ some (m 32) = type'.controlField := by
      constructor
      · exact fun h => ⟨type, rfl, h⟩
      · rintro ⟨_, hsome, h⟩
        exact Option.some.inj hsome ▸ h
    rw [htype] at hcontrol
    have hsource := source_iff m
    simp only [run_bind, run_load, run_loadOctets, run_ite, run_pure, hoctet, Nat.reduceDiv, ne_eq,
      hcontrol, majorSdoId_iff, flagField1_iff, flagField2_lt_iff, not_and_or.symm, ite_not, hsource]
    split_ifs with h1 h2 h3 h4 h5 h6 h7 h8
    · exact ⟨⟨fun _ => ⟨h1, h4, h3, h6, h7, h8, h5, h2⟩, fun _ => rfl⟩, rfl⟩
    all_goals
      refine ⟨⟨fun h => absurd h (by simp), fun h => ?_⟩, rfl⟩
    · exact absurd h.flagField2 h8
    · exact absurd h.flagField1 h7
    · exact absurd h.minorSdoId h6
    · exact absurd h.sourcePortIdentity h5
    · exact absurd h.majorSdoId h4
    · exact absurd h.versionPTP h3
    · exact absurd h.logMessageInterval h2
    · exact absurd h.type h1

/-! ## The conversion of any header -/

/-- The memory after `net_to_cpu_msg`. -/
def headerReversed (m : Mem) : Mem :=
  reverseAt (reverseAt (reverseAt (reverseAt (reverseAt (reverseAt m 2 2) 8 8) 30 2) 36 4) 34 2) 40 4

theorem run_netToCpuMsg_any (m : Mem) :
    netToCpuMsg.run m = (messageLength m, headerReversed m) := by
  refine Prod.ext (netToCpuMsg_result m) ?_
  simp only [netToCpuMsg, netToCpuTs, netToCpu48, run_bind, run_pure, run_swapAt (w := 16) rfl,
    run_swapAt (w := 64) rfl, run_swapAt (w := 32) rfl, Nat.reduceAdd, Nat.reduceDiv, headerReversed]

theorem headerReversed_of_not_mem {m : Mem} {o : ℕ}
    (h : o < 2 ∨ 4 ≤ o ∧ o < 8 ∨ 16 ≤ o ∧ o < 30 ∨ 32 ≤ o ∧ o < 34 ∨ 44 ≤ o) :
    headerReversed m o = m o := by
  simp (disch := omega) only [headerReversed, reverseAt_of_not_mem]

/-- The octets that are checked are not converted. -/
theorem headerValid_reversed (m : Mem) : HeaderValid (headerReversed m) ↔ HeaderValid m := by
  have hsame (o : ℕ) (h : o < 2 ∨ 4 ≤ o ∧ o < 8 ∨ 16 ≤ o ∧ o < 30 ∨ 32 ≤ o ∧ o < 34 ∨ 44 ≤ o) :
      headerReversed m o = m o := headerReversed_of_not_mem h
  have hsource (o : ℕ) (h : 20 ≤ o) (h' : o < 30) : headerReversed m o = m o := hsame o (by omega)
  constructor
  · rintro ⟨h1, h2, h3, h4, h5, h6, h7, h8⟩
    rw [hsame _ (by omega)] at h2 h3 h4 h6 h8
    rw [hsame _ (by omega), hsame 32 (by omega)] at h1
    rw [hsame 6 (by omega)] at h5
    exact ⟨h1, h2, h3, h4, h5, h6, fun o ho ho' => (hsource o ho ho').symm.trans (h7 o ho ho'), h8⟩
  · rintro ⟨h1, h2, h3, h4, h5, h6, h7, h8⟩
    constructor
    · rwa [hsame 0 (by omega), hsame 32 (by omega)]
    · rwa [hsame 0 (by omega)]
    · rwa [hsame 1 (by omega)]
    · rwa [hsame 5 (by omega)]
    · rwa [hsame 6 (by omega)]
    · rwa [hsame 7 (by omega)]
    · exact fun o ho ho' => (hsource o ho ho').trans (h7 o ho ho')
    · rwa [hsame 33 (by omega)]

theorem holds_headerReversed {m : Mem} {p : ℕ} {l : List Octet} (h : 44 ≤ p) :
    Holds (headerReversed m) p l ↔ Holds m p l := by
  have hregion : region (headerReversed m) p l.length = region m p l.length :=
    region_congr fun o ho _ => headerReversed_of_not_mem (by omega)
  rw [Holds, Holds, hregion]

/-! ## What is found in a message -/

/-- The size of the TLVs that the header announces. -/
def tlvArea (m : Mem) : ℕ := messageLength m - 44

/-- The memory that `_parse` leaves of a message with these TLVs. -/
def parsedMem (m : Mem) (ts : List Tlv) : Mem :=
  let host := blit (headerReversed m) 44 (tlvsOctets .host ts)
  if Tries (tlvArea m) maxTlvs ts then headerSwapped host (44 + tlvsSize ts) else host

/-- The object that it leaves. -/
def parsedMsg (b : Buf) (type : MessageType) (ts : List Tlv) : PtpMsg :=
  { attached := true, type := some type, len := messageLength b.mem,
    endPtr := some (44 + tlvsSize ts),
    left := (tlvArea b.mem - tlvsSize ts + b.size - messageLength b.mem) % 2 ^ 64,
    tlvs := records 44 ts }

theorem Scan.unreversed {m : Mem} {p size k : ℕ} {ts : List Tlv} (hp : 44 ≤ p)
    (h : Scan (headerReversed m) p size k ts) : Scan m p size k ts := by
  refine ⟨⟨(holds_headerReversed hp).mp h.holds, h.fits, h.few⟩, h.tried, fun htries => ?_⟩
  rintro ⟨t, ht, hle⟩
  exact h.stops htries ⟨t, (holds_headerReversed (by omega)).mpr ht, hle⟩

/-- `_parse` on data that holds a header and the announced length. -/
theorem run_parseMsg {b : Buf} (hlen : msgSize ≤ b.len) (hle : messageLength b.mem ≤ b.len) :
    (parseMsg b.len b.size).run b.mem =
      match (parseHeader.run (headerReversed b.mem)).1 with
      | none => (none, headerReversed b.mem)
      | some type =>
        let t := (parseTlvs maxTlvs msgSize ((messageLength b.mem + 2 ^ 64 - msgSize) % 2 ^ 64)
          []).run (headerReversed b.mem)
        (some (
          { attached := true, type := some type, len := messageLength b.mem,
            endPtr := some t.1.2.1, left := (t.1.2.2 + b.size - messageLength b.mem) % 2 ^ 64,
            tlvs := t.1.1 }, ((parseParams type).run t.2).1), t.2) := by
  have hfits := b.len_le
  have hmem := (parseHeader_iff (headerReversed b.mem)).2
  have hparams (type : MessageType) (m : Mem) : ((parseParams type).run m).2 = m := by
    simp only [parseParams, loadTimestamp, loadUint48, run_bind, run_load, run_pure]
  have hsub (m : Mem) : (subSize (messageLength b.mem) msgSize).run m =
      ((messageLength b.mem + 2 ^ 64 - msgSize) % 2 ^ 64, m) := rfl
  rw [parseMsg, if_neg (by omega), if_neg (by omega)]
  simp only [run_bind, run_netToCpuMsg_any, if_neg (show ¬ messageLength b.mem > b.len by omega), hsub,
    hmem]
  cases (parseHeader.run (headerReversed b.mem)).1 with
  | none => rfl
  | some type => simp only [run_bind, run_pure, hparams]

section Parse
variable (self : PtpMsg) (prms : PtpParams) {b : Buf} (hmin : msgSize ≤ messageLength b.mem)
  (hle : messageLength b.mem ≤ b.len)
include hmin hle

/-- `_parse` on any message whose length covers its header and lies within the data. -/
theorem parse_any :
    ((self.parse prms b).ok = true ↔ HeaderValid b.mem) ∧
      ((self.parse prms b).ok = true → ∃ type ts, Scan b.mem 44 (tlvArea b.mem) maxTlvs ts ∧
        (self.parse prms b).self = parsedMsg b type ts ∧
        (self.parse prms b).buf = b.withMem (parsedMem b.mem ts)) := by
  have hlt := messageLength_lt b.mem
  have hiff := (parseHeader_iff (headerReversed b.mem)).1
  have hrun := run_parseMsg (hmin.trans hle) hle
  have harea : (messageLength b.mem + 2 ^ 64 - msgSize) % 2 ^ 64 = tlvArea b.mem := by
    rw [msgSize] at hmin ⊢
    rw [tlvArea]
    omega
  rw [headerValid_reversed] at hiff
  rw [harea] at hrun
  cases hheader : (parseHeader.run (headerReversed b.mem)).1 with
  | none =>
    rw [hheader] at hiff hrun
    rw [PtpMsg.parse_of_none _ _ (congrArg Prod.fst hrun)]
    exact ⟨hiff, fun hok => absurd hok (by simp)⟩
  | some type =>
    rw [hheader] at hiff hrun
    obtain ⟨ts, hscan, hloop⟩ := parseTlvs_any maxTlvs (headerReversed b.mem) msgSize
      (tlvArea b.mem) [] (by rw [tlvArea]; omega)
    simp only [hloop, List.nil_append] at hrun
    rw [PtpMsg.parse_of_some self prms (congrArg Prod.fst hrun), hrun]
    exact ⟨hiff, fun _ => ⟨type, ts, hscan.unreversed (by decide), rfl, rfl⟩⟩

end Parse

/-! ## The longest tiling -/

theorem size_unique {m : Mem} {p : ℕ} {t u : Tlv} (ht : Holds m p (t.octets .net))
    (hu : Holds m p (u.octets .net)) : t.size = u.size := by
  have ht2 := swap_region_of_net (w := 16) rfl (holds_header ht).2
  have hu2 := swap_region_of_net (w := 16) rfl (holds_header hu).2
  rw [← t.lengthField_toNat, ← u.lengthField_toNat, ← ht2, ← hu2]

/-- Two tilings from one place have the same sizes as far as both go. -/
theorem tlvsSize_take {m : Mem} {p : ℕ} {ts us : List Tlv} (ht : Holds m p (tlvsOctets .net ts))
    (hu : Holds m p (tlvsOctets .net us)) {n : ℕ} (htn : n ≤ ts.length) (hun : n ≤ us.length) :
    tlvsSize (ts.take n) = tlvsSize (us.take n) := by
  induction n generalizing p ts us with
  | zero => rfl
  | succ n ih =>
    cases ts with
    | nil => exact absurd htn (Nat.not_succ_le_zero n)
    | cons t ts =>
      cases us with
      | nil => exact absurd hun (Nat.not_succ_le_zero n)
      | cons u us =>
        rw [tlvsOctets_cons, holds_append, Tlv.octets_length] at ht hu
        have hsize := size_unique ht.1 hu.1
        rw [← hsize] at hu
        have hrest := ih ht.2 hu.2 (Nat.le_of_succ_le_succ htn) (Nat.le_of_succ_le_succ hun)
        rw [List.take_succ_cons, List.take_succ_cons, tlvsSize_cons, tlvsSize_cons, hsize, hrest]

/-- No tiling of the octets that the header announces has more TLVs. -/
structure Longest (m : Mem) (ts : List Tlv) : Prop extends Tiling m 44 (tlvArea m) maxTlvs ts where
  longest : ∀ us, Tiling m 44 (tlvArea m) maxTlvs us → us.length ≤ ts.length

/-- A PAD TLV that is a header only. -/
def barePad : Tlv := .pad ⟨[], by decide⟩

/-- At most four TLVs fill the message, and the last of them is a PAD TLV without data. -/
def EndsInBarePad (m : Mem) : Prop :=
  ∃ ts, Tiling m 44 (tlvArea m) maxTlvs (ts ++ [barePad]) ∧
    tlvsSize (ts ++ [barePad]) = tlvArea m

theorem eq_barePad {t : Tlv} (h : t.size ≤ 4) : t = barePad := by
  cases t with
  | pad data =>
    have hnil : data.val = [] := by
      rw [Tlv.size] at h
      exact List.eq_nil_of_length_eq_zero (by omega)
    exact congrArg Tlv.pad (Subtype.ext hnil)
  | _ => exact absurd h (by simp only [Tlv.size, altTimeSize]; omega)

theorem exists_take_append {α : Type} {l : List α} {n : ℕ} (h : n < l.length) :
    ∃ x r, l = l.take n ++ x :: r :=
  ⟨l[n], l.drop (n + 1), by rw [← List.drop_eq_getElem_cons h, List.take_append_drop]⟩

/-- A longer tiling goes on where the loop did not look. -/
theorem Scan.next {m : Mem} {p size k : ℕ} {ts us : List Tlv} (h : Scan m p size k ts)
    (hus : Tiling m p size k us) (hlt : ts.length < us.length) :
    ∃ u vs, us = us.take ts.length ++ u :: vs ∧ tlvsSize (us.take ts.length) = tlvsSize ts ∧
      TlvAt m (p + tlvsSize ts) (size - tlvsSize ts) u ∧ size - tlvsSize ts ≤ tlvHdr := by
  have hfew := hus.few
  have hfits := hus.fits
  have htake := tlvsSize_take h.holds hus.holds le_rfl hlt.le
  rw [List.take_length] at htake
  obtain ⟨u, vs, hsplit⟩ := exists_take_append hlt
  have hholds := hus.holds
  rw [hsplit, tlvsOctets_append, holds_append, tlvsOctets_length, ← htake, tlvsOctets_cons,
    holds_append] at hholds
  have husize : tlvsSize us = tlvsSize ts + (u.size + tlvsSize vs) := by
    rw [hsplit, tlvsSize_append, ← htake, tlvsSize_cons]
  have hat : TlvAt m (p + tlvsSize ts) (size - tlvsSize ts) u := ⟨hholds.2.1, by omega⟩
  refine ⟨u, vs, hsplit, htake.symm, hat, ?_⟩
  by_contra hmore
  exact h.stops ⟨by omega, by omega⟩ ⟨u, hat⟩

/-- The loop comes to the same place in every way. -/
theorem Scan.length_le {m : Mem} {p size k : ℕ} {ts us : List Tlv} (h : Scan m p size k ts)
    (hus : Scan m p size k us) : us.length ≤ ts.length := by
  by_contra hlt
  obtain ⟨u, vs, hsplit, hsize, -, hrest⟩ := h.next hus.toTiling (by omega)
  have htried := hus.tried _ u vs hsplit
  omega

theorem Scan.size_eq {m : Mem} {p size k : ℕ} {ts us : List Tlv} (h : Scan m p size k ts)
    (hus : Scan m p size k us) : tlvsSize ts = tlvsSize us := by
  have hlen := le_antisymm (hus.length_le h) (h.length_le hus)
  have htake := tlvsSize_take h.holds hus.holds le_rfl hlen.le
  rwa [List.take_length, hlen, List.take_length] at htake

theorem tlvsSize_take_le (ts : List Tlv) (n : ℕ) : tlvsSize (ts.take n) ≤ tlvsSize ts := by
  have hsplit := congrArg tlvsSize (List.take_append_drop n ts)
  rw [tlvsSize_append] at hsplit
  omega

/-- Where known TLVs fill the whole size, none is refused. -/
theorem Scan.not_tries {m : Mem} {p size k : ℕ} {ts us : List Tlv} (h : Scan m p size k ts)
    (hus : Tiling m p size k us) (hfull : tlvsSize us = size) : ¬ Tries size k ts := by
  intro htries
  have hroom := htries.2
  by_cases hlt : ts.length < us.length
  · obtain ⟨-, -, -, -, -, hrest⟩ := h.next hus hlt
    omega
  · have htake := tlvsSize_take h.holds hus.holds (show us.length ≤ ts.length by omega) le_rfl
    have hle := tlvsSize_take_le ts us.length
    rw [htake, List.take_length] at hle
    omega

/-- What the loop finds is the longest tiling, except when a PAD TLV without data ends the message. -/
theorem longest_iff {m : Mem} {ts : List Tlv} (h : Scan m 44 (tlvArea m) maxTlvs ts) :
    Longest m ts ↔ ¬ EndsInBarePad m := by
  constructor
  · rintro ⟨-, hlongest⟩ ⟨us, hus, hfull⟩
    have hlen := hlongest _ hus
    rw [List.length_append, List.length_singleton] at hlen
    have htake := tlvsSize_take h.holds hus.holds (show us.length ≤ ts.length by omega)
      (by rw [List.length_append]; omega)
    rw [List.take_left] at htake
    -- the loop had only the bare header left in front of this TLV
    obtain ⟨t, vs, hts⟩ := exists_take_append (show us.length < ts.length by omega)
    have htried := h.tried _ t vs hts
    rw [tlvsSize_append] at hfull
    have hpad : tlvsSize [barePad] = 4 := rfl
    rw [tlvHdr] at htried
    omega
  · intro hbare
    refine ⟨h.toTiling, fun us hus => ?_⟩
    by_contra hlt
    obtain ⟨u, vs, hsplit, hsize, ⟨hu, hle⟩, hrest⟩ := h.next hus (by omega)
    have hpos := u.four_le_size
    obtain rfl := eq_barePad (show u.size ≤ 4 by rw [tlvHdr] at hrest; omega)
    have hfull : tlvsSize (us.take ts.length ++ [barePad]) = tlvArea m := by
      have hpad : tlvsSize [barePad] = 4 := rfl
      rw [tlvHdr] at hrest
      rw [tlvsSize_append, hsize]
      omega
    have hholds := hus.holds
    rw [hsplit, tlvsOctets_append, holds_append] at hholds
    refine hbare ⟨us.take ts.length, ⟨?_, hfull.le, ?_⟩, hfull⟩
    · rw [tlvsOctets_append, holds_append, tlvsOctets_length, hsize, tlvsOctets_cons, tlvsOctets_nil,
        List.append_nil]
      exact ⟨hholds.1, hu⟩
    · have hfew := hus.few
      rw [List.length_append, List.length_singleton, List.length_take]
      omega

/-! ## Exactly the grammar -/

/-- `_parse` accepts a buffer exactly when its header is valid, and then it records the longest tiling,
with the fields in host order. -/
structure ParsesGrammar (msg : PtpMsg) (prms : PtpParams) (b : Buf) : Prop where
  accepts : (msg.parse prms b).ok = true ↔ HeaderValid b.mem
  recorded : (msg.parse prms b).ok = true → ∃ ts, Longest b.mem ts ∧
    (msg.parse prms b).self.tlvs = records 44 ts ∧
    Holds (msg.parse prms b).buf.mem 44 (tlvsOctets .host ts)

theorem holds_parsedMem (m : Mem) (ts : List Tlv) :
    Holds (parsedMem m ts) 44 (tlvsOctets .host ts) := by
  have hhost := holds_blit (headerReversed m) 44 (tlvsOctets .host ts)
  rw [parsedMem]
  split_ifs
  · rw [headerSwapped, holds_reverseAt_of_disjoint (by rw [tlvsOctets_length]; omega),
      holds_reverseAt_of_disjoint (by rw [tlvsOctets_length]; omega)]
    exact hhost
  · exact hhost

section Theorem
variable (self : PtpMsg) (prms : PtpParams) {b : Buf}

/-- The parser accepts exactly its grammar, unless a valid header is in front of TLVs that end in a PAD
TLV without data. -/
theorem parse_grammar_iff (hmin : msgSize ≤ messageLength b.mem) (hle : messageLength b.mem ≤ b.len) :
    ParsesGrammar self prms b ↔ (HeaderValid b.mem → ¬ EndsInBarePad b.mem) := by
  obtain ⟨hiff, hfound⟩ := parse_any self prms hmin hle
  constructor
  · intro h hvalid
    obtain ⟨type, ts, hscan, hself, -⟩ := hfound (hiff.mpr hvalid)
    obtain ⟨us, hlongest, hrecords, -⟩ := h.recorded (hiff.mpr hvalid)
    rw [hself, parsedMsg] at hrecords
    have hlen : ts.length = us.length := by
      have hlen := congrArg List.length hrecords
      rwa [records_length, records_length] at hlen
    exact (longest_iff hscan).mp ⟨hscan.toTiling, fun vs hvs => hlen ▸ hlongest.longest vs hvs⟩
  · intro h
    refine ⟨hiff, fun hok => ?_⟩
    obtain ⟨type, ts, hscan, hself, hbuf⟩ := hfound hok
    rw [hself, hbuf]
    exact ⟨ts, (longest_iff hscan).mpr (h (hiff.mp hok)), rfl, holds_parsedMem _ _⟩

end Theorem

section Sample

theorem sampleSize_lt : 96 < 2 ^ 64 := by norm_num

/-- A Sync with these TLVs in a buffer of 96 octets. -/
def sampleSync (ts : List Tlv) : Buf where
  mem := blit (fun _ => 0) 0
    (headerOctets .net .zero 0 (BitVec.ofNat 16 (44 + tlvsSize ts)) ++ tlvsOctets .net ts)
  size := 96
  len := 96
  len_le := le_rfl
  size_lt := sampleSize_lt

/-- A PAD TLV without data, and nothing else: it is not recorded. -/
theorem parse_grammar_fails :
    msgSize ≤ messageLength (sampleSync [barePad]).mem ∧
      messageLength (sampleSync [barePad]).mem ≤ (sampleSync [barePad]).len ∧
      (PtpMsg.detach.parse .zero (sampleSync [barePad])).ok = true ∧
      (PtpMsg.detach.parse .zero (sampleSync [barePad])).self.tlvs = [] ∧
      ¬ ParsesGrammar .detach .zero (sampleSync [barePad]) := by
  have hok : (PtpMsg.detach.parse .zero (sampleSync [barePad])).ok = true := by decide +kernel
  have hnil : (PtpMsg.detach.parse .zero (sampleSync [barePad])).self.tlvs = [] := by decide +kernel
  refine ⟨by decide +kernel, by decide +kernel, hok, hnil, fun h => ?_⟩
  obtain ⟨ts, hlongest, hrecords, -⟩ := h.recorded hok
  have hlen := congrArg List.length hrecords
  rw [hnil, records_length] at hlen
  have hpad : Tiling (sampleSync [barePad]).mem 44 (tlvArea (sampleSync [barePad]).mem) maxTlvs
      [barePad] := ⟨by unfold Holds; decide +kernel, by decide +kernel, by decide⟩
  have hle := hlongest.longest _ hpad
  rw [← hlen] at hle
  exact absurd hle (by decide)

/-- The same TLV in front of a request is recorded. -/
theorem parse_grammar_sample :
    ParsesGrammar .detach .zero (sampleSync [barePad, .request (requestFlags 3)]) := by
  refine (parse_grammar_iff .detach .zero (by decide +kernel) (by decide +kernel)).mpr fun _ => ?_
  rintro ⟨ts, htiling, hfull⟩
  have harea : tlvArea (sampleSync [barePad, .request (requestFlags 3)]).mem = 12 := by decide +kernel
  have hpad : tlvsSize [barePad] = 4 := rfl
  have hholds := htiling.holds
  rw [tlvsSize_append, hpad, harea] at hfull
  rw [tlvsOctets_append, holds_append, tlvsOctets_length,
    show tlvsSize ts = 8 by omega] at hholds
  have hlast := hholds.2
  unfold Holds at hlast
  exact absurd hlast (by decide +kernel)

end Sample

end Csptp
