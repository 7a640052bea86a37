import Csptp.Wire.Decode

/-! # What the TLV loop makes of any octets

`net_to_cpu_tlv` accepts exactly the octets of a TLV value. So the loop of `_parse` finds, on any
octets at all, TLVs that lie one behind the other, and it stops where the table is full, no more than
a TLV header is left, or no TLV lies. In the last case it has swapped the two words of the header that
it refused. -/
namespace Csptp
open Octets Octets.Prog
set_option autoImplicit false

/-! ## Fields read from memory -/

/-- The word at `p` in network order. -/
def netWord (w : ℕ) (m : Mem) (p : ℕ) : BitVec w := swap (ofOctets w (region m p (w / 8)))

theorem inOrder_netWord {w : ℕ} (hw : w % 8 = 0) (m : Mem) (p : ℕ) :
    inOrder .net (netWord w m p) = region m p (w / 8) := by
  have hlen : 8 * (region m p (w / 8)).length = w := by
    rw [region_length]
    omega
  rw [inOrder, netWord, octets_swap _ hw, List.reverse_reverse, octets_ofOctets _ hlen]

theorem holds_netWord {w : ℕ} (hw : w % 8 = 0) (m : Mem) (p : ℕ) :
    Holds m p (inOrder .net (netWord w m p)) := by
  rw [inOrder_netWord hw]
  exact holds_region _ _ _

/-- The word at `p` in the given order. -/
def wordAt (o : ByteOrder) (w : ℕ) (m : Mem) (p : ℕ) : BitVec w :=
  match o with
  | .host => ofOctets w (region m p (w / 8))
  | .net => netWord w m p

theorem holds_wordAt (o : ByteOrder) {w : ℕ} (hw : w % 8 = 0) (m : Mem) (p : ℕ) :
    Holds m p (inOrder o (wordAt o w m p)) := by
  cases o with
  | host =>
    have hlen : 8 * (region m p (w / 8)).length = w := by
      rw [region_length]
      omega
    rw [wordAt, inOrder, octets_ofOctets _ hlen]
    exact holds_region _ _ _
  | net => exact holds_netWord hw m p

theorem TlvTypeId.eq_code {v : BitVec 16} (h : ofCode v ≠ .invalidTlvId) : v = (ofCode v).code := by
  rw [ofCode] at h ⊢
  split_ifs at h ⊢ <;> first | assumption | exact absurd rfl h

theorem Prot.eq_code {v : BitVec 16} (h : adderSize (ofCode v) ≠ 0) : v = (ofCode v).code := by
  rw [ofCode] at h ⊢
  split_ifs at h ⊢ <;> first | assumption | exact absurd rfl h

/-! ## TLVs read from memory -/

section Values
variable (o : ByteOrder) (m : Mem) (p : ℕ)

/-- Whatever lies in memory, an ALTERNATE_TIME_OFFSET_INDICATOR can be read there. -/
theorem exists_altTime_any : ∃ t : AltTime, t.displayName.length = (m (p + 19)).toNat ∧
    Holds m (p + 4) (t.body o) := by
  have hlt := (m (p + 19)).isLt
  refine ⟨{ keyField := m (p + 4), currentOffset := wordAt o 32 m (p + 5),
            jumpSeconds := wordAt o 32 m (p + 9),
            timeOfNextJump := ⟨wordAt o 16 m (p + 13), wordAt o 32 m (p + 15)⟩,
            displayName := region m (p + 20) (m (p + 19)).toNat,
            fill := region m (p + 20 + (m (p + 19)).toNat) ((m (p + 19)).toNat % 2),
            name_lt := by rw [region_length]; exact hlt,
            fill_len := by rw [region_length, region_length] }, region_length _ _ _, ?_⟩
  simp only [AltTime.body, holds_append, List.length_append, List.length_singleton, inOrder_length,
    region_length, BitVec.ofNat_toNat, BitVec.setWidth_eq, Nat.add_assoc, Nat.reduceAdd,
    Nat.reduceDiv]
  have hfill : 4 + (16 + (m (p + 19)).toNat) = 20 + (m (p + 19)).toNat := by omega
  rw [hfill]
  exact ⟨⟨⟨⟨⟨⟨⟨rfl, holds_wordAt o rfl m (p + 5)⟩, holds_wordAt o rfl m (p + 9)⟩,
    holds_wordAt o rfl m (p + 13)⟩, holds_wordAt o rfl m (p + 15)⟩, rfl⟩, holds_region _ _ _⟩,
    holds_region _ _ _⟩

theorem exists_response_any : ∃ t : Response, Holds m (p + 4) (t.body o) := by
  refine ⟨{ organizationId := ⟨region m (p + 4) 3, region_length _ _ _⟩,
            organizationSubType := ⟨region m (p + 7) 3, region_length _ _ _⟩,
            reqIngressTimestamp :=
              ⟨⟨wordAt o 16 m (p + 10), wordAt o 32 m (p + 12)⟩, wordAt o 32 m (p + 16)⟩,
            reqCorrectionField := wordAt o 64 m (p + 20) }, ?_⟩
  simp only [Response.body, Timestamp.octets, holds_append, List.length_append, inOrder_length,
    region_length, Nat.add_assoc, Nat.reduceAdd, Nat.reduceDiv]
  exact ⟨⟨⟨holds_region _ _ _, holds_region _ _ _⟩, ⟨holds_wordAt o rfl m (p + 10),
    holds_wordAt o rfl m (p + 12)⟩, holds_wordAt o rfl m (p + 16)⟩, holds_wordAt o rfl m (p + 20)⟩

theorem exists_address {pt : BitVec 16} (h : adderSize (Prot.ofCode pt) ≠ 0) :
    ∃ a : PortAddress, a.networkProtocol.code = pt ∧
      adderSize a.networkProtocol = adderSize (Prot.ofCode pt) ∧ Holds m p a.addressField := by
  have hcode := Prot.eq_code h
  cases hpt : Prot.ofCode pt with
  | invalidProto => exact absurd (congrArg adderSize hpt) h
  | udpIPv4 =>
    rw [hpt] at hcode
    exact ⟨.ipv4 ⟨region m p 4, region_length _ _ _⟩, hcode.symm, rfl, holds_region _ _ _⟩
  | udpIPv6 =>
    rw [hpt] at hcode
    exact ⟨.ipv6 ⟨region m p 16, region_length _ _ _⟩, hcode.symm, rfl, holds_region _ _ _⟩

variable {o m p}

/-- A CSPTP_STATUS is one if its protocol has addresses of the length that it names. -/
theorem exists_status_any (h : adderSize (Prot.ofCode (wordAt o 16 m (p + 28))) ≠ 0)
    (hlen : (wordAt o 16 m (p + 30)).toNat = adderSize (Prot.ofCode (wordAt o 16 m (p + 28)))) :
    ∃ t : Status, adderSize t.parentAddress.networkProtocol =
      adderSize (Prot.ofCode (wordAt o 16 m (p + 28))) ∧ Holds m (p + 4) (t.body o) := by
  obtain ⟨a, hcode, hsize, haddr⟩ := exists_address m (p + 32) h
  have halen : BitVec.ofNat 16 (adderSize a.networkProtocol) = wordAt o 16 m (p + 30) := by
    apply BitVec.eq_of_toNat_eq
    rw [PortAddress.addressLength_toNat, hsize, hlen]
  refine ⟨{ organizationId := ⟨region m (p + 4) 3, region_length _ _ _⟩,
            organizationSubType := ⟨region m (p + 7) 3, region_length _ _ _⟩,
            grandmasterPriority1 := m (p + 10),
            grandmasterClockQuality := ⟨m (p + 11), m (p + 12), wordAt o 16 m (p + 13)⟩,
            grandmasterPriority2 := m (p + 15),
            stepsRemoved := wordAt o 16 m (p + 16),
            currentUtcOffset := wordAt o 16 m (p + 18),
            grandmasterIdentity := ⟨region m (p + 20) 8, region_length _ _ _⟩,
            parentAddress := a }, hsize, ?_⟩
  simp only [Status.body, holds_append, List.length_append, List.length_cons, List.length_nil,
    inOrder_length, region_length, Nat.add_assoc, Nat.reduceAdd, Nat.reduceDiv, hcode, halen]
  exact ⟨⟨⟨⟨⟨⟨⟨⟨⟨⟨holds_region _ _ _, holds_region _ _ _⟩, rfl⟩, holds_wordAt o rfl m (p + 13)⟩, rfl⟩,
    holds_wordAt o rfl m (p + 16)⟩, holds_wordAt o rfl m (p + 18)⟩, holds_region _ _ _⟩,
    holds_wordAt o rfl m (p + 28)⟩, holds_wordAt o rfl m (p + 30)⟩, haddr⟩

end Values

theorem exists_altTime {m : Mem} {p len : ℕ}
    (h : ((netToCpuAltTime p len 20).run m).1 = true) :
    ∃ t : AltTime, altTimeSize t.displayName.length = len ∧ Holds m (p + 4) (t.body .net) := by
  have hn : ofOctets 8 (region m (p + 19) (8 / 8)) = m (p + 19) := ofOctets_region_octet rfl
  have hlt := (m (p + 19)).isLt
  simp only [netToCpuAltTime, run_bind, run_load, run_ite, run_pure, hn,
    makeEven_of_lt (show (m (p + 19)).toNat < 2 ^ 63 by omega)] at h
  split_ifs at h with hlen
  obtain ⟨t, hname, hbody⟩ := exists_altTime_any .net m p
  refine ⟨t, ?_, hbody⟩
  rw [altTimeSize, hname]
  omega

theorem exists_response {m : Mem} {p len : ℕ}
    (h : ((netToCpuResponse p len 28).run m).1 = true) :
    len = 28 ∧ ∃ t : Response, Holds m (p + 4) (t.body .net) := by
  simp only [netToCpuResponse, run_ite, run_pure, run_bind] at h
  split_ifs at h with hlen
  exact ⟨not_not.mp hlen, exists_response_any .net m p⟩

theorem exists_status {m : Mem} {p len : ℕ}
    (h : ((netToCpuStatus p len 32).run m).1 = true) :
    ∃ t : Status, 32 + adderSize t.parentAddress.networkProtocol = len ∧
      Holds m (p + 4) (t.body .net) := by
  simp only [netToCpuStatus, run_bind, run_load, run_ite, run_pure] at h
  split_ifs at h with hnlen hlen
  obtain ⟨hsame, htotal⟩ := not_or.mp hlen
  obtain ⟨t, hsize, hbody⟩ := exists_status_any (o := .net) hnlen (not_not.mp hsame).symm
  refine ⟨t, ?_, hbody⟩
  rw [hsize, not_not.mp htotal]
  exact congrArg _ (not_not.mp hsame)

/-- The body that the switch of `net_to_cpu_tlv` accepts belongs to a TLV. -/
theorem exists_tlv {m : Mem} {id : TlvTypeId} {p len : ℕ} (hmin : minTlvSize id ≤ len)
    (hlt : len - 4 < 2 ^ 16) (h : ((netToCpuBody id p len (minTlvSize id)).run m).1 = true) :
    ∃ t : Tlv, t.id = id ∧ t.size = len ∧ Holds m (p + 4) (t.body .net) := by
  cases id with
  | invalidTlvId => exact absurd h (by simp [netToCpuBody])
  | alternateTimeOffsetIndicator =>
    obtain ⟨t, hsize, hbody⟩ := exists_altTime h
    exact ⟨.altTime t, rfl, hsize, hbody⟩
  | csptpRequest =>
    have hlen : len = 8 := of_decide_eq_true h
    exact ⟨.request ⟨region m (p + 4) 4, region_length _ _ _⟩, rfl, hlen.symm, holds_region _ _ _⟩
  | csptpResponse =>
    obtain ⟨hlen, t, hbody⟩ := exists_response h
    exact ⟨.response t, rfl, hlen.symm, hbody⟩
  | csptpStatus =>
    obtain ⟨t, hsize, hbody⟩ := exists_status h
    exact ⟨.status t, rfl, hsize, hbody⟩
  | pad =>
    have hmin : 4 ≤ len := hmin
    refine ⟨.pad ⟨region m (p + 4) (len - 4), by rw [region_length]; exact hlt⟩, rfl, ?_,
      holds_region _ _ _⟩
    rw [Tlv.size, region_length]
    omega

theorem netToCpuBody_false {m : Mem} {id : TlvTypeId} {p len minSz : ℕ}
    (h : ((netToCpuBody id p len minSz).run m).1 = false) :
    ((netToCpuBody id p len minSz).run m).2 = m := by
  cases id with
  | invalidTlvId => rfl
  | csptpRequest => rfl
  | pad => rfl
  | alternateTimeOffsetIndicator =>
    simp only [netToCpuBody, netToCpuAltTime, run_bind, run_load, run_ite, run_pure] at h ⊢
    split_ifs at h ⊢
    rfl
  | csptpResponse =>
    simp only [netToCpuBody, netToCpuResponse, run_bind, run_ite, run_pure] at h ⊢
    split_ifs at h ⊢
    rfl
  | csptpStatus =>
    simp only [netToCpuBody, netToCpuStatus, run_bind, run_load, run_ite, run_pure] at h ⊢
    split_ifs at h ⊢
    · rfl
    · rfl

/-! ## One TLV -/

/-- A TLV lies at `p`, within `size` octets. -/
def TlvAt (m : Mem) (p size : ℕ) (t : Tlv) : Prop := Holds m p (t.octets .net) ∧ t.size ≤ size

/-- The memory with the two words of a TLV header in host order. -/
def headerSwapped (m : Mem) (p : ℕ) : Mem := reverseAt (reverseAt m p 2) (p + 2) 2

theorem headerSwapped_body {m : Mem} {p : ℕ} {l : List Octet} :
    Holds (headerSwapped m p) (p + 4) l ↔ Holds m (p + 4) l := by
  rw [headerSwapped, holds_reverseAt_of_disjoint (by omega), holds_reverseAt_of_disjoint (by omega)]

/-- The header that `net_to_cpu_tlv` reads and the body that it accepts are a TLV. -/
theorem exists_tlvAt {m : Mem} {p size : ℕ}
    (hmin : minTlvSize (TlvTypeId.ofCode (netWord 16 m p)) ≠ 0)
    (hlen : minTlvSize (TlvTypeId.ofCode (netWord 16 m p)) ≤ (netWord 16 m (p + 2)).toNat + tlvHdr)
    (hsize : (netWord 16 m (p + 2)).toNat + tlvHdr ≤ size)
    (h : ((netToCpuBody (TlvTypeId.ofCode (netWord 16 m p)) p
      ((netWord 16 m (p + 2)).toNat + tlvHdr)
      (minTlvSize (TlvTypeId.ofCode (netWord 16 m p)))).run (headerSwapped m p)).1 = true) :
    ∃ t, TlvAt m p size t := by
  have hlt := (netWord 16 m (p + 2)).isLt
  obtain ⟨t, hid, htsize, hbody⟩ := exists_tlv hlen (by rw [tlvHdr]; omega) h
  refine ⟨t, ?_, by omega⟩
  have hcode : netWord 16 m p = t.id.code := by
    rw [hid]
    apply TlvTypeId.eq_code
    intro hinvalid
    rw [hinvalid] at hmin
    exact hmin rfl
  have hfield : netWord 16 m (p + 2) = BitVec.ofNat 16 (t.size - 4) := by
    rw [htsize, tlvHdr, Nat.add_sub_cancel, BitVec.ofNat_toNat, BitVec.setWidth_eq]
  rw [Tlv.octets, Tlv.header, holds_append, holds_append]
  simp only [List.length_append, inOrder_length, Nat.reduceDiv, Nat.reduceAdd]
  rw [← hcode, ← hfield]
  exact ⟨⟨holds_netWord rfl m p, holds_netWord rfl m (p + 2)⟩, headerSwapped_body.mp hbody⟩

theorem netToCpuTlv_none {m : Mem} {p size : ℕ} (h : ¬ ∃ t, TlvAt m p size t) :
    (netToCpuTlv p size).run m = ((.invalidTlvId, 0), headerSwapped m p) := by
  have hword : swap (ofOctets 16 (region m p (16 / 8))) = netWord 16 m p := rfl
  have hlen : swap (ofOctets 16 (region (reverseAt m p (16 / 8)) (p + 2) (16 / 8))) =
      netWord 16 m (p + 2) := by
    rw [netWord, region_reverseAt_of_disjoint (by omega)]
  have hswapped : reverseAt (reverseAt m p (16 / 8)) (p + 2) (16 / 8) = headerSwapped m p := rfl
  simp only [netToCpuTlv, run_bind, run_swapAt (w := 16) rfl, hword, hlen, hswapped, run_ite,
    run_pure]
  split_ifs with h0 h1 h2 h3
  · rfl
  · rfl
  · rfl
  · exact absurd (exists_tlvAt h0 (by omega) (by omega) h3) h
  · rw [netToCpuBody_false (by simpa using h3)]

theorem netToCpuTlv_some {m : Mem} {p size : ℕ} {t : Tlv} (h : TlvAt m p size t) :
    (netToCpuTlv p size).run m = ((t.id, t.size), blit m p (t.octets .host)) :=
  run_netToCpuTlv h.1 h.2

/-! ## The loop -/

/-- At most `k` TLVs lie one behind the other from `p` on, within `size` octets. -/
structure Tiling (m : Mem) (p size k : ℕ) (ts : List Tlv) : Prop where
  holds : Holds m p (tlvsOctets .net ts)
  fits : tlvsSize ts ≤ size
  few : ts.length ≤ k

/-- The loop tries another TLV behind these. -/
def Tries (size k : ℕ) (ts : List Tlv) : Prop := ts.length < k ∧ tlvHdr < size - tlvsSize ts

instance (size k : ℕ) (ts : List Tlv) : Decidable (Tries size k ts) :=
  inferInstanceAs (Decidable (_ ∧ _))

theorem tries_cons {size k : ℕ} {t : Tlv} {ts : List Tlv} :
    Tries size (k + 1) (t :: ts) ↔ Tries (size - t.size) k ts := by
  rw [Tries, Tries, List.length_cons, tlvsSize_cons, Nat.add_lt_add_iff_right, Nat.sub_add_eq]

theorem tlvAt_blit {m : Mem} {p q size : ℕ} {l : List Octet} {t : Tlv} (h : p + l.length ≤ q) :
    TlvAt (blit m p l) q size t ↔ TlvAt m q size t := by
  rw [TlvAt, TlvAt, holds_blit_of_disjoint (.inl h)]

/-- A tiling as the loop finds it: each TLV was tried with more than a header left, and behind the last
one there is none to be tried. -/
structure Scan (m : Mem) (p size k : ℕ) (ts : List Tlv) : Prop extends Tiling m p size k ts where
  tried : ∀ us t vs, ts = us ++ t :: vs → tlvHdr < size - tlvsSize us
  stops : Tries size k ts → ¬ ∃ t, TlvAt m (p + tlvsSize ts) (size - tlvsSize ts) t

theorem scan_nil {m : Mem} {p size k : ℕ} (h : Tries size k [] → ¬ ∃ t, TlvAt m p size t) :
    Scan m p size k [] where
  holds := rfl
  fits := Nat.zero_le _
  few := Nat.zero_le _
  tried := fun us t vs hts => by simp at hts
  stops := h

theorem scan_cons {m : Mem} {p size k : ℕ} {t : Tlv} {ts : List Tlv} (hgt : tlvHdr < size)
    (ht : TlvAt m p size t)
    (h : Scan (blit m p (t.octets .host)) (p + t.size) (size - t.size) k ts) :
    Scan m p size (k + 1) (t :: ts) := by
  have hle := ht.2
  have hfits := h.fits
  have hfew := h.few
  refine ⟨⟨?_, ?_, ?_⟩, ?_, ?_⟩
  · rw [tlvsOctets_cons, holds_append, Tlv.octets_length]
    refine ⟨ht.1, ?_⟩
    have hholds := h.holds
    rwa [holds_blit_of_disjoint (.inl (by rw [Tlv.octets_length]))] at hholds
  · rw [tlvsSize_cons]
    omega
  · rw [List.length_cons]
    omega
  · intro us u vs hus
    cases us with
    | nil => exact hgt
    | cons x us =>
      obtain ⟨rfl, hrest⟩ := List.cons.inj hus
      have htried := h.tried us u vs hrest
      rw [tlvsSize_cons]
      omega
  · rw [tlvsSize_cons, ← Nat.add_assoc, Nat.sub_add_eq]
    rintro htries ⟨u, hu⟩
    refine h.stops (tries_cons.mp htries) ⟨u, ?_⟩
    rw [tlvAt_blit (by rw [Tlv.octets_length]; omega)]
    exact hu

/-- What the loop of `_parse` finds and leaves on any octets: TLVs in host order, and a swapped header
where it tried another one and refused it. -/
theorem parseTlvs_any (k : ℕ) (m : Mem) (p size : ℕ) (acc : List TlvRec) (hsize : size < 2 ^ 64) :
    ∃ ts, Scan m p size k ts ∧ (parseTlvs k p size acc).run m =
      ((acc ++ records p ts, p + tlvsSize ts, size - tlvsSize ts),
        if Tries size k ts then headerSwapped (blit m p (tlvsOctets .host ts)) (p + tlvsSize ts)
        else blit m p (tlvsOctets .host ts)) := by
  induction k generalizing m p size acc with
  | zero =>
    have hnil : ¬ Tries size 0 [] := fun h => Nat.not_lt_zero _ h.1
    refine ⟨[], scan_nil fun h => absurd h hnil, ?_⟩
    rw [if_neg hnil]
    simp [parseTlvs, records]
  | succ k ih =>
    rw [parseTlvs]
    by_cases hgt : size > tlvHdr
    · rw [if_pos hgt]
      by_cases hsome : ∃ t, TlvAt m p size t
      · obtain ⟨t, ht⟩ := hsome
        have hle := ht.2
        obtain ⟨ts, hscan, hrun⟩ := ih (blit m p (t.octets .host)) (p + t.size) (size - t.size)
          (acc ++ [⟨p, t.size, t.id⟩]) (by omega)
        have hblit : blit (blit m p (t.octets .host)) (p + t.size) (tlvsOctets .host ts) =
            blit m p (tlvsOctets .host (t :: ts)) := by
          rw [tlvsOctets_cons]
          exact blit_append_of_eq (by rw [Tlv.octets_length])
        refine ⟨t :: ts, scan_cons hgt ht hscan, ?_⟩
        rw [tlvsSize_cons, ← Nat.add_assoc, Nat.sub_add_eq, ← hblit, records, List.append_cons]
        simp only [run_bind, netToCpuTlv_some ht, if_neg t.id_valid, run_subSize hle hsize, hrun,
          tries_cons]
      · have hnil : Tries size (k + 1) [] := ⟨Nat.succ_pos _, hgt⟩
        refine ⟨[], scan_nil fun _ => hsome, ?_⟩
        rw [if_pos hnil]
        simp [netToCpuTlv_none hsome, records]
    · have hnil : ¬ Tries size (k + 1) [] := fun h => hgt h.2
      refine ⟨[], scan_nil fun h => absurd h hnil, ?_⟩
      rw [if_neg hgt, if_neg hnil]
      simp [records]

end Csptp
