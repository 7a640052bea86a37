import Csptp.Wire.Tlv
import Csptp.Message.Convert

/-! # The conversions of `msg.c` on messages as values

`netToCpuTlv` turns the network octets of a TLV into its host octets and `cpuToNetTlv` turns them
back, with a zero fill octet; the header likewise. Each switch case reverses the octets of some
fields, so both directions rest on one lemma for each TLV about these reversals. -/
namespace Csptp
open Octets Octets.Prog
set_option autoImplicit false

theorem makeEven_of_lt {n : ℕ} (h : n < 2 ^ 63) : makeEven n = n + n % 2 :=
  Nat.mod_eq_of_lt (by omega)

/-! ## Reversed fields -/

section Reversals
variable {m : Mem} {p : ℕ} {hdr : List Octet} (hl : hdr.length = 4)
include hl

theorem reverse_response {o : ByteOrder} {t : Response} (h : Holds m p (hdr ++ t.body o)) :
    reverseAt (reverseAt (reverseAt (reverseAt m (p + 12) 4) (p + 10) 2) (p + 16) 4) (p + 20) 8 =
      blit m p (hdr ++ t.body o.other) := by
  have horg := t.organizationId.property
  have hsub := t.organizationSubType.property
  simp only [Response.body, Timestamp.octets, holds_append, inOrder_length, List.length_append, hl,
    horg, hsub, Nat.add_assoc, Nat.reduceAdd, Nat.reduceDiv] at h
  apply eq_blit
  · simp only [Response.body, Timestamp.octets, holds_append, inOrder_length, List.length_append, hl,
      horg, hsub, Nat.add_assoc, Nat.reduceAdd, Nat.reduceDiv]
    simp (disch := first
      | omega
      | (simp only [inOrder_length]; done)
      | (simp only [inOrder_length, hl, horg, hsub]; omega)) only
      [holds_reverseAt_of_disjoint, holds_reverseAt_self, inOrder_reverse, ByteOrder.other_other]
    exact h
  · intro a ha
    simp only [Response.body, Timestamp.octets, List.length_append, hl, inOrder_length, horg,
      hsub] at ha
    simp (disch := omega) only [reverseAt_of_not_mem]

theorem reverse_status {o : ByteOrder} {t : Status} (h : Holds m p (hdr ++ t.body o)) :
    reverseAt (reverseAt (reverseAt (reverseAt (reverseAt m (p + 28) 2) (p + 30) 2) (p + 13) 2)
      (p + 16) 2) (p + 18) 2 = blit m p (hdr ++ t.body o.other) := by
  have horg := t.organizationId.property
  have hsub := t.organizationSubType.property
  have hgm := t.grandmasterIdentity.property
  simp only [Status.body, holds_append, inOrder_length, List.length_append, List.length_cons,
    List.length_nil, hl, horg, hsub, hgm, Nat.add_assoc, Nat.reduceAdd, Nat.reduceDiv] at h
  apply eq_blit
  · simp only [Status.body, holds_append, inOrder_length, List.length_append, List.length_cons,
      List.length_nil, hl, horg, hsub, hgm, Nat.add_assoc, Nat.reduceAdd, Nat.reduceDiv]
    simp (disch := first
      | omega
      | (simp only [inOrder_length]; done)
      | (simp only [inOrder_length, hl, horg, hsub, hgm, List.length_cons, List.length_nil]; omega))
      only [holds_reverseAt_of_disjoint, holds_reverseAt_self, inOrder_reverse,
        ByteOrder.other_other]
    exact h
  · intro a ha
    simp only [Status.body, List.length_append, List.length_cons, List.length_nil, hl,
      inOrder_length, horg, hsub, hgm] at ha
    simp (disch := omega) only [reverseAt_of_not_mem]

theorem reverse_altTime {o : ByteOrder} {t : AltTime} (h : Holds m p (hdr ++ t.body o)) :
    reverseAt (reverseAt (reverseAt (reverseAt m (p + 5) 4) (p + 9) 4) (p + 15) 4) (p + 13) 2 =
      blit m p (hdr ++ t.body o.other) := by
  simp only [AltTime.body, holds_append, inOrder_length, List.length_append, List.length_cons,
    List.length_nil, hl, Nat.add_assoc, Nat.reduceAdd, Nat.reduceDiv] at h
  apply eq_blit
  · simp only [AltTime.body, holds_append, inOrder_length, List.length_append, List.length_cons,
      List.length_nil, hl, Nat.add_assoc, Nat.reduceAdd, Nat.reduceDiv]
    simp (disch := first
      | omega
      | (simp only [inOrder_length]; done)
      | (simp only [inOrder_length, hl, List.length_cons, List.length_nil]; omega)) only
      [holds_reverseAt_of_disjoint, holds_reverseAt_self, inOrder_reverse, ByteOrder.other_other]
    exact h
  · intro a ha
    simp only [AltTime.body, List.length_append, List.length_cons, List.length_nil, hl,
      inOrder_length] at ha
    simp (disch := omega) only [reverseAt_of_not_mem]

end Reversals

/-! ## Fields that the conversions read -/

section Fields
variable {m : Mem} {p : ℕ} {hdr : List Octet} (hl : hdr.length = 4) {o : ByteOrder}
include hl

theorem holds_nameLen {t : AltTime} (h : Holds m p (hdr ++ t.body o)) :
    Holds m (p + 19) [BitVec.ofNat 8 t.displayName.length] := by
  simp only [AltTime.body, holds_append, inOrder_length, List.length_append, List.length_cons,
    List.length_nil, hl, Nat.add_assoc, Nat.reduceAdd, Nat.reduceDiv] at h
  exact h.2.1.1.2

theorem holds_networkProtocol {t : Status} (h : Holds m p (hdr ++ t.body o)) :
    Holds m (p + 28) (inOrder o t.parentAddress.networkProtocol.code) ∧
      Holds m (p + 30)
        (inOrder o (BitVec.ofNat 16 (adderSize t.parentAddress.networkProtocol))) := by
  have horg := t.organizationId.property
  have hsub := t.organizationSubType.property
  have hgm := t.grandmasterIdentity.property
  simp only [Status.body, holds_append, inOrder_length, List.length_append, List.length_cons,
    List.length_nil, hl, horg, hsub, hgm, Nat.add_assoc, Nat.reduceAdd, Nat.reduceDiv] at h
  exact ⟨h.2.1.1.2, h.2.1.2⟩

end Fields

theorem AltTime.nameLen_toNat (t : AltTime) :
    (BitVec.ofNat 8 t.displayName.length).toNat = t.displayName.length := by
  rw [BitVec.toNat_ofNat]
  exact Nat.mod_eq_of_lt t.name_lt

theorem PortAddress.addressLength_toNat (a : PortAddress) :
    (BitVec.ofNat 16 (adderSize a.networkProtocol)).toNat = adderSize a.networkProtocol := by
  have := a.adderSize_le
  rw [BitVec.toNat_ofNat]
  exact Nat.mod_eq_of_lt (by omega)

/-! ## From network to host order -/

/-- The switch of `net_to_cpu_tlv` turns the body of a TLV into host order. -/
theorem run_netToCpuBody {m : Mem} {p : ℕ} {t : Tlv}
    (h : Holds m p (t.header .host ++ t.body .net)) :
    (netToCpuBody t.id p t.size (minTlvSize t.id)).run m =
      (true, blit m p (t.header .host ++ t.body .host)) := by
  cases t with
  | altTime t =>
    have hlt := t.name_lt
    have hn := ofOctets_region_octet (holds_nameLen (Tlv.header_length _ _) h)
    have hrev := reverse_altTime (Tlv.header_length _ _) h
    have hsz : altTimeSize t.displayName.length = 20 + makeEven t.displayName.length := by
      rw [altTimeSize, makeEven_of_lt (by omega)]
    simp only [Tlv.id, Tlv.size, Tlv.body, minTlvSize, netToCpuBody, netToCpuAltTime, netToCpu48,
      run_bind, run_load, Nat.reduceDiv, hn, t.nameLen_toNat, hsz, ne_eq, not_true_eq_false,
      if_false, run_pure, run_swapAt (w := 32) rfl, run_swapAt (w := 16) rfl, Nat.add_assoc,
      Nat.reduceAdd]
    exact Prod.ext rfl hrev
  | request flags => exact Prod.ext rfl h.blit_eq.symm
  | response t =>
    have hrev := reverse_response (Tlv.header_length _ _) h
    simp only [Tlv.id, Tlv.size, Tlv.body, minTlvSize, netToCpuBody, netToCpuResponse, netToCpuTs,
      netToCpu48, run_bind, ne_eq, not_true_eq_false, if_false, run_pure,
      run_swapAt (w := 32) rfl, run_swapAt (w := 16) rfl, run_swapAt (w := 64) rfl, Nat.add_assoc,
      Nat.reduceAdd, Nat.reduceDiv]
    exact Prod.ext rfl hrev
  | status t =>
    obtain ⟨hp, ha⟩ := holds_networkProtocol (Tlv.header_length _ _) h
    have hpos := t.parentAddress.adderSize_pos
    have hrev := reverse_status (Tlv.header_length _ _) h
    have hpv := swap_region_of_net (w := 16) rfl hp
    have hav := swap_region_of_net (w := 16) rfl ha
    have hstore := blit_other hp
    have hstore' := blit_other (m := reverseAt m (p + 28) 2)
      ((holds_reverseAt_of_disjoint (by omega)).mpr ha)
    have hn : adderSize t.parentAddress.networkProtocol ≠ 0 := by omega
    simp only [ByteOrder.other_net, Nat.reduceDiv] at hstore hstore'
    simp only [Tlv.id, Tlv.size, Tlv.body, minTlvSize, netToCpuBody, netToCpuStatus, run_bind,
      run_load, Nat.reduceDiv, hpv, hav, Prot.ofCode_code, t.parentAddress.addressLength_toNat, hn,
      ne_eq, not_true_eq_false, or_self, if_false, run_store, run_pure,
      run_swapAt (w := 16) rfl]
    rw [show octets t.parentAddress.networkProtocol.code =
      inOrder .host t.parentAddress.networkProtocol.code from rfl, hstore,
      show octets (BitVec.ofNat 16 (adderSize t.parentAddress.networkProtocol)) =
      inOrder .host (BitVec.ofNat 16 (adderSize t.parentAddress.networkProtocol)) from rfl, hstore']
    exact Prod.ext rfl hrev
  | pad data => exact Prod.ext rfl h.blit_eq.symm

theorem reverse_header {m : Mem} {p : ℕ} {o : ByteOrder} {t : Tlv} {l : List Octet}
    (h : Holds m p (t.header o ++ l)) :
    reverseAt (reverseAt m p 2) (p + 2) 2 = blit m p (t.header o.other ++ l) := by
  simp only [Tlv.header, holds_append, inOrder_length, List.length_append, Nat.reduceAdd,
    Nat.reduceDiv] at h
  apply eq_blit
  · simp only [Tlv.header, holds_append, inOrder_length, List.length_append, Nat.reduceAdd,
      Nat.reduceDiv]
    simp (disch := first
      | omega
      | (simp only [inOrder_length]; done)
      | (simp only [inOrder_length]; omega)) only
      [holds_reverseAt_of_disjoint, holds_reverseAt_self, inOrder_reverse, ByteOrder.other_other]
    exact h
  · intro a ha
    simp only [List.length_append, Tlv.header_length] at ha
    simp (disch := omega) only [reverseAt_of_not_mem]

theorem holds_header {m : Mem} {p : ℕ} {o : ByteOrder} {t : Tlv} {l : List Octet}
    (h : Holds m p (t.header o ++ l)) :
    Holds m p (inOrder o t.id.code) ∧ Holds m (p + 2) (inOrder o (BitVec.ofNat 16 (t.size - 4))) := by
  simp only [Tlv.header, holds_append, inOrder_length, Nat.reduceDiv] at h
  exact h.1

theorem Tlv.lengthField_toNat (t : Tlv) :
    (BitVec.ofNat 16 (t.size - 4)).toNat + tlvHdr = t.size := by
  have := t.four_le_size
  rw [BitVec.toNat_ofNat, Nat.mod_eq_of_lt t.size_lt, tlvHdr]
  omega

/-- `net_to_cpu_tlv` turns a TLV into host order, when its size is no more than what is left. -/
theorem run_netToCpuTlv {m : Mem} {p size : ℕ} {t : Tlv} (h : Holds m p (t.octets .net))
    (hs : t.size ≤ size) :
    (netToCpuTlv p size).run m = ((t.id, t.size), blit m p (t.octets .host)) := by
  obtain ⟨hid, hlen⟩ := holds_header h
  have hrev := reverse_header h
  have hid' := swap_region_of_net (w := 16) rfl hid
  have hlen' := swap_region_of_net (w := 16) rfl
    ((holds_reverseAt_of_disjoint (o := p) (n := 2) (.inl (le_refl _))).mpr hlen)
  have hbody : Holds (blit m p (t.header .host ++ t.body .net)) p
      (t.header .host ++ t.body .net) := holds_blit _ _ _
  have hmin := t.minTlvSize_le
  simp only [Nat.reduceDiv] at hid' hlen'
  simp only [netToCpuTlv, run_bind, run_swapAt (w := 16) rfl, Nat.reduceDiv, hid', hlen', hrev,
    ByteOrder.other_net, TlvTypeId.ofCode_code, t.lengthField_toNat, run_netToCpuBody hbody,
    if_neg t.minTlvSize_pos, if_neg (show ¬ t.size < minTlvSize t.id by omega),
    if_neg (show ¬ t.size > size by omega), run_pure, if_true]
  rw [blit_blit _ _ (by simp [Tlv.body_length])]
  rfl

/-! ## From host to network order -/

/-- The octet behind a name of odd length becomes zero. -/
theorem blit_fill {m : Mem} {p : ℕ} {hdr : List Octet} {o : ByteOrder} {t : AltTime}
    (hl : hdr.length = 4) (h : Holds m p (hdr ++ t.body o)) :
    (if isOdd t.displayName.length then blit m (p + 20 + t.displayName.length) [0] else m) =
      blit m p (hdr ++ t.zeroFill.body o) := by
  obtain ⟨pre, hpre, hbody, hzero⟩ : ∃ pre, pre.length = 16 + t.displayName.length ∧
      t.body o = pre ++ t.fill ∧ t.zeroFill.body o = pre ++ t.zeroFill.fill :=
    ⟨_, by simp only [List.length_append, inOrder_length, List.length_singleton], rfl, rfl⟩
  rw [hbody, ← List.append_assoc] at h
  rw [hzero, ← List.append_assoc]
  rcases Nat.mod_two_eq_zero_or_one t.displayName.length with he | ho
  · have hnil : t.fill = [] := List.eq_nil_of_length_eq_zero (t.fill_len.trans he)
    have hnil' : t.zeroFill.fill = [] := by simp [AltTime.zeroFill, he]
    rw [hnil] at h
    rw [if_neg (by simp [isOdd, he]), hnil', h.blit_eq]
  · have hsingle : t.zeroFill.fill = [0] := by simp [AltTime.zeroFill, ho]
    have hlen : (hdr ++ pre).length = 20 + t.displayName.length := by
      rw [List.length_append, hl, hpre]
      omega
    rw [if_pos (by simp [isOdd, ho]), hsingle, ← blit_append, (holds_append.mp h).1.blit_eq, hlen,
      Nat.add_assoc]

/-- The switch of `cpu_to_net_tlv` turns the body of a TLV into network order. -/
theorem run_cpuToNetBody {m : Mem} {p : ℕ} {t : Tlv} (h : Holds m p (t.octets .host)) :
    (cpuToNetBody t.id p t.size (minTlvSize t.id)).run m =
      (true, blit m p (t.header .host ++ t.zeroFill.body .net)) := by
  cases t with
  | altTime t =>
    have hlt := t.name_lt
    have hn := ofOctets_region_octet (holds_nameLen (Tlv.header_length _ _) h)
    have hfill := blit_fill (Tlv.header_length _ _) h
    have hrev := reverse_altTime (Tlv.header_length _ (.altTime t))
      (holds_blit m p ((Tlv.altTime t).header .host ++ t.zeroFill.body .host))
    have hsz : altTimeSize t.displayName.length = 20 + (if isOdd t.displayName.length
        then t.displayName.length + 1 else t.displayName.length) := by
      simp only [altTimeSize, isOdd, decide_eq_true_eq]
      split <;> omega
    simp only [Tlv.id, Tlv.size, minTlvSize, cpuToNetBody, cpuToNetAltTime, cpuToNet48, run_bind,
      run_load, Nat.reduceDiv, hn, t.nameLen_toNat, run_ite, ← hsz, ne_eq, not_true_eq_false,
      if_false, run_pure, run_store, octets_octet, run_swapAt (w := 32) rfl,
      run_swapAt (w := 16) rfl, Nat.add_assoc, Nat.reduceAdd]
    rw [blit_blit _ _ (by simp [AltTime.body, AltTime.zeroFill]), ← hfill] at hrev
    by_cases ho : isOdd t.displayName.length = true
    · rw [if_pos ho, Nat.add_assoc] at hrev
      rw [if_pos ho]
      exact Prod.ext rfl hrev
    · rw [if_neg ho] at hrev
      rw [if_neg ho]
      exact Prod.ext rfl hrev
  | request flags => exact Prod.ext rfl h.blit_eq.symm
  | response t =>
    have hrev := reverse_response (Tlv.header_length _ _) h
    simp only [Tlv.id, Tlv.size, minTlvSize, cpuToNetBody, cpuToNetResponse,
      cpuToNetTs, cpuToNet48, run_bind, ne_eq, not_true_eq_false, if_false, run_pure,
      run_swapAt (w := 32) rfl, run_swapAt (w := 16) rfl, run_swapAt (w := 64) rfl, Nat.add_assoc,
      Nat.reduceAdd, Nat.reduceDiv]
    exact Prod.ext rfl hrev
  | status t =>
    obtain ⟨hp, ha⟩ := holds_networkProtocol (Tlv.header_length _ _) h
    have hpos := t.parentAddress.adderSize_pos
    have hrev := reverse_status (Tlv.header_length _ _) h
    have hpv := ofOctets_region_of_host (w := 16) rfl hp
    have hav := ofOctets_region_of_host (w := 16) rfl ha
    have hstore := blit_other hp
    have hstore' := blit_other (m := reverseAt m (p + 28) 2)
      ((holds_reverseAt_of_disjoint (by omega)).mpr ha)
    have hn : adderSize t.parentAddress.networkProtocol ≠ 0 := by omega
    simp only [ByteOrder.other_host, Nat.reduceDiv] at hstore hstore'
    simp only [Tlv.id, Tlv.size, minTlvSize, cpuToNetBody, cpuToNetStatus, run_bind,
      run_load, Nat.reduceDiv, hpv, hav, Prot.ofCode_code, t.parentAddress.addressLength_toNat, hn,
      ne_eq, not_true_eq_false, or_self, if_false, run_store, run_pure,
      run_swapAt (w := 16) rfl, octets_swap_net _ (show 16 % 8 = 0 from rfl), hstore, hstore']
    exact Prod.ext rfl hrev
  | pad data => exact Prod.ext rfl h.blit_eq.symm

theorem run_cpuToNetTlv {m : Mem} {p : ℕ} {t : Tlv} (h : Holds m p (t.octets .host)) :
    (cpuToNetTlv t.id p t.size).run m = (true, blit m p (t.zeroFill.octets .net)) := by
  obtain ⟨hid, hlen⟩ := holds_header h
  have hid' := ofOctets_region_of_host (w := 16) rfl hid
  have hlen' := ofOctets_region_of_host (w := 16) rfl hlen
  have hmin := t.minTlvSize_le
  have hpos := t.minTlvSize_pos
  have hrev := reverse_header (holds_blit m p (t.header .host ++ t.zeroFill.body .net))
  obtain ⟨hidb, hlenb⟩ := holds_header (holds_blit m p (t.header .host ++ t.zeroFill.body .net))
  have hs1 := blit_other hidb
  have hs2 := blit_other ((holds_reverseAt_of_disjoint (o := p) (n := 2) (.inl (le_refl _))).mpr hlenb)
  simp only [Nat.reduceDiv, ByteOrder.other_host] at hid' hlen' hs1 hs2
  simp only [cpuToNetTlv, run_bind, run_load, Nat.reduceDiv, hid', hlen',
    t.lengthField_toNat, ne_eq, not_true_eq_false, or_self, if_false,
    if_neg (show ¬ (minTlvSize t.id = 0 ∨ t.size < minTlvSize t.id) by omega), run_cpuToNetBody h,
    if_true, run_store, run_pure, octets_swap_net _ (show 16 % 8 = 0 from rfl)]
  rw [show tlvHdr = 4 from rfl, hs1, hs2, hrev,
    blit_blit _ _ (by simp [Tlv.body_length])]
  simp only [Tlv.octets, Tlv.header, Tlv.zeroFill_id, Tlv.zeroFill_size, ByteOrder.other_host]

end Csptp
