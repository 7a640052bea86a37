import Csptp.Wire.Grammar
import Csptp.Wire.RoundTrip

/-! # Decode, then encode

`_buildDone` undoes what `_parse` did to the octets of a message, field by field, and puts a zero behind
each name of odd length. One thing it does not undo: the swapped header of a TLV that was refused, since
that TLV is not recorded. -/
namespace Csptp
open Octets Octets.Prog
set_option autoImplicit false

/-! ## The header -/

/-- Where an octet of the header comes from, and goes to, in its conversion. -/
def headerMirror (o : ℕ) : ℕ :=
  if 2 ≤ o ∧ o < 4 then 5 - o
  else if 8 ≤ o ∧ o < 16 then 23 - o
  else if 30 ≤ o ∧ o < 32 then 61 - o
  else if 34 ≤ o ∧ o < 36 then 69 - o
  else if 36 ≤ o ∧ o < 40 then 75 - o
  else if 40 ≤ o ∧ o < 44 then 83 - o
  else o

theorem headerMirror_lt {o : ℕ} : headerMirror o < 44 ↔ o < 44 := by
  rw [headerMirror]
  split_ifs <;> omega

theorem headerMirror_mirror (o : ℕ) : headerMirror (headerMirror o) = o := by
  by_cases ho : o < 44
  · have hall : ∀ o < 44, headerMirror (headerMirror o) = o := by decide
    exact hall o ho
  · have hid : headerMirror o = o := by
      rw [headerMirror]
      split_ifs <;> omega
    rw [hid, hid]

theorem headerReversed_apply (m : Mem) (o : ℕ) : headerReversed m o = m (headerMirror o) := by
  rw [headerMirror]
  split_ifs
  all_goals
    simp (disch := omega) only [headerReversed, reverseAt_of_not_mem, reverseAt_of_mem]
  all_goals
    congr 1
    omega

/-- `cpu_to_net_msg` with the received length undoes `net_to_cpu_msg`. -/
theorem run_cpuToNetMsg_restores {m n : Mem} (h : ∀ o, o < 44 → n o = headerReversed m o) (o : ℕ) :
    ((cpuToNetMsg (messageLength m)).run n).2 o = if o < 44 then m o else n o := by
  have hlt := messageLength_lt m
  have hlength : octets (swap (BitVec.ofNat 16 (messageLength m))) = (region n 2 2).reverse := by
    have hregion : (region n 2 2).reverse = region m 2 2 := by
      have h2 := h 2 (by omega)
      have h3 := h 3 (by omega)
      rw [headerReversed_apply] at h2 h3
      change [n 3, n 2] = [m 2, m 3]
      rw [h2, h3]
      rfl
    have hvalue : BitVec.ofNat 16 (messageLength m) = netWord 16 m 2 := by
      have hmsg := netToCpuMsg_result m
      simp only [netToCpuMsg, run_bind, run_pure, run_swapAt (w := 16) rfl] at hmsg
      rw [← hmsg, BitVec.ofNat_toNat, BitVec.setWidth_eq]
      rfl
    rw [hregion, hvalue, octets_swap_net _ rfl, inOrder_netWord rfl]
  have hrun : ((cpuToNetMsg (messageLength m)).run n).2 = headerReversed n := by
    simp only [cpuToNetMsg, cpuToNetTs, cpuToNet48, run_bind, run_store, run_pure, hlength,
      run_swapAt (w := 16) rfl, run_swapAt (w := 64) rfl, run_swapAt (w := 32) rfl, Nat.reduceAdd,
      Nat.reduceDiv]
    rfl
  rw [hrun, headerReversed_apply]
  split_ifs with ho
  · rw [h _ (headerMirror_lt.mpr ho), headerReversed_apply, headerMirror_mirror]
  · have hid : headerMirror o = o := by
      rw [headerMirror]
      split_ifs <;> omega
    rw [hid]

/-! ## The octets behind names -/

/-- The offset of the octet that is only there because a name of odd length is filled up. -/
def Tlv.fillOctet (a : ℕ) : Tlv → List ℕ
  | .altTime t => if isOdd t.displayName.length then [a + 20 + t.displayName.length] else []
  | _ => []

def fillOctets : ℕ → List Tlv → List ℕ
  | _, [] => []
  | a, t :: ts => t.fillOctet a ++ fillOctets (a + t.size) ts

/-- The memory with zeros at these offsets. -/
def cleared (m : Mem) (os : List ℕ) : Mem := fun o => if o ∈ os then 0 else m o

theorem blit_zero (m : Mem) (p : ℕ) : blit m p [0] = cleared m [p] := by
  funext o
  by_cases ho : o = p
  · rw [ho, blit_of_mem le_rfl (by simp), cleared, if_pos (List.mem_singleton_self p), Nat.sub_self]
    rfl
  · rw [blit_of_not_mem (by rw [List.length_singleton]; omega), cleared,
      if_neg (fun hmem => ho (List.mem_singleton.mp hmem))]

theorem cleared_nil (m : Mem) : cleared m [] = m := by
  funext o
  rw [cleared, if_neg List.not_mem_nil]

theorem cleared_append (m : Mem) (os qs : List ℕ) :
    cleared (cleared m os) qs = cleared m (os ++ qs) := by
  funext o
  simp only [cleared, List.mem_append]
  split_ifs <;> simp_all

theorem blit_zeroFill {m : Mem} {a : ℕ} {t : Tlv} (h : Holds m a (t.octets .net)) :
    blit m a (t.zeroFill.octets .net) = cleared m (t.fillOctet a) := by
  cases t with
  | altTime t =>
    have hfill := blit_fill (Tlv.header_length _ _) h
    rw [Tlv.fillOctet]
    change blit m a (Tlv.header .net (.altTime t) ++ t.zeroFill.body .net) = _
    rw [← hfill]
    split_ifs
    · exact blit_zero m _
    · exact (cleared_nil m).symm
  | _ => exact h.blit_eq.trans (cleared_nil m).symm

theorem blit_zeroFills {m : Mem} {a : ℕ} {ts : List Tlv} (h : Holds m a (tlvsOctets .net ts)) :
    blit m a (tlvsOctets .net (ts.map Tlv.zeroFill)) = cleared m (fillOctets a ts) := by
  induction ts generalizing m a with
  | nil =>
    rw [List.map_nil, tlvsOctets_nil, blit_nil]
    exact (cleared_nil m).symm
  | cons t ts ih =>
    rw [tlvsOctets_cons, holds_append, Tlv.octets_length] at h
    have hone := blit_zeroFill h.1
    have hrest : Holds (blit m a (t.zeroFill.octets .net)) (a + t.size) (tlvsOctets .net ts) :=
      h.2.blit_of_disjoint (by rw [Tlv.octets_length, Tlv.zeroFill_size]; omega)
    rw [List.map_cons, tlvsOctets_cons, ← blit_append, Tlv.octets_length, Tlv.zeroFill_size, ih hrest,
      hone, cleared_append, fillOctets]

theorem fillOctets_lt {a o : ℕ} {ts : List Tlv} (h : o ∈ fillOctets a ts) :
    a ≤ o ∧ o < a + tlvsSize ts := by
  induction ts generalizing a with
  | nil => exact absurd h List.not_mem_nil
  | cons t ts ih =>
    rw [tlvsSize_cons]
    rcases List.mem_append.mp h with h | h
    · cases t with
      | altTime t =>
        rw [Tlv.fillOctet] at h
        split_ifs at h with hodd
        · have hodd : t.displayName.length % 2 = 1 := of_decide_eq_true hodd
          rw [List.mem_singleton.mp h]
          simp only [Tlv.size, altTimeSize]
          omega
        · exact absurd h List.not_mem_nil
      | _ => exact absurd h List.not_mem_nil
    · have hrest := ih h
      omega

/-! ## The whole message -/

theorem headerSwapped_of_not_mem {m : Mem} {q o : ℕ} (h : o < q ∨ q + 4 ≤ o) :
    headerSwapped m q o = m o := by
  simp (disch := omega) only [headerSwapped, reverseAt_of_not_mem]

theorem headerSwapped_apply (m : Mem) (q : ℕ) :
    headerSwapped m q q = m (q + 1) ∧ headerSwapped m q (q + 1) = m q ∧
      headerSwapped m q (q + 2) = m (q + 3) ∧ headerSwapped m q (q + 3) = m (q + 2) := by
  have h0 : q + (q + 2 - 1 - q) = q + 1 := by omega
  have h1 : q + (q + 2 - 1 - (q + 1)) = q := by omega
  have h2 : q + 2 + (q + 2 + 2 - 1 - (q + 2)) = q + 3 := by omega
  have h3 : q + 2 + (q + 2 + 2 - 1 - (q + 3)) = q + 2 := by omega
  simp (disch := omega) only [headerSwapped, reverseAt_of_not_mem, reverseAt_of_mem, h0, h1, h2, h3,
    and_self]

theorem headerSwapped_congr {m n : Mem} {q o : ℕ} (h : ∀ a, q ≤ a → n a = m a) (ho : q ≤ o) :
    headerSwapped n q o = headerSwapped m q o := by
  obtain ⟨hm0, hm1, hm2, hm3⟩ := headerSwapped_apply m q
  obtain ⟨hn0, hn1, hn2, hn3⟩ := headerSwapped_apply n q
  have hcases : o = q ∨ o = q + 1 ∨ o = q + 2 ∨ o = q + 3 ∨ q + 4 ≤ o := by omega
  rcases hcases with rfl | rfl | rfl | rfl | hout
  · rw [hm0, hn0, h _ (by omega)]
  · rw [hm1, hn1, h _ le_rfl]
  · rw [hm2, hn2, h _ (by omega)]
  · rw [hm3, hn3, h _ (by omega)]
  · rw [headerSwapped_of_not_mem (.inr hout), headerSwapped_of_not_mem (.inr hout), h o ho]

/-- The octets that a message is left with when it has been parsed and built again. -/
def rebuiltMem (m : Mem) (ts : List Tlv) : Mem :=
  cleared (if Tries (tlvArea m) maxTlvs ts then headerSwapped m (44 + tlvsSize ts) else m)
    (fillOctets 44 ts)

theorem rebuilt_eq {m : Mem} {ts : List Tlv} (h : Holds m 44 (tlvsOctets .net ts)) :
    ((cpuToNetMsg (messageLength m)).run
      (blit (parsedMem m ts) 44 (tlvsOctets .net (ts.map Tlv.zeroFill)))).2 = rebuiltMem m ts := by
  have hlen : (tlvsOctets .net (ts.map Tlv.zeroFill)).length = tlvsSize ts := by
    rw [tlvsOctets_length, tlvsSize_zeroFill]
  have hlow (o : ℕ) (ho : o < 44) : parsedMem m ts o = headerReversed m o := by
    have hhost : blit (headerReversed m) 44 (tlvsOctets .host ts) o = headerReversed m o :=
      blit_of_not_mem (.inl ho)
    rw [parsedMem]
    split_ifs
    · rw [headerSwapped_of_not_mem (by omega), hhost]
    · exact hhost
  have hhigh (o : ℕ) (ho : 44 + tlvsSize ts ≤ o) :
      blit (headerReversed m) 44 (tlvsOctets .host ts) o = m o := by
    rw [blit_of_not_mem (.inr (by rw [tlvsOctets_length]; exact ho))]
    exact headerReversed_of_not_mem (by omega)
  have hfill (o : ℕ) (ho : o < 44 ∨ 44 + tlvsSize ts ≤ o) : o ∉ fillOctets 44 ts := by
    intro hmem
    have hrange := fillOctets_lt hmem
    omega
  funext o
  rw [run_cpuToNetMsg_restores fun o ho => (blit_of_not_mem (.inl ho)).trans (hlow o ho), rebuiltMem,
    cleared]
  by_cases ho : o < 44
  · rw [if_pos ho, if_neg (hfill o (.inl ho))]
    split_ifs
    · exact (headerSwapped_of_not_mem (.inl (by omega))).symm
    · rfl
  · rw [if_neg ho]
    by_cases hin : o < 44 + tlvsSize ts
    · have hblit : blit (parsedMem m ts) 44 (tlvsOctets .net (ts.map Tlv.zeroFill)) o =
          blit m 44 (tlvsOctets .net (ts.map Tlv.zeroFill)) o := by
        rw [blit_of_mem (by omega) (by omega), blit_of_mem (by omega) (by omega)]
      rw [hblit, blit_zeroFills h, cleared]
      split_ifs
      · rfl
      · exact (headerSwapped_of_not_mem (.inl hin)).symm
      · rfl
    · rw [blit_of_not_mem (by omega), if_neg (hfill o (by omega)), parsedMem]
      split_ifs
      · exact headerSwapped_congr hhigh (by omega)
      · exact hhigh o (by omega)

theorem buildDone_parsed {b : Buf} (type : MessageType) {ts : List Tlv}
    (h : Holds b.mem 44 (tlvsOctets .net ts)) :
    ((parsedMsg b type ts).buildDone 0 (b.withMem (parsedMem b.mem ts))).1 = true ∧
      ((parsedMsg b type ts).buildDone 0 (b.withMem (parsedMem b.mem ts))).2.2.mem =
        rebuiltMem b.mem ts := by
  have hconv := run_cpuToNetTlvs (holds_parsedMem b.mem ts)
  have hdone : (parsedMsg b type ts).buildDone 0 (b.withMem (parsedMem b.mem ts)) =
      (true, parsedMsg b type ts, ((b.withMem (rebuiltMem b.mem ts)).setLen
        (messageLength b.mem)).2) := by
    rw [← rebuilt_eq h]
    simp only [PtpMsg.buildDone, PtpMsg.buildSize, parsedMsg, Buf.withMem_mem, hconv, Nat.sub_self,
      if_true]
    rfl
  rw [hdone]
  exact ⟨rfl, Buf.setLen_mem _ _⟩

/-! ## What comes back -/

/-- Building a parsed message with size zero succeeds and brings back the octets that came in, up to the
octets behind names of odd length. -/
structure Restores (msg : PtpMsg) (prms : PtpParams) (b : Buf) : Prop where
  done : ((msg.parse prms b).self.buildDone 0 (msg.parse prms b).buf).1 = true
  octets : ∃ ts, (msg.parse prms b).self.tlvs = records 44 ts ∧ Holds b.mem 44 (tlvsOctets .net ts) ∧
    ∀ o, o < messageLength b.mem →
      ((msg.parse prms b).self.buildDone 0 (msg.parse prms b).buf).2.2.mem o =
        if o ∈ fillOctets 44 ts then 0 else b.mem o

/-- Behind fewer than four TLVs and in front of more than four octets of the message lies no TLV, and
the two octets of its type or of its length differ. -/
def RefusesUneven (m : Mem) : Prop :=
  ∃ ts, Scan m 44 (tlvArea m) maxTlvs ts ∧ Tries (tlvArea m) maxTlvs ts ∧
    (m (44 + tlvsSize ts) ≠ m (44 + tlvsSize ts + 1) ∨
      m (44 + tlvsSize ts + 2) ≠ m (44 + tlvsSize ts + 3))

theorem tlvsSize_of_records {a : ℕ} {ts us : List Tlv} (h : records a ts = records a us) :
    tlvsSize ts = tlvsSize us := by
  have hsizes (a : ℕ) (ts : List Tlv) : ((records a ts).map TlvRec.len).sum = tlvsSize ts := by
    induction ts generalizing a with
    | nil => rfl
    | cons t ts ih => rw [records, List.map_cons, List.sum_cons, ih, tlvsSize_cons]
  rw [← hsizes a ts, h, hsizes]

theorem not_mem_fillOctets {o : ℕ} {ts : List Tlv} (h : 44 + tlvsSize ts ≤ o) :
    o ∉ fillOctets 44 ts := by
  intro hmem
  have hrange := fillOctets_lt hmem
  omega

theorem rebuiltMem_tlvs {m : Mem} {ts : List Tlv} {o : ℕ} (h : o < 44 + tlvsSize ts) :
    rebuiltMem m ts o = if o ∈ fillOctets 44 ts then 0 else m o := by
  rw [rebuiltMem, cleared]
  split_ifs
  · rfl
  · exact headerSwapped_of_not_mem (.inl h)
  · rfl

/-- The octets behind the recorded TLVs come back exactly when no uneven header was refused. -/
theorem rebuiltMem_rest {m : Mem} {ts : List Tlv} (h : Scan m 44 (tlvArea m) maxTlvs ts) :
    (∀ o, 44 + tlvsSize ts ≤ o → o < messageLength m → rebuiltMem m ts o = m o) ↔
      ¬ RefusesUneven m := by
  obtain ⟨h0, h1, h2, h3⟩ := headerSwapped_apply m (44 + tlvsSize ts)
  constructor
  · rintro hback ⟨us, hus, htries, huneven⟩
    have hsize := hus.size_eq h
    have hlen := le_antisymm (h.length_le hus) (hus.length_le h)
    rw [Tries, hlen, hsize] at htries
    rw [hsize] at huneven
    have hroom := htries.2
    rw [tlvHdr, tlvArea] at hroom
    have hswapped (o : ℕ) (ho : 44 + tlvsSize ts ≤ o) (ho' : o < 44 + tlvsSize ts + 4) :
        headerSwapped m (44 + tlvsSize ts) o = m o := by
      have hone := hback o ho (by omega)
      rwa [rebuiltMem, cleared, if_neg (not_mem_fillOctets ho), if_pos (show Tries _ _ ts from htries)]
        at hone
    rcases huneven with hne | hne
    · exact hne ((hswapped _ le_rfl (by omega)).symm.trans h0)
    · exact hne ((hswapped _ (by omega) (by omega)).symm.trans h2)
  · intro heven o ho _
    rw [rebuiltMem, cleared, if_neg (not_mem_fillOctets ho)]
    split_ifs with htries
    · have hpairs : m (44 + tlvsSize ts) = m (44 + tlvsSize ts + 1) ∧
          m (44 + tlvsSize ts + 2) = m (44 + tlvsSize ts + 3) := by
        by_contra hne
        exact heven ⟨ts, h, htries, not_and_or.mp hne⟩
      have hcases : o = 44 + tlvsSize ts ∨ o = 44 + tlvsSize ts + 1 ∨ o = 44 + tlvsSize ts + 2 ∨
          o = 44 + tlvsSize ts + 3 ∨ 44 + tlvsSize ts + 4 ≤ o := by omega
      rcases hcases with rfl | rfl | rfl | rfl | hout
      · rw [h0, hpairs.1]
      · rw [h1, hpairs.1]
      · rw [h2, hpairs.2]
      · rw [h3, hpairs.2]
      · exact headerSwapped_of_not_mem (.inr hout)
    · rfl

/-- Decoding and encoding an accepted message brings back what came in, unless a TLV was refused whose
type or length has two different octets: those stay swapped. -/
theorem decode_encode_iff (msg : PtpMsg) (prms : PtpParams) {b : Buf}
    (hmin : msgSize ≤ messageLength b.mem) (hle : messageLength b.mem ≤ b.len)
    (hok : (msg.parse prms b).ok = true) : Restores msg prms b ↔ ¬ RefusesUneven b.mem := by
  obtain ⟨type, ts, hscan, hself, hbuf⟩ := (parse_any msg prms hmin hle).2 hok
  obtain ⟨hdone, hmem⟩ := buildDone_parsed type hscan.holds
  rw [← hself, ← hbuf] at hdone hmem
  rw [← rebuiltMem_rest hscan]
  constructor
  · rintro ⟨-, us, hrecords, -, hback⟩ o ho hlt
    rw [hself] at hrecords
    have hsize : tlvsSize ts = tlvsSize us := tlvsSize_of_records hrecords
    have hone := hback o hlt
    rwa [hmem, if_neg (not_mem_fillOctets (hsize ▸ ho))] at hone
  · intro hback
    refine ⟨hdone, ts, congrArg PtpMsg.tlvs hself, hscan.holds, fun o hlt => ?_⟩
    rw [hmem]
    by_cases ho : o < 44 + tlvsSize ts
    · exact rebuiltMem_tlvs ho
    · rw [hback o (by omega) hlt, if_neg (not_mem_fillOctets (by omega))]

section Sample

/-- A Sync with an unknown TLV of twelve octets. -/
def sampleUnknown : Buf where
  mem := blit (fun _ => 0) 0 (headerOctets .net .zero 0 56 ++ [0, 3, 0, 8, 1, 2, 3, 4, 5, 6, 7, 8])
  size := 64
  len := 64
  len_le := le_rfl
  size_lt := by norm_num

/-- Its type comes back with its octets swapped. -/
theorem decode_encode_fails :
    msgSize ≤ messageLength sampleUnknown.mem ∧
      messageLength sampleUnknown.mem ≤ sampleUnknown.len ∧
      (PtpMsg.detach.parse .zero sampleUnknown).ok = true ∧
      ¬ Restores .detach .zero sampleUnknown := by
  refine ⟨by decide +kernel, by decide +kernel, by decide +kernel, fun h => ?_⟩
  obtain ⟨ts, hrecords, -, hback⟩ := h.octets
  have hnil : (PtpMsg.detach.parse .zero sampleUnknown).self.tlvs = [] := by decide +kernel
  have hts : ts = [] := by
    have hlen := congrArg List.length hrecords
    rw [hnil, records_length] at hlen
    exact List.eq_nil_of_length_eq_zero hlen.symm
  have hone := hback 44 (by decide +kernel)
  rw [hts] at hone
  exact absurd hone (by decide +kernel)

/-- A request and a name of odd length, whose octet behind it is not zero. -/
theorem decode_encode_sample :
    Restores .detach .zero (sampleSync [.request (requestFlags 3), sampleZone]) := by
  refine (decode_encode_iff .detach .zero (by decide +kernel) (by decide +kernel)
    (by decide +kernel)).mpr ?_
  rintro ⟨ts, hscan, htries, -⟩
  have htiling : Tiling (sampleSync [.request (requestFlags 3), sampleZone]).mem 44
      (tlvArea (sampleSync [.request (requestFlags 3), sampleZone]).mem) maxTlvs
      [.request (requestFlags 3), sampleZone] :=
    ⟨by unfold Holds; decide +kernel, by decide +kernel, by decide⟩
  exact hscan.not_tries htiling (by decide +kernel) htries

end Sample

end Csptp
