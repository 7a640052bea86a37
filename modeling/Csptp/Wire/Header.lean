import Csptp.Wire.Conversion
import Csptp.Message.Object

/-! # The message header as a value

`headerOctets o` lists the 44 octets of a header whose words are in order `o`. `initHeader` writes
them, both conversions turn one order into the other, and `parseHeader` and `parseParams` read them
back. -/
namespace Csptp
open Octets Octets.Prog
set_option autoImplicit false

/-- The octets of a message header that carries these parameters and this length. -/
def headerOctets (o : ByteOrder) (p : PtpParams) (controlField : Octet) (len : BitVec 16) :
    List Octet :=
  [p.type.code ||| (majorSdoId <<< 4)] ++ [versionOctet] ++ inOrder o len ++ [p.domainNumber] ++
    [minorSdoId] ++ [unicastFlag ||| (if p.useTwoSteps then twoStepsFlag else 0#8)] ++
    [p.flagField2] ++ inOrder o p.correctionField ++ List.replicate 14 0#8 ++
    inOrder o p.sequenceId ++ [controlField] ++ [logIntervalUnicast] ++ p.timestamp.octets o

@[simp] theorem headerOctets_length (o : ByteOrder) (p : PtpParams) (c : Octet) (len : BitVec 16) :
    (headerOctets o p c len).length = 44 := by
  simp [headerOctets]

/-- The header of these parameters lies at the start of the memory, field by field. -/
structure HeaderFields (m : Mem) (o : ByteOrder) (p : PtpParams) (controlField : Octet)
    (len : BitVec 16) : Prop where
  first : Holds m 0 [p.type.code ||| (majorSdoId <<< 4)]
  version : Holds m 1 [versionOctet]
  messageLength : Holds m 2 (inOrder o len)
  domainNumber : Holds m 4 [p.domainNumber]
  minor : Holds m 5 [minorSdoId]
  flagField1 : Holds m 6 [unicastFlag ||| (if p.useTwoSteps then twoStepsFlag else 0#8)]
  flagField2 : Holds m 7 [p.flagField2]
  correctionField : Holds m 8 (inOrder o p.correctionField)
  zeros : Holds m 16 (List.replicate 14 0#8)
  sequenceId : Holds m 30 (inOrder o p.sequenceId)
  controlField : Holds m 32 [controlField]
  logMessageInterval : Holds m 33 [logIntervalUnicast]
  secondsHigh : Holds m 34 (inOrder o p.timestamp.secondsField.high)
  secondsLow : Holds m 36 (inOrder o p.timestamp.secondsField.low)
  nanoseconds : Holds m 40 (inOrder o p.timestamp.nanosecondsField)

theorem holds_headerOctets {m : Mem} {o : ByteOrder} {p : PtpParams} {c : Octet}
    {len : BitVec 16} : Holds m 0 (headerOctets o p c len) ↔ HeaderFields m o p c len := by
  simp only [headerOctets, Timestamp.octets, holds_append, inOrder_length, List.length_append,
    List.length_singleton, List.length_replicate, Nat.reduceAdd, Nat.reduceDiv, Nat.zero_add,
    and_assoc]
  constructor
  · rintro ⟨h1, h2, h3, h4, h5, h6, h7, h8, h9, h10, h11, h12, h13, h14, h15⟩
    exact ⟨h1, h2, h3, h4, h5, h6, h7, h8, h9, h10, h11, h12, h13, h14, h15⟩
  · intro h
    exact ⟨h.1, h.2, h.3, h.4, h.5, h.6, h.7, h.8, h.9, h.10, h.11, h.12, h.13, h.14, h.15⟩

/-! ## Writing the header -/

theorem holds_zeros {m : Mem} {b n o k : ℕ} (h : Holds m b (List.replicate n 0#8)) (hb : b ≤ o)
    (hk : o + k ≤ b + n) : Holds m o (List.replicate k 0#8) := by
  have hsplit : List.replicate n 0#8 = List.replicate (o - b) 0#8 ++
      (List.replicate k 0#8 ++ List.replicate (b + n - o - k) 0#8) := by
    rw [List.replicate_append_replicate, List.replicate_append_replicate]
    congr 1
    omega
  rw [hsplit, holds_append, holds_append, List.length_replicate, Nat.add_sub_cancel' hb] at h
  exact h.2.1

theorem run_initHeader (m : Mem) (p : PtpParams) (c : Octet) :
    (initHeader p c).run m = ((), blit m 0 (headerOctets .host p c 0)) := by
  have hz : Holds (blit m 0 (List.replicate 44 0#8)) 0 (List.replicate 44 0#8) := holds_blit _ _ _
  simp only [initHeader, msgSize, storeTimestamp, storeUint48, run_bind, run_store, run_memset,
    octets_octet, Prod.mk.injEq, true_and]
  apply eq_blit
  · -- a field that is stored keeps what was stored last, the others stay zero
    rw [holds_headerOctets]
    constructor
    case messageLength =>
      simp (disch := (simp only [octets_length, inOrder_length, List.length_singleton]; omega)) only
        [holds_blit_of_disjoint]
      exact holds_zeros hz (k := 2) (by omega) (by omega)
    case zeros =>
      simp (disch := (simp only [octets_length, List.length_replicate, List.length_singleton]; omega))
        only [holds_blit_of_disjoint]
      exact holds_zeros hz (by omega) (by omega)
    case nanoseconds => exact holds_blit _ _ _
    all_goals
      simp (disch := (simp only [octets_length, inOrder_length, List.length_singleton]; omega)) only
        [holds_blit_of_disjoint]
      exact holds_blit _ _ _
  · intro a ha
    rw [headerOctets_length] at ha
    simp (disch := (simp only [octets_length, List.length_replicate, List.length_singleton]; omega))
      only [blit_of_not_mem]

/-! ## Converting the header -/

theorem reverse_headerOctets {m : Mem} {o : ByteOrder} {p : PtpParams} {c : Octet}
    {len : BitVec 16} (h : Holds m 0 (headerOctets o p c len)) :
    reverseAt (reverseAt (reverseAt (reverseAt (reverseAt (reverseAt m 2 2) 8 8) 30 2) 36 4) 34 2)
      40 4 = blit m 0 (headerOctets o.other p c len) := by
  rw [holds_headerOctets] at h
  apply eq_blit
  · rw [holds_headerOctets]
    constructor
    all_goals
      simp (disch := first
        | omega
        | (simp only [inOrder_length]; done)
        | (simp only [inOrder_length, List.length_singleton, List.length_replicate]; omega)) only
        [holds_reverseAt_of_disjoint, holds_reverseAt_self, inOrder_reverse, ByteOrder.other_other]
    · exact h.first
    · exact h.version
    · exact h.messageLength
    · exact h.domainNumber
    · exact h.minor
    · exact h.flagField1
    · exact h.flagField2
    · exact h.correctionField
    · exact h.zeros
    · exact h.sequenceId
    · exact h.controlField
    · exact h.logMessageInterval
    · exact h.secondsHigh
    · exact h.secondsLow
    · exact h.nanoseconds
  · intro a ha
    rw [headerOctets_length] at ha
    simp (disch := omega) only [reverseAt_of_not_mem]

theorem run_netToCpuMsg {m : Mem} {p : PtpParams} {c : Octet} {len : BitVec 16}
    (h : Holds m 0 (headerOctets .net p c len)) :
    netToCpuMsg.run m = (len.toNat, blit m 0 (headerOctets .host p c len)) := by
  have hlen := swap_region_of_net (w := 16) rfl (holds_headerOctets.mp h).messageLength
  have hrev := reverse_headerOctets h
  simp only [netToCpuMsg, netToCpuTs, netToCpu48, run_bind, run_pure, run_swapAt (w := 16) rfl,
    run_swapAt (w := 64) rfl, run_swapAt (w := 32) rfl, Nat.reduceAdd, Nat.reduceDiv] at hlen ⊢
  rw [hlen, hrev, ByteOrder.other_net]

/-- The header is stored with its final length, whatever length it had. -/
theorem run_cpuToNetMsg {m : Mem} {p : PtpParams} {c : Octet} {len : BitVec 16}
    (h : Holds m 0 (headerOctets .host p c len)) (size : ℕ) :
    (cpuToNetMsg size).run m = ((), blit m 0 (headerOctets .net p c (BitVec.ofNat 16 size))) := by
  rw [holds_headerOctets] at h
  set m' := blit m 2 (inOrder .host (BitVec.ofNat 16 size)) with hm'
  have hh : Holds m' 0 (headerOctets .host p c (BitVec.ofNat 16 size)) := by
    rw [holds_headerOctets]
    constructor
    case messageLength => exact holds_blit _ _ _
    all_goals
      rw [hm', holds_blit_of_disjoint
        (by simp only [inOrder_length, List.length_singleton, List.length_replicate]; omega)]
    · exact h.first
    · exact h.version
    · exact h.domainNumber
    · exact h.minor
    · exact h.flagField1
    · exact h.flagField2
    · exact h.correctionField
    · exact h.zeros
    · exact h.sequenceId
    · exact h.controlField
    · exact h.logMessageInterval
    · exact h.secondsHigh
    · exact h.secondsLow
    · exact h.nanoseconds
  have hstore : blit m 2 (octets (swap (BitVec.ofNat 16 size))) = reverseAt m' 2 2 := by
    have hother := blit_other (holds_blit m 2 (inOrder .host (BitVec.ofNat 16 size)))
    rw [blit_blit _ _ (by simp)] at hother
    rw [octets_swap_net _ rfl]
    exact hother
  have hrev := reverse_headerOctets hh
  simp only [cpuToNetMsg, cpuToNetTs, cpuToNet48, run_bind, run_store, run_pure,
    run_swapAt (w := 16) rfl, run_swapAt (w := 64) rfl, run_swapAt (w := 32) rfl, Nat.reduceAdd,
    Nat.reduceDiv, hstore]
  rw [hrev, ByteOrder.other_host]
  simp only [Prod.mk.injEq, true_and, hm']
  apply blit_congr
  intro a ha
  rw [headerOctets_length] at ha
  exact blit_of_not_mem (by simp only [inOrder_length]; omega)

/-- Whatever lies in the header, its length field is known afterwards. -/
theorem run_cpuToNetMsg_any (m : Mem) (size : ℕ) :
    ∃ m', (cpuToNetMsg size).run m = ((), m') ∧ Holds m' 2 (inOrder .net (BitVec.ofNat 16 size)) ∧
      ∀ a, 44 ≤ a → m' a = m a := by
  simp only [cpuToNetMsg, cpuToNetTs, cpuToNet48, run_bind, run_store, run_pure,
    run_swapAt (w := 16) rfl, run_swapAt (w := 64) rfl, run_swapAt (w := 32) rfl, Nat.reduceAdd,
    Nat.reduceDiv, octets_swap_net _ (show 16 % 8 = 0 from rfl)]
  refine ⟨_, rfl, ?_, fun a ha => ?_⟩
  · simp (disch := simp) only [holds_reverseAt_of_disjoint]
    exact holds_blit _ _ _
  · simp (disch := omega) only [reverseAt_of_not_mem]
    exact blit_of_not_mem (by rw [inOrder_length]; omega)

/-! ## Reading the header -/

section Reading
variable {m : Mem} {p : PtpParams} {c : Octet} {len : BitVec 16}

theorem ofLow_code {type : MessageType} {c : Octet} (h : type.controlField = some c) :
    MessageType.ofLow ((type.code ||| (majorSdoId <<< 4)) &&& 0xf#8) = some type ∧
      (type.code ||| (majorSdoId <<< 4)) >>> 4 = majorSdoId := by
  cases type <;> simp_all [MessageType.controlField] <;> decide

theorem flagField1_unicast (useTwoSteps : Bool) :
    (unicastFlag ||| (if useTwoSteps then twoStepsFlag else 0#8)) &&& ~~~twoStepsFlag =
      unicastFlag := by
  cases useTwoSteps <;> rfl

theorem flagField1_twoSteps (useTwoSteps : Bool) :
    decide ((unicastFlag ||| (if useTwoSteps then twoStepsFlag else 0#8)) &&& twoStepsFlag =
      twoStepsFlag) = useTwoSteps := by
  cases useTwoSteps <;> rfl

/-- The two high bits of the second flag octet are the ones that a message must leave clear. -/
theorem flagField2_lt_iff : ∀ v : Octet, v &&& 0xc0#8 = 0 ↔ v.toNat < 64 := by decide +kernel

theorem run_parseHeader (h : HeaderFields m .host p c len) (ht : p.type.controlField = some c)
    (hf : p.flagField2.toNat < 64) : parseHeader.run m = (some p.type, m) := by
  have hfirst := ofOctets_region_octet h.first
  have hcontrol := ofOctets_region_octet h.controlField
  have hlog := ofOctets_region_octet h.logMessageInterval
  have hversion := ofOctets_region_octet h.version
  have hminor := ofOctets_region_octet h.minor
  have hflags0 := ofOctets_region_octet h.flagField1
  have hflags1 := ofOctets_region_octet h.flagField2
  have hclock : region m 20 8 = List.replicate 8 0#8 :=
    holds_zeros h.zeros (k := 8) (by omega) (by omega)
  have hport : region m 28 2 = List.replicate 2 0#8 :=
    holds_zeros h.zeros (k := 2) (by omega) (by omega)
  have hport' : ofOctets 16 (List.replicate 2 0#8) = 0 := rfl
  obtain ⟨hlow, hsdo⟩ := ofLow_code ht
  simp only [parseHeader, run_bind, run_load, run_loadOctets, Nat.reduceDiv, hfirst, hlow, hcontrol,
    hlog, hversion, hminor, hflags0, hflags1, hclock, hport, hport', hsdo, ht, flagField1_unicast,
    (flagField2_lt_iff _).mpr hf, ne_eq, not_true_eq_false, or_self, if_false, run_pure]

theorem run_parseParams (h : HeaderFields m .host p c len) :
    (parseParams p.type).run m = (p, m) := by
  have hflags0 := ofOctets_region_octet h.flagField1
  have hflags1 := ofOctets_region_octet h.flagField2
  have hcorrection := ofOctets_region_of_host (w := 64) rfl h.correctionField
  have hdomain := ofOctets_region_octet h.domainNumber
  have hseq := ofOctets_region_of_host (w := 16) rfl h.sequenceId
  have hhigh := ofOctets_region_of_host (w := 16) rfl h.secondsHigh
  have hlow := ofOctets_region_of_host (w := 32) rfl h.secondsLow
  have hnsec := ofOctets_region_of_host (w := 32) rfl h.nanoseconds
  simp only [Nat.reduceDiv] at hcorrection hseq hhigh hlow hnsec
  simp only [parseParams, loadTimestamp, loadUint48, run_bind, run_load, run_pure, Nat.reduceDiv,
    Nat.reduceAdd, hflags0, hflags1, hcorrection, hdomain, hseq, hhigh, hlow, hnsec,
    flagField1_twoSteps]

end Reading

/-! ## Reading any header -/

theorem ofLow_controlField {v : Octet} {type : MessageType} (h : MessageType.ofLow v = some type) :
    ∃ c, type.controlField = some c := by
  rw [MessageType.ofLow] at h
  split_ifs at h
  · exact ⟨0, by rw [← Option.some.inj h]; rfl⟩
  · exact ⟨2, by rw [← Option.some.inj h]; rfl⟩

theorem parseHeader_some {m : Mem} {type : MessageType} (h : (parseHeader.run m).1 = some type) :
    (parseHeader.run m).2 = m ∧ (m 7).toNat < 64 ∧ ∃ c, type.controlField = some c := by
  have hflags : ofOctets 8 (region m 7 1) = m 7 := ofOctets_region_octet rfl
  simp only [parseHeader, run_bind, run_load, Nat.reduceDiv] at h ⊢
  cases hlow : MessageType.ofLow (ofOctets 8 (region m 0 1) &&& 0xf#8) with
  | none => simp [hlow] at h
  | some t =>
    simp only [hlow, run_bind, run_load, run_loadOctets, run_ite, run_pure, Nat.reduceDiv] at h ⊢
    split_ifs at h ⊢ with h1 h2 h3 h4 h5 h6 h7 h8
    rw [← Option.some.inj h, hflags] at *
    refine ⟨rfl, (flagField2_lt_iff _).mp (not_not.mp h8), ofLow_controlField hlow⟩

theorem run_parseParams_fields (type : MessageType) (m : Mem) :
    ((parseParams type).run m).1.type = type ∧ ((parseParams type).run m).1.flagField2 = m 7 := by
  have hflags : ofOctets 8 (region m 7 1) = m 7 := ofOctets_region_octet rfl
  simp only [parseParams, loadTimestamp, loadUint48, run_bind, run_load, run_pure, Nat.reduceDiv,
    hflags, and_self]

end Csptp
