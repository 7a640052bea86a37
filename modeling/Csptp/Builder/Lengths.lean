import Csptp.Builder.Runs

/-! # Length fields

A size is a `size_t` everywhere but on the wire, where the message and each of its TLVs have 16 bits for
it. The TLVs of a draft are never that long; the message is, and with it the PAD TLV, when the caller
asks for a size of 65536 or more. -/
namespace Csptp
open Octets Octets.Prog Runs
set_option autoImplicit false

/-- The TLVs from one offset on lead to another one by their own length fields. -/
inductive Walk (m : Mem) : ℕ → ℕ → Prop
  | done (p : ℕ) : Walk m p p
  | next {p e : ℕ} (h : Walk m (p + tlvHdr + (netWord 16 m (p + 2)).toNat) e) : Walk m p e

/-- The length of the data is in the header, and the TLVs lead there. -/
structure TruthfulLengths (b : Buf) : Prop where
  header : messageLength b.mem = b.len
  walk : Walk b.mem msgSize b.len

theorem netWord_messageLength (m : Mem) : (netWord 16 m 2).toNat = messageLength m := by
  rw [← netToCpuMsg_result m]
  simp only [netToCpuMsg, run_bind, run_pure, run_swapAt (w := 16) rfl]
  rfl

theorem messageLength_of_holds {m : Mem} {v : BitVec 16} (h : Holds m 2 (inOrder .net v)) :
    messageLength m = v.toNat := by
  have hword : netWord 16 m 2 = v := swap_region_of_net rfl h
  rw [← netWord_messageLength, hword]

/-! ## Walking -/

theorem walk_next {m : Mem} {p n e : ℕ} (hlen : Holds m (p + 2) (inOrder .net (BitVec.ofNat 16 n)))
    (hlt : n < 2 ^ 16) (h : Walk m (p + tlvHdr + n) e) : Walk m p e := by
  have hword : netWord 16 m (p + 2) = BitVec.ofNat 16 n := swap_region_of_net rfl hlen
  apply Walk.next
  rwa [hword, BitVec.toNat_ofNat, Nat.mod_eq_of_lt hlt]

theorem walk_tlvs {m : Mem} {p e : ℕ} {ts : List Tlv} (h : Holds m p (tlvsOctets .net ts))
    (hrest : Walk m (p + tlvsSize ts) e) : Walk m p e := by
  induction ts generalizing p with
  | nil => exact hrest
  | cons t ts ih =>
    rw [tlvsOctets_cons, holds_append, Tlv.octets_length] at h
    rw [tlvsSize_cons, ← Nat.add_assoc] at hrest
    have hfour := t.four_le_size
    refine walk_next (holds_header h.1).2 t.size_lt ?_
    rw [tlvHdr, show p + 4 + (t.size - 4) = p + t.size by omega]
    exact ih h.2 hrest

theorem walk_pad {m : Mem} {p padSz : ℕ} (h : Holds m p (padOctets padSz)) (hpad : 4 ≤ padSz)
    (hlt : padSz - 4 < 2 ^ 16) : Walk m p (p + padSz) := by
  rw [padOctets, holds_append, holds_append, inOrder_length] at h
  refine walk_next h.1.2 hlt ?_
  rw [tlvHdr, show p + 4 + (padSz - 4) = p + padSz by omega]
  exact .done _

/-! ## Finished messages -/

/-- The length fields of a finished draft are right exactly if its size fits into one. -/
theorem Draft.truthful_iff {msg : PtpMsg} {buf : Buf} {size : ℕ} (h : Draft msg buf)
    (hdone : (msg.buildDone size buf).1 = true) :
    TruthfulLengths (msg.buildDone size buf).2.2 ↔ finalSize msg.len size ≤ 65535 := by
  obtain ⟨ts, hfin⟩ := h.finishes hdone
  have hlen := hfin.len
  have hcases := hfin.final_cases
  constructor
  · intro htruthful
    have hlt := messageLength_lt (msg.buildDone size buf).2.2.mem
    rw [htruthful.header, hfin.bufLen] at hlt
    omega
  · intro hle
    refine ⟨?_, ?_⟩
    · rw [messageLength_of_holds hfin.header, hfin.bufLen, BitVec.toNat_ofNat]
      exact Nat.mod_eq_of_lt (by omega)
    · rw [hfin.bufLen]
      refine walk_tlvs hfin.net ?_
      rw [tlvsSize_zeroFill, msgSize, ← hlen]
      by_cases hsame : finalSize msg.len size = msg.len
      · rw [hsame]
        exact .done _
      · have hpad := walk_pad (hfin.pad hsame) (by omega) (by omega)
        rwa [show msg.len + (finalSize msg.len size - msg.len) = finalSize msg.len size by omega] at hpad

/-- Whatever was built, or read and built on: the length fields of a finished message are right exactly
if its size fits into one. -/
theorem truthful_of_run {calls : List BuildCall} {s : Build}
    (hrun : BuildRun (fun _ call => call.Whole) calls s) {size : ℕ}
    (hdone : (s.msg.buildDone size s.buf).1 = true) :
    TruthfulLengths (s.msg.buildDone size s.buf).2.2 ↔ finalSize s.msg.len size ≤ 65535 := by
  cases phase_of_run (fun _ _ h => h) hrun with
  | detached h =>
    rw [h] at hdone
    exact absurd hdone (by simp [PtpMsg.buildDone, PtpMsg.detach])
  | draft h => exact h.truthful_iff hdone
  | stuck h =>
    rw [h.buildDone_eq] at hdone
    exact absurd hdone (by simp)

section Sample

theorem wide_lt : 65536 < 2 ^ 64 := by norm_num

/-- A buffer of 65536 octets. -/
def wideBuf : Buf :=
  { mem := fun _ => 0, size := 65536, len := 0, len_le := Nat.zero_le _, size_lt := wide_lt }

theorem wide_draft : Draft (PtpMsg.detach.init sampleParams wideBuf).2.1
    (PtpMsg.detach.init sampleParams wideBuf).2.2 := init_draft (by decide +kernel)

/-- A message that is filled up to 65536 octets has a length field of zero. -/
theorem truthful_of_run_fails :
    bufferAlloc 65536 (fun _ => 0) wide_lt = some wideBuf ∧
      ∃ s, BuildRun (fun _ call => call.Whole) [.init sampleParams wideBuf] s ∧
        (s.msg.buildDone 65536 s.buf).1 = true ∧ ¬ TruthfulLengths (s.msg.buildDone 65536 s.buf).2.2 := by
  have hfresh : BuildRun (fun _ call => call.Whole) [] sampleFresh := Run.start ⟨rfl, rfl, rfl⟩
  have hinit := hfresh.next (.init sampleParams wideBuf) trivial trivial
  have hdone : ((PtpMsg.detach.init sampleParams wideBuf).2.1.buildDone 65536
      (PtpMsg.detach.init sampleParams wideBuf).2.2).1 = true := by
    rw [wide_draft.buildDone_iff]
    exact ⟨by decide +kernel, fun r hr => absurd hr List.not_mem_nil⟩
  refine ⟨rfl, _, hinit, hdone, fun htruthful => ?_⟩
  have hle := (wide_draft.truthful_iff hdone).mp htruthful
  rw [finalSize_of_pos (by norm_num)] at hle
  omega

theorem truthful_of_run_sample :
    ∃ calls s, BuildRun (fun _ call => call.Whole) calls s ∧ (s.msg.buildDone 96 s.buf).1 = true ∧
      (TruthfulLengths (s.msg.buildDone 96 s.buf).2.2 ↔ finalSize s.msg.len 96 ≤ 65535) := by
  have hfresh : BuildRun (fun _ call => call.Whole) [] sampleFresh := Run.start ⟨rfl, rfl, rfl⟩
  have hstarted := hfresh.next (.init sampleParams sampleBuf) trivial trivial
  have hasked : BuildRun (fun _ call => call.Whole) _ sampleAsked :=
    hstarted.next (.addCSPTPReqTlv 3) trivial trivial
  have hdone : (sampleAsked.msg.buildDone 96 sampleAsked.buf).1 = true := by decide +kernel
  exact ⟨_, sampleAsked, hasked, hdone, truthful_of_run hasked hdone⟩

end Sample

end Csptp
