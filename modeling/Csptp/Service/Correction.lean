import Csptp.Service.Reaction
import Csptp.Wire.Layout

/-! # The correction field of the replies

`_parse` leaves the correction field of a request in the parameters of the service, and `sendRespSync`
and `sendFollowUp` start their messages from these. What the network added to a request on its way to
the service comes back with both replies. -/
namespace Csptp
open Octets Octets.Prog
set_option autoImplicit false

/-- The octets of the correction field in a message. -/
def correctionOctets (octs : List Octet) : List Octet := (octs.drop 8).take 8

/-- `correctionField = 0`, as the service state's comment on T2 has it for two steps. -/
def NoCorrection (octs : List Octet) : Prop := correctionOctets octs = List.replicate 8 0#8

instance (octs : List Octet) : Decidable (NoCorrection octs) :=
  inferInstanceAs (Decidable (_ = _))

/-! ## In the memory of a message -/

theorem region_of_holds {m : Mem} {o n : ℕ} {l : List Octet} (h : Holds m 0 l)
    (hle : o + n ≤ l.length) : region m o n = (l.drop o).take n := by
  have hsplit : l = l.take o ++ ((l.drop o).take n ++ l.drop (o + n)) := by
    rw [← List.drop_drop, List.take_append_drop, List.take_append_drop]
  rw [hsplit, holds_append, holds_append, List.length_take, Nat.zero_add,
    Nat.min_eq_left (by omega)] at h
  have hmid := h.2.1
  rwa [Holds, List.length_take, List.length_drop, Nat.min_eq_left (by omega)] at hmid

theorem correctionOctets_of_holds {m : Mem} {l : List Octet} (h : Holds m 0 l) (hlen : 16 ≤ l.length) :
    region m 8 8 = correctionOctets l := region_of_holds h hlen

/-- What a finished message has there is what its parameters say. -/
theorem correctionOctets_wireOctets (params : PtpParams) (c : Octet) (ts : List Tlv) (size : ℕ) :
    correctionOctets (wireOctets params c ts size) = inOrder .net params.correctionField := by
  obtain ⟨m, hholds⟩ : ∃ m, Holds m 0 (wireOctets params c ts size) :=
    ⟨_, holds_blit (fun _ => 0) 0 _⟩
  have hlen : 16 ≤ (wireOctets params c ts size).length := by
    rw [wireOctets, List.append_assoc, List.length_append, headerOctets_length]
    omega
  rw [← correctionOctets_of_holds hholds hlen]
  rw [wireOctets, List.append_assoc, holds_append] at hholds
  have hfield := (holds_headerOctets.mp hholds.1).correctionField
  rwa [Holds, inOrder_length] at hfield

theorem finish_correction {bufSize size : ℕ} {params : PtpParams} {c : Octet} {ts : List Tlv}
    {octs : List Octet} (h : finish bufSize params c size ts = some octs) :
    correctionOctets octs = inOrder .net params.correctionField := by
  obtain ⟨-, rfl⟩ := finish_eq_some h
  exact correctionOctets_wireOctets _ _ _ _

/-! ## From the request to the parameters -/

theorem region_headerReversed_correction (m : Mem) :
    region (headerReversed m) 8 8 = (region m 8 8).reverse := by
  rw [headerReversed]
  simp (disch := decide) only [region_reverseAt_of_disjoint, region_reverseAt_self]

theorem run_parseParams_correction (type : MessageType) (m : Mem) :
    ((parseParams type).run m).1.correctionField = ofOctets 64 (region m 8 8) := by
  simp only [parseParams, loadTimestamp, loadUint48, run_bind, run_load, run_pure, Nat.reduceDiv]

/-- The parameters of an accepted message have its correction field, also when its length does not
cover the header. -/
theorem parse_correction {self : PtpMsg} {params : PtpParams} {b : Buf}
    (h : (self.parse params b).ok = true) :
    inOrder .net (self.parse params b).params.correctionField = region b.mem 8 8 := by
  obtain ⟨hlen, hle, -⟩ := (parse_accepted self params b).1.mp h
  have hrun := run_parseMsg hlen hle
  cases hheader : (parseHeader.run (headerReversed b.mem)).1 with
  | none =>
    rw [hheader] at hrun
    rw [PtpMsg.parse_of_none _ _ (congrArg Prod.fst hrun)] at h
    exact absurd h (by simp)
  | some type =>
    rw [hheader] at hrun
    rw [PtpMsg.parse_of_some self params (congrArg Prod.fst hrun), run_parseParams_correction]
    obtain ⟨ts, -, hloop⟩ := parseTlvs_any maxTlvs (headerReversed b.mem) msgSize
      ((messageLength b.mem + 2 ^ 64 - msgSize) % 2 ^ 64) [] (Nat.mod_lt _ (by norm_num))
    -- the TLVs lie behind the header, and so does the one that was tried last
    have hkeep : region ((parseTlvs maxTlvs msgSize ((messageLength b.mem + 2 ^ 64 - msgSize) % 2 ^ 64)
        []).run (headerReversed b.mem)).2 8 8 = region (headerReversed b.mem) 8 8 := by
      rw [hloop]
      apply region_congr
      intro a ha ha'
      have hblit : blit (headerReversed b.mem) msgSize (tlvsOctets .host ts) a =
          headerReversed b.mem a := blit_of_not_mem (.inl (by rw [msgSize]; omega))
      dsimp only
      split
      · rw [headerSwapped, reverseAt_of_not_mem (.inl (by rw [msgSize]; omega)),
          reverseAt_of_not_mem (.inl (by rw [msgSize]; omega)), hblit]
      · exact hblit
    rw [hkeep, region_headerReversed_correction, inOrder, octets_ofOctets _ (by simp),
      List.reverse_reverse]

/-! ## From the parameters to the replies -/

section Replies
variable {bufSize size : ℕ} {clk : IfClk} {params : PtpParams} {rxTs t2 : Timespec}
  {octs : List Octet}

theorem respSync_correction {flags : Octet}
    (h : respSync bufSize clk params rxTs t2 flags size = some octs) :
    correctionOctets octs = inOrder .net params.correctionField := by
  obtain ⟨ts2, ts, -, -, hfin⟩ := respSync_eq_some h
  have hcorrection := finish_correction hfin
  exact hcorrection

theorem followUp_correction (h : followUp bufSize params t2 size = some octs) :
    correctionOctets octs = inOrder .net params.correctionField := by
  obtain ⟨ts2, -, hfin⟩ := followUp_eq_some h
  have hcorrection := finish_correction hfin
  exact hcorrection

theorem repliesTo_correction {useTxTwoSteps : Bool} {inp : ServiceInput} {tlvReqFlags0 : Option Octet}
    (h : octs ∈ repliesTo bufSize clk useTxTwoSteps params rxTs inp tlvReqFlags0 size) :
    correctionOctets octs = inOrder .net params.correctionField := by
  obtain ⟨flags, -, -, hmem⟩ := mem_repliesTo h
  rcases mem_replies hmem with hresp | hfu
  · have hcorrection := respSync_correction hresp
    exact hcorrection
  · have hcorrection := followUp_correction hfu
    exact hcorrection

end Replies

/-- Every reply has the correction field of the datagram that it answers. -/
theorem sent_correction {st : ServiceState} {useTxTwoSteps : Bool} {inp : ServiceInput} {d s : Datagram}
    {rxNow : ClockReading} (hpoll : inp.poll = .ready (some d) rxNow)
    (hs : s ∈ st.sent useTxTwoSteps inp) : correctionOctets s.octets = correctionOctets d.octets := by
  rw [sent_of_ready useTxTwoSteps st hpoll] at hs
  split at hs
  · rename_i hreceive
    have hok : (recv st.buffer st.address (some d) rxNow).ok = true := by
      by_contra hno
      rw [ServiceState.receive, if_pos (by simpa using hno)] at hreceive
      exact absurd hreceive (by simp)
    rw [receive_of_ok hok] at hs hreceive
    obtain ⟨d', hd', -, -, -, hdata⟩ := recv_true hok
    cases Option.some.inj hd'
    rw [answer_out] at hs
    obtain ⟨octs, hmem, rfl⟩ := List.mem_map.mp hs
    have hlen := ((parse_accepted _ _ _).1.mp hreceive).1
    have hmem8 : region (recv st.buffer st.address (some d) rxNow).buf.mem 8 8 =
        correctionOctets (d.octets.take st.buffer.size) := by
      rw [← hdata]
      refine correctionOctets_of_holds (holds_region _ _ _) ?_
      rw [Buf.data_length]
      exact le_trans (by decide) hlen
    have hsize : 44 ≤ (d.octets.take st.buffer.size).length := by
      rw [← hdata, Buf.data_length]
      exact hlen
    rw [List.length_take] at hsize
    rw [repliesTo_correction hmem, parse_correction hreceive, hmem8, correctionOctets, correctionOctets,
      List.drop_take, List.take_take, Nat.min_eq_left (by omega)]
  · exact absurd hs List.not_mem_nil

/-- In two-step mode the Response Sync and the Follow_Up have no correction exactly when the request
had none. -/
theorem two_steps_correction {st : ServiceState} {inp : ServiceInput} {d : Datagram}
    {rxNow : ClockReading} (hpoll : inp.poll = .ready (some d) rxNow)
    (hsent : st.sent true inp ≠ []) :
    (∀ s ∈ st.sent true inp, NoCorrection s.octets) ↔ NoCorrection d.octets := by
  constructor
  · intro hall
    obtain ⟨s, hs⟩ := List.exists_mem_of_ne_nil _ hsent
    have hzero := hall s hs
    rwa [NoCorrection, sent_correction hpoll hs] at hzero
  · intro hzero s hs
    rwa [NoCorrection, sent_correction hpoll hs]

section Sample

/-- A request with a correction of 7 gets it back twice. -/
theorem two_steps_correction_fails :
    (sampleService.sent true (sampleInput sampleDatagram)).length = 2 ∧
      ∀ s ∈ sampleService.sent true (sampleInput sampleDatagram), ¬ NoCorrection s.octets := by
  refine ⟨by decide +kernel, fun s hs => ?_⟩
  rw [NoCorrection, sent_correction rfl hs]
  decide +kernel

/-- The sample request without a correction. -/
def samplePlain : Datagram :=
  { addr := sampleDatagram.addr,
    octets := wireOctets { sampleParams with correctionField := 0 } 0 [.request (requestFlags 3)] 144 }

theorem two_steps_correction_sample :
    (sampleService.sent true (sampleInput samplePlain)).length = 2 ∧
      ∀ s ∈ sampleService.sent true (sampleInput samplePlain), NoCorrection s.octets := by
  have hlen : (sampleService.sent true (sampleInput samplePlain)).length = 2 := by decide +kernel
  have hsent : sampleService.sent true (sampleInput samplePlain) ≠ [] := by
    intro hnil
    rw [hnil] at hlen
    exact absurd hlen (by decide)
  have hpoll : (sampleInput samplePlain).poll = .ready (some samplePlain) (sampleTime 10) := rfl
  have hzero : NoCorrection samplePlain.octets := by decide +kernel
  exact ⟨hlen, (two_steps_correction hpoll hsent).mpr hzero⟩

end Sample

end Csptp
