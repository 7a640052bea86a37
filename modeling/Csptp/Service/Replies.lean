import Csptp.Service.Answer

/-! # What leaves the service

Every reply has the size of the request, and only a request gets replies. -/
namespace Csptp
open Octets Octets.Prog
set_option autoImplicit false

/-! ## The shape of a reply -/

/-- The TLVs of a Response Sync. -/
def answerTlvs (bufSize : ℕ) (clk : IfClk) (rxTs : Timespec) (tlvReqFlags0 : Octet) :
    Option (List Tlv) :=
  (startIn bufSize).bind fun ts =>
    (addTo bufSize (PtpMsg.getTlvSize .csptpResponse) (responseTlv clk rxTs) ts).bind fun ts =>
    (if tlvReqFlags0 &&& flags0ReqStatusTlv = 0 then some ts else
      addTo bufSize (PtpMsg.getCSPTPStatusTlvSize clk.networkProtocol) (statusTlv clk) ts).bind fun ts =>
    if tlvReqFlags0 &&& flags0ReqAlternateTimeTlv = 0 then some ts else
      addTo bufSize (PtpMsg.getTlvSize .alternateTimeOffsetIndicator) (altTimeTlv clk) ts

section Shape
variable {bufSize size : ℕ} {clk : IfClk} {params : PtpParams} {rxTs t2 : Timespec} {flags : Octet}

theorem respSync_eq :
    respSync bufSize clk params rxTs t2 flags size =
      t2.toTimestamp.bind fun ts2 => (answerTlvs bufSize clk rxTs flags).bind
        (finish bufSize { params with type := .sync, timestamp := ts2 } 0 size) := by
  simp only [respSync, composed, answerTlvs, Option.bind_assoc]

theorem respSync_eq_some {octs : List Octet}
    (h : respSync bufSize clk params rxTs t2 flags size = some octs) :
    ∃ ts2 ts, t2.toTimestamp = some ts2 ∧ answerTlvs bufSize clk rxTs flags = some ts ∧
      finish bufSize { params with type := .sync, timestamp := ts2 } 0 size ts = some octs := by
  rw [respSync_eq, Option.bind_eq_some_iff] at h
  obtain ⟨ts2, hts2, h⟩ := h
  obtain ⟨ts, hts, h⟩ := Option.bind_eq_some_iff.mp h
  exact ⟨ts2, ts, hts2, hts, h⟩

theorem followUp_eq_some {octs : List Octet} (h : followUp bufSize params t2 size = some octs) :
    ∃ ts2, t2.toTimestamp = some ts2 ∧
      finish bufSize { params with type := .followUp, timestamp := ts2 } 2 size [] = some octs := by
  rw [followUp, Option.bind_eq_some_iff] at h
  obtain ⟨ts2, hts2, h⟩ := h
  obtain ⟨ts, hts, h⟩ := Option.bind_eq_some_iff.mp h
  rw [startIn] at hts
  split at hts
  · rw [← Option.some.inj hts] at h
    exact ⟨ts2, hts2, h⟩
  · simp at hts

theorem mem_followUpReply {useTxTwoSteps net : Bool} {octs : List Octet}
    (h : octs ∈ followUpReply bufSize useTxTwoSteps params t2 net size) :
    followUp bufSize params t2 size = some octs := by
  rw [followUpReply] at h
  split at h
  · simp at h
  · cases hf : followUp bufSize params t2 size with
    | none => simp [hf] at h
    | some fu =>
      cases net with
      | false => simp [hf] at h
      | true =>
        simp only [hf, if_true, List.mem_singleton] at h
        rw [h]

theorem mem_replies {useTxTwoSteps : Bool} {inp : ServiceInput} {octs : List Octet}
    (h : octs ∈ replies bufSize clk useTxTwoSteps params rxTs inp flags size) :
    respSync bufSize clk params rxTs inp.now.toTimespec flags size = some octs ∨
      followUp bufSize params inp.now.toTimespec size = some octs := by
  rw [replies] at h
  cases hr : respSync bufSize clk params rxTs inp.now.toTimespec flags size with
  | none => simp [hr] at h
  | some resp =>
    simp only [hr] at h
    split at h
    · simp at h
    · rcases List.mem_cons.mp h with rfl | h
      · exact .inl rfl
      · exact .inr (mem_followUpReply h)

theorem replies_length {useTxTwoSteps : Bool} {inp : ServiceInput} {octs : List Octet}
    (hs : 0 < size) (h : octs ∈ replies bufSize clk useTxTwoSteps params rxTs inp flags size) :
    octs.length = size := by
  rcases mem_replies h with h | h
  · obtain ⟨ts2, ts, -, -, hfin⟩ := respSync_eq_some h
    exact finish_length hfin hs
  · obtain ⟨ts2, -, hfin⟩ := followUp_eq_some h
    exact finish_length hfin hs

end Shape

/-! ## One pass of the service -/

/-- What one pass sends. -/
def ServiceState.sent (useTxTwoSteps : Bool) (inp : ServiceInput) (st : ServiceState) :
    List Datagram := (ServiceState.mainFlow useTxTwoSteps inp st).2.2

theorem sent_of_idle (useTxTwoSteps : Bool) {inp : ServiceInput} (st : ServiceState)
    (h : inp.poll = .idle) : st.sent useTxTwoSteps inp = [] := by
  rw [ServiceState.sent, ServiceState.mainFlow, h]

theorem sent_of_ready (useTxTwoSteps : Bool) {inp : ServiceInput} (st : ServiceState)
    {arrival : Option Datagram} {rxNow : ClockReading} (h : inp.poll = .ready arrival rxNow) :
    st.sent useTxTwoSteps inp =
      if (ServiceState.receive arrival rxNow st).1 then
        (ServiceState.answer useTxTwoSteps inp (ServiceState.receive arrival rxNow st).2).2.2
      else [] := by
  rw [ServiceState.sent, ServiceState.mainFlow, h]
  dsimp only
  cases hr : (ServiceState.receive arrival rxNow st).1 with
  | false =>
    rw [Attempt.andThen_of_false hr]
    rfl
  | true =>
    have hcall : (Attempt.call (ServiceState.receive arrival rxNow) : Attempt _ Datagram) st =
        (true, (ServiceState.receive arrival rxNow st).2, []) := Prod.ext hr rfl
    rw [Attempt.andThen_of_true hcall]
    rfl

/-- The state after a datagram came in, whether or not its message is accepted. -/
theorem receive_of_ok {st : ServiceState} {arrival : Option Datagram} {rxNow : ClockReading}
    (hok : (recv st.buffer st.address arrival rxNow).ok = true) :
    let r := recv st.buffer st.address arrival rxNow
    let p := st.message.parse st.params r.buf
    ServiceState.receive arrival rxNow st = (p.ok, { st with
      address := r.address, rxTs := r.ts, message := p.self, params := p.params, buffer := p.buf }) := by
  dsimp only
  rw [ServiceState.receive, if_neg (by rw [hok]; simp)]

theorem replies_count (bufSize size : ℕ) (clk : IfClk) (params : PtpParams) (rxTs : Timespec)
    (flags : Octet) (useTxTwoSteps : Bool) (inp : ServiceInput) :
    (replies bufSize clk useTxTwoSteps params rxTs inp flags size).length ≤
        (if useTxTwoSteps then 2 else 1) ∧
      (inp.netRespSync = false →
        replies bufSize clk useTxTwoSteps params rxTs inp flags size = []) := by
  rw [replies]
  cases respSync bufSize clk params rxTs inp.now.toTimespec flags size with
  | none => exact ⟨Nat.zero_le _, fun _ => rfl⟩
  | some octs =>
    refine ⟨?_, fun h => if_pos h⟩
    dsimp only
    split
    · exact Nat.zero_le _
    · rw [List.length_cons, followUpReply]
      cases useTxTwoSteps with
      | false => simp
      | true =>
        cases followUp bufSize params inp.now.toTimespec size with
        | none => simp
        | some fu => cases inp.netFollowUp <;> simp

theorem repliesTo_count (bufSize size : ℕ) (clk : IfClk) (params : PtpParams) (rxTs : Timespec)
    (tlvReqFlags0 : Option Octet) (useTxTwoSteps : Bool) (inp : ServiceInput) :
    (repliesTo bufSize clk useTxTwoSteps params rxTs inp tlvReqFlags0 size).length ≤
        (if useTxTwoSteps then 2 else 1) ∧
      (inp.netRespSync = false →
        repliesTo bufSize clk useTxTwoSteps params rxTs inp tlvReqFlags0 size = []) := by
  by_cases htype : params.type = .sync
  · cases tlvReqFlags0 with
    | none =>
      rw [repliesTo_none]
      exact ⟨Nat.zero_le _, fun _ => rfl⟩
    | some flags =>
      rw [repliesTo_sync htype]
      exact replies_count _ _ _ _ _ _ _ _
  · rw [repliesTo_of_ne htype]
    exact ⟨Nat.zero_le _, fun _ => rfl⟩

theorem answer_shape (st : ServiceState) (useTxTwoSteps : Bool) (inp : ServiceInput)
    (hlen : 0 < st.buffer.len) :
    let out := (ServiceState.answer useTxTwoSteps inp st).2.2
    (∀ s ∈ out, s.addr = st.address ∧ s.octets.length = st.buffer.len) ∧
      out.length ≤ (if useTxTwoSteps then 2 else 1) ∧ (inp.netRespSync = false → out = []) ∧
      (st.params.type ≠ .sync ∨ ((rcvReqSync st.message.tlvs none).run st.buffer.mem).1 = none →
        out = []) := by
  dsimp only
  rw [answer_out]
  obtain ⟨hcount, hnet⟩ := repliesTo_count st.buffer.size st.buffer.len st.clockInfo st.params st.rxTs
    ((rcvReqSync st.message.tlvs none).run st.buffer.mem).1 useTxTwoSteps inp
  refine ⟨fun s hs => ?_, by rwa [List.length_map], fun h => by rw [hnet h, List.map_nil], ?_⟩
  · obtain ⟨octs, hmem, rfl⟩ := List.mem_map.mp hs
    obtain ⟨flags, -, -, hmem⟩ := mem_repliesTo hmem
    exact ⟨rfl, replies_length hlen hmem⟩
  · rintro (h | h)
    · rw [repliesTo_of_ne h, List.map_nil]
    · rw [h, repliesTo_none, List.map_nil]

end Csptp
