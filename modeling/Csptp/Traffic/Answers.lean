import Csptp.Client.Fresh
import Csptp.Exchange
import Csptp.Traffic.Parties

/-! # An answer at the client that asked

What a client hears of an answer is when its request came in and when the answer was sent, and it
hears the answer only under the number of the request. -/
namespace Csptp
open Octets Octets.Prog
set_option autoImplicit false

/-! ## Times on the wire -/

/-- A timestamp that was made of a time stands for that time. -/
theorem time_of_toTimestamp {t : Timespec} {ts : Timestamp} (hn : t.Normal)
    (h : t.toTimestamp = some ts) : ts.time = some t := by
  have hrange : t.InRange := by
    have hmax : uint48Max.toNat = 2 ^ 48 - 1 := rfl
    rw [Timespec.toTimestamp, hmax] at h
    split_ifs at h
    exact ⟨by omega, by omega⟩
  obtain ⟨ts', hts', hof, hlt⟩ := Timespec.toTimestamp_of_inRange hn hrange
  obtain rfl := Option.some.inj (hts'.symm.trans h)
  rw [Timestamp.time, if_pos hlt, hof]

theorem addTo_eq_some {bufSize need : ℕ} {t : Option Tlv} {ts us : List Tlv}
    (h : addTo bufSize need t ts = some us) : ∃ x, t = some x ∧ us = ts ++ [x] := by
  obtain ⟨x, hx, hus⟩ := Option.bind_eq_some_iff.mp h
  exact ⟨x, (Option.ite_none_right_eq_some.mp hx).2, (Option.some.inj hus).symm⟩

/-- An answer has one response, with the time when the request came in. -/
theorem answerTlvs_responseTime {bufSize : ℕ} {clk : IfClk} {rxTs : Timespec} {flags : Octet}
    {ts : List Tlv} (h : answerTlvs bufSize clk rxTs flags = some ts) :
    ∃ rx, rxTs.toTimestamp = some rx ∧ ts.filterMap Tlv.responseTime = [rx] := by
  obtain ⟨ts₀, h₀, h⟩ := Option.bind_eq_some_iff.mp h
  obtain ⟨ts₁, h₁, h⟩ := Option.bind_eq_some_iff.mp h
  obtain ⟨ts₂, h₂, h₃⟩ := Option.bind_eq_some_iff.mp h
  obtain ⟨x, hx, rfl⟩ := addTo_eq_some h₁
  obtain ⟨rx, hrx, rfl⟩ := Option.map_eq_some_iff.mp hx
  refine ⟨rx, hrx, ?_⟩
  have hresponse : (ts₀ ++ [Tlv.response ⟨clk.organizationId, clk.organizationSubType, rx, 0⟩]).filterMap
      Tlv.responseTime = [rx] := by
    rw [startIn_eq_some h₀]
    rfl
  have hskip {t : Option Tlv} {need : ℕ} {us vs : List Tlv} (hus : us.filterMap Tlv.responseTime = [rx])
      (ht : ∀ y, t = some y → y.responseTime = none) (hadd : addTo bufSize need t us = some vs) :
      vs.filterMap Tlv.responseTime = [rx] := by
    obtain ⟨y, hy, rfl⟩ := addTo_eq_some hadd
    rw [List.filterMap_append, hus, List.filterMap_cons_none (ht y hy)]
    rfl
  have hstatus : ∀ y, statusTlv clk = some y → y.responseTime = none := by
    intro y hy
    obtain ⟨a, -, rfl⟩ := Option.map_eq_some_iff.mp hy
    rfl
  have halt : ∀ y, altTimeTlv clk = some y → y.responseTime = none := by
    intro y hy
    obtain ⟨jump, -, hy⟩ := Option.bind_eq_some_iff.mp hy
    split at hy
    · rw [← Option.some.inj hy]
      rfl
    · simp at hy
  have hts₂ : ts₂.filterMap Tlv.responseTime = [rx] := by
    split at h₂
    · rwa [← Option.some.inj h₂]
    · exact hskip hresponse hstatus h₂
  split at h₃
  · rwa [← Option.some.inj h₃]
  · exact hskip hts₂ halt h₃

/-! ## Finished messages -/

/-- A finished message is well sized for every buffer, also where it is cut off. -/
theorem wellSized_wireOctets {params : PtpParams} {c : Octet} {ts : List Tlv} {n : ℕ}
    (hsize : n = 44 + tlvsSize ts ∨ 44 + tlvsSize ts + 4 ≤ n) (hlt : n < 2 ^ 16) (size : ℕ) :
    WellSized size (wireOctets params c ts n) := by
  intro hlong
  have hlen : (headerOctets .net params c (BitVec.ofNat 16 n)).length = 44 := headerOctets_length _ _ _ _
  have hroom : 44 ≤ size := by
    rw [List.length_take, msgSize] at hlong
    omega
  have hholds : Holds (fresh size (wireOctets params c ts n)) 0
      (headerOctets .net params c (BitVec.ofNat 16 n)) := by
    have hself := holds_blit (fun _ => 0) 0 ((wireOctets params c ts n).take size)
    rw [wireOctets, List.append_assoc, List.take_append, List.take_of_length_le (by omega)] at hself
    rw [fresh, wireOctets, List.append_assoc, List.take_append, List.take_of_length_le (by omega)]
    exact (holds_append.mp hself).1
  have hresult := netToCpuMsg_result (fresh size (wireOctets params c ts n))
  rw [run_netToCpuMsg hholds, BitVec.toNat_ofNat, Nat.mod_eq_of_lt hlt] at hresult
  rw [← hresult, msgSize]
  omega

theorem wellSized_of_finish {bufSize size : ℕ} {params : PtpParams} {c : Octet} {ts : List Tlv}
    {octs : List Octet} (h : finish bufSize params c size ts = some octs) (hpos : 0 < size)
    (hlt : size < 2 ^ 16) (rxSize : ℕ) : WellSized rxSize octs := by
  obtain ⟨hok, rfl⟩ := finish_eq_some h
  have hcases := finalSize_cases hok
  rw [finalSize_of_pos hpos] at hcases ⊢
  exact wellSized_wireOctets hcases hlt rxSize

theorem wellSized_of_replies {bufSize size : ℕ} {clk : IfClk} {useTxTwoSteps : Bool} {params : PtpParams}
    {rxTs : Timespec} {inp : ServiceInput} {flags : Octet} {octs : List Octet} (hpos : 0 < size)
    (hlt : size < 2 ^ 16) (h : octs ∈ replies bufSize clk useTxTwoSteps params rxTs inp flags size)
    (rxSize : ℕ) : WellSized rxSize octs := by
  rcases mem_replies h with h | h
  · obtain ⟨ts2, ts, -, -, hfin⟩ := respSync_eq_some h
    exact wellSized_of_finish hfin hpos hlt rxSize
  · obtain ⟨ts2, -, hfin⟩ := followUp_eq_some h
    exact wellSized_of_finish hfin hpos hlt rxSize

/-- A finished message is heard only with the number that is waited for. -/
theorem hears_eq_some {a : Awaited} {params : PtpParams} {c : Octet} {ts : List Tlv} {n : ℕ}
    {source : SockAddr} {now : ClockReading} {h : Heard}
    (hheard : a.hears (.ready (some ⟨source, wireOctets params c ts n⟩) now) = some h)
    (hc : params.type.controlField = some c) (hf : params.flagField2.toNat < 64) (hts : AddableTlvs ts)
    (hsize : n = 44 + tlvsSize ts ∨ 44 + tlvsSize ts + 4 ≤ n) (hle : n ≤ a.bufSize)
    (hbuf : a.bufSize < 2 ^ 16) :
    params.sequenceId = a.sequenceId ∧
      h = heardAs params (ts.filterMap Tlv.responseTime) now.toTimespec := by
  have hlen : (wireOctets params c ts n).length = n := wireOctets_length hsize
  obtain ⟨r, hr, -⟩ := Option.map_eq_some_iff.mp hheard
  obtain ⟨hfam, haddr, hdec, hseq, hdomain⟩ := Awaited.accepts_eq_some hr
  obtain ⟨r', pads, hdec', hparams, -⟩ := decode_finished
    (show wireOctets params c ts n = wireOctets params c ts (wireOctets params c ts n).length by rw [hlen])
    (show (wireOctets params c ts n).length ≤ a.bufSize by omega) (by omega) (by omega) hc hf hts.1
    (fun t ht => (hts.2 t ht).lt_size) (by omega)
  obtain rfl := Option.some.inj (hdec'.symm.trans hdec)
  rw [hparams] at hseq hdomain
  obtain ⟨-, heard⟩ := hears_finished a params now hfam haddr hseq hdomain hc hf hts hsize hle hbuf
  exact ⟨hseq, Option.some.inj (hheard.symm.trans heard)⟩

/-! ## Requests -/

section Requests
variable {opt : ClientOpt} {st : ClientState} (hp : st.setting.Prepared opt)
include hp

/-- A client sends Request Syncs and Follow_Ups under the number of its call. -/
theorem mem_requests {sID : BitVec 16} {inp : FlowInput} {octs : List Octet}
    (h : octs ∈ requests st.buffer.size st.params sID st.tlvReqFlags0 st.size opt.useTwoSteps inp) :
    (∃ ts1, octs = wireOctets { st.params with type := .sync, sequenceId := sID, timestamp := ts1 } 0
        [.request (requestFlags (clientSetTxParams opt).2)] st.size) ∨
      octs = wireOctets { st.params with
        type := .followUp, sequenceId := sID, timestamp := ⟨⟨0, 0⟩, 0⟩ } 2 [] st.size := by
  obtain ⟨hlow, -, heven⟩ := hp.size_spec
  have hroom : 56 ≤ st.size := le_trans (by omega) hlow
  have heven : st.size % 2 = 0 := heven
  have hbuf : st.buffer.size = st.size := hp.bufSize
  have hflags : st.tlvReqFlags0 = (clientSetTxParams opt).2 := hp.tlvReqFlags0
  rw [requests, hbuf, hflags] at h
  cases ht1 : inp.now.toTimespec.toTimestamp with
  | none =>
    rw [reqSync, ht1] at h
    exact absurd h List.not_mem_nil
  | some ts1 =>
    rw [reqSync_of_room st.params sID ht1 _ hroom heven] at h
    dsimp only at h
    split at h
    · exact absurd h List.not_mem_nil
    · rcases List.mem_cons.mp h with h | h
      · exact .inl ⟨ts1, h⟩
      · rw [reqFollowUps, reqFollowUp_of_room st.params sID hroom heven] at h
        dsimp only at h
        split_ifs at h
        · exact absurd h List.not_mem_nil
        · exact .inr (List.mem_singleton.mp h)
        · exact absurd h List.not_mem_nil

theorem wellSized_of_requests {sID : BitVec 16} {inp : FlowInput} {octs : List Octet}
    (h : octs ∈ requests st.buffer.size st.params sID st.tlvReqFlags0 st.size opt.useTwoSteps inp)
    (rxSize : ℕ) : WellSized rxSize octs := by
  obtain ⟨hlow, hhigh, -⟩ := hp.size_spec
  have hsize : 82 ≤ st.size ∧ st.size ≤ 160 := ⟨hlow, hhigh⟩
  have htlvs : tlvsSize [.request (requestFlags (clientSetTxParams opt).2)] = 8 := rfl
  rcases mem_requests hp h with ⟨ts1, rfl⟩ | rfl
  · exact wellSized_wireOctets (.inr (by omega)) (by omega) rxSize
  · exact wellSized_wireOctets (.inr (by rw [tlvsSize_nil]; omega)) (by omega) rxSize

end Requests

/-- A service takes these octets for a Request Sync with this number. -/
def asks (sID : BitVec 16) (octs : List Octet) : Bool :=
  (decode serviceBufSize octs).any fun r => r.params.type = .sync ∧ r.params.sequenceId = sID

section Asking
variable {opt : ClientOpt} {st : ClientState} (hp : st.setting.Prepared opt)
include hp

theorem asks_sync (sID n : BitVec 16) (ts1 : Timestamp) :
    asks sID (wireOctets { st.params with type := .sync, sequenceId := n, timestamp := ts1 } 0
      [.request (requestFlags (clientSetTxParams opt).2)] st.size) = decide (n = sID) := by
  obtain ⟨hlow, hhigh, -⟩ := hp.size_spec
  have hsize : 82 ≤ st.size ∧ st.size ≤ 160 := ⟨hlow, hhigh⟩
  have hf : ({ st.params with sequenceId := n, timestamp := ts1 } : PtpParams).flagField2.toNat < 64 := by
    rw [show st.params.flagField2 = 0 from hp.flagField2]
    decide
  obtain ⟨-, -, r, hdec, hparams, -⟩ := decode_request serviceBufSize hf (clientFlags opt).2.2
    (show 56 ≤ st.size by omega) (show st.size ≤ 256 by omega) (by decide)
  dsimp only at hdec hparams
  rw [asks, hdec, Option.any_some, hparams]
  simp

theorem asks_followUp (sID n : BitVec 16) :
    asks sID (wireOctets { st.params with
      type := .followUp, sequenceId := n, timestamp := ⟨⟨0, 0⟩, 0⟩ } 2 [] st.size) = false := by
  obtain ⟨hlow, hhigh, -⟩ := hp.size_spec
  have hsize : 82 ≤ st.size ∧ st.size ≤ 160 := ⟨hlow, hhigh⟩
  have h256 : serviceBufSize = 256 := rfl
  set params : PtpParams :=
    { st.params with type := .followUp, sequenceId := n, timestamp := ⟨⟨0, 0⟩, 0⟩ } with hparams
  have hf : params.flagField2.toNat < 64 := by
    rw [show params.flagField2 = 0 from hp.flagField2]
    decide
  have hroom : st.size = 44 + tlvsSize [] ∨ 44 + tlvsSize [] + 4 ≤ st.size := by
    rw [tlvsSize_nil]
    omega
  have hlen : (wireOctets params 2 [] st.size).length = st.size := wireOctets_length hroom
  obtain ⟨r, pads, hdec, hr, -⟩ := decode_finished
    (show wireOctets params 2 [] st.size = wireOctets params 2 [] (wireOctets params 2 [] st.size).length by
      rw [hlen])
    (show (wireOctets params 2 [] st.size).length ≤ serviceBufSize by omega) (by omega) (by omega) rfl hf
    (Nat.zero_le _) (fun t ht => absurd ht List.not_mem_nil) (by omega)
  rw [asks, hdec, Option.any_some, hr]
  rfl

/-- A call asks once, under its number. -/
theorem requests_ask (sID n : BitVec 16) (inp : FlowInput) :
    (requests st.buffer.size st.params n st.tlvReqFlags0 st.size opt.useTwoSteps inp).countP (asks sID) ≤
      if n = sID then 1 else 0 := by
  obtain ⟨hlow, -, heven⟩ := hp.size_spec
  have hroom : 56 ≤ st.size := le_trans (by omega) hlow
  have heven : st.size % 2 = 0 := heven
  have hbuf : st.buffer.size = st.size := hp.bufSize
  have hflags : st.tlvReqFlags0 = (clientSetTxParams opt).2 := hp.tlvReqFlags0
  have hfollowUp (net : Bool) :
      (reqFollowUps st.size st.params n st.size opt.useTwoSteps net).countP (asks sID) = 0 := by
    rw [reqFollowUps, reqFollowUp_of_room st.params n hroom heven]
    dsimp only
    split_ifs
    · rfl
    · rw [List.countP_singleton, asks_followUp hp]
      rfl
    · rfl
  rw [requests, hbuf, hflags]
  cases ht1 : inp.now.toTimespec.toTimestamp with
  | none =>
    rw [reqSync, ht1]
    exact Nat.zero_le _
  | some ts1 =>
    rw [reqSync_of_room st.params n ht1 _ hroom heven]
    dsimp only
    split
    · exact Nat.zero_le _
    · rw [List.countP_cons, hfollowUp, asks_sync hp]
      simp

end Asking

/-! ## Answers -/

/-- What a client hears of an answer: the request came in at `rx`, the answer was sent at `tx` and it
arrived at `arrival`. -/
inductive Heard.Of (rx tx arrival : Timespec) : Heard → Prop
  | sync {oneStep : Bool} {ts2 ts1 : Timestamp} (htx : ts2.time = some tx) (hrx : ts1.time = some rx) :
      Heard.Of rx tx arrival (.sync oneStep ts2 [ts1] arrival)
  | followUp {ts2 : Timestamp} (htx : ts2.time = some tx) : Heard.Of rx tx arrival (.followUp ts2)

/-- These octets are an answer under this number to a request of `size` octets. -/
def AnswerOctets (size : ℕ) (sID : BitVec 16) (rx tx : Timespec) (octs : List Octet) : Prop :=
  ∀ (a : Awaited) (source : SockAddr) (arrival : ClockReading) (h : Heard), a.bufSize = size →
    a.hears (.ready (some ⟨source, octs⟩) arrival) = some h →
    a.sequenceId = sID ∧ Heard.Of rx tx arrival.toTimespec h

theorem answerOctets_of_replies {clk : IfClk} {useTxTwoSteps : Bool} {params : PtpParams}
    {rxNow : ClockReading} {inp : ServiceInput} {flags : Octet} {size : ℕ} {octs : List Octet}
    (hpos : 0 < size) (hlt : size < 2 ^ 16) (hf : params.flagField2.toNat < 64) {bufSize : ℕ}
    (h : octs ∈ replies bufSize clk useTxTwoSteps params rxNow.toTimespec inp flags size) :
    AnswerOctets size params.sequenceId rxNow.toTimespec inp.now.toTimespec octs := by
  rcases mem_replies h with h | h
  · obtain ⟨ts2, ts, hts2, hts, hfin⟩ := respSync_eq_some h
    obtain ⟨hok, rfl⟩ := finish_eq_some hfin
    have hcases := finalSize_cases hok
    rw [finalSize_of_pos hpos] at hcases ⊢
    obtain ⟨rx, hrx, hresponses⟩ := answerTlvs_responseTime hts
    intro a source arrival x ha hx
    obtain ⟨hseq, rfl⟩ := hears_eq_some hx rfl hf (answerTlvs_addable hts) hcases (by omega) (by omega)
    rw [hresponses]
    exact ⟨hseq.symm, .sync (time_of_toTimestamp inp.now.normal hts2)
      (time_of_toTimestamp rxNow.normal hrx)⟩
  · obtain ⟨ts2, hts2, hfin⟩ := followUp_eq_some h
    obtain ⟨hok, rfl⟩ := finish_eq_some hfin
    have hcases := finalSize_cases hok
    rw [finalSize_of_pos hpos] at hcases ⊢
    intro a source arrival x ha hx
    obtain ⟨hseq, rfl⟩ := hears_eq_some hx rfl hf
      ⟨Nat.zero_le _, fun t ht => absurd ht List.not_mem_nil⟩ hcases (by omega) (by omega)
    exact ⟨hseq.symm, .followUp (time_of_toTimestamp inp.now.normal hts2)⟩

section Answered
variable {opt : ClientOpt} {st : ClientState} (hp : st.setting.Prepared opt)
include hp

/-- What a service sends for a request of a client is an answer, back to where the request came from. -/
theorem answer_of_request {svc : ServiceState} (hbuf : svc.buffer.size = serviceBufSize)
    {useTxTwoSteps : Bool} {sID : BitVec 16} {inp : FlowInput} {octs : List Octet}
    (hreq : octs ∈ requests st.buffer.size st.params sID st.tlvReqFlags0 st.size opt.useTwoSteps inp)
    {rep : ServiceInput} {src : SockAddr} {rxNow : ClockReading}
    (hpoll : rep.poll = .ready (some ⟨src, octs⟩) rxNow) {d : Datagram}
    (hd : d ∈ svc.sent useTxTwoSteps rep) :
    d.addr = src ∧
      (∃ ts1, octs = wireOctets { st.params with type := .sync, sequenceId := sID, timestamp := ts1 } 0
        [.request (requestFlags (clientSetTxParams opt).2)] st.size) ∧
      AnswerOctets st.size sID rxNow.toTimespec rep.now.toTimespec d.octets := by
  obtain ⟨hlow, hhigh, heven⟩ := hp.size_spec
  have hsize : 82 ≤ st.size ∧ st.size ≤ 160 ∧ st.size % 2 = 0 := ⟨hlow, hhigh, heven⟩
  have hf : st.params.flagField2.toNat < 64 := by
    rw [show st.params.flagField2 = 0 from hp.flagField2]
    decide
  have h256 : serviceBufSize = 256 := rfl
  rcases mem_requests hp hreq with ⟨ts1, hocts⟩ | hocts
  · have hreqParams : ({ st.params with sequenceId := sID, timestamp := ts1 } : PtpParams).flagField2.toNat <
        64 := hf
    obtain ⟨hlen, hw, r, hdec, hparams, hscan⟩ := decode_request svc.buffer.size hreqParams
      (clientFlags opt).2.2 (show 56 ≤ st.size by omega) (by omega) (by omega)
    have htake : (octs.take svc.buffer.size).length = st.size := by
      rw [hocts, List.take_of_length_le (hlen.trans_le (by omega)), hlen]
    rw [sent_eq svc useTxTwoSteps hpoll (by rw [hocts]; exact hw)] at hd
    split at hd
    · obtain ⟨reply, hreply, rfl⟩ := List.mem_map.mp hd
      rw [reaction, show decode svc.buffer.size octs = some r by rw [hocts]; exact hdec] at hreply
      dsimp only at hreply
      rw [hscan, hparams, repliesTo_sync rfl, htake] at hreply
      refine ⟨rfl, ⟨ts1, hocts⟩, ?_⟩
      exact answerOctets_of_replies (by omega) (by omega) (by exact hf) hreply
    · exact absurd hd List.not_mem_nil
  · have hinert := inert_followUp (show ({ st.params with
      type := .followUp, sequenceId := sID, timestamp := ⟨⟨0, 0⟩, 0⟩ } : PtpParams).type = .followUp from rfl)
      hf (show 56 ≤ st.size by omega) (by omega) (by omega)
    rw [← hocts] at hinert
    rw [hinert svc useTxTwoSteps rep src rxNow hbuf hpoll] at hd
    exact absurd hd List.not_mem_nil

end Answered

end Csptp
