import Csptp.Client.Main
import Csptp.Wire.RoundTrip

/-! # What the client sends

`reqSync` and `reqFollowUp` say which octets the client sends, as functions of its parameters, flags
and size, the time of sending and the size of the buffer. -/
namespace Csptp
open Octets Octets.Prog
set_option autoImplicit false

/-- A request behind these TLVs, if there is a place for it. -/
def addRequest (bufSize : ℕ) (flags : Octet) (ts : List Tlv) : Option (List Tlv) :=
  if ts.length < maxTlvs ∧ 44 + tlvsSize ts + csptpReq ≤ bufSize then
    some (ts ++ [.request (requestFlags flags)])
  else none

/-- The Request Sync. -/
def reqSync (bufSize : ℕ) (params : PtpParams) (sequenceId : BitVec 16) (t1 : Timespec) (flags : Octet)
    (size : ℕ) : Option (List Octet) :=
  t1.toTimestamp.bind fun ts1 => (startIn bufSize).bind fun ts => (addRequest bufSize flags ts).bind
    (finish bufSize { params with type := .sync, sequenceId := sequenceId, timestamp := ts1 } 0 size)

/-- The Follow_Up behind it. -/
def reqFollowUp (bufSize : ℕ) (params : PtpParams) (sequenceId : BitVec 16) (size : ℕ) :
    Option (List Octet) :=
  (startIn bufSize).bind
    (finish bufSize { params with
      type := .followUp, sequenceId := sequenceId, timestamp := ⟨⟨0, 0⟩, 0⟩ } 2 size)

/-- A Follow_Up fits where a Request Sync does. -/
theorem reqFollowUp_of_reqSync {bufSize size : ℕ} {params : PtpParams} {sequenceId : BitVec 16}
    {t1 : Timespec} {flags : Octet} {octs : List Octet}
    (h : reqSync bufSize params sequenceId t1 flags size = some octs) :
    ∃ fu, reqFollowUp bufSize params sequenceId size = some fu := by
  rw [reqSync, Option.bind_eq_some_iff] at h
  obtain ⟨ts1, -, h⟩ := h
  obtain ⟨ts, hts, h⟩ := Option.bind_eq_some_iff.mp h
  obtain ⟨us, hus, h⟩ := Option.bind_eq_some_iff.mp h
  have hnil := startIn_eq_some hts
  rw [addRequest, Option.ite_none_right_eq_some] at hus
  have hsize : tlvsSize us = 8 := by
    rw [← Option.some.inj hus.2, hnil]
    rfl
  obtain ⟨hok, -⟩ := finish_eq_some h
  have hfu : Finishable (44 + tlvsSize []) bufSize size := by
    rw [Finishable, hsize] at hok
    rw [Finishable, tlvsSize_nil]
    omega
  rw [reqFollowUp, hts, Option.bind_some, hnil, finish, if_pos hfu]
  exact ⟨_, rfl⟩

/-- The octets of a Request Sync, where its TLV fits with room for a PAD TLV behind it. -/
theorem reqSync_of_room {size : ℕ} (params : PtpParams) (sequenceId : BitVec 16) {t1 : Timespec}
    {ts1 : Timestamp} (ht1 : t1.toTimestamp = some ts1) (flags : Octet) (hroom : 56 ≤ size)
    (heven : size % 2 = 0) :
    reqSync size params sequenceId t1 flags size =
      some (wireOctets { params with type := .sync, sequenceId := sequenceId, timestamp := ts1 } 0
        [.request (requestFlags flags)] size) := by
  have hstart : startIn size = some [] := if_pos (by omega)
  have hadd : addRequest size flags [] = some [.request (requestFlags flags)] :=
    if_pos ⟨by decide, by rw [tlvsSize_nil, csptpReq]; omega⟩
  have hsize : tlvsSize [.request (requestFlags flags)] = 8 := rfl
  rw [reqSync, ht1, Option.bind_some, hstart, Option.bind_some, hadd, Option.bind_some, finish,
    if_pos (by rw [Finishable, hsize]; omega), finalSize_of_pos (by omega)]

theorem reqFollowUp_of_room {size : ℕ} (params : PtpParams) (sequenceId : BitVec 16)
    (hroom : 56 ≤ size) (heven : size % 2 = 0) :
    reqFollowUp size params sequenceId size = some (wireOctets { params with
      type := .followUp, sequenceId := sequenceId, timestamp := ⟨⟨0, 0⟩, 0⟩ } 2 [] size) := by
  have hstart : startIn size = some [] := if_pos (by omega)
  rw [reqFollowUp, hstart, Option.bind_some, finish,
    if_pos (by rw [Finishable, tlvsSize_nil]; omega), finalSize_of_pos (by omega)]

namespace ClientState

/-- The TLVs `ts` are in the message of this state; nothing but the message and the buffer has
changed since `st₀`. -/
structure Drafted (st₀ : ClientState) (c : Octet) (ts : List Tlv) (st : ClientState) : Prop where
  built : Built st.message st.buffer st₀.params c ts
  size : st.buffer.size = st₀.buffer.size
  rest : st = { st₀ with message := st.message, buffer := st.buffer }

/-- The octets went out from this state, or did not because the network refused. -/
structure Sent (st₀ : ClientState) (net : Bool) (octs : List Octet)
    (r : Bool × ClientState × List Datagram) : Prop where
  flag : r.1 = net
  out : r.2.2 = if net then [⟨st₀.address, octs⟩] else []
  size : r.2.1.buffer.size = st₀.buffer.size
  rest : r.2.1 = { st₀ with message := r.2.1.message, buffer := r.2.1.buffer }

section Sending
variable (st₀ : ClientState) {c : Octet} {ts : List Tlv}

theorem stamp_does :
    Attempt.Does (· = st₀) (Attempt.call stamp : Attempt _ Datagram) st₀.t1.toTimestamp
      fun ts1 st => st = { st₀ with params := { st₀.params with timestamp := ts1 } } := by
  refine Attempt.Does.call fun st hst => ?_
  rw [hst, stamp]
  cases st₀.t1.toTimestamp with
  | none => rfl
  | some ts1 => exact ⟨_, rfl, rfl⟩

theorem init_does (hc : st₀.params.type.controlField = some c) :
    Attempt.Does (· = st₀) (Attempt.call init : Attempt _ Datagram) (startIn st₀.buffer.size)
      (Drafted st₀ c) := by
  refine Attempt.Does.call fun st hst => ?_
  have hstart := startIn_spec st₀.message st₀.buffer hc
  rw [hst, init]
  cases ho : startIn st₀.buffer.size with
  | none =>
    rw [ho] at hstart
    exact hstart
  | some ts =>
    rw [ho] at hstart
    obtain ⟨msg', buf', hrun, hsize, hb⟩ := hstart
    exact ⟨{ st₀ with message := msg', buffer := buf' }, by simp only [hrun], hb, hsize, rfl⟩

theorem addCSPTPReqTlv_does :
    Attempt.Does (Drafted st₀ c ts) (Attempt.call addCSPTPReqTlv : Attempt _ Datagram)
      (addRequest st₀.buffer.size st₀.tlvReqFlags0 ts) (Drafted st₀ c) := by
  refine Attempt.Does.call fun st hst => ?_
  have hb := hst.built
  have hflags : st.tlvReqFlags0 = st₀.tlvReqFlags0 := by rw [hst.rest]
  have hroom : ts.length < maxTlvs ∧ 44 + tlvsSize ts + csptpReq ≤ st₀.buffer.size ↔
      ts.length < maxTlvs ∧ st.message.len + csptpReq ≤ st.buffer.size := by
    rw [hb.len, hst.size]
  rw [addRequest, ← hflags]
  by_cases hfit : ts.length < maxTlvs ∧ st.message.len + csptpReq ≤ st.buffer.size
  · obtain ⟨msg', buf', hrun, hsize, hb'⟩ := hb.addCSPTPReqTlv st.tlvReqFlags0 hfit.1 hfit.2
    rw [if_pos (hroom.mpr hfit)]
    refine ⟨{ st with message := msg', buffer := buf' }, by simp only [addCSPTPReqTlv, hrun], hb',
      hsize.trans hst.size, ?_⟩
    rw [hst.rest]
  · rw [if_neg (fun h => hfit (hroom.mp h)), addCSPTPReqTlv,
      hb.addCSPTPReqTlv_false st.tlvReqFlags0 hfit]
    rfl

theorem finish_ends {net : Bool} :
    Attempt.Ends (Drafted st₀ c ts) ((Attempt.call buildDone).andThen (socketSend net))
      (finish st₀.buffer.size st₀.params c st₀.size ts) (Sent st₀ net) := by
  intro st hst
  have hsz : st.size = st₀.size := by rw [hst.rest]
  have hdone := hst.built.finish_spec st₀.size
  rw [hst.size] at hdone
  cases ho : finish st₀.buffer.size st₀.params c st₀.size ts with
  | none =>
    rw [ho, ← hsz] at hdone
    have hfalse : ((Attempt.call buildDone : Attempt _ Datagram) st).1 = false := hdone
    rw [Attempt.andThen_of_false hfalse]
    exact ⟨hfalse, rfl⟩
  | some octs =>
    rw [ho] at hdone
    obtain ⟨msg', buf', hrun, hsize, hdata⟩ := hdone
    have hstep : (Attempt.call buildDone : Attempt _ Datagram) st =
        (true, { st with message := msg', buffer := buf' }, []) := by
      simp only [Attempt.call, buildDone, hsz, hrun]
    have hsend : send buf' st.address net = if net then [⟨st₀.address, octs⟩] else [] := by
      rw [send, hdata, hst.rest]
    rw [Attempt.andThen_of_true hstep]
    refine ⟨rfl, hsend, hsize, ?_⟩
    change { st with message := msg', buffer := buf' } = _
    rw [hst.rest]
    rfl

theorem sendReqSync_ends (sequenceId : BitVec 16) (now : ClockReading) (net : Bool) :
    Attempt.Ends (· = st₀) (sendReqSync sequenceId now net)
      (reqSync st₀.buffer.size st₀.params sequenceId now.toTimespec st₀.tlvReqFlags0 st₀.size)
      fun octs r => ∃ ts1, now.toTimespec.toTimestamp = some ts1 ∧ Sent { st₀ with
        params := { st₀.params with type := .sync, sequenceId := sequenceId, timestamp := ts1 }
        t1 := now.toTimespec } net octs r := by
  intro s hs
  rw [hs, sendReqSync]
  set st₁ : ClientState := { st₀ with
    params := { st₀.params with type := .sync, sequenceId := sequenceId }, t1 := now.toTimespec }
  have hchain : Attempt.Ends (· = st₁) (composeReqSync net)
      (reqSync st₀.buffer.size st₀.params sequenceId now.toTimespec st₀.tlvReqFlags0 st₀.size)
      fun octs r => ∃ ts1, now.toTimespec.toTimestamp = some ts1 ∧
        Sent { st₁ with params := { st₁.params with timestamp := ts1 } } net octs r := by
    refine (stamp_does st₁).andThen fun ts1 hts1 => ?_
    set st₂ : ClientState := { st₁ with params := { st₁.params with timestamp := ts1 } }
    refine (init_does st₂ (c := 0) rfl).andThen fun ts _ => ?_
    refine (addCSPTPReqTlv_does st₂).andThen fun ts _ => ?_
    exact (finish_ends st₂).imp _ fun octs r h => ⟨ts1, hts1, h⟩
  exact hchain st₁ rfl

theorem sendFollowUp_ends (sequenceId : BitVec 16) (net : Bool) :
    Attempt.Ends (· = st₀) (sendFollowUp sequenceId net)
      (reqFollowUp st₀.buffer.size st₀.params sequenceId st₀.size)
      (Sent { st₀ with params := { st₀.params with
        type := .followUp, sequenceId := sequenceId, timestamp := ⟨⟨0, 0⟩, 0⟩ } } net) := by
  intro s hs
  rw [hs, sendFollowUp]
  set st₁ : ClientState := { st₀ with params := { st₀.params with
    type := .followUp, sequenceId := sequenceId, timestamp := ⟨⟨0, 0⟩, 0⟩ } }
  have hchain : Attempt.Ends (· = st₁) (composeFollowUp net)
      (reqFollowUp st₀.buffer.size st₀.params sequenceId st₀.size) (Sent st₁ net) :=
    (init_does st₁ (c := 2) rfl).andThen fun ts _ => finish_ends st₁
  exact hchain st₁ rfl

end Sending

/-! ## Both sends -/

end ClientState

/-- The Follow_Up in two-step mode. -/
def reqFollowUps (bufSize : ℕ) (params : PtpParams) (sequenceId : BitVec 16) (size : ℕ)
    (useTwoSteps net : Bool) : List (List Octet) :=
  if useTwoSteps = false then []
  else match reqFollowUp bufSize params sequenceId size with
    | none => []
    | some octs => if net then [octs] else []

/-- What the client sends in one cycle, in order. -/
def requests (bufSize : ℕ) (params : PtpParams) (sequenceId : BitVec 16) (flags : Octet) (size : ℕ)
    (useTwoSteps : Bool) (inp : FlowInput) : List (List Octet) :=
  match reqSync bufSize params sequenceId inp.now.toTimespec flags size with
  | none => []
  | some octs =>
    if inp.netReqSync = false then []
    else octs :: reqFollowUps bufSize params sequenceId size useTwoSteps inp.netFollowUp

namespace ClientState

section Transmit
variable (st : ClientState) (useTwoSteps : Bool) (sequenceId : BitVec 16) (inp : FlowInput)

theorem sendFollowUp_out {fu : List Octet}
    (hfu : reqFollowUp st.buffer.size st.params sequenceId st.size = some fu) :
    let r := Attempt.orElse (useTwoSteps = false) (sendFollowUp sequenceId inp.netFollowUp) st
    (r.1 = true ↔ (useTwoSteps = true → inp.netFollowUp = true)) ∧
      r.2.2 = (reqFollowUps st.buffer.size st.params sequenceId st.size useTwoSteps
        inp.netFollowUp).map (⟨st.address, ·⟩) := by
  have hsent := sendFollowUp_ends st sequenceId inp.netFollowUp st rfl
  rw [hfu] at hsent
  rw [Attempt.orElse, reqFollowUps, hfu]
  cases useTwoSteps with
  | false => simp
  | true =>
    dsimp only
    rw [if_neg (by simp), if_neg (by simp), hsent.flag, hsent.out]
    cases inp.netFollowUp <;> simp

/-- The client sends `requests`, whatever its message object and buffer contents, and goes on to wait
exactly when every send it has to make succeeds. -/
theorem transmit_out :
    let r := transmit useTwoSteps sequenceId inp st
    r.2.2 = (requests st.buffer.size st.params sequenceId st.tlvReqFlags0 st.size useTwoSteps
        inp).map (⟨st.address, ·⟩) ∧
      (r.1 = true ↔ (∃ octs, reqSync st.buffer.size st.params sequenceId inp.now.toTimespec
        st.tlvReqFlags0 st.size = some octs) ∧ inp.netReqSync = true ∧
          (useTwoSteps = true → inp.netFollowUp = true)) := by
  have hreq := sendReqSync_ends st sequenceId inp.now inp.netReqSync st rfl
  dsimp only
  rw [transmit, requests]
  cases hc : reqSync st.buffer.size st.params sequenceId inp.now.toTimespec st.tlvReqFlags0 st.size with
  | none =>
    rw [hc] at hreq
    rw [Attempt.andThen_of_false hreq.1, hreq.1, hreq.2]
    simp
  | some octs =>
    rw [hc] at hreq
    obtain ⟨ts1, -, hsent⟩ := hreq
    obtain ⟨fu, hfu⟩ := reqFollowUp_of_reqSync hc
    cases hnet : inp.netReqSync with
    | false =>
      rw [hnet] at hsent
      rw [Attempt.andThen_of_false hsent.flag, hsent.flag, hsent.out]
      simp
    | true =>
      rw [hnet] at hsent
      set st' := (sendReqSync sequenceId inp.now true st).2.1 with hst'
      have hrun : sendReqSync sequenceId inp.now true st = (true, st', [⟨st.address, octs⟩]) :=
        Prod.ext hsent.flag (Prod.ext rfl hsent.out)
      have hrest := hsent.rest
      have hbuf := hsent.size
      rw [← hst'] at hrest hbuf
      -- the Follow_Up overwrites what the Request Sync put into the parameters
      have hparams : reqFollowUp st'.buffer.size st'.params sequenceId st'.size =
          reqFollowUp st.buffer.size st.params sequenceId st.size := by
        rw [hbuf, hrest]
        rfl
      obtain ⟨hflag, hout⟩ := sendFollowUp_out st' useTwoSteps sequenceId inp (hparams.trans hfu)
      rw [Attempt.andThen_of_true hrun]
      refine ⟨?_, ?_⟩
      · have haddr : st'.address = st.address := by rw [hrest]
        rw [hout, haddr, reqFollowUps, hparams]
        rfl
      · rw [hflag]
        simp

end Transmit

end ClientState

/-! ## A sample client -/

/-- A client with this contents of its buffer. -/
def sampleClient (contents : Mem) : ClientState :=
  { type := .udpIPv4, size := 160, tlvReqFlags0 := 3,
    params := { PtpParams.zero with domainNumber := 128 },
    address := .in4 ptpUdpPort 9, rxAddress := .in4 ptpUdpPort 0, message := .detach,
    buffer := { mem := contents, size := 160, len := 0, len_le := by decide, size_lt := by norm_num },
    tmpTs := ⟨0, 0⟩, t1 := ⟨0, 0⟩, r1 := ⟨0, 0⟩, t2 := ⟨0, 0⟩, r2 := ⟨0, 0⟩ }

end Csptp
