import Csptp.Client.Main
import Csptp.Received

/-! # What the client accepts

`Awaited.accepts` says which datagrams pass the conditions of the loop, from their octets and source
alone. -/
namespace Csptp
open Octets Octets.Prog
set_option autoImplicit false

/-! ## The responses in a message -/

def timestampAt (m : Mem) (p : ℕ) : Timestamp := ((loadTimestamp p).run m).1

/-- The timestamps of the CSPTP_RESPONSE TLVs among these records. -/
def responsesIn (m : Mem) (rs : List TlvRec) : List Timestamp :=
  (rs.filter (·.id = .csptpResponse)).map fun r => timestampAt m (r.tlv + 10)

def Received.responses (r : Received) : List Timestamp := responsesIn r.mem r.tlvs

theorem run_loadTimestamp (m : Mem) (p : ℕ) : (loadTimestamp p).run m = (timestampAt m p, m) := by
  refine Prod.ext rfl ?_
  simp only [loadTimestamp, loadUint48, run_bind, run_load, run_pure]

theorem run_rcvRespSync (m : Mem) (rs : List TlvRec) (r1 : Timespec) (haveResp : Bool) :
    (rcvRespSync rs r1 haveResp).run m = ((haveResp || !(responsesIn m rs).isEmpty,
      (responsesIn m rs).foldl (fun t ts => (t.fromTimestamp ts).2) r1), m) := by
  induction rs generalizing r1 haveResp with
  | nil => simp [rcvRespSync, responsesIn]
  | cons r rs ih =>
    rw [rcvRespSync]
    by_cases hid : r.id = .csptpResponse
    · have hcons : responsesIn m (r :: rs) = timestampAt m (r.tlv + 10) :: responsesIn m rs := by
        simp [responsesIn, hid]
      rw [if_pos hid, run_bind, run_loadTimestamp, ih, hcons]
      simp
    · have hskip : responsesIn m (r :: rs) = responsesIn m rs := by simp [responsesIn, hid]
      rw [if_neg hid, ih, hskip]

theorem timestampAt_congr {m m' : Mem} {p : ℕ} (h : ∀ o, p ≤ o → o < p + 10 → m o = m' o) :
    timestampAt m p = timestampAt m' p := by
  have hin : Within (fun o => p ≤ o ∧ o < p + 10) (loadTimestamp p) := by
    refine Within.bind ?_ fun _ => (within_load fun a _ _ => by omega).bind fun _ => within_pure _
    refine (within_load fun a _ _ => by omega).bind fun _ => ?_
    exact (within_load fun a _ _ => by omega).bind fun _ => within_pure _
  exact (run_congr (hin m').touches fun o ho => (h o ho.1 ho.2).symm).1

theorem responsesIn_congr {m m' : Mem} {rs : List TlvRec} {len : ℕ}
    (ht : ∀ t ∈ rs, t.tlv + minTlvSize t.id ≤ len) (hm : ∀ o, o < len → m o = m' o) :
    responsesIn m rs = responsesIn m' rs := by
  apply List.map_congr_left
  intro r hr
  obtain ⟨hmem, hid⟩ := List.mem_filter.mp hr
  have hfit := ht r hmem
  rw [of_decide_eq_true hid] at hfit
  apply timestampAt_congr
  intro o _ ho
  have hsize : minTlvSize .csptpResponse = 28 := rfl
  exact hm o (by omega)

theorem timestampAt_of_holds {m : Mem} {p : ℕ} {ts : Timestamp} (h : Holds m p (ts.octets .host)) :
    timestampAt m p = ts := by
  simp only [Timestamp.octets, holds_append, inOrder_length, List.length_append, Nat.reduceAdd,
    Nat.reduceDiv] at h
  obtain ⟨⟨hhigh, hlow⟩, hnsec⟩ := h
  have hh := ofOctets_region_of_host rfl hhigh
  have hl := ofOctets_region_of_host rfl hlow
  have hn := ofOctets_region_of_host rfl hnsec
  simp only [timestampAt, loadTimestamp, loadUint48, run_bind, run_load, run_pure, hh, hl, hn]

def Tlv.responseTime : Tlv → Option Timestamp
  | .response t => some t.reqIngressTimestamp
  | _ => none

theorem responsesIn_records {m : Mem} {a : ℕ} {ts : List Tlv} (h : Holds m a (tlvsOctets .host ts)) :
    responsesIn m (records a ts) = ts.filterMap Tlv.responseTime := by
  induction ts generalizing a with
  | nil => rfl
  | cons t ts ih =>
    rw [tlvsOctets_cons, holds_append, Tlv.octets_length] at h
    obtain ⟨ht, hts⟩ := h
    have hrest := ih hts
    cases t with
    | response t =>
      have horg := t.organizationId.property
      have hsub := t.organizationSubType.property
      rw [Tlv.octets, holds_append, Tlv.header_length, Tlv.body, Response.body] at ht
      simp only [holds_append, List.length_append, horg, hsub, Nat.add_assoc, Nat.reduceAdd] at ht
      have htime := timestampAt_of_holds ht.2.1.2
      have hcons : Tlv.responseTime (.response t) = some (timestampAt m (a + 10)) :=
        congrArg some htime.symm
      rw [List.filterMap_cons_some hcons, ← hrest]
      rfl
    | altTime t => exact hrest
    | request flags => exact hrest
    | status t => exact hrest
    | pad data => exact hrest

/-! ## Acceptance -/

/-- What a client waits for: messages with this domain and number that fit its buffer, from the
service; `family` is the size of a socket address of its family. -/
structure Awaited where
  bufSize : ℕ
  address : SockAddr
  family : ℕ
  domainNumber : Octet
  sequenceId : BitVec 16

namespace Awaited

/-- The message of a datagram that the client accepts. -/
def accepts (a : Awaited) (d : Datagram) : Option Received :=
  if d.addr.getSize = a.family ∧ a.address.eq d.addr = true then
    (decode a.bufSize d.octets).filter fun r =>
      r.params.sequenceId = a.sequenceId ∧ r.params.domainNumber = a.domainNumber
  else none

theorem accepts_eq_some {a : Awaited} {d : Datagram} {r : Received} (h : a.accepts d = some r) :
    d.addr.getSize = a.family ∧ a.address.eq d.addr = true ∧ decode a.bufSize d.octets = some r ∧
      r.params.sequenceId = a.sequenceId ∧ r.params.domainNumber = a.domainNumber := by
  rw [accepts, Option.ite_none_right_eq_some, Option.filter_eq_some_iff] at h
  obtain ⟨⟨hfam, haddr⟩, hdec, hfields⟩ := h
  obtain ⟨hseq, hdomain⟩ := of_decide_eq_true hfields
  exact ⟨hfam, haddr, hdec, hseq, hdomain⟩

end Awaited

/-! ## Receiving in a state -/

/-- What a client has from its preparation. -/
structure Setting where
  type : Prot
  size : ℕ
  tlvReqFlags0 : Octet
  domainNumber : Octet
  useTwoSteps : Bool
  correctionField : BitVec 64
  flagField2 : Octet
  address : SockAddr
  family : ℕ
  bufSize : ℕ

/-- The times of a client state. -/
structure Times where
  t1 : Timespec
  r1 : Timespec
  t2 : Timespec
  r2 : Timespec
deriving DecidableEq

namespace ClientState

def setting (st : ClientState) : Setting :=
  { type := st.type, size := st.size, tlvReqFlags0 := st.tlvReqFlags0,
    domainNumber := st.params.domainNumber, useTwoSteps := st.params.useTwoSteps,
    correctionField := st.params.correctionField, flagField2 := st.params.flagField2,
    address := st.address, family := st.rxAddress.getSize, bufSize := st.buffer.size }

def times (st : ClientState) : Times := ⟨st.t1, st.r1, st.t2, st.r2⟩

/-- What a client with this setting waits for in a cycle. -/
def awaited (st : ClientState) (domainNumber : Octet) (sequenceId : BitVec 16) : Awaited :=
  ⟨st.buffer.size, st.address, st.rxAddress.getSize, domainNumber, sequenceId⟩

theorem awaited_of_setting {st st' : ClientState} (h : st'.setting = st.setting) (domainNumber : Octet)
    (sequenceId : BitVec 16) :
    st'.awaited domainNumber sequenceId = st.awaited domainNumber sequenceId := by
  rw [setting, setting, Setting.mk.injEq] at h
  obtain ⟨-, -, -, -, -, -, -, haddr, hfam, hbuf⟩ := h
  rw [awaited, awaited, haddr, hfam, hbuf]

end ClientState

section Receive
variable (st : ClientState) (domainNumber : Octet) (sequenceId : BitVec 16)

/-- Whatever arrives, the client keeps its setting and its times. -/
theorem receive_keeps (arrival : Option Datagram) (rxNow : ClockReading) :
    let s := (st.receive domainNumber sequenceId arrival rxNow).2
    s.setting = st.setting ∧ s.times = st.times ∧ s.tmpTs = rxNow.toTimespec := by
  have hfam : (recv st.buffer st.rxAddress arrival rxNow).address.getSize = st.rxAddress.getSize := by
    cases arrival with
    | none => rfl
    | some d =>
      simp only [recv]
      split_ifs with h1 h2
      · exact h1
      · exact h1
      · rfl
  have hsize := recv_size st.buffer st.rxAddress arrival rxNow
  have hts := recv_ts st.buffer st.rxAddress arrival rxNow
  rw [ClientState.receive]
  dsimp only
  split_ifs
  · exact ⟨by simp only [ClientState.setting, hfam, hsize], rfl, hts⟩
  · exact ⟨by simp only [ClientState.setting, hfam, PtpMsg.parse_size, hsize], rfl, hts⟩
  · exact ⟨by simp only [ClientState.setting, hfam, PtpMsg.parse_size, hsize], rfl, hts⟩

theorem receive_eq_some {arrival : Option Datagram} {rxNow : ClockReading} {p : PtpParams}
    (h : (st.receive domainNumber sequenceId arrival rxNow).1 = some p) :
    p.sequenceId = sequenceId ∧ p.domainNumber = domainNumber ∧
      (p.type = .sync ∨ p.type = .followUp) := by
  rw [ClientState.receive] at h
  dsimp only at h
  set r := recv st.buffer st.rxAddress arrival rxNow
  split_ifs at h with hok hpass
  cases h
  refine ⟨hpass.2.1, hpass.2.2.1, ?_⟩
  cases hrun : ((parseMsg r.buf.len r.buf.size).run r.buf.mem).1 with
  | none =>
    rw [PtpMsg.parse_of_none _ _ hrun] at hpass
    exact absurd hpass.1 (by simp)
  | some x =>
    obtain ⟨-, c, hc⟩ := parseMsg_params hrun
    rw [PtpMsg.parse_of_some _ _ hrun]
    dsimp only
    cases htype : x.2.type <;> simp_all [MessageType.controlField]

theorem receive_accepts {d : Datagram} (rxNow : ClockReading)
    (hw : WellSized st.buffer.size d.octets) :
    let s := st.receive domainNumber sequenceId (some d) rxNow
    match (st.awaited domainNumber sequenceId).accepts d with
    | none => s.1 = none
    | some r => s.1 = some r.params ∧ responsesIn s.2.buffer.mem s.2.message.tlvs = r.responses := by
  dsimp only
  rw [ClientState.receive]
  dsimp only
  set r := recv st.buffer st.rxAddress (some d) rxNow with hr
  cases hok : r.ok with
  | false =>
    rw [if_pos rfl]
    have hnone : (st.awaited domainNumber sequenceId).accepts d = none := by
      cases hacc : (st.awaited domainNumber sequenceId).accepts d with
      | none => rfl
      | some x =>
        obtain ⟨hfam, -, hdec, -, -⟩ := Awaited.accepts_eq_some hacc
        have hpos : 0 < (d.octets.take st.buffer.size).length := by
          by_contra hempty
          have hshort : decode st.buffer.size d.octets = none :=
            decode_of_short (by rw [msgSize]; omega)
          exact absurd (hdec.symm.trans hshort) (by simp)
        rw [hr, recv_of_datagram hfam hpos] at hok
        simp at hok
    rw [hnone]
  | true =>
    obtain ⟨d', hd', hfam, -, haddr, hdata⟩ := recv_true hok
    cases Option.some.inj hd'
    rw [← hr] at haddr hdata
    have hsize : r.buf.size = st.buffer.size := by rw [hr, recv_size]
    have hlen : r.buf.len = (d.octets.take st.buffer.size).length := by
      rw [← hdata, Buf.data_length]
    rw [← hsize] at hdata hw
    rw [if_neg (by simp), haddr, ClientState.awaited, Awaited.accepts]
    dsimp only
    cases hdec : decode r.buf.size d.octets with
    | none =>
      obtain ⟨hflag, -⟩ := parse_of_decode_none st.message .zero hdata hw hdec
      rw [hsize] at hdec
      rw [hdec, Option.filter_none, ite_self, if_neg (by rw [hflag]; simp)]
    | some x =>
      obtain ⟨hflag, hparams, htlvs, hmem⟩ := parse_of_decode_some st.message .zero hdata hw hdec
      have htlvs_in := decode_tlvs hw hdec
      rw [hsize, ← hlen] at htlvs_in
      have hresp := responsesIn_congr htlvs_in hmem
      rw [hsize] at hdec
      rw [hdec, Option.filter_some, hflag, hparams]
      by_cases haddress : st.address.eq d.addr = true
      · rw [if_pos ⟨hfam, haddress⟩]
        by_cases hfields : x.params.sequenceId = sequenceId ∧ x.params.domainNumber = domainNumber
        · rw [if_pos (decide_eq_true hfields), if_pos ⟨rfl, hfields.1, hfields.2, haddress⟩]
          exact ⟨rfl, by rw [htlvs]; exact hresp⟩
        · rw [if_neg (by simpa using hfields), if_neg fun h => hfields ⟨h.2.1, h.2.2.1⟩]
      · rw [if_neg fun h => haddress h.2, if_neg fun h => haddress h.2.2.2]

end Receive

/-! ## What a poll brings -/

/-- An accepted message, as far as the client uses it. -/
inductive Heard
  | sync (oneStep : Bool) (timestamp : Timestamp) (responses : List Timestamp) (arrival : Timespec)
  | followUp (timestamp : Timestamp)
deriving DecidableEq

def heardAs (params : PtpParams) (responses : List Timestamp) (arrival : Timespec) : Heard :=
  if params.type = .sync then .sync (!params.useTwoSteps) params.timestamp responses arrival
  else .followUp params.timestamp

/-- In a given state of the client. -/
def ClientState.hears (domainNumber : Octet) (sequenceId : BitVec 16) (st : ClientState) :
    Poll → Option Heard
  | .idle => none
  | .ready arrival rxNow =>
    let r := st.receive domainNumber sequenceId arrival rxNow
    r.1.map fun p => heardAs p (responsesIn r.2.buffer.mem r.2.message.tlvs) rxNow.toTimespec

/-- From the datagram alone. -/
def Awaited.hears (a : Awaited) : Poll → Option Heard
  | .ready (some d) rxNow =>
    (a.accepts d).map fun r => heardAs r.params r.responses rxNow.toTimespec
  | _ => none

/-- What a client hears does not depend on what its buffer and its message object held before. -/
theorem hears_eq (st : ClientState) (domainNumber : Octet) (sequenceId : BitVec 16) {poll : Poll}
    (hw : poll.WellSized st.buffer.size) :
    st.hears domainNumber sequenceId poll = (st.awaited domainNumber sequenceId).hears poll := by
  cases poll with
  | idle => rfl
  | ready arrival rxNow =>
    rw [ClientState.hears]
    cases arrival with
    | none => rfl
    | some d =>
      have hacc := receive_accepts st domainNumber sequenceId rxNow hw
      rw [Awaited.hears]
      cases h : (st.awaited domainNumber sequenceId).accepts d with
      | none =>
        rw [h] at hacc
        dsimp only at hacc ⊢
        rw [hacc]
        rfl
      | some r =>
        rw [h] at hacc
        dsimp only at hacc ⊢
        rw [hacc.1, hacc.2]
        rfl

end Csptp
