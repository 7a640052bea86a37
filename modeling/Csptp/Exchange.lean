import Csptp.Client.Prepared
import Csptp.Service.Contents

/-! # A complete exchange

A prepared client sends its Request Sync, a service answers, and the client comes to the four times,
whatever else arrives in between. -/
namespace Csptp
open Octets Octets.Prog
set_option autoImplicit false

/-! ## The request at the service -/

theorem le_clientSmoothSize (opt : ClientOpt) {type : Prot} (htype : type ≠ .invalidProto) :
    (if opt.useCSPTPstatus then if opt.useAltTimeScale then 160 else 128
      else if opt.useAltTimeScale then 112 else 96) ≤ clientSmoothSize (clientGetMsgSize opt type) := by
  rw [clientGetMsgSize]
  cases type with
  | invalidProto => exact absurd rfl htype
  | udpIPv4 => cases opt.useCSPTPstatus <;> cases opt.useAltTimeScale <;> decide
  | udpIPv6 => cases opt.useCSPTPstatus <;> cases opt.useAltTimeScale <;> decide

theorem need_le (opt : ClientOpt) {clk : IfClk} (hclk : clk.Valid) :
    need clk (clientSetTxParams opt).2 ≤ 72 + (if opt.useCSPTPstatus then 48 else 0) +
      if opt.useAltTimeScale then 30 else 0 := by
  have hclkSize : PtpMsg.getCSPTPStatusTlvSize clk.networkProtocol ≤ 48 := by
    cases clk.networkProtocol <;> decide
  have haltSize : altTimeSize clk.displayName.length ≤ 30 := by
    have hname := hclk.displayName
    rw [maxTzLen] at hname
    rw [altTimeSize]
    omega
  obtain ⟨hstatus, halt, -⟩ := clientFlags opt
  rw [need]
  simp only [hstatus, halt]
  cases opt.useCSPTPstatus <;> cases opt.useAltTimeScale <;> simp <;> omega

/-- The size that a client prepares is enough for every answer. -/
theorem answerable_prepared {opt : ClientOpt} {s : Setting} (h : s.Prepared opt) {clk : IfClk}
    (hclk : clk.Valid) : Answerable clk (clientSetTxParams opt).2 s.size := by
  obtain ⟨-, -, heven⟩ := h.size_spec
  have hsize := le_clientSmoothSize opt h.type
  have hneed := need_le opt hclk
  rw [← h.size] at hsize
  refine ⟨heven, ?_⟩
  split_ifs at hsize hneed <;> omega

theorem requestFlag_of_pad {pads : List Tlv} (h : ∀ t ∈ pads, t.id = .pad) :
    pads.filterMap Tlv.requestFlag = [] := by
  apply List.filterMap_eq_nil_iff.mpr
  intro t ht
  have hid := h t ht
  cases t with
  | request tlvRequestFlags => exact absurd hid (by simp [Tlv.id])
  | pad data => rfl
  | altTime t => rfl
  | response t => rfl
  | status t => rfl

theorem decode_request {params : PtpParams} {flags : Octet} {n : ℕ} (size : ℕ)
    (hf : params.flagField2.toNat < 64)
    (hflags : flags &&& (flags0ReqStatusTlv ||| flags0ReqAlternateTimeTlv) = flags)
    (hroom : 56 ≤ n) (hle : n ≤ size) (hsize : size < 2 ^ 16) :
    let req := wireOctets { params with type := .sync } 0 [.request (requestFlags flags)] n
    req.length = n ∧ WellSized size req ∧ ∃ r, decode size req = some r ∧
      r.params = { params with type := .sync } ∧ r.requestFlags = some flags := by
  intro req
  have htlvs : tlvsSize [.request (requestFlags flags)] = 8 := rfl
  have hlen : req.length = n := wireOctets_length (by omega)
  have hocts : req = wireOctets { params with type := .sync } 0 [.request (requestFlags flags)]
      req.length := by rw [hlen]
  have hfit : req.length ≤ size := by omega
  have hcases : req.length = 44 + tlvsSize [.request (requestFlags flags)] ∨
      44 + tlvsSize [.request (requestFlags flags)] + 4 ≤ req.length := by omega
  have hlt : req.length < 2 ^ 16 := by omega
  obtain ⟨r, pads, hdec, hparams, -, hpad, hrecords, hhost⟩ := decode_finished hocts hfit hcases hlt rfl
    hf (Nat.succ_le_succ (Nat.zero_le 3)) (fun t ht => by
      rw [List.mem_singleton.mp ht]
      exact (show 4 < 8 by decide)) (by omega)
  refine ⟨hlen, wellSized_finished hocts hfit hcases hlt, r, hdec, hparams, ?_⟩
  have hflag : Tlv.requestFlag (.request (requestFlags flags)) = some flags := by
    rw [Tlv.requestFlag, requestFlags, hflags]
    rfl
  rw [Received.requestFlags, hrecords, rcvReqSync_records hhost]
  simp only [List.map_cons, List.map_nil, Tlv.zeroFill, List.cons_append, List.nil_append]
  rw [List.filterMap_cons_some hflag, requestFlag_of_pad hpad]
  rfl

section Service
variable (svc : ServiceState) {clientAddr : SockAddr} (params : PtpParams) {flags : Octet} {n : ℕ}
  {rxNow now : ClockReading}

/-- What a service sends back for a request of `n` octets. -/
theorem sent_of_request (useTxTwoSteps : Bool) (hclk : svc.clockInfo.Valid)
    (hbuf : svc.buffer.size = serviceBufSize) (haddr : clientAddr.getSize = svc.address.getSize)
    (hf : params.flagField2.toNat < 64)
    (hflags : flags &&& (flags0ReqStatusTlv ||| flags0ReqAlternateTimeTlv) = flags)
    (hans : Answerable svc.clockInfo flags n) (hle : n ≤ serviceBufSize)
    (hrx : rxNow.toTimespec.InRange) (hnow : now.toTimespec.InRange) :
    ∃ rx t2 a jump, Timespec.ofTimestamp rx = rxNow.toTimespec ∧
      Timespec.ofTimestamp t2 = now.toTimespec ∧ svc.clockInfo.portAddress = some a ∧
      svc.sent useTxTwoSteps
        { poll := .ready (some ⟨clientAddr, wireOctets { params with type := .sync } 0
            [.request (requestFlags flags)] n⟩) rxNow
          now := now, netRespSync := true, netFollowUp := true } =
        ⟨clientAddr, wireOctets { params with
            type := .sync, useTwoSteps := useTxTwoSteps, timestamp := t2 } 0
          (answerList flags (.response (svc.clockInfo.response rx))
            (.status (svc.clockInfo.status a))
            (.altTime (svc.clockInfo.altTime hclk.displayName jump))) n⟩ ::
          if useTxTwoSteps then [⟨clientAddr, wireOctets { params with
            type := .followUp, useTwoSteps := useTxTwoSteps, timestamp := t2 } 2 [] n⟩] else [] := by
  have hneed : 72 ≤ need svc.clockInfo flags := by
    rw [need]
    omega
  have hroom : 56 ≤ n := by
    have hge := hans.2.1
    omega
  have h256 : serviceBufSize = 256 := rfl
  obtain ⟨hlen, hw, r, hdec, hparams, hscan⟩ :=
    decode_request svc.buffer.size hf hflags hroom (by omega) (by omega)
  set req := wireOctets { params with type := .sync } 0 [.request (requestFlags flags)] n
  obtain ⟨rx, t2, a, jump, hofrx, hoft2, ha, -, hreplies⟩ := replies_of_valid
    { params with type := .sync, useTwoSteps := useTxTwoSteps } flags hclk ⟨rxNow.normal, hrx⟩
    ⟨.ready (some ⟨clientAddr, req⟩) rxNow, now, true, true⟩ hnow useTxTwoSteps
    (show 0 < n by omega) hle
  refine ⟨rx, t2, a, jump, hofrx, hoft2, ha, ?_⟩
  have htake : (req.take svc.buffer.size).length = n := by
    rw [List.take_of_length_le (by omega), hlen]
  have hpoll : (ServiceInput.mk (.ready (some ⟨clientAddr, req⟩) rxNow) now true true).poll =
      .ready (some ⟨clientAddr, req⟩) rxNow := rfl
  rw [sent_eq svc useTxTwoSteps hpoll hw, if_pos haddr, reaction, hdec]
  dsimp only
  rw [hscan, hparams, repliesTo_sync rfl, htake, hbuf, hreplies, if_pos ⟨hans, rfl⟩]
  cases useTxTwoSteps <;> rfl

end Service

/-! ## The answer at the client -/

theorem responseTime_zeroFill (ts : List Tlv) :
    (ts.map Tlv.zeroFill).filterMap Tlv.responseTime = ts.filterMap Tlv.responseTime := by
  rw [List.filterMap_map]
  congr 1
  funext t
  cases t <;> rfl

theorem responseTime_of_pad {pads : List Tlv} (h : ∀ t ∈ pads, t.id = .pad) :
    pads.filterMap Tlv.responseTime = [] := by
  apply List.filterMap_eq_nil_iff.mpr
  intro t ht
  have hid := h t ht
  cases t with
  | response t => exact absurd hid (by simp [Tlv.id])
  | pad data => rfl
  | altTime t => rfl
  | request tlvRequestFlags => rfl
  | status t => rfl

theorem hears_finished (a : Awaited) (params : PtpParams) {c : Octet} {ts : List Tlv} {n : ℕ}
    {source : SockAddr} (now : ClockReading) (hfamily : source.getSize = a.family)
    (hsource : a.address.eq source = true) (hseq : params.sequenceId = a.sequenceId)
    (hdomain : params.domainNumber = a.domainNumber) (hc : params.type.controlField = some c)
    (hf : params.flagField2.toNat < 64) (hts : AddableTlvs ts)
    (hsize : n = 44 + tlvsSize ts ∨ 44 + tlvsSize ts + 4 ≤ n) (hle : n ≤ a.bufSize)
    (hbuf : a.bufSize < 2 ^ 16) :
    let poll := Poll.ready (some ⟨source, wireOctets params c ts n⟩) now
    poll.WellSized a.bufSize ∧
      a.hears poll = some (heardAs params (ts.filterMap Tlv.responseTime) now.toTimespec) := by
  intro poll
  have hlen : (wireOctets params c ts n).length = n := wireOctets_length hsize
  have hocts : wireOctets params c ts n = wireOctets params c ts (wireOctets params c ts n).length := by
    rw [hlen]
  have hfit : (wireOctets params c ts n).length ≤ a.bufSize := by omega
  have hlt : (wireOctets params c ts n).length < 2 ^ 16 := by omega
  have hcases := hsize
  rw [← hlen] at hcases
  obtain ⟨r, pads, hdec, hparams, -, hpad, hrecords, hhost⟩ := decode_finished hocts hfit hcases hlt hc hf
    hts.1 (fun t ht => (hts.2 t ht).lt_size) (by omega)
  refine ⟨wellSized_finished hocts hfit hcases hlt, ?_⟩
  have hresponses : r.responses = ts.filterMap Tlv.responseTime := by
    rw [Received.responses, hrecords, responsesIn_records hhost, List.filterMap_append,
      responseTime_zeroFill, responseTime_of_pad hpad, List.append_nil]
  have hacc : a.accepts ⟨source, wireOctets params c ts n⟩ = some r := by
    rw [Awaited.accepts, if_pos ⟨hfamily, hsource⟩, hdec, Option.filter_some,
      if_pos (by rw [hparams]; simp [hseq, hdomain])]
  rw [Awaited.hears, hacc, Option.map_some, hparams, hresponses]

theorem responseTime_answerList (flags : Octet) (r : Response) (s : Status) (t : AltTime) :
    (answerList flags (.response r) (.status s) (.altTime t)).filterMap Tlv.responseTime =
      [r.reqIngressTimestamp] := by
  rw [answerList]
  split_ifs <;> rfl

/-! ## The client's call -/

section Client
variable {opt : ClientOpt} {st : ClientState}

theorem transmit_prepared (hp : st.setting.Prepared opt) (sID : BitVec 16) (inp : FlowInput)
    {ts1 : Timestamp} (ht1 : inp.now.toTimespec.toTimestamp = some ts1)
    (hsync : inp.netReqSync = true) (hfollowUp : inp.netFollowUp = true) :
    ClientState.transmit opt.useTwoSteps sID inp st =
      (true, (ClientState.transmit opt.useTwoSteps sID inp st).2.1,
        (wireOctets { st.params with type := .sync, sequenceId := sID, timestamp := ts1 } 0
            [.request (requestFlags (clientSetTxParams opt).2)] st.size ::
          if opt.useTwoSteps then [wireOctets { st.params with
            type := .followUp, sequenceId := sID, timestamp := ⟨⟨0, 0⟩, 0⟩ } 2 [] st.size] else []).map
          (⟨st.address, ·⟩)) := by
  obtain ⟨hlow, -, heven⟩ := hp.size_spec
  have hroom : 56 ≤ st.size := le_trans (by omega) hlow
  have hbuf : st.buffer.size = st.size := hp.bufSize
  have hflags : st.tlvReqFlags0 = (clientSetTxParams opt).2 := hp.tlvReqFlags0
  have hreq := reqSync_of_room st.params sID ht1 (clientSetTxParams opt).2 hroom heven
  have hfu := reqFollowUp_of_room st.params sID hroom heven
  obtain ⟨hout, hflag⟩ := ClientState.transmit_out st opt.useTwoSteps sID inp
  rw [hbuf, hflags] at hout hflag
  have htrue := hflag.mpr ⟨⟨_, hreq⟩, hsync, fun _ => hfollowUp⟩
  refine Prod.ext htrue (Prod.ext rfl (hout.trans ?_))
  rw [requests, hreq, hsync]
  dsimp only
  rw [if_neg (by simp), reqFollowUps, hfu, hfollowUp]
  cases opt.useTwoSteps <;> rfl

/-- A call whose polls end its loop with nothing left to wait for. -/
theorem flow_of_listen {useTwoSteps : Bool} {domainNumber : Octet} {sID : BitVec 16} {inp : FlowInput}
    {v : View} (hsent : (ClientState.transmit useTwoSteps sID inp st).1 = true)
    (hw : ∀ poll ∈ inp.polls, poll.WellSized st.buffer.size)
    (hlisten : View.listen (inp.polls.map (st.awaited domainNumber sID).hears)
      ⟨waitLoopPolls, 3, { st.times with t1 := inp.now.toTimespec }⟩ = some (.ok v))
    (hwait : v.wait = 0) :
    ∃ r, st.flow domainNumber useTwoSteps sID inp = some r ∧
      r.sent = (ClientState.transmit useTwoSteps sID inp st).2.2 ∧ r.ret = true ∧
      r.st.times = v.times := by
  have hview := waiting_view domainNumber useTwoSteps sID inp hw
  rw [hlisten, Option.map_eq_some_iff] at hview
  obtain ⟨x, hloop, hx⟩ := hview
  obtain ⟨r, hr⟩ := flow_of_loop hsent hloop
  obtain ⟨-, hout, ⟨hfalse, -⟩ | ⟨-, y, hloop', -, htimes, hy⟩⟩ := flow_cases hr
  · exact absurd (hsent.symm.trans hfalse) (by simp)
  · obtain rfl := Option.some.inj (hloop.symm.trans hloop')
    cases x with
    | error st' => exact absurd hx (by simp [Waiting.seen])
    | ok w =>
      have hwv : w.view = v := Except.ok.inj hx
      refine ⟨r, hr, hout, ?_, ?_⟩
      · rw [hy.1, decide_eq_true_iff, ← hwait, ← hwv]
        rfl
      · rw [htimes, ← hwv]
        rfl

end Client

/-! ## The exchange -/

/-- A datagram from the service, behind polls that bring nothing of it. -/
structure Arrival where
  noise : List Poll
  octets : List Octet
  now : ClockReading

def Arrival.polls (source : SockAddr) (x : Arrival) : List Poll :=
  x.noise ++ [.ready (some ⟨source, x.octets⟩) x.now]

/-- A timeout, a failed receive, or a datagram that is not what the client waits for: another number,
domain or address, or no message at all. -/
def Poll.Unrelated (a : Awaited) (poll : Poll) : Prop :=
  poll.WellSized a.bufSize ∧ a.hears poll = none

/-- A datagram from elsewhere, or with another number or domain, is nothing to the client. -/
theorem unrelated_of_other {a : Awaited} {d : Datagram} (now : ClockReading)
    (hw : WellSized a.bufSize d.octets)
    (hother : a.address.eq d.addr = false ∨ ∀ r, decode a.bufSize d.octets = some r →
      r.params.sequenceId ≠ a.sequenceId ∨ r.params.domainNumber ≠ a.domainNumber) :
    Poll.Unrelated a (.ready (some d) now) := by
  refine ⟨hw, ?_⟩
  rw [Awaited.hears, Option.map_eq_none_iff, Option.eq_none_iff_forall_ne_some]
  intro r hr
  obtain ⟨-, heq, hdec, hseq, hdomain⟩ := Awaited.accepts_eq_some hr
  rcases hother with h | h
  · exact absurd (h.symm.trans heq) (by simp)
  · exact (h r hdec).elim (absurd hseq) (absurd hdomain)

section Listening
variable {a : Awaited} (source : SockAddr) {v : View}

theorem hears_polls {x : Arrival} {h : Heard} (hnoise : ∀ poll ∈ x.noise, poll.Unrelated a)
    (hx : a.hears (.ready (some ⟨source, x.octets⟩) x.now) = some h) :
    ∃ xs, (x.polls source).map a.hears = xs ++ [some h] ∧ xs.length = x.noise.length ∧
      ∀ y ∈ xs, y = none := by
  refine ⟨x.noise.map a.hears, ?_, List.length_map _, fun y hy => ?_⟩
  · rw [Arrival.polls, List.map_append, List.map_singleton, hx]
  · obtain ⟨poll, hpoll, rfl⟩ := List.mem_map.mp hy
    exact (hnoise poll hpoll).2

theorem listen_one {x : Arrival} {h : Heard} (hnoise : ∀ poll ∈ x.noise, poll.Unrelated a)
    (hx : a.hears (.ready (some ⟨source, x.octets⟩) x.now) = some h) (hbare : h.bare = false)
    (hlen : x.noise.length < v.loops) (hwait : v.wait > 0) (hzero : v.wait &&& h.keeps = 0) :
    ∃ v', View.listen ((x.polls source).map a.hears) v = some (.ok v') ∧ v'.wait = 0 ∧
      v'.times = v.times.hear h := by
  obtain ⟨xs, hpolls, hxs, hnone⟩ := hears_polls source hnoise hx
  refine ⟨View.take { v with loops := v.loops - xs.length } h, ?_, hzero, rfl⟩
  have hstop : ¬ (View.take { v with loops := v.loops - xs.length } h).GoesOn := by
    rintro ⟨-, hpos⟩
    rw [show (View.take { v with loops := v.loops - xs.length } h).wait = 0 from hzero] at hpos
    exact absurd hpos (by decide)
  rw [hpolls, View.listen_message hnone (by omega) hwait hbare, View.listen, if_neg hstop]

/-- Two messages of which the first leaves something to wait for. -/
theorem listen_two {x y : Arrival} {h k : Heard} (hnoisex : ∀ poll ∈ x.noise, poll.Unrelated a)
    (hnoisey : ∀ poll ∈ y.noise, poll.Unrelated a)
    (hx : a.hears (.ready (some ⟨source, x.octets⟩) x.now) = some h)
    (hy : a.hears (.ready (some ⟨source, y.octets⟩) y.now) = some k)
    (hbare : h.bare = false ∧ k.bare = false) (hlen : x.noise.length + y.noise.length < v.loops)
    (hwait : v.wait > 0) (hfirst : v.wait &&& h.keeps > 0)
    (hzero : v.wait &&& h.keeps &&& k.keeps = 0) :
    ∃ v', View.listen ((x.polls source ++ y.polls source).map a.hears) v = some (.ok v') ∧
      v'.wait = 0 ∧ v'.times = (v.times.hear h).hear k := by
  obtain ⟨xs, hpolls, hxs, hnone⟩ := hears_polls source hnoisex hx
  obtain ⟨v', hlisten, hv'⟩ := listen_one source
    (v := View.take { v with loops := v.loops - xs.length } h) hnoisey hy hbare.2
    (show y.noise.length < v.loops - xs.length by omega) hfirst hzero
  refine ⟨v', ?_, hv'⟩
  rw [List.map_append, hpolls, List.append_assoc, List.singleton_append,
    View.listen_message hnone (by omega) hwait hbare.1]
  exact hlisten

end Listening

theorem settle_one (t : Timespec) {ts : Timestamp} {c : ClockReading}
    (h : Timespec.ofTimestamp ts = c.toTimespec) : settle t [ts] = c.toTimespec := by
  have hnsec : (ts.nanosecondsField.toNat : ℤ) < nsecPerSec := by
    have hnormal := c.normal.2
    rw [← h] at hnormal
    exact hnormal
  rw [settle, List.foldl_cons, Timespec.fromTimestamp_of_lt hnsec]
  exact h

/-- No service reacts to the client's Follow_Up. -/
theorem inert_followUp {params : PtpParams} {n : ℕ} (htype : params.type = .followUp)
    (hf : params.flagField2.toNat < 64) (hroom : 56 ≤ n) (heven : n % 2 = 0) (hle : n ≤ serviceBufSize) :
    Inert (wireOctets params 2 [] n) := by
  intro svc useTxTwoSteps inp src now hsize hpoll
  have hfinish : finish n params 2 n [] = some (wireOctets params 2 [] n) := by
    rw [finish, if_pos (by rw [Finishable, tlvsSize_nil]; omega), finalSize_of_pos (by omega)]
  have hlen := finish_length hfinish (by omega)
  rw [serviceBufSize] at hsize hle
  obtain ⟨hw, hnone⟩ := reaction_of_finish hfinish (by omega) (by omega) (by rw [htype]; rfl) hf
    ⟨Nat.zero_le _, fun t ht => absurd ht List.not_mem_nil⟩
    (show (wireOctets params 2 [] n).length ≤ svc.buffer.size by omega) svc.buffer.size_lt
  rw [sent_eq svc useTxTwoSteps hpoll hw, hnone]
  split <;> rfl

section Answers
variable {a : Awaited} {source : SockAddr} {resp fu : List Octet} {rx t2 : Timestamp}
  {useTxTwoSteps : Bool}

theorem octets_of_order {arrivals : List Arrival}
    (horder : arrivals.map Arrival.octets = (resp :: if useTxTwoSteps then [fu] else []) ∨
      arrivals.map Arrival.octets = (resp :: if useTxTwoSteps then [fu] else []).reverse) :
    ∀ x ∈ arrivals, x.octets = resp ∨ x.octets = fu := by
  intro x hx
  have hmem : x.octets ∈ resp :: if useTxTwoSteps then [fu] else [] := by
    have hin : x.octets ∈ arrivals.map Arrival.octets := List.mem_map.mpr ⟨x, hx, rfl⟩
    rcases horder with h | h
    · rwa [h] at hin
    · rwa [h, List.mem_reverse] at hin
  rcases List.mem_cons.mp hmem with h | h
  · exact .inl h
  · split_ifs at h
    · exact .inr (List.mem_singleton.mp h)
    · exact absurd h List.not_mem_nil

theorem eq_pair_of_octets {arrivals : List Arrival} {o o' : List Octet}
    (h : arrivals.map Arrival.octets = [o, o']) :
    ∃ x y, arrivals = [x, y] ∧ x.octets = o ∧ y.octets = o' := by
  obtain ⟨x, rest, rfl, hx, hrest⟩ := List.map_eq_cons_iff.mp h
  obtain ⟨y, rest, rfl, hy, hnil⟩ := List.map_eq_cons_iff.mp hrest
  obtain rfl := List.map_eq_nil_iff.mp hnil
  exact ⟨x, y, rfl, hx, hy⟩

/-- In either order the answers of a service end the client's waiting, and leave its times. -/
theorem listen_answers (start : Times)
    (hresp : ∀ now, a.hears (.ready (some ⟨source, resp⟩) now) =
      some (.sync (!useTxTwoSteps) t2 [rx] now.toTimespec))
    (hfu : ∀ now, a.hears (.ready (some ⟨source, fu⟩) now) = some (.followUp t2))
    {arrivals : List Arrival}
    (horder : arrivals.map Arrival.octets = (resp :: if useTxTwoSteps then [fu] else []) ∨
      arrivals.map Arrival.octets = (resp :: if useTxTwoSteps then [fu] else []).reverse)
    (hnoise : ∀ x ∈ arrivals, ∀ poll ∈ x.noise, poll.Unrelated a)
    (hfew : (arrivals.map fun x => x.noise.length).sum < waitLoopPolls) :
    ∃ v, View.listen ((arrivals.flatMap (Arrival.polls source)).map a.hears)
        ⟨waitLoopPolls, 3, start⟩ = some (.ok v) ∧ v.wait = 0 ∧ v.times.t1 = start.t1 ∧
      v.times.r1 = settle start.r1 [rx] ∧ v.times.t2 = settle start.t2 [t2] ∧
      ∀ x ∈ arrivals, x.octets = resp → v.times.r2 = x.now.toTimespec := by
  have hne : resp ≠ fu := by
    rintro rfl
    have hboth := (hresp (sampleTime 0)).symm.trans (hfu (sampleTime 0))
    exact absurd hboth (by simp)
  have hwaits : (3 : Octet) > 0 := by decide
  cases useTxTwoSteps with
  | false =>
    have hone : arrivals.map Arrival.octets = [resp] := by
      rcases horder with h | h <;> exact h
    obtain ⟨x, rest, rfl, hx, hnil⟩ := List.map_eq_cons_iff.mp hone
    obtain rfl := List.map_eq_nil_iff.mp hnil
    have hheard := hresp x.now
    rw [← hx] at hheard
    obtain ⟨v, hlisten, hwait, htimes⟩ := listen_one source
      (v := ⟨waitLoopPolls, 3, start⟩) (hnoise x List.mem_cons_self) hheard (by rfl)
      (by simpa using hfew) hwaits (show (3 : Octet) &&& 0 = 0 by decide)
    refine ⟨v, by simpa using hlisten, hwait, ?_⟩
    rw [htimes]
    refine ⟨rfl, rfl, rfl, fun y hy _ => ?_⟩
    rw [List.mem_singleton.mp hy]
    rfl
  | true =>
    rcases horder with h | h
    · obtain ⟨x, y, rfl, rfl, rfl⟩ := eq_pair_of_octets h
      obtain ⟨v, hlisten, hwait, htimes⟩ := listen_two source (v := ⟨waitLoopPolls, 3, start⟩)
        (hnoise x (by simp)) (hnoise y (by simp)) (hresp x.now) (hfu y.now) ⟨by rfl, by rfl⟩
        (by simpa using hfew) hwaits (show (3 : Octet) &&& 2 > 0 by decide)
        (show (3 : Octet) &&& 2 &&& 1 = 0 by decide)
      refine ⟨v, by simpa using hlisten, hwait, ?_⟩
      rw [htimes]
      refine ⟨rfl, rfl, rfl, fun z hz hresp => ?_⟩
      rcases List.mem_pair.mp hz with rfl | rfl
      · rfl
      · exact absurd hresp.symm hne
    · obtain ⟨y, x, rfl, rfl, rfl⟩ := eq_pair_of_octets h
      obtain ⟨v, hlisten, hwait, htimes⟩ := listen_two source (v := ⟨waitLoopPolls, 3, start⟩)
        (hnoise y (by simp)) (hnoise x (by simp)) (hfu y.now) (hresp x.now) ⟨by rfl, by rfl⟩
        (by simpa using hfew) hwaits (show (3 : Octet) &&& 1 > 0 by decide)
        (show (3 : Octet) &&& 1 &&& 2 = 0 by decide)
      refine ⟨v, by simpa using hlisten, hwait, ?_⟩
      rw [htimes]
      refine ⟨rfl, rfl, rfl, fun z hz hresp => ?_⟩
      rcases List.mem_pair.mp hz with rfl | rfl
      · exact absurd hresp.symm hne
      · rfl

end Answers

section Hearing
variable {opt : ClientOpt} {st : ClientState} {clk : IfClk} {source : SockAddr} (sID : BitVec 16)
  (params : PtpParams) (hp : st.setting.Prepared opt) (hclk : clk.Valid)
  (hsource : st.address.eq source = true) (hseq : params.sequenceId = sID)
  (hdomain : params.domainNumber = opt.domainNumber) (hf : params.flagField2.toNat < 64)
include hp hclk hsource hseq hdomain hf

theorem hears_response {a : PortAddress} (rx t2 : Timestamp) (jump : UInteger48)
    (ha : clk.portAddress = some a) (useTxTwoSteps : Bool) :
    let resp := wireOctets { params with
        type := .sync, useTwoSteps := useTxTwoSteps, timestamp := t2 } 0
      (answerList (clientSetTxParams opt).2 (.response (clk.response rx)) (.status (clk.status a))
        (.altTime (clk.altTime hclk.displayName jump))) st.size
    resp.length = st.size ∧ ∀ c, (Poll.ready (some ⟨source, resp⟩) c).WellSized st.buffer.size ∧
      (st.awaited opt.domainNumber sID).hears (.ready (some ⟨source, resp⟩) c) =
        some (.sync (!useTxTwoSteps) t2 [rx] c.toTimespec) := by
  intro resp
  have hbuf : st.buffer.size = st.size := hp.bufSize
  have hlt : st.buffer.size < 2 ^ 16 := hp.bufSize_lt
  have hfits := (answerable_prepared hp hclk).fits
  rw [← tlvsSize_answerList (portAddress_networkProtocol ha) hclk.displayName] at hfits
  refine ⟨wireOctets_length hfits, fun c => ?_⟩
  have hheard := hears_finished (st.awaited opt.domainNumber sID)
    { params with type := .sync, useTwoSteps := useTxTwoSteps, timestamp := t2 } c
    ((SockAddr.getSize_of_eq hsource).trans (Eq.symm hp.family)) hsource hseq hdomain rfl hf
    (answerList_addable hclk.displayName _) hfits (Nat.le_of_eq hbuf.symm) hlt
  rw [responseTime_answerList] at hheard
  exact hheard

omit hclk in
theorem hears_followUp (t2 : Timestamp) (useTxTwoSteps : Bool) :
    let fu := wireOctets { params with
      type := .followUp, useTwoSteps := useTxTwoSteps, timestamp := t2 } 2 [] st.size
    fu.length = st.size ∧ ∀ c, (Poll.ready (some ⟨source, fu⟩) c).WellSized st.buffer.size ∧
      (st.awaited opt.domainNumber sID).hears (.ready (some ⟨source, fu⟩) c) =
        some (.followUp t2) := by
  intro fu
  have hbuf : st.buffer.size = st.size := hp.bufSize
  have hlt : st.buffer.size < 2 ^ 16 := hp.bufSize_lt
  have hroom : 44 + 0 + 4 ≤ st.size := le_trans (by omega) hp.size_spec.1
  refine ⟨wireOctets_length (.inr hroom), fun c => ?_⟩
  exact hears_finished (st.awaited opt.domainNumber sID)
    { params with type := .followUp, useTwoSteps := useTxTwoSteps, timestamp := t2 } c
    ((SockAddr.getSize_of_eq hsource).trans (Eq.symm hp.family)) hsource hseq hdomain rfl hf
    ⟨Nat.zero_le _, fun t ht => absurd ht List.not_mem_nil⟩ (.inr hroom) (Nat.le_of_eq hbuf.symm) hlt

end Hearing

section Exchange
variable {resolve : List Octet → Prot → Option (Prot × OctetArray 16)} {opt : ClientOpt}
  {st : ClientState} {svc : ServiceState} {clientAddr serviceAddr : SockAddr}
  {now rxNow txNow : ClockReading}

/-- A client in any of its cycles and a service that gets its Request Sync: the service answers in the
size of the request, no service reacts to the client's Follow_Up, and the client's call returns true
with the four times, when the answers come in either order among fewer than `WAIT_LOOP` polls that
bring nothing. -/
theorem complete_exchange (hst : ClientReached resolve opt st) (hclk : svc.clockInfo.Valid)
    (hbuf : svc.buffer.size = serviceBufSize) (hclient : clientAddr.getSize = svc.address.getSize)
    (hservice : st.address.eq serviceAddr = true) (hnow : now.toTimespec.InRange)
    (hrx : rxNow.toTimespec.InRange) (htx : txNow.toTimespec.InRange) (sID : BitVec 16)
    (useTxTwoSteps : Bool) :
    ∃ req fus resp fu rx t2, Timespec.ofTimestamp rx = rxNow.toTimespec ∧
      Timespec.ofTimestamp t2 = txNow.toTimespec ∧
      List.length fus = (if opt.useTwoSteps then 1 else 0) ∧ (∀ f ∈ fus, Inert f) ∧
      svc.sent useTxTwoSteps ⟨.ready (some ⟨clientAddr, req⟩) rxNow, txNow, true, true⟩ =
        (resp :: if useTxTwoSteps then [fu] else []).map (⟨clientAddr, ·⟩) ∧
      List.length resp = st.size ∧ List.length fu = st.size ∧
      (∀ c, (st.awaited opt.domainNumber sID).hears (.ready (some ⟨serviceAddr, resp⟩) c) =
        some (.sync (!useTxTwoSteps) t2 [rx] c.toTimespec)) ∧
      (∀ c, (st.awaited opt.domainNumber sID).hears (.ready (some ⟨serviceAddr, fu⟩) c) =
        some (.followUp t2)) ∧
      ∀ arrivals : List Arrival,
        (arrivals.map Arrival.octets = (resp :: if useTxTwoSteps then [fu] else []) ∨
          arrivals.map Arrival.octets = (resp :: if useTxTwoSteps then [fu] else []).reverse) →
        (∀ x ∈ arrivals, ∀ poll ∈ x.noise, poll.Unrelated (st.awaited opt.domainNumber sID)) →
        (arrivals.map fun x => x.noise.length).sum < waitLoopPolls →
        ∃ r, st.flow opt.domainNumber opt.useTwoSteps sID
            ⟨now, true, true, arrivals.flatMap (Arrival.polls serviceAddr)⟩ = some r ∧
          r.sent = (req :: fus).map (⟨st.address, ·⟩) ∧ r.ret = true ∧
          r.st.t1 = now.toTimespec ∧ r.st.r1 = rxNow.toTimespec ∧ r.st.t2 = txNow.toTimespec ∧
          ∀ x ∈ arrivals, x.octets = resp → r.st.r2 = x.now.toTimespec := by
  have hp := hst.prepared
  have heven : st.size % 2 = 0 := hp.size_spec.2.2
  have hroom : 56 ≤ st.size := le_trans (by omega) hp.size_spec.1
  have hle : st.size ≤ serviceBufSize := le_trans hp.size_spec.2.1 (by decide)
  have hf : st.params.flagField2.toNat < 64 := by
    rw [show st.params.flagField2 = 0 from hp.flagField2]
    decide
  obtain ⟨ts1, hts1, -⟩ := Timespec.toTimestamp_of_inRange now.normal hnow
  set params : PtpParams := { st.params with type := .sync, sequenceId := sID, timestamp := ts1 }
    with hparams
  have hdomain : params.domainNumber = opt.domainNumber := hp.domainNumber
  obtain ⟨rx, t2, a, jump, hofrx, hoft2, ha, hsent⟩ := sent_of_request svc params useTxTwoSteps hclk
    hbuf hclient hf (clientFlags opt).2.2 (answerable_prepared hp hclk) hle hrx htx
  obtain ⟨hrespLen, hresp⟩ := hears_response sID params hp hclk hservice rfl hdomain hf rx t2 jump ha
    useTxTwoSteps
  obtain ⟨hfuLen, hfu⟩ := hears_followUp sID params hp hservice rfl hdomain hf t2 useTxTwoSteps
  set resp := wireOctets { params with
    type := .sync, useTwoSteps := useTxTwoSteps, timestamp := t2 } 0 _ st.size
  set fu := wireOctets { params with
    type := .followUp, useTwoSteps := useTxTwoSteps, timestamp := t2 } 2 [] st.size
  let req := wireOctets params 0 [.request (requestFlags (clientSetTxParams opt).2)] st.size
  let reqFollowUp := wireOctets { st.params with
    type := .followUp, sequenceId := sID, timestamp := ⟨⟨0, 0⟩, 0⟩ } 2 [] st.size
  refine ⟨req, if opt.useTwoSteps then [reqFollowUp] else [], resp, fu, rx, t2, hofrx, hoft2, ?_, ?_, ?_,
    hrespLen, hfuLen, fun c => (hresp c).2, fun c => (hfu c).2, fun arrivals horder hnoise hfew => ?_⟩
  · split_ifs <;> rfl
  · intro f hmem
    split_ifs at hmem
    · rw [List.mem_singleton.mp hmem]
      exact inert_followUp rfl hf hroom heven hle
    · exact absurd hmem List.not_mem_nil
  · refine Eq.trans hsent ?_
    cases useTxTwoSteps <;> rfl
  · obtain ⟨v, hlisten, hwait, hv1, hvr1, hv2, hvr2⟩ := listen_answers
      { st.times with t1 := now.toTimespec } (fun c => (hresp c).2) (fun c => (hfu c).2) horder hnoise
      hfew
    have hw : ∀ poll ∈ arrivals.flatMap (Arrival.polls serviceAddr), poll.WellSized st.buffer.size := by
      intro poll hpoll
      obtain ⟨x, hx, hpoll⟩ := List.mem_flatMap.mp hpoll
      rcases List.mem_append.mp hpoll with hpoll | hpoll
      · exact (hnoise x hx poll hpoll).1
      · rw [List.mem_singleton.mp hpoll]
        rcases octets_of_order horder x hx with h | h
        · rw [h]
          exact (hresp x.now).1
        · rw [h]
          exact (hfu x.now).1
    have hrun := transmit_prepared hp sID
      ⟨now, true, true, arrivals.flatMap (Arrival.polls serviceAddr)⟩ hts1 rfl rfl
    obtain ⟨r, hr, hout, hret, htimes⟩ := flow_of_listen (congrArg Prod.fst hrun) hw hlisten hwait
    refine ⟨r, hr, hout.trans (congrArg (fun x => x.2.2) hrun), hret,
      (congrArg Times.t1 htimes).trans hv1, ?_, ?_, fun x hx hoct => ?_⟩
    · exact ((congrArg Times.r1 htimes).trans hvr1).trans (settle_one _ hofrx)
    · exact ((congrArg Times.t2 htimes).trans hv2).trans (settle_one _ hoft2)
    · exact (congrArg Times.r2 htimes).trans (hvr2 x hx hoct)

end Exchange

section Sample

/-- `127.0.0.1` -/
def sampleHost : List Octet := [49, 50, 55, 46, 48, 46, 48, 46, 49]

/-- The system knows one address. -/
def sampleResolve (ip : List Octet) : Prot → Option (Prot × OctetArray 16)
  | .udpIPv4 => if ip = sampleHost then
      some (.udpIPv4, ⟨127 :: 0 :: 0 :: 1 :: List.replicate 12 0, rfl⟩) else none
  | _ => none

def sampleRequests : ClientOpt :=
  { useTwoSteps := true, useCSPTPstatus := true, useAltTimeScale := true, domainNumber := 128,
    type := .udpIPv4, ip := some sampleHost }

/-- A request for everything and a service in two-step mode. Its answers come in the other order, behind a
timeout and a datagram from elsewhere. -/
theorem complete_exchange_sample :
    ∃ st resp fu r, clientAllocObjs sampleResolve sampleRequests (fun _ => 0xaa) = some st ∧
      ClientState.flow 128 true 7 ⟨sampleTime 9, true, true,
        [.idle, .ready (some sampleDatagram) (sampleTime 20),
          .ready (some ⟨st.address, fu⟩) (sampleTime 21),
          .ready (some ⟨st.address, resp⟩) (sampleTime 22)]⟩ st = some r ∧
      r.ret = true ∧ r.st.t1 = ⟨9, 5⟩ ∧ r.st.r1 = ⟨10, 5⟩ ∧ r.st.t2 = ⟨11, 5⟩ ∧ r.st.r2 = ⟨22, 5⟩ := by
  have halloc : (clientAllocObjs sampleResolve sampleRequests fun _ => 0xaa).map
      (fun st => st.awaited 128 7) = some ⟨160, .in4 ptpUdpPort 0x0100007f, 16, 128, 7⟩ := rfl
  obtain ⟨st, hst, hawaited⟩ := Option.map_eq_some_iff.mp halloc
  obtain ⟨req, fus, resp, fu, rx, t2, -, -, -, -, -, -, -, -, -, hanswered⟩ :=
    @complete_exchange sampleResolve sampleRequests st sampleService (.in4 7 9) st.address (sampleTime 9)
      (sampleTime 10) (sampleTime 11) (.start hst) ⟨by decide, by decide, by decide⟩ rfl rfl
      (SockAddr.eq_self st.address) (by decide) (by decide) (by decide) 7 true
  have hnoise : ∀ poll ∈ [Poll.idle, .ready (some sampleDatagram) (sampleTime 20)],
      poll.Unrelated (st.awaited 128 7) := by
    rw [hawaited]
    intro poll hpoll
    rcases List.mem_pair.mp hpoll with rfl | rfl
    · exact ⟨trivial, rfl⟩
    · exact unrelated_of_other _ (by decide +kernel) (.inl (by decide))
  obtain ⟨r, hr, -, hret, ht1, hr1, ht2, hr2⟩ := hanswered
    [⟨[.idle, .ready (some sampleDatagram) (sampleTime 20)], fu, sampleTime 21⟩,
      ⟨[], resp, sampleTime 22⟩] (.inr rfl) (fun x hx => by
        rcases List.mem_pair.mp hx with rfl | rfl
        · exact hnoise
        · exact fun poll hpoll => absurd hpoll List.not_mem_nil)
    (show 2 + (0 + 0) < 50 by decide)
  exact ⟨st, resp, fu, r, hst, hr, hret, ht1, hr1, ht2,
    hr2 _ (List.mem_cons_of_mem _ List.mem_cons_self) rfl⟩

end Sample

end Csptp
