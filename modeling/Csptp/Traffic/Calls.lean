import Csptp.Traffic.Parties
import Csptp.Client.Cycle
import Csptp.Exchange

/-! # The calls of a client at the network

However the steps of the parties interleave, what a client does is a run of `client_main` on the polls
that the network gave it. -/
namespace Csptp
open Octets Links
set_option autoImplicit false

/-! ## One call after the other -/

/-- The state and the number that these calls leave. -/
def resume (start : ClientState × BitVec 16) (rs : List FlowResult) : ClientState × BitVec 16 :=
  rs.foldl (fun _ r => (r.st, r.sID)) start

theorem resume_concat (start : ClientState × BitVec 16) (rs : List FlowResult) (r : FlowResult) :
    resume start (rs ++ [r]) = (r.st, r.sID) := by
  rw [resume, List.foldl_append]
  rfl

theorem clientMain_concat {opt : ClientOpt} {inps : List FlowInput} {st : ClientState}
    {sID : BitVec 16} {rs : List FlowResult} {inp : FlowInput} {r : FlowResult}
    (h : clientMain opt inps st sID = some rs)
    (hr : (resume (st, sID) rs).1.flow opt.domainNumber opt.useTwoSteps (resume (st, sID) rs).2 inp =
      some r) : clientMain opt (inps ++ [inp]) st sID = some (rs ++ [r]) := by
  induction inps generalizing st sID rs with
  | nil =>
    obtain rfl := Option.some.inj h
    rw [List.nil_append, clientMain, show st.flow opt.domainNumber opt.useTwoSteps sID inp = some r from hr]
    rfl
  | cons inp' inps ih =>
    rw [clientMain, Option.bind_eq_some_iff] at h
    obtain ⟨r', hr', h⟩ := h
    obtain ⟨rs', hrs', rfl⟩ := Option.map_eq_some_iff.mp h
    rw [List.cons_append, clientMain, hr', Option.bind_some, ih hrs' hr]
    rfl

section Call
variable {opt : ClientOpt} {sID : BitVec 16} {inp : FlowInput} {st : ClientState}

theorem flow_of_failed (h : (ClientState.transmit opt.useTwoSteps sID inp st).1 = false)
    (hpolls : inp.polls = []) :
    st.flow opt.domainNumber opt.useTwoSteps sID inp = some
      { ret := false, st := (ClientState.transmit opt.useTwoSteps sID inp st).2.1, sequenceId := sID,
        sID := sID, sent := (ClientState.transmit opt.useTwoSteps sID inp st).2.2, slept := none } := by
  rw [ClientState.flow]
  dsimp only
  rw [if_pos h, hpolls]
  rfl

theorem flow_of_sent (h : (ClientState.transmit opt.useTwoSteps sID inp st).1 = true) :
    st.flow opt.domainNumber opt.useTwoSteps sID inp =
      (Waiting.loop opt.domainNumber sID inp.polls (st.waiting opt.useTwoSteps sID inp)).map
        (FlowResult.ofLoop sID (ClientState.transmit opt.useTwoSteps sID inp st).2.2) := by
  rw [ClientState.flow]
  dsimp only
  rw [if_neg (by rw [h]; simp)]
  refine congrArg (fun f => Option.map f _) (funext fun x => ?_)
  cases x <;> rfl

end Call

/-! ## What is noted of the calls -/

/-- The calls that have come to their end, and the one that has not. -/
structure CallLog where
  done : List FlowInput
  current : Option FlowInput

def CallLog.note (log : CallLog) : ClientEvent → CallLog
  | .call _ now netReqSync netFollowUp _ =>
    { log with current := some ⟨now, netReqSync, netFollowUp, []⟩ }
  | .pass _ poll =>
    { log with current := log.current.map fun inp => { inp with polls := inp.polls ++ [poll] } }
  | .ret _ => ⟨log.done ++ log.current.toList, none⟩

def callLog (events : List ClientEvent) : CallLog := events.foldl CallLog.note ⟨[], none⟩

def ClientEvent.result : ClientEvent → Option FlowResult
  | .ret r => some r
  | _ => none

/-- What the calls returned. -/
def results (events : List ClientEvent) : List FlowResult := events.filterMap ClientEvent.result

/-- What these calls sent. -/
def sentIn (address : SockAddr) (rs : List FlowResult) : List Packet :=
  rs.flatMap fun r => r.sent.map (Datagram.sentFrom address)

theorem callLog_concat (events : List ClientEvent) (e : ClientEvent) :
    callLog (events ++ [e]) = (callLog events).note e := by
  rw [callLog, List.foldl_append]
  rfl

theorem sentIn_concat (address : SockAddr) (rs : List FlowResult) (r : FlowResult) :
    sentIn address (rs ++ [r]) = sentIn address rs ++ r.sent.map (Datagram.sentFrom address) := by
  rw [sentIn, List.flatMap_append, List.flatMap_singleton]
  rfl

/-- The call that a client is in, when the calls before left it in the state `st` with the number
`sID`, and what it has sent in it. -/
def InCall (opt : ClientOpt) (st : ClientState) (sID : BitVec 16) :
    Option FlowInput → List Datagram → ClientSide → Prop
  | current, sent, .between st' sID' => current = none ∧ sent = [] ∧ st' = st ∧ sID' = sID
  | current, sent, .waiting w sID' sent' => ∃ inp, current = some inp ∧ sID' = sID ∧ sent' = sent ∧
      (ClientState.transmit opt.useTwoSteps sID inp st).1 = true ∧
      (ClientState.transmit opt.useTwoSteps sID inp st).2.2 = sent ∧ w.GoesOn ∧
      ∀ more, Waiting.loop opt.domainNumber sID (inp.polls ++ more) (st.waiting opt.useTwoSteps sID inp) =
        Waiting.loop opt.domainNumber sID more w
  | current, sent, .leaving r => ∃ inp, current = some inp ∧ r.sent = sent ∧
      st.flow opt.domainNumber opt.useTwoSteps sID inp = some r

/-- The calls of a client are those of `client_main`. -/
structure Follows (address : SockAddr) (opt : ClientOpt) (st₀ : ClientState) (events : List ClientEvent)
    (side : ClientSide) : Prop where
  calls : clientMain opt (callLog events).done st₀ 1 = some (results events)
  inCall : ∃ sent, InCall opt (resume (st₀, 1) (results events)).1 (resume (st₀, 1) (results events)).2
      (callLog events).current sent side ∧
    events.flatMap ClientEvent.gives =
      sentIn address (results events) ++ sent.map (Datagram.sentFrom address)

section Steps
variable {opt : ClientOpt} {st : ClientState} {sID : BitVec 16} {inp : FlowInput}

theorem inCall_called (now : ClockReading) (netReqSync netFollowUp : Bool) :
    InCall opt st sID (some ⟨now, netReqSync, netFollowUp, []⟩)
      (ClientState.sends opt sID now netReqSync netFollowUp st).2.2
      (.called sID (ClientState.sends opt sID now netReqSync netFollowUp st)) := by
  rcases hs : ClientState.sends opt sID now netReqSync netFollowUp st with ⟨flag, st', sent⟩
  rw [ClientState.sends] at hs
  cases flag with
  | false =>
    refine ⟨_, rfl, rfl, ?_⟩
    rw [flow_of_failed (by rw [hs]) rfl, hs]
  | true =>
    refine ⟨_, rfl, rfl, rfl, by rw [hs], by rw [hs],
      ⟨show 0 < 50 by decide, show (3 : Octet) > 0 by decide⟩, fun more => ?_⟩
    rw [ClientState.waiting, hs]
    rfl

theorem inCall_passed {sent : List Datagram} {w : Waiting} (poll : Poll)
    (hflag : (ClientState.transmit opt.useTwoSteps sID inp st).1 = true)
    (hsent : (ClientState.transmit opt.useTwoSteps sID inp st).2.2 = sent) (hgo : w.GoesOn)
    (hloop : ∀ more, Waiting.loop opt.domainNumber sID (inp.polls ++ more)
      (st.waiting opt.useTwoSteps sID inp) = Waiting.loop opt.domainNumber sID more w) :
    InCall opt st sID (some { inp with polls := inp.polls ++ [poll] }) sent
      (.passed sID sent (w.body opt.domainNumber sID poll)) := by
  -- the polls of the loop take no part in the sends
  have hpass (more : List Poll) : Waiting.loop opt.domainNumber sID (inp.polls ++ [poll] ++ more)
      (st.waiting opt.useTwoSteps sID { inp with polls := inp.polls ++ [poll] }) =
        Waiting.loop opt.domainNumber sID (poll :: more) w := by
    rw [List.append_assoc]
    exact hloop (poll :: more)
  have hflow : st.flow opt.domainNumber opt.useTwoSteps sID
      { inp with polls := inp.polls ++ [poll] } =
        (Waiting.loop opt.domainNumber sID [poll] w).map (FlowResult.ofLoop sID sent) := by
    have hall := hpass []
    rw [List.append_nil] at hall
    have hflow := flow_of_sent (show (ClientState.transmit opt.useTwoSteps sID
      { inp with polls := inp.polls ++ [poll] } st).1 = true from hflag)
    rw [hall] at hflow
    rw [← hsent]
    exact hflow
  rw [Waiting.loop, if_pos hgo] at hflow
  cases hb : w.body opt.domainNumber sID poll with
  | error st' =>
    rw [hb] at hflow
    exact ⟨_, rfl, rfl, hflow⟩
  | ok w' =>
    rw [hb] at hflow
    rw [ClientSide.passed]
    by_cases hgo' : w'.GoesOn
    · rw [if_pos hgo']
      refine ⟨_, rfl, rfl, rfl, hflag, hsent, hgo', fun more => ?_⟩
      rw [hpass, Waiting.loop, if_pos hgo, hb]
    · rw [if_neg hgo']
      dsimp only at hflow
      rw [Waiting.loop, if_neg hgo'] at hflow
      exact ⟨_, rfl, rfl, hflow⟩

end Steps

theorem follows_step {address : SockAddr} {opt : ClientOpt} {st₀ : ClientState}
    {events : List ClientEvent} {side side' : ClientSide} {e : ClientEvent}
    (h : Follows address opt st₀ events side) (hstep : ClientStep address opt side e side') :
    Follows address opt st₀ (events ++ [e]) side' := by
  obtain ⟨hcalls, sent, hin, hout⟩ := h
  have hresults : results (events ++ [e]) = results events ++ (ClientEvent.result e).toList := by
    rw [results, List.filterMap_append]
    cases e <;> rfl
  cases hstep with
  | @call st sID now netReqSync netFollowUp =>
    obtain ⟨-, rfl, hst, hsID⟩ := hin
    have hsame : results (events ++ [_]) = results events := hresults.trans (List.append_nil _)
    refine ⟨?_, (ClientState.sends opt sID now netReqSync netFollowUp st).2.2, ?_, ?_⟩
    · rw [hsame, callLog_concat]
      exact hcalls
    · rw [hsame, callLog_concat, ← hst, ← hsID]
      exact inCall_called now netReqSync netFollowUp
    · rw [hsame, List.flatMap_append, hout, List.map_nil, List.append_nil, List.flatMap_singleton]
      rfl
  | @pass w sID sent' dst poll hdst =>
    obtain ⟨inp, hcurrent, rfl, rfl, hflag, hsent, hgo, hloop⟩ := hin
    have hsame : results (events ++ [_]) = results events := hresults.trans (List.append_nil _)
    refine ⟨?_, sent', ?_, ?_⟩
    · rw [hsame, callLog_concat]
      exact hcalls
    · rw [hsame, callLog_concat, CallLog.note, hcurrent]
      exact inCall_passed poll hflag hsent hgo hloop
    · rw [hsame, List.flatMap_append, hout, List.flatMap_singleton]
      exact List.append_nil _
  | @ret r =>
    obtain ⟨inp, hcurrent, rfl, hflow⟩ := hin
    have hmore : results (events ++ [_]) = results events ++ [r] := hresults
    refine ⟨?_, [], ?_, ?_⟩
    · rw [hmore, callLog_concat, CallLog.note, hcurrent]
      exact clientMain_concat hcalls hflow
    · rw [hmore, resume_concat, callLog_concat]
      exact ⟨rfl, rfl, rfl, rfl⟩
    · rw [hmore, sentIn_concat, List.flatMap_append, hout, List.flatMap_singleton]
      simp [ClientEvent.gives]

/-- The events of a client alone. -/
theorem follows_of_local {resolve : Resolver} {address : SockAddr} {opt : ClientOpt}
    {events : List ClientEvent} {side : ClientSide}
    (h : (clientHost resolve address opt).Local events side) :
    ∃ contents st₀, clientAllocObjs resolve opt contents = some st₀ ∧
      Follows address opt st₀ events side := by
  induction h with
  | start h =>
    obtain ⟨contents, st, hst, rfl⟩ := h
    exact ⟨contents, st, hst, rfl, [], ⟨rfl, rfl, rfl, rfl⟩, rfl⟩
  | step _ hstep ih =>
    obtain ⟨contents, st₀, hst₀, hfollows⟩ := ih
    exact ⟨contents, st₀, hst₀, follows_step hfollows hstep⟩

/-! ## One call of a lone client -/

section Sample

/-- The client sends, the service takes the first request, and its second answer comes in first. -/
def callEvents (site : Site Unit Unit) (now rx arrival₁ arrival₂ : ClockReading) (inp : ServiceInput)
    (req req' resp fu : Packet) : Site.History Unit Unit := [
  .host (.inr ((), .call 1 now true true [req, req'])),
  .host (.inl ((), .hear (site.serviceAddr ()) (.ready (some ⟨req.src, req.octets⟩) rx))),
  .host (.inl ((), .reply inp [resp, fu])),
  .host (.inr ((), .pass (site.clientAddr ()) (.ready (some ⟨fu.src, fu.octets⟩) arrival₁))),
  .host (.inr ((), .pass (site.clientAddr ()) (.ready (some ⟨resp.src, resp.octets⟩) arrival₂)))]

theorem run_of_call {site : Site Unit Unit} {contents contents' : Mem} {sv sv' : ServiceState}
    {st : ClientState} {w w₁ : Waiting} {sent : List Datagram} {r : FlowResult}
    {now rx arrival₁ arrival₂ : ClockReading} {inp : ServiceInput} {req req' resp fu : Packet}
    (hlisten : serviceAllocObjs (site.serviceType ()) contents = some sv)
    (hstart : clientAllocObjs site.resolve (site.opt ()) contents' = some st)
    (hcall : ClientStep (site.clientAddr ()) (site.opt ()) (.between st 1)
      (.call 1 now true true [req, req']) (.waiting w 1 sent))
    (hpoll : inp.poll = .ready (some ⟨req.src, req.octets⟩) rx)
    (hreply : ServiceStep (site.serviceAddr ()) (site.useTxTwoSteps ()) (.answering sv inp.poll)
      (.reply inp [resp, fu]) (.listening sv'))
    (hpass₁ : ClientStep (site.clientAddr ()) (site.opt ()) (.waiting w 1 sent)
      (.pass (site.clientAddr ()) (.ready (some ⟨fu.src, fu.octets⟩) arrival₁)) (.waiting w₁ 1 sent))
    (hpass₂ : ClientStep (site.clientAddr ()) (site.opt ()) (.waiting w₁ 1 sent)
      (.pass (site.clientAddr ()) (.ready (some ⟨resp.src, resp.octets⟩) arrival₂)) (.leaving r))
    (hreq : req.dst = site.serviceAddr ()) (hfu : fu.dst = site.clientAddr ())
    (hresp : resp.dst = site.clientAddr ()) :
    ∃ s, site.Run (callEvents site now rx arrival₁ arrival₂ inp req req' resp fu ++
      [.host (.inr ((), .ret r))]) s := by
  let parties (a : ServiceSide) (b : ClientSide) : Site.Parties Unit Unit := (fun _ => a, fun _ => b)
  have hservice {a a' : ServiceSide} {b : ClientSide} {e : ServiceEvent}
      (h : ServiceStep (site.serviceAddr ()) (site.useTxTwoSteps ()) a e a') :
      site.hosts.step (parties a b) (.inl ((), e)) (parties a' b) := ⟨⟨h, fun _ hj => absurd rfl hj⟩, rfl⟩
  have hclient {a : ServiceSide} {b b' : ClientSide} {e : ClientEvent}
      (h : ClientStep (site.clientAddr ()) (site.opt ()) b e b') :
      site.hosts.step (parties a b) (.inr ((), e)) (parties a b') := ⟨⟨h, fun _ hj => absurd rfl hj⟩, rfl⟩
  have hpackets (p : Packet) (now : ClockReading) :
      Poll.packets p.dst (.ready (some ⟨p.src, p.octets⟩) now) = [p] := rfl
  have h₀ : site.Run [] ⟨parties (.listening sv) (.between st 1), 0⟩ :=
    .start ⟨⟨fun _ => ⟨_, _, hlisten, rfl⟩, fun _ => ⟨_, _, hstart, rfl⟩⟩, rfl⟩
  have h₁ := h₀.host (hclient hcall) 0 rfl
  have h₂ := h₁.host (hservice (@ServiceStep.hear _ _ sv _ (.ready (some ⟨req.src, req.octets⟩) rx)
    (SockAddr.eq_self _))) [req'] (by
    show 0 + (([req, req'] : List Packet) : Multiset Packet) = _ + ((Poll.packets (site.serviceAddr ())
      (.ready (some ⟨req.src, req.octets⟩) rx) : List Packet) : Multiset Packet)
    rw [← hreq, hpackets, zero_add, Multiset.coe_add]
    exact Multiset.coe_eq_coe.mpr (List.Perm.swap _ _ _))
  rw [← hpoll] at h₂
  have h₃ := h₂.host (hservice hreply) [req'] (by rw [hpoll]; rfl)
  have h₄ := h₃.host (hclient hpass₁) [req', resp] (by
    show _ = _ + ((Poll.packets (site.clientAddr ()) (.ready (some ⟨fu.src, fu.octets⟩) arrival₁) :
      List Packet) : Multiset Packet)
    rw [← hfu, hpackets]
    rfl)
  have h₅ := h₄.host (hclient hpass₂) [req'] (by
    show _ = _ + ((Poll.packets (site.clientAddr ()) (.ready (some ⟨resp.src, resp.octets⟩) arrival₂) :
      List Packet) : Multiset Packet)
    rw [← hresp, hpackets]
    rfl)
  have h₆ := h₅.host (hclient .ret) [req'] rfl
  rw [hpoll] at h₆
  exact ⟨_, h₆⟩

theorem eq_of_fst {α β γ : Type*} {x : α × β × γ} {a : α} (h : x.1 = a) : x = (a, x.2.1, x.2.2) := by
  rw [← h]

theorem call_of_sends {address : SockAddr} {opt : ClientOpt} {sID : BitVec 16} {now : ClockReading}
    {netReqSync netFollowUp : Bool} {st st' : ClientState} {sent : List Datagram}
    (h : ClientState.sends opt sID now netReqSync netFollowUp st = (true, st', sent)) :
    ClientStep address opt (.between st sID)
      (.call sID now netReqSync netFollowUp (sent.map (Datagram.sentFrom address)))
      (.waiting (Waiting.start st') sID sent) := by
  have hstep := @ClientStep.call address opt st sID now netReqSync netFollowUp
  rw [h] at hstep
  exact hstep

theorem pass_of_body {address : SockAddr} {opt : ClientOpt} {sID : BitVec 16} {sent : List Datagram}
    {w w' : Waiting} {poll : Poll} (h : w.body opt.domainNumber sID poll = .ok w') :
    ClientStep address opt (.waiting w sID sent) (.pass address poll)
      (.passed sID sent (.ok w')) := by
  rw [← h]
  exact .pass (SockAddr.eq_self _)

def sampleSite : Site Unit Unit where
  serviceType := fun _ => .udpIPv4
  serviceAddr := fun _ => .in4 ptpUdpPort 0x0100007f
  useTxTwoSteps := fun _ => true
  resolve := sampleResolve
  clientAddr := fun _ => .in4 7 9
  opt := fun _ => sampleRequests
  services_apart := fun _ _ _ => rfl
  clients_apart := fun _ _ _ => rfl
  apart := fun _ _ => rfl

def sampleFirst : ClientState :=
  (clientAllocObjs sampleResolve sampleRequests fun _ => 0xaa).getD (sampleClient fun _ => 0)

def sampleListening : ServiceState := (serviceAllocObjs .udpIPv4 fun _ => 0xaa).getD sampleService

def sampleSends : Bool × ClientState × List Datagram :=
  ClientState.sends sampleRequests 1 (sampleTime 9) true true sampleFirst

def samplePackets : List Packet := sampleSends.2.2.map (Datagram.sentFrom (.in4 7 9))

/-- The service takes this packet and answers. -/
def sampleTaken (req : Packet) : ServiceInput :=
  { poll := .ready (some ⟨req.src, req.octets⟩) (sampleTime 10)
    now := sampleTime 11, netRespSync := true, netFollowUp := true }

def sampleReplies (req : Packet) : List Packet :=
  (sampleListening.sent true (sampleTaken req)).map (Datagram.sentFrom (.in4 ptpUdpPort 0x0100007f))

/-- The passes that take these replies, the second one first. -/
def samplePasses (resp fu : Packet) : Option (Waiting × Waiting) :=
  (((Waiting.start sampleSends.2.1).body 128 1 (.ready (some ⟨fu.src, fu.octets⟩)
    (sampleTime 21))).toOption.filter (·.GoesOn)).bind fun w =>
      (w.body 128 1 (.ready (some ⟨resp.src, resp.octets⟩) (sampleTime 22))).toOption.map fun w' => (w, w')

/-- All of the call but its result. -/
def sampleEvents (req req' resp fu : Packet) : Site.History Unit Unit :=
  callEvents sampleSite (sampleTime 9) (sampleTime 10) (sampleTime 21) (sampleTime 22) (sampleTaken req)
    req req' resp fu

theorem samplePackets_spec : sampleSends.1 = true ∧ samplePackets.map Packet.dst =
    List.replicate 2 (.in4 ptpUdpPort 0x0100007f) := by decide +kernel

theorem sampleReplies_spec : samplePackets.head?.map (fun req => (sampleReplies req).map Packet.dst) =
    some (List.replicate 2 (.in4 7 9)) := by decide +kernel

theorem samplePasses_spec : (samplePackets.head?.bind fun req => (sampleReplies req)[0]?.bind fun resp =>
    (sampleReplies req)[1]?.bind fun fu => (samplePasses resp fu).map fun w =>
      (decide w.2.GoesOn, decide (w.2.wait = 0))) = some (false, true) := by decide +kernel

theorem ok_of_toOption {ε α : Type} {x : Except ε α} {a : α} (h : x.toOption = some a) : x = .ok a := by
  cases x with
  | error e => exact absurd h (by simp [Except.toOption])
  | ok b => exact congrArg Except.ok (Option.some.inj h)

theorem sampleListening_spec : serviceAllocObjs .udpIPv4 (fun _ => 0xaa) = some sampleListening := by
  obtain ⟨st, hst⟩ := Option.isSome_iff_exists.mp
    (show (serviceAllocObjs .udpIPv4 fun _ => 0xaa).isSome from by decide +kernel)
  rw [hst]
  exact congrArg some (by rw [sampleListening, hst, Option.getD_some])

theorem sampleFirst_spec : clientAllocObjs sampleResolve sampleRequests (fun _ => 0xaa) = some sampleFirst := by
  obtain ⟨st, hst⟩ := Option.isSome_iff_exists.mp
    (show (clientAllocObjs sampleResolve sampleRequests fun _ => 0xaa).isSome from by decide +kernel)
  rw [hst]
  exact congrArg some (by rw [sampleFirst, hst, Option.getD_some])

theorem sample_run : ∃ req req' resp fu r s,
    sampleSite.Run (sampleEvents req req' resp fu ++ [.host (.inr ((), .ret r))]) s ∧ r.ret = true ∧
      r.sequenceId = 1 := by
  obtain ⟨hflag, htargets⟩ := samplePackets_spec
  have hback := sampleReplies_spec
  have hpasses := samplePasses_spec
  obtain ⟨req, req', hreqs⟩ := List.length_eq_two.mp
    (show samplePackets.length = 2 by simpa using congrArg List.length htargets)
  rw [hreqs] at htargets
  rw [hreqs, List.head?_cons, Option.map_some, Option.some.injEq] at hback
  obtain ⟨resp, fu, hreplies⟩ := List.length_eq_two.mp
    (show (sampleReplies req).length = 2 by simpa using congrArg List.length hback)
  rw [hreplies] at hback
  rw [hreqs, List.head?_cons, Option.bind_some, hreplies] at hpasses
  obtain ⟨⟨w₁, w₂⟩, hpair, hends⟩ := Option.map_eq_some_iff.mp
    (show (samplePasses resp fu).map _ = some (false, true) from hpasses)
  obtain ⟨hstop, hzero⟩ := Prod.mk.inj hends
  obtain ⟨w, hw₁, hpair⟩ := Option.bind_eq_some_iff.mp hpair
  obtain ⟨hw₁, hgo⟩ := Option.filter_eq_some_iff.mp hw₁
  obtain ⟨w', hw₂, hpair⟩ := Option.map_eq_some_iff.mp hpair
  obtain ⟨rfl, rfl⟩ := Prod.mk.inj hpair
  have hcall := @call_of_sends (.in4 7 9) sampleRequests 1 (sampleTime 9) true true sampleFirst
    sampleSends.2.1 sampleSends.2.2 (eq_of_fst hflag)
  rw [← samplePackets, hreqs] at hcall
  have hreply : ServiceStep (.in4 ptpUdpPort 0x0100007f) true
      (.answering sampleListening (sampleTaken req).poll) (.reply (sampleTaken req) [resp, fu])
      (.listening (ServiceState.mainFlow true (sampleTaken req) sampleListening).2.1) := by
    rw [← hreplies, sampleReplies]
    exact .reply
  have hpass₁ := @pass_of_body (.in4 7 9) sampleRequests 1 sampleSends.2.2 _ _ _ (ok_of_toOption hw₁)
  have hpass₂ := @pass_of_body (.in4 7 9) sampleRequests 1 sampleSends.2.2 _ _ _ (ok_of_toOption hw₂)
  rw [ClientSide.passed, if_pos (of_decide_eq_true hgo)] at hpass₁
  rw [ClientSide.passed, if_neg (of_decide_eq_false hstop)] at hpass₂
  obtain ⟨s, hs⟩ := @run_of_call sampleSite _ _ _ _ _ _ _ _ _ _ _ _ _ _ _ _ _ _ sampleListening_spec
    sampleFirst_spec hcall rfl hreply hpass₁ hpass₂ (List.cons_eq_cons.mp htargets).1
    (List.cons_eq_cons.mp (List.cons_eq_cons.mp hback).2).1 (List.cons_eq_cons.mp hback).1
  exact ⟨req, req', resp, fu, _, s, hs, hzero, rfl⟩

end Sample

/-! ## The calls of every client -/

/-- In every run of the network the calls of each client are those of `client_main`, on what the
network gave to it, and it sends what they send. -/
theorem Site.OpenRun.calls_refine {κ ι : Type} [DecidableEq ι] {site : Site κ ι} {history : Site.History κ ι}
    {s : Links.State (Site.Parties κ ι) Packet} (h : site.OpenRun history s) (i : ι) :
    let events := history.filterMap (Site.ofClient i)
    ∃ contents st₀, clientAllocObjs site.resolve (site.opt i) contents = some st₀ ∧
      clientMain (site.opt i) (callLog events).done st₀ 1 = some (results events) ∧
      sentIn (site.clientAddr i) (results events) <+: events.flatMap ClientEvent.gives := by
  obtain ⟨contents, st₀, hst₀, hcalls, sent, -, hout⟩ := follows_of_local (h.client i)
  exact ⟨contents, st₀, hst₀, hcalls, by rw [hout]; exact List.prefix_append _ _⟩

theorem Site.OpenRun.calls_refine_sample : ∃ (history : Site.History Unit Unit)
    (s : Links.State (Site.Parties Unit Unit) Packet) (contents : Mem) (st₀ : ClientState)
    (r : FlowResult), sampleSite.OpenRun history s ∧ r.ret = true ∧
      clientAllocObjs sampleResolve sampleRequests contents = some st₀ ∧
      clientMain sampleRequests (callLog (history.filterMap (Site.ofClient ()))).done st₀ 1 = some [r] ∧
      sentIn (.in4 7 9) [r] <+: (history.filterMap (Site.ofClient ())).flatMap ClientEvent.gives := by
  obtain ⟨req, req', resp, fu, r, s, hs, htrue, -⟩ := sample_run
  obtain ⟨contents, st₀, hst₀, hcalls, hsent⟩ := Site.OpenRun.calls_refine hs.toOpen ()
  exact ⟨_, s, contents, st₀, r, hs.toOpen, htrue, hst₀, hcalls, hsent⟩

end Csptp
