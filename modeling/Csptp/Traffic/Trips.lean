import Csptp.Traffic.Origins

/-! # Requests and answers on their way

Packets may be lost, duplicated and reordered, and strangers may send what they like from addresses of
their own. A client that returns true has its times from answers of its service to requests that it
sent under the number of the call. -/
namespace Csptp
open Octets Links
set_option autoImplicit false

/-! ## The times that are heard -/

/-- The last Sync of some answers gives the times of its arrival and of its request's arrival. -/
theorem hearAll_sync {hs : List Heard} (hof : ∀ h ∈ hs, ∃ rx tx arrival, Heard.Of rx tx arrival h)
    (hsync : ∃ h ∈ hs, h.arrivals ≠ []) (t : Times) :
    ∃ oneStep ts2 ts1 arrival, .sync oneStep ts2 [ts1] arrival ∈ hs ∧
      ts1.time = some (t.hearAll hs).r1 ∧ (t.hearAll hs).r2 = arrival := by
  induction hs using List.reverseRecOn with
  | nil => exact absurd hsync (by simp)
  | append_singleton hs h ih =>
    obtain ⟨rx, tx, arrival, hh⟩ := hof h (by simp)
    have hall : t.hearAll (hs ++ [h]) = (t.hearAll hs).hear h := by
      rw [Times.hearAll, List.foldl_append]
      rfl
    rw [hall]
    cases hh with
    | @sync oneStep ts2 ts1 htx hrx =>
      refine ⟨oneStep, ts2, ts1, arrival, by simp, ?_, rfl⟩
      rw [hrx, Times.hear, Heard.responses, settle_eq, List.filterMap_cons_some hrx]
      rfl
    | followUp htx =>
      have hsync' : ∃ h ∈ hs, h.arrivals ≠ [] := by
        obtain ⟨x, hx, hne⟩ := hsync
        rcases List.mem_append.mp hx with hx | hx
        · exact ⟨x, hx, hne⟩
        · rw [List.mem_singleton.mp hx] at hne
          exact absurd rfl hne
      obtain ⟨oneStep, ts2', ts1, arrival', hmem, hr1, hr2⟩ :=
        ih (fun x hx => hof x (List.mem_append_left _ hx)) hsync'
      exact ⟨oneStep, ts2', ts1, arrival', List.mem_append_left _ hmem, hr1, hr2⟩

/-- The time of sending is that of one of the answers. -/
theorem hearAll_origin {hs : List Heard} (hof : ∀ h ∈ hs, ∃ rx tx arrival, Heard.Of rx tx arrival h)
    (horigin : ∃ h ∈ hs, h.origins ≠ []) (t : Times) :
    ∃ h ∈ hs, ∀ rx tx arrival, Heard.Of rx tx arrival h → tx = (t.hearAll hs).t2 := by
  have htime {h : Heard} {rx tx arrival : Timespec} (hh : Heard.Of rx tx arrival h) :
      ∀ ts ∈ h.origins, ts.time = some tx := by
    cases hh with
    | @sync oneStep ts2 ts1 htx hrx =>
      intro ts hts
      cases oneStep with
      | false => exact absurd hts List.not_mem_nil
      | true => exact (congrArg Timestamp.time (List.mem_singleton.mp hts)).trans htx
    | followUp htx =>
      intro ts hts
      exact (congrArg Timestamp.time (List.mem_singleton.mp hts)).trans htx
  have hconv : ∃ h ∈ hs, ∃ ts ∈ h.origins, ts.time ≠ none := by
    obtain ⟨h, hh, hne⟩ := horigin
    obtain ⟨ts, hts⟩ := List.exists_mem_of_ne_nil _ hne
    obtain ⟨rx, tx, arrival, hof⟩ := hof h hh
    exact ⟨h, hh, ts, hts, by rw [htime hof ts hts]; simp⟩
  obtain ⟨h, hh, ts, hts, hts2⟩ := (settle_carried t.t2 hs Heard.origins).mpr hconv
  refine ⟨h, hh, fun rx tx arrival hof => ?_⟩
  rw [htime hof ts hts] at hts2
  rw [Times.hearAll_eq]
  exact Option.some.inj hts2

/-! ## One call in the events of a client -/

def ClientEvent.poll : ClientEvent → Option Poll
  | .pass _ poll => some poll
  | _ => none

/-- The call that has not come to its end began with the last `call`. -/
theorem current_call {events : List ClientEvent} {inp : FlowInput}
    (h : (callLog events).current = some inp) :
    ∃ before sID sent passes,
      events = before ++ .call sID inp.now inp.netReqSync inp.netFollowUp sent :: passes ∧
        (∀ e ∈ passes, ∃ dst poll, e = .pass dst poll) ∧ inp.polls = passes.filterMap ClientEvent.poll := by
  induction events using List.reverseRecOn generalizing inp with
  | nil => exact absurd h (by simp [callLog])
  | append_singleton events e ih =>
    rw [callLog_concat] at h
    cases e with
    | call sID now netReqSync netFollowUp sent =>
      cases Option.some.inj h
      exact ⟨events, sID, sent, [], rfl, fun e he => absurd he List.not_mem_nil, rfl⟩
    | pass dst poll =>
      obtain ⟨inp', hinp', rfl⟩ := Option.map_eq_some_iff.mp h
      obtain ⟨before, sID, sent, passes, rfl, hpasses, hpolls⟩ := ih hinp'
      refine ⟨before, sID, sent, passes ++ [.pass dst poll], by simp, fun e he => ?_, ?_⟩
      · rcases List.mem_append.mp he with he | he
        · exact hpasses e he
        · exact ⟨dst, poll, List.mem_singleton.mp he⟩
      · rw [List.filterMap_append, ← hpolls]
        rfl
    | ret r => exact absurd h (by simp [CallLog.note])

/-- The number that a client goes on with does not depend on its state. -/
theorem resume_number (st st' : ClientState) (sID : BitVec 16) (rs : List FlowResult) :
    (resume (st, sID) rs).2 = (resume (st', sID) rs).2 := by
  rcases List.eq_nil_or_concat rs with rfl | ⟨rs, r, rfl⟩
  · rfl
  · simp only [List.concat_eq_append, resume_concat]

/-- A call of a client, from its first step to its result. -/
theorem call_of_ret {resolve : Resolver} {address : SockAddr} {opt : ClientOpt}
    {events : List ClientEvent} {r : FlowResult} {side : ClientSide}
    (h : (clientHost resolve address opt).Local (events ++ [.ret r]) side) :
    ∃ (contents : Mem) (st₀ st : ClientState) (inp : FlowInput) (before : List ClientEvent)
      (sent : List Packet) (passes : List ClientEvent),
      clientAllocObjs resolve opt contents = some st₀ ∧ st.setting = st₀.setting ∧
      events = before ++ .call r.sequenceId inp.now inp.netReqSync inp.netFollowUp sent :: passes ∧
      inp.polls = passes.filterMap ClientEvent.poll ∧
      st.flow opt.domainNumber opt.useTwoSteps r.sequenceId inp = some r := by
  obtain ⟨t, hevents, hstep⟩ := Runs.Run.last h
  cases hstep with
  | ret =>
    obtain ⟨contents, st₀, hst₀, -, sent, ⟨inp, hcurrent, -, hflow⟩, -⟩ := follows_of_local hevents
    have hset : r.st.setting = st₀.setting := client_setting hevents hst₀
    have hnumber := (flow_cases hflow).1
    obtain ⟨before, sID, requests, passes, heq, hpasses, hpolls⟩ := current_call hcurrent
    refine ⟨contents, st₀, _, inp, before, requests, passes, hst₀, (flow_keeps hflow).symm.trans hset,
      ?_, hpolls, by rw [hnumber]; exact hflow⟩
    -- the number of the call is the one that the calls before it left
    have hresults : results events = results before := by
      have hnone : passes.filterMap ClientEvent.result = [] := by
        apply List.filterMap_eq_nil_iff.mpr
        intro e he
        obtain ⟨dst, poll, rfl⟩ := hpasses e he
        rfl
      rw [heq, results, List.filterMap_append, List.filterMap_cons_none rfl, hnone, List.append_nil]
      rfl
    obtain ⟨t, t', hbefore, hcall⟩ := Runs.Run.steps hevents before
      (.call sID inp.now inp.netReqSync inp.netFollowUp requests) ⟨passes, by rw [heq]; simp⟩
    cases hcall with
    | call =>
      obtain ⟨_, st₀', -, -, _, ⟨-, -, -, hsID⟩, -⟩ := follows_of_local hbefore
      rw [heq, hnumber, hresults, hsID, resume_number st₀ st₀']

/-! ## Trips -/

theorem sublist_concat {α : Type*} {l past history : List α} {e : α} (hl : l.Sublist past)
    (he : past ++ [e] <+: history) : (l ++ [e]).Sublist history :=
  (hl.append (List.Sublist.refl [e])).trans he.sublist

namespace Site
variable {κ ι : Type} (site : Site κ ι)

/-- The address that a client sends to is that of this service. -/
def Targets (i : ι) (k : κ) : Prop :=
  ∃ type address, clientCreateAddress site.resolve (site.opt i) = some (type, address) ∧
    (site.serviceAddr k).eq address = true

/-- Client `i` sends a Request Sync under this number, service `k` takes it and replies, and the client takes
the reply. -/
inductive Trip (i : ι) (k : κ) (sID : BitVec 16) (t1 rx tx arrival : ClockReading) : History κ ι → Prop
  | mk {netReqSync netFollowUp : Bool} {requests sent : List Packet} {request reply : Packet}
      {inp : ServiceInput} (hrequest : request ∈ requests) (hasks : asks sID request.octets = true)
      (hpoll : inp.poll = .ready (some ⟨request.src, request.octets⟩) rx) (hnow : inp.now = tx)
      (hreply : reply ∈ sent) :
      Trip i k sID t1 rx tx arrival [
        .host (.inr (i, .call sID t1 netReqSync netFollowUp requests)),
        .host (.inl (k, .hear request.dst inp.poll)),
        .host (.inl (k, .reply inp sent)),
        .host (.inr (i, .pass reply.dst (.ready (some ⟨reply.src, reply.octets⟩) arrival)))]

variable {site} {history : History κ ι} {s : Links.State (Parties κ ι) Packet}

theorem target_address {i : ι} {k : κ} (h : site.Targets i k) {contents : Mem} {st : ClientState}
    (hst : clientAllocObjs site.resolve (site.opt i) contents = some st) :
    (site.serviceAddr k).eq st.address = true := by
  obtain ⟨type, address, haddr, heq⟩ := h
  rw [clientAllocObjs, haddr, Option.bind_some] at hst
  obtain ⟨rxAddress, -, hst⟩ := Option.bind_eq_some_iff.mp hst
  obtain ⟨buffer, -, rfl⟩ := Option.map_eq_some_iff.mp hst
  exact heq

theorem addr_of_mem_sent {st : ServiceState} {useTxTwoSteps : Bool} {inp : ServiceInput} {q d : Datagram}
    {rxNow : ClockReading} (hpoll : inp.poll = .ready (some q) rxNow)
    (hw : WellSized st.buffer.size q.octets) (hd : d ∈ st.sent useTxTwoSteps inp) : d.addr = q.addr := by
  rw [sent_eq st useTxTwoSteps hpoll hw] at hd
  split at hd
  · obtain ⟨octs, -, rfl⟩ := List.mem_map.mp hd
    rfl
  · exact absurd hd List.not_mem_nil

/-- What a client hears of its service has made such a trip, under the number that it waits for. -/
theorem Run.trip [DecidableEq κ] [DecidableEq ι] (h : site.Run history s) {i : ι} {k : κ}
    (htarget : site.Targets i k) {a : Awaited} {contents : Mem} {st₀ : ClientState}
    (hst₀ : clientAllocObjs site.resolve (site.opt i) contents = some st₀)
    (haddr : a.address = st₀.address) (hsize : a.bufSize = st₀.buffer.size) {past : History κ ι}
    {dst : SockAddr} {poll : Poll} (hat : past ++ [.host (.inr (i, .pass dst poll))] <+: history)
    {x : Heard} (hx : a.hears poll = some x) :
    ∃ t1 rx tx arrival front,
      Trip i k a.sequenceId t1 rx tx arrival (front ++ [.host (.inr (i, .pass dst poll))]) ∧
      front.Sublist past ∧ Heard.Of rx.toTimespec tx.toTimespec arrival.toTimespec x := by
  -- the client heard a reply of its service
  obtain ⟨d, arrival, rfl⟩ : ∃ d arrival, poll = .ready (some d) arrival := by
    rcases poll with _ | ⟨_ | d, arrival⟩
    · exact absurd hx (by simp [Awaited.hears])
    · exact absurd hx (by simp [Awaited.hears])
    · exact ⟨d, arrival, rfl⟩
  obtain ⟨r, hr, -⟩ := Option.map_eq_some_iff.mp hx
  obtain ⟨-, hsource, -⟩ := Awaited.accepts_eq_some hr
  rw [haddr] at hsource
  have hsrc := SockAddr.eq_trans (target_address htarget hst₀) hsource
  have htaken : (⟨d.addr, dst, d.octets⟩ : Packet) ∈
      site.hosts.takes (.inr (i, .pass dst (.ready (some d) arrival))) := List.mem_singleton.mpr rfl
  obtain ⟨before, inp, sent, hreplyAt, hreply, -⟩ := h.from_service hat htaken hsrc
  have hreplyIn := hreplyAt.trans ((List.prefix_append _ _).trans hat)
  obtain ⟨svc, hbuf, hsent, before', dst', hhearAt, -⟩ := h.replied hreplyIn
  have hhearIn := hhearAt.trans ((List.prefix_append _ _).trans hreplyIn)
  have hmem := hreply
  rw [hsent] at hmem
  obtain ⟨d', hd', hpacket⟩ := List.mem_map.mp hmem
  obtain ⟨-, hdst, hocts⟩ := Packet.mk.inj hpacket
  -- the service heard a request from where the reply went
  obtain ⟨q, rx, hpoll⟩ : ∃ q rx, inp.poll = .ready (some q) rx := by
    by_contra hquiet
    rw [sent_of_quiet svc _ fun q rx hq => hquiet ⟨q, rx, hq⟩] at hd'
    exact absurd hd' List.not_mem_nil
  have hqtaken : (⟨q.addr, dst', q.octets⟩ : Packet) ∈
      site.hosts.takes (.inl (k, .hear dst' inp.poll)) := by
    rw [hpoll]
    exact List.mem_singleton.mpr rfl
  have hqaddr := addr_of_mem_sent hpoll (h.wellSized hhearIn hqtaken _) hd'
  have hqsrc : (site.clientAddr i).eq q.addr = true := by
    rw [← hqaddr, hdst]
    exact h.passed hat
  obtain ⟨before'', sID, t1, netReqSync, netFollowUp, requests, hcallAt, hrequest⟩ :=
    h.from_client hhearIn hqtaken hqsrc
  have hcallIn := hcallAt.trans ((List.prefix_append _ _).trans hhearIn)
  obtain ⟨contents', st₀', st, hst₀', hset, hprep, hrequests⟩ := h.requested hcallIn
  have hqmem := hrequest
  rw [hrequests] at hqmem
  obtain ⟨octs, hreq, hq⟩ := List.mem_map.mp hqmem
  obtain ⟨-, -, rfl⟩ := Packet.mk.inj hq
  -- so it is an answer to this request
  obtain ⟨-, ⟨ts1, hsync⟩, hanswer⟩ := answer_of_request hprep hbuf hreq hpoll hd'
  rw [hocts] at hanswer
  have hbufs : a.bufSize = st.size := by
    have heq : st.buffer.size = st₀.buffer.size :=
      congrArg Setting.bufSize (hset.trans (setting_of_allocObjs hst₀ hst₀'))
    have hp : st.buffer.size = st.size := hprep.bufSize
    rw [hsize, ← heq, hp]
  obtain ⟨hseq, hof⟩ := hanswer a d.addr arrival x hbufs hx
  refine ⟨t1, rx, inp.now, arrival, [.host (.inr (i, .call sID t1 netReqSync netFollowUp requests)),
    .host (.inl (k, .hear dst' inp.poll)), .host (.inl (k, .reply inp sent))], ?_, ?_, hof⟩
  · rw [hseq]
    refine .mk hrequest ?_ hpoll rfl hreply
    rw [hsync, asks_sync hprep]
    exact decide_eq_true rfl
  · exact sublist_concat (sublist_concat (sublist_concat (List.nil_sublist _) hcallAt) hhearAt) hreplyAt

/-- A trip that ended in the call that began with `call`. -/
def ArrivedIn (i : ι) (k : κ) (sID : BitVec 16) (past : History κ ι) (call : Event (PartyEvent κ ι) Packet)
    (t1 rx tx arrival : ClockReading) : Prop :=
  ∃ front pass, Trip i k sID t1 rx tx arrival (front ++ [pass]) ∧ (front ++ [pass]).Sublist past ∧
    [call, pass].Sublist past

theorem Run.prefix (h : site.Run history s) {past : History κ ι} {e : Event (PartyEvent κ ι) Packet}
    (hat : past ++ [e] <+: history) : ∃ s, site.Run (past ++ [e]) s := by
  obtain ⟨t, t', hrun, hstep⟩ := Runs.Run.steps h past e hat
  exact ⟨t', .step hrun hstep⟩

/-- Where the passes of a call stand in the history of the network. -/
theorem pass_of_poll [DecidableEq ι] {i : ι} {past : History κ ι} {before passes : List ClientEvent}
    {c : ClientEvent} (hevents : past.filterMap (ofClient i) = before ++ c :: passes) {poll : Poll}
    (hpoll : poll ∈ passes.filterMap ClientEvent.poll) :
    ∃ dst front, front ++ [.host (.inr (i, .pass dst poll))] <+: past ∧
      [.host (.inr (i, c)), .host (.inr (i, .pass dst poll))].Sublist past := by
  obtain ⟨e, he, hepoll⟩ := List.mem_filterMap.mp hpoll
  obtain ⟨dst, rfl⟩ : ∃ dst, e = .pass dst poll := by
    cases e with
    | pass dst poll' => exact ⟨dst, by rw [Option.some.inj hepoll]⟩
    | _ => exact absurd hepoll (by simp [ClientEvent.poll])
  obtain ⟨p1, p2, rfl⟩ := List.append_of_mem he
  obtain ⟨front, e, hfront, he', hown⟩ := Runs.prefix_of_filterMap
    (show before ++ c :: p1 ++ [.pass dst poll] <+: past.filterMap (ofClient i) from
      ⟨p2, by rw [hevents]; simp⟩)
  rw [ofClient_eq_some.mp he'] at hfront
  obtain ⟨front', e', hfront', hc, -⟩ := Runs.prefix_of_filterMap
    (show before ++ [c] <+: front.filterMap (ofClient i) from ⟨p1, by rw [hown]; simp⟩)
  rw [ofClient_eq_some.mp hc] at hfront'
  exact ⟨dst, front, hfront, sublist_concat (sublist_concat (List.nil_sublist front') hfront') hfront⟩

/-- When a call returns true, `t1` is the reading at its start. `r1` and `r2` were read on one trip that
ended in the call, and `t2` on a trip that ended in it. -/
theorem Run.times_of_trips [DecidableEq κ] [DecidableEq ι] (h : site.Run history s) {i : ι} {k : κ}
    (htarget : site.Targets i k) {past : History κ ι} {r : FlowResult}
    (hret : past ++ [.host (.inr (i, .ret r))] <+: history) (htrue : r.ret = true) :
    ∃ now netReqSync netFollowUp requests,
      let call := .host (.inr (i, .call r.sequenceId now netReqSync netFollowUp requests))
      call ∈ past ∧ r.st.t1 = now.toTimespec ∧
        (∃ t1 rx tx arrival, ArrivedIn i k r.sequenceId past call t1 rx tx arrival ∧
          r.st.r1 = rx.toTimespec ∧ r.st.r2 = arrival.toTimespec) ∧
        ∃ t1 rx tx arrival, ArrivedIn i k r.sequenceId past call t1 rx tx arrival ∧
          r.st.t2 = tx.toTimespec := by
  obtain ⟨s', hrun⟩ := h.prefix hret
  have hlocal := hrun.toOpen.client i
  rw [List.filterMap_append, List.filterMap_cons_some (ofClient_eq_some.mpr rfl), List.filterMap_nil]
    at hlocal
  obtain ⟨contents, st₀, st, inp, before, sent, passes, hst₀, hset, hevents, hpolls, hflow⟩ :=
    call_of_ret hlocal
  set a := st.awaited (site.opt i).domainNumber r.sequenceId with ha
  have haddr : a.address = st₀.address := congrArg Setting.address hset
  have hsize : a.bufSize = st₀.buffer.size := congrArg Setting.bufSize hset
  have hpast : past <+: history := (List.prefix_append _ _).trans hret
  have hpass {poll : Poll} (hpoll : poll ∈ inp.polls) := pass_of_poll hevents (hpolls ▸ hpoll)
  -- every poll of the call is a pass of its loop
  have hw : ∀ poll ∈ inp.polls, poll.WellSized st.buffer.size := by
    intro poll hpoll
    obtain ⟨dst, front, hfront, -⟩ := hpass hpoll
    rcases poll with _ | ⟨_ | d, arrival⟩
    · trivial
    · trivial
    · exact h.wellSized (p := ⟨d.addr, dst, d.octets⟩) (hfront.trans hpast) (List.mem_singleton.mpr rfl) _
  have htrip : ∀ x ∈ a.heardIn inp.polls, ∃ t1 rx tx arrival,
      ArrivedIn i k r.sequenceId past (.host (.inr (i, .call r.sequenceId inp.now inp.netReqSync
        inp.netFollowUp sent))) t1 rx tx arrival ∧
      Heard.Of rx.toTimespec tx.toTimespec arrival.toTimespec x := by
    intro x hx
    obtain ⟨poll, hpoll, hheard⟩ := List.mem_map.mp (List.reduceOption_mem_iff.mp hx)
    obtain ⟨dst, front, hfront, hcall⟩ := hpass hpoll
    obtain ⟨t1, rx, tx, arrival, events, htrip, hevents, hof⟩ :=
      h.trip htarget hst₀ haddr hsize (hfront.trans hpast) hheard
    exact ⟨t1, rx, tx, arrival, ⟨events, _, htrip, sublist_concat hevents hfront, hcall⟩, hof⟩
  obtain ⟨hret', htimes⟩ := flow_heard hw hflow
  have hc := hret'.mp htrue
  have htimes := htimes htrue
  rw [← ha] at hc htimes
  have hof : ∀ x ∈ a.heardIn inp.polls, ∃ rx tx arrival, Heard.Of rx tx arrival x := by
    intro x hx
    obtain ⟨t1, rx, tx, arrival, -, hof⟩ := htrip x hx
    exact ⟨_, _, _, hof⟩
  have hcall : .host (.inr (i, .call r.sequenceId inp.now inp.netReqSync inp.netFollowUp sent)) ∈ past := by
    obtain ⟨e, he, hcall⟩ := List.mem_filterMap.mp (show
      .call r.sequenceId inp.now inp.netReqSync inp.netFollowUp sent ∈ past.filterMap (ofClient i) by
        rw [hevents]
        simp)
    rwa [ofClient_eq_some.mp hcall] at he
  refine ⟨inp.now, inp.netReqSync, inp.netFollowUp, sent, hcall, ?_, ?_, ?_⟩
  · rw [Times.hearAll_eq] at htimes
    exact congrArg Times.t1 htimes
  · obtain ⟨oneStep, ts2, ts1, arrival, hmem, hr1, hr2⟩ :=
      hearAll_sync hof hc.sync { st.times with t1 := inp.now.toTimespec }
    obtain ⟨t1, rx, tx, arrival', harrived, hx⟩ := htrip _ hmem
    rw [← htimes] at hr1 hr2
    cases hx with
    | sync htx hrx => exact ⟨t1, rx, tx, arrival', harrived, Option.some.inj (hr1.symm.trans hrx), hr2⟩
  · obtain ⟨x, hx, htx⟩ := hearAll_origin hof hc.origin { st.times with t1 := inp.now.toTimespec }
    obtain ⟨t1, rx, tx, arrival, harrived, hx⟩ := htrip x hx
    exact ⟨t1, rx, tx, arrival, harrived, (congrArg Times.t2 htimes).trans (htx _ _ _ hx).symm⟩

theorem sample_targets : sampleSite.Targets () () := by
  obtain ⟨⟨type, address⟩, haddr, heq⟩ := Option.map_eq_some_iff.mp
    (show (clientCreateAddress sampleResolve sampleRequests).map (fun a =>
      (SockAddr.in4 ptpUdpPort 0x0100007f).eq a.2) = some true from by decide +kernel)
  exact ⟨type, address, haddr, heq⟩

theorem Run.times_of_trips_sample : ∃ (past : History Unit Unit)
    (s : Links.State (Parties Unit Unit) Packet) (r : FlowResult) (now : ClockReading)
    (netReqSync netFollowUp : Bool) (requests : List Packet),
    let call := .host (.inr ((), .call r.sequenceId now netReqSync netFollowUp requests))
    sampleSite.Run (past ++ [.host (.inr ((), .ret r))]) s ∧ call ∈ past ∧ r.st.t1 = now.toTimespec ∧
      (∃ t1 rx tx arrival, ArrivedIn () () r.sequenceId past call t1 rx tx arrival ∧
        r.st.r1 = rx.toTimespec ∧ r.st.r2 = arrival.toTimespec) ∧
      ∃ t1 rx tx arrival, ArrivedIn () () r.sequenceId past call t1 rx tx arrival ∧
        r.st.t2 = tx.toTimespec := by
  obtain ⟨req, req', resp, fu, r, s, hs, htrue, -⟩ := sample_run
  obtain ⟨now, netReqSync, netFollowUp, requests, htimes⟩ :=
    Run.times_of_trips hs sample_targets List.prefix_rfl htrue
  exact ⟨_, s, r, now, netReqSync, netFollowUp, requests, hs, htimes⟩

end Site

end Csptp
