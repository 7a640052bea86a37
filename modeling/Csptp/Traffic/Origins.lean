import Csptp.Traffic.Answers
import Csptp.Traffic.Calls

/-! # Where a packet comes from

A packet with the address of a party was sent by that party, so what a service hears from the address of
a client is a request of the client, and what a client hears from the address of a service is a reply
of the service to something that it heard before. -/
namespace Csptp
open Octets Links
set_option autoImplicit false

namespace SockAddr

theorem eq_comm (a b : SockAddr) : a.eq b = b.eq a := by
  cases a <;> cases b <;> simp only [eq, Bool.and_eq_decide, decide_eq_decide] <;> grind

theorem eq_trans {a b c : SockAddr} (hab : a.eq b = true) (hbc : b.eq c = true) : a.eq c = true := by
  cases a <;> cases b <;> cases c <;> simp_all [eq]

end SockAddr

/-! ## What the parties keep -/

section Service
variable {type : Prot} {address : SockAddr} {useTxTwoSteps : Bool} {events : List ServiceEvent}
  {side : ServiceSide}

/-- The buffer of a service keeps its size, and what it answers is what it heard last. -/
def ServiceKept (address : SockAddr) (events : List ServiceEvent) : ServiceSide → Prop
  | .listening st => st.buffer.size = serviceBufSize
  | .answering st poll => st.buffer.size = serviceBufSize ∧
      ∃ before dst, events = before ++ [.hear dst poll] ∧ address.eq dst = true

theorem service_kept (h : (serviceHost type address useTxTwoSteps).Local events side) :
    ServiceKept address events side := by
  induction h with
  | start h =>
    obtain ⟨contents, st, hst, rfl⟩ := h
    rw [serviceAllocObjs] at hst
    split at hst
    · rename_i buffer _ hbuffer
      rw [bufferAlloc, if_neg (by norm_num)] at hbuffer
      rw [← Option.some.inj hst, ServiceKept, ← Option.some.inj hbuffer]
      rfl
    · exact absurd hst (by simp)
  | step _ hstep ih =>
    cases hstep with
    | hear hdst => exact ⟨ih, _, _, rfl, hdst⟩
    | reply => exact (ServiceState.mainFlow_keeps _ _ _).trans ih.1

end Service

section Client
variable {resolve : Resolver} {address : SockAddr} {opt : ClientOpt} {events : List ClientEvent}
  {side : ClientSide}

def ClientSide.setting : ClientSide → Setting
  | .between st _ => st.setting
  | .waiting w _ _ => w.st.setting
  | .leaving r => r.st.setting

/-- The system decides about the setting of a client, and not the contents of its memory. -/
theorem setting_of_allocObjs {contents contents' : Mem} {st st' : ClientState}
    (h : clientAllocObjs resolve opt contents = some st)
    (h' : clientAllocObjs resolve opt contents' = some st') : st'.setting = st.setting := by
  obtain ⟨⟨type, address⟩, haddr, h⟩ := Option.bind_eq_some_iff.mp h
  obtain ⟨rxAddress, hrx, h⟩ := Option.bind_eq_some_iff.mp h
  obtain ⟨buffer, hbuffer, rfl⟩ := Option.map_eq_some_iff.mp h
  rw [clientAllocObjs, haddr, Option.bind_some] at h'
  dsimp only at h'
  rw [hrx, Option.bind_some] at h'
  obtain ⟨buffer', hbuffer', rfl⟩ := Option.map_eq_some_iff.mp h'
  have hsize {b : Buf} {m : Mem} {size : ℕ} {hlt : size < 2 ^ 64} (hb : bufferAlloc size m hlt = some b) :
      b.size = size := by
    rw [bufferAlloc] at hb
    split at hb
    · exact absurd hb (by simp)
    · rw [← Option.some.inj hb]
  simp only [ClientState.setting, hsize hbuffer, hsize hbuffer']

theorem setting_step {side' : ClientSide} {e : ClientEvent} (h : ClientStep address opt side e side') :
    side'.setting = side.setting := by
  cases h with
  | @call st sID now netReqSync netFollowUp =>
    have hkept : (ClientState.sends opt sID now netReqSync netFollowUp st).2.1.setting = st.setting :=
      congrArg Prod.fst (ClientState.kept_transmit _ _ _ st)
    rcases hs : ClientState.sends opt sID now netReqSync netFollowUp st with ⟨flag, st', sent⟩
    rw [hs] at hkept
    cases flag <;> exact hkept
  | @pass w sID sent dst poll hdst =>
    have hkept := body_keeps opt.domainNumber sID poll w
    cases hb : w.body opt.domainNumber sID poll with
    | error st =>
      rw [hb] at hkept
      exact hkept
    | ok w' =>
      rw [hb] at hkept
      rw [ClientSide.passed]
      split <;> exact hkept
  | ret => rfl

/-- A client keeps the setting of its preparation. -/
theorem client_setting (h : (clientHost resolve address opt).Local events side) {contents : Mem}
    {st : ClientState} (hst : clientAllocObjs resolve opt contents = some st) :
    side.setting = st.setting := by
  induction h with
  | start h =>
    obtain ⟨contents', st', hst', rfl⟩ := h
    exact setting_of_allocObjs hst hst'
  | step _ hstep ih => exact (setting_step hstep).trans ih

theorem client_prepared (h : (clientHost resolve address opt).Local events side) :
    ∃ contents st, clientAllocObjs resolve opt contents = some st ∧ side.setting = st.setting ∧
      side.setting.Prepared opt := by
  obtain ⟨contents, st, hst, -⟩ := follows_of_local h
  have hset := client_setting h hst
  exact ⟨contents, st, hst, hset, by rw [hset]; exact prepared_of_allocObjs hst⟩

end Client

/-! ## Steps at a place of a history -/

namespace Site
variable {κ ι : Type} {site : Site κ ι} {history : History κ ι} {s : Links.State (Parties κ ι) Packet}

/-- The reply of a service answers what it heard last. -/
theorem Run.replied [DecidableEq κ] (h : site.Run history s) {past : History κ ι} {k : κ}
    {inp : ServiceInput} {sent : List Packet}
    (hat : past ++ [.host (.inl (k, .reply inp sent))] <+: history) :
    ∃ st : ServiceState, st.buffer.size = serviceBufSize ∧
      sent = (st.sent (site.useTxTwoSteps k) inp).map (Datagram.sentFrom (site.serviceAddr k)) ∧
      ∃ before dst, before ++ [.host (.inl (k, .hear dst inp.poll))] <+: past ∧
        (site.serviceAddr k).eq dst = true := by
  obtain ⟨t, t', hrun, hstep⟩ := Runs.Run.steps h past _ hat
  have hkept := service_kept (Run.toOpen hrun |>.service k)
  have hmoves : ServiceStep (site.serviceAddr k) (site.useTxTwoSteps k) (t.hosts.1 k)
    (.reply inp sent) (t'.hosts.1 k) := hstep.moves.1.1
  generalize t.hosts.1 k = side at hkept hmoves
  generalize t'.hosts.1 k = side' at hmoves
  cases hmoves with
  | @reply st inp =>
    obtain ⟨hsize, before, dst, hevents, hdst⟩ := hkept
    obtain ⟨before', e, hbefore, he, -⟩ :=
      Runs.prefix_of_filterMap ⟨[], (List.append_nil _).trans hevents.symm⟩
    rw [ofService_eq_some.mp he] at hbefore
    exact ⟨st, hsize, rfl, before', dst, hbefore, hdst⟩

/-- The requests of a call, from a client with the setting of its preparation. -/
theorem Run.requested [DecidableEq ι] (h : site.Run history s) {past : History κ ι} {i : ι}
    {sID : BitVec 16} {now : ClockReading} {netReqSync netFollowUp : Bool} {sent : List Packet}
    (hat : past ++ [.host (.inr (i, .call sID now netReqSync netFollowUp sent))] <+: history) :
    ∃ (contents : Mem) (st₀ st : ClientState), clientAllocObjs site.resolve (site.opt i) contents = some st₀ ∧
      st.setting = st₀.setting ∧ st.setting.Prepared (site.opt i) ∧
      sent = (requests st.buffer.size st.params sID st.tlvReqFlags0 st.size (site.opt i).useTwoSteps
        ⟨now, netReqSync, netFollowUp, []⟩).map (⟨site.clientAddr i, st.address, ·⟩) := by
  obtain ⟨t, t', hrun, hstep⟩ := Runs.Run.steps h past _ hat
  obtain ⟨contents, st₀, hst₀, hset, hp⟩ := client_prepared (Run.toOpen hrun |>.client i)
  have hmoves : ClientStep (site.clientAddr i) (site.opt i) (t.hosts.2 i)
    (.call sID now netReqSync netFollowUp sent) (t'.hosts.2 i) := hstep.moves.1.1
  generalize t.hosts.2 i = side at hset hp hmoves
  generalize t'.hosts.2 i = side' at hmoves
  cases hmoves with
  | @call st =>
    refine ⟨contents, st₀, st, hst₀, hset, hp, ?_⟩
    obtain ⟨hout, -⟩ := ClientState.transmit_out st (site.opt i).useTwoSteps sID
      ⟨now, netReqSync, netFollowUp, []⟩
    rw [ClientState.sends, hout, List.map_map]
    rfl

/-- A client takes only what was sent to its address. -/
theorem Run.passed [DecidableEq ι] (h : site.Run history s) {past : History κ ι} {i : ι} {dst : SockAddr}
    {poll : Poll} (hat : past ++ [.host (.inr (i, .pass dst poll))] <+: history) :
    (site.clientAddr i).eq dst = true := by
  obtain ⟨t, t', hrun, hstep⟩ := Runs.Run.steps h past _ hat
  have hmoves : ClientStep (site.clientAddr i) (site.opt i) (t.hosts.2 i) (.pass dst poll)
    (t'.hosts.2 i) := hstep.moves.1.1
  generalize t.hosts.2 i = side at hmoves
  generalize t'.hosts.2 i = side' at hmoves
  cases hmoves with
  | pass hdst => exact hdst

/-! ## Senders -/

/-- What a party sends is well sized for every buffer. -/
theorem Run.source [DecidableEq κ] [DecidableEq ι] (h : site.Run history s) {past : History κ ι}
    {e : Event (PartyEvent κ ι) Packet} {p : Packet} (hat : past ++ [e] <+: history)
    (hsource : site.hosts.Source site.Stranger p e) :
    (∀ size, WellSized size p.octets) ∧
      ((∃ k inp sent, e = .host (.inl (k, .reply inp sent)) ∧ p ∈ sent ∧ p.src = site.serviceAddr k) ∨
        (∃ i sID now netReqSync netFollowUp sent,
          e = .host (.inr (i, .call sID now netReqSync netFollowUp sent)) ∧ p ∈ sent ∧
            p.src = site.clientAddr i) ∨
        site.Stranger p) := by
  rcases hsource with ⟨x, rfl, hp⟩ | ⟨rfl, hp⟩
  · rcases x with ⟨k, e⟩ | ⟨i, e⟩
    · cases e with
      | hear dst poll => exact absurd hp List.not_mem_nil
      | reply inp sent =>
        obtain ⟨st, hsize, hsent, -⟩ := h.replied hat
        have hp : p ∈ sent := hp
        have hmem := hp
        rw [hsent] at hmem
        obtain ⟨d, hd, rfl⟩ := List.mem_map.mp hmem
        refine ⟨fun size => ?_, .inl ⟨k, inp, sent, rfl, hp, rfl⟩⟩
        obtain ⟨params, rxTs, flags, n, hpos, hle, hf, hreply⟩ := mem_sent hd
        exact wellSized_of_replies hpos (by rw [hsize, serviceBufSize] at hle; omega) hreply size
    · cases e with
      | call sID now netReqSync netFollowUp sent =>
        obtain ⟨contents, st₀, st, -, -, hprep, hsent⟩ := h.requested hat
        have hp : p ∈ sent := hp
        have hmem := hp
        rw [hsent] at hmem
        obtain ⟨octs, hocts, rfl⟩ := List.mem_map.mp hmem
        exact ⟨fun size => wellSized_of_requests hprep hocts size,
          .inr (.inl ⟨i, sID, now, netReqSync, netFollowUp, sent, rfl, hp, rfl⟩)⟩
      | pass dst poll => exact absurd hp List.not_mem_nil
      | ret r => exact absurd hp List.not_mem_nil
  · exact ⟨hp.2.2, .inr (.inr hp)⟩

/-- What comes from the address of a service is a reply of the service. -/
theorem Run.from_service [DecidableEq κ] [DecidableEq ι] (h : site.Run history s) {past : History κ ι}
    {x : PartyEvent κ ι} {p : Packet} (hat : past ++ [.host x] <+: history)
    (hp : p ∈ site.hosts.takes x) {k : κ} (hsrc : (site.serviceAddr k).eq p.src = true) :
    ∃ before inp sent, before ++ [.host (.inl (k, .reply inp sent))] <+: past ∧ p ∈ sent ∧
      p.src = site.serviceAddr k := by
  obtain ⟨before, e, hbefore, hsource⟩ := Hosts.Run.taken_origin h hat hp
  have hlater : before ++ [e] <+: history :=
    hbefore.trans ((List.prefix_append _ _).trans hat)
  obtain ⟨-, ⟨k', inp, sent, rfl, hmem, haddr⟩ | ⟨i, _, _, _, _, _, -, -, haddr⟩ | hstranger⟩ :=
    h.source hlater hsource
  · rw [haddr] at hsrc
    obtain rfl := site.services_apart k k' hsrc
    exact ⟨before, inp, sent, hbefore, hmem, haddr⟩
  · rw [haddr, site.apart k i] at hsrc
    exact absurd hsrc (by simp)
  · rw [hstranger.1 k] at hsrc
    exact absurd hsrc (by simp)

/-- What comes from the address of a client is a request of the client. -/
theorem Run.from_client [DecidableEq κ] [DecidableEq ι] (h : site.Run history s) {past : History κ ι}
    {x : PartyEvent κ ι} {p : Packet} (hat : past ++ [.host x] <+: history)
    (hp : p ∈ site.hosts.takes x) {i : ι} (hsrc : (site.clientAddr i).eq p.src = true) :
    ∃ before sID now netReqSync netFollowUp sent,
      before ++ [.host (.inr (i, .call sID now netReqSync netFollowUp sent))] <+: past ∧ p ∈ sent := by
  obtain ⟨before, e, hbefore, hsource⟩ := Hosts.Run.taken_origin h hat hp
  have hlater : before ++ [e] <+: history :=
    hbefore.trans ((List.prefix_append _ _).trans hat)
  obtain ⟨-, ⟨k, inp, sent, rfl, hmem, haddr⟩ | ⟨i', sID, now, netReqSync, netFollowUp, sent, rfl, hmem,
    haddr⟩ | hstranger⟩ := h.source hlater hsource
  · rw [haddr, SockAddr.eq_comm, site.apart k i] at hsrc
    exact absurd hsrc (by simp)
  · rw [haddr] at hsrc
    obtain rfl := site.clients_apart i i' hsrc
    exact ⟨before, sID, now, netReqSync, netFollowUp, sent, hbefore, hmem⟩
  · rw [hstranger.2.1 i] at hsrc
    exact absurd hsrc (by simp)

/-- Every packet that a party takes is well sized. -/
theorem Run.wellSized [DecidableEq κ] [DecidableEq ι] (h : site.Run history s) {past : History κ ι}
    {x : PartyEvent κ ι} {p : Packet} (hat : past ++ [.host x] <+: history)
    (hp : p ∈ site.hosts.takes x) (size : ℕ) : WellSized size p.octets := by
  obtain ⟨before, e, hbefore, hsource⟩ := Hosts.Run.taken_origin h hat hp
  exact (h.source (hbefore.trans ((List.prefix_append _ _).trans hat)) hsource).1 size

end Site

end Csptp
