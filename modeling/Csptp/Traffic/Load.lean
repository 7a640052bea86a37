import Csptp.Traffic.Origins

/-! # The load on a network

A call of a client puts at most a Request Sync and a Follow_Up on the network, a Request Sync leads to at
most two replies, and nothing else leads to any. So the calls, the copies and the strangers bound
everything that is ever delivered. -/
namespace Csptp
open Octets Links
set_option autoImplicit false

noncomputable def Packet.weight (p : Packet) : ℕ := Csptp.weight p.octets

noncomputable def Poll.weight : Poll → ℕ
  | .ready (some d) _ => Csptp.weight d.octets
  | _ => 0

theorem one_le_weight (octs : List Octet) : 1 ≤ weight octs := by
  rw [weight]
  split <;> omega

theorem packets_weight (dst : SockAddr) (poll : Poll) :
    ((poll.packets dst).map Packet.weight).sum = poll.weight ∧ (poll.packets dst).length ≤ poll.weight := by
  rcases poll with _ | ⟨_ | d, now⟩
  · exact ⟨rfl, Nat.le_refl _⟩
  · exact ⟨rfl, Nat.le_refl _⟩
  · exact ⟨List.sum_singleton, one_le_weight d.octets⟩

/-! ## A service -/

/-- What a service may still send for the poll that it answers. -/
noncomputable def ServiceSide.held : ServiceSide → ℕ
  | .listening _ => 0
  | .answering _ poll => poll.weight - 1

/-- The replies to a poll weigh less than what it brought. -/
theorem sent_weight {st : ServiceState} (hsize : st.buffer.size = serviceBufSize) (useTxTwoSteps : Bool)
    (inp : ServiceInput) (address : SockAddr) :
    (((st.sent useTxTwoSteps inp).map (Datagram.sentFrom address)).map Packet.weight).sum ≤
      inp.poll.weight - 1 := by
  have hmap : ((st.sent useTxTwoSteps inp).map (Datagram.sentFrom address)).map Packet.weight =
      ((st.sent useTxTwoSteps inp).map Datagram.octets).map weight := by
    rw [List.map_map, List.map_map]
    rfl
  rw [hmap]
  by_cases hquiet : ∀ d now, inp.poll ≠ .ready (some d) now
  · rw [sent_of_quiet st useTxTwoSteps hquiet]
    exact Nat.zero_le _
  · push Not at hquiet
    obtain ⟨d, now, hpoll⟩ := hquiet
    have hweight := weight_sent hsize useTxTwoSteps hpoll
    rw [hpoll, Poll.weight]
    omega

theorem service_paid (type : Prot) (address : SockAddr) (useTxTwoSteps : Bool) :
    (serviceHost type address useTxTwoSteps).Paid Packet.weight ServiceSide.held fun _ => 0 where
  start t ht := by
    obtain ⟨contents, st, -, rfl⟩ := ht
    rfl
  step past t e t' hrun hstep := by
    have hkept := service_kept hrun
    cases hstep with
    | @hear st dst poll hdst =>
      obtain ⟨hweight, hlen⟩ := packets_weight dst poll
      have hone : (poll.packets dst).length ≤ 1 := by
        rcases poll with _ | ⟨_ | d, now⟩ <;> simp [Poll.packets]
      simp only [serviceHost, ServiceEvent.takes, ServiceEvent.gives, ServiceSide.held, hweight, List.map_nil,
        List.sum_nil]
      omega
    | @reply st inp =>
      have hsent := sent_weight hkept.1 useTxTwoSteps inp address
      simp only [serviceHost, ServiceEvent.takes, ServiceEvent.gives, ServiceSide.held, List.map_nil,
        List.sum_nil, List.length_nil]
      omega

/-! ## A client -/

/-- A Request Sync may lead to three deliveries, and a Follow_Up to its own. -/
def ClientEvent.credit : ClientEvent → ℕ
  | .call _ _ _ _ _ => 4
  | _ => 0

theorem requests_weight {opt : ClientOpt} {st : ClientState} (hp : st.setting.Prepared opt)
    (sID : BitVec 16) (inp : FlowInput) :
    ((requests st.buffer.size st.params sID st.tlvReqFlags0 st.size opt.useTwoSteps inp).map
      weight).sum ≤ 4 := by
  obtain ⟨hlow, hhigh, heven⟩ := hp.size_spec
  have hroom : 56 ≤ st.size := le_trans (by omega) hlow
  have heven : st.size % 2 = 0 := heven
  have hbuf : st.buffer.size = st.size := hp.bufSize
  have hf : st.params.flagField2.toNat < 64 := by
    rw [show st.params.flagField2 = 0 from hp.flagField2]
    decide
  have hfollowUp (net : Bool) :
      ((reqFollowUps st.size st.params sID st.size opt.useTwoSteps net).map weight).sum ≤ 1 := by
    rw [reqFollowUps, reqFollowUp_of_room st.params sID hroom heven]
    dsimp only
    split_ifs
    · exact Nat.zero_le _
    · rw [List.map_singleton, List.sum_singleton]
      exact (if_pos (inert_followUp (show ({ st.params with
        type := .followUp, sequenceId := sID, timestamp := ⟨⟨0, 0⟩, 0⟩ } : PtpParams).type = .followUp from rfl)
        hf hroom heven (hhigh.trans (by decide)))).le
    · exact Nat.zero_le _
  rw [requests, hbuf]
  cases reqSync st.size st.params sID inp.now.toTimespec st.tlvReqFlags0 st.size with
  | none => exact Nat.zero_le _
  | some octs =>
    dsimp only
    split
    · exact Nat.zero_le _
    · have hrest := hfollowUp inp.netFollowUp
      have hsync := weight_le octs
      rw [List.map_cons, List.sum_cons]
      omega

theorem client_paid (resolve : Resolver) (address : SockAddr) (opt : ClientOpt) :
    (clientHost resolve address opt).Paid Packet.weight (fun _ => 0) ClientEvent.credit where
  start _ _ := rfl
  step past t e t' hrun hstep := by
    obtain ⟨contents, st₀, -, -, hprep⟩ := client_prepared hrun
    cases hstep with
    | @call st sID now netReqSync netFollowUp =>
      obtain ⟨hout, -⟩ := ClientState.transmit_out st opt.useTwoSteps sID ⟨now, netReqSync, netFollowUp, []⟩
      have hweight := requests_weight hprep sID ⟨now, netReqSync, netFollowUp, []⟩
      have hsent : (((ClientState.sends opt sID now netReqSync netFollowUp st).2.2.map
          (Datagram.sentFrom address)).map Packet.weight).sum ≤ 4 := by
        rw [ClientState.sends, hout, List.map_map, List.map_map]
        exact hweight
      simp only [clientHost, ClientEvent.takes, ClientEvent.gives, ClientEvent.credit, List.map_nil,
        List.sum_nil, List.length_nil]
      omega
    | @pass w sID sent dst poll hdst =>
      obtain ⟨hweight, hlen⟩ := packets_weight dst poll
      simp only [clientHost, ClientEvent.takes, ClientEvent.gives, hweight, List.map_nil, List.sum_nil]
      omega
    | ret => exact Nat.le_refl _

/-! ## The network -/

namespace Site
variable {κ ι : Type}

def isCall : Event (PartyEvent κ ι) Packet → Bool
  | .host (.inr (_, .call _ _ _ _ _)) => true
  | _ => false

theorem sum_credit (history : History κ ι) :
    ((history.filterMap Event.host?).map (Sum.elim (fun _ => 0) fun e => ClientEvent.credit e.2)).sum =
      4 * history.countP isCall := by
  induction history with
  | nil => rfl
  | cons e history ih =>
    rw [List.countP_cons, Nat.mul_add, ← ih]
    rcases e with (⟨k, e⟩ | ⟨i, e⟩) | p | p | p
    · exact Nat.zero_add _
    · have hhost : Event.host? (.host (.inr (i, e)) : Event (PartyEvent κ ι) Packet) = some (.inr (i, e)) :=
        rfl
      rw [List.filterMap_cons_some hhost, List.map_cons, List.sum_cons, Nat.add_comm]
      cases e <;> rfl
    · rfl
    · rfl
    · rfl

/-- In every run the packets that were delivered or lost, with those in flight, are at most four for each
call of a client and three for each copy and each packet of a stranger. -/
theorem OpenRun.load_bound [Fintype κ] [DecidableEq κ] [Fintype ι] [DecidableEq ι] {site : Site κ ι}
    {history : History κ ι} {s : Links.State (Parties κ ι) Packet} (h : site.OpenRun history s) :
    (history.flatMap site.hosts.gone).length + s.wire.card ≤
      4 * history.countP isCall + 3 * (history.flatMap Event.extra).length := by
  have hpaid := Hosts.Paid.beside (Hosts.Paid.all fun k => service_paid (site.serviceType k)
    (site.serviceAddr k) (site.useTxTwoSteps k)) (Hosts.Paid.all fun i => client_paid site.resolve
      (site.clientAddr i) (site.opt i))
  have hload : (history.flatMap site.hosts.gone).length + (s.wire.map Packet.weight).sum +
      (∑ k, (s.hosts.1 k).held + ∑ _ : ι, 0) ≤ ((history.filterMap Event.host?).map
        (Sum.elim (fun _ => 0) fun e => ClientEvent.credit e.2)).sum +
          ((history.flatMap Event.extra).map Packet.weight).sum :=
    Hosts.Run.load (fun p => one_le_weight p.octets) hpaid h
  rw [sum_credit] at hload
  have hextra : ((history.flatMap Event.extra).map Packet.weight).sum ≤
      3 * (history.flatMap Event.extra).length := by
    have hle := List.sum_le_card_nsmul ((history.flatMap Event.extra).map Packet.weight) 3 fun n hn => by
      obtain ⟨p, -, rfl⟩ := List.mem_map.mp hn
      exact weight_le p.octets
    rwa [List.length_map, smul_eq_mul, Nat.mul_comm] at hle
  have hwire : s.wire.card ≤ (s.wire.map Packet.weight).sum := by
    have hle := Multiset.card_nsmul_le_sum (s := s.wire.map Packet.weight) (a := 1) fun n hn => by
      obtain ⟨p, -, rfl⟩ := Multiset.mem_map.mp hn
      exact one_le_weight p.octets
    rwa [Multiset.card_map, smul_eq_mul, Nat.mul_one] at hle
  omega

theorem OpenRun.load_bound_sample : ∃ (history : History Unit Unit)
    (s : Links.State (Parties Unit Unit) Packet), sampleSite.OpenRun history s ∧
      history.countP isCall = 1 ∧ (history.flatMap sampleSite.hosts.gone).length + s.wire.card ≤ 4 := by
  obtain ⟨req, req', resp, fu, r, s, hs, -⟩ := sample_run
  exact ⟨_, s, hs.toOpen, rfl, OpenRun.load_bound hs.toOpen⟩

end Site

end Csptp
