import Csptp.Client.Prepared
import Csptp.Service.Contents
import Csptp.Links

/-! # Services and clients at one network

A service polls and receives, and then answers. A client sends its requests, makes the passes of its
loop one by one and returns. Between these steps every other party may make steps of its own. What the
network makes of the datagrams is in `Links`: it loses, duplicates and reorders them. -/
namespace Csptp
open Octets Links
set_option autoImplicit false

/-- A datagram with both of its addresses. -/
structure Packet where
  src : SockAddr
  dst : SockAddr
  octets : List Octet
deriving DecidableEq

/-- The `messageLength` of the packet covers the header. -/
def Packet.WellSized (p : Packet) : Prop := ∀ size, Csptp.WellSized size p.octets

def Datagram.sentFrom (src : SockAddr) (d : Datagram) : Packet := ⟨src, d.addr, d.octets⟩

/-- The packet that a poll brings to this address. -/
def Poll.packets (dst : SockAddr) : Poll → List Packet
  | .ready (some d) _ => [⟨d.addr, dst, d.octets⟩]
  | _ => []

/-! ## A service -/

inductive ServiceSide
  | listening (st : ServiceState)
  | answering (st : ServiceState) (poll : Poll)

/-- `hear` is the poll of `main_flow` and what it receives at the address `dst`, `reply` what follows
from it. -/
inductive ServiceEvent
  | hear (dst : SockAddr) (poll : Poll)
  | reply (inp : ServiceInput) (sent : List Packet)

def ServiceEvent.takes : ServiceEvent → List Packet
  | .hear dst poll => poll.packets dst
  | .reply _ _ => []

def ServiceEvent.gives : ServiceEvent → List Packet
  | .hear _ _ => []
  | .reply _ sent => sent

inductive ServiceStep (address : SockAddr) (useTxTwoSteps : Bool) :
    ServiceSide → ServiceEvent → ServiceSide → Prop
  | hear {st : ServiceState} {dst : SockAddr} {poll : Poll} (hdst : address.eq dst = true) :
      ServiceStep address useTxTwoSteps (.listening st) (.hear dst poll) (.answering st poll)
  | reply {st : ServiceState} {inp : ServiceInput} :
      ServiceStep address useTxTwoSteps (.answering st inp.poll)
        (.reply inp ((st.sent useTxTwoSteps inp).map (Datagram.sentFrom address)))
        (.listening (ServiceState.mainFlow useTxTwoSteps inp st).2.1)

def serviceHost (type : Prot) (address : SockAddr) (useTxTwoSteps : Bool) :
    Hosts ServiceSide ServiceEvent Packet where
  start s := ∃ contents st, serviceAllocObjs type contents = some st ∧ s = .listening st
  step := ServiceStep address useTxTwoSteps
  takes := ServiceEvent.takes
  gives := ServiceEvent.gives

/-! ## A client -/

/-- The end of `client_main_flow` behind its loop. -/
def FlowResult.ofLoop (sID : BitVec 16) (sent : List Datagram) :
    Except ClientState Waiting → FlowResult
  | .error st => { ret := false, st := st, sequenceId := sID, sID := sID, sent := sent, slept := none }
  | .ok w =>
    let tmpTs := (w.st.tmpTs.fromTimespec cycleTime).addMilliseconds (-w.timeouted * pollMs)
    { ret := w.wait = 0
      st := { w.st with tmpTs := tmpTs }
      sequenceId := sID
      sID := ClientState.nextSequenceId sID
      sent := sent
      slept := tmpTs.sleep }

/-- Where a client is in `client_main`: between two calls of `client_main_flow`, in the loop of one, or
about to return from it. -/
inductive ClientSide
  | between (st : ClientState) (sID : BitVec 16)
  | waiting (w : Waiting) (sID : BitVec 16) (sent : List Datagram)
  | leaving (r : FlowResult)

/-- Behind the sends of a call, with their flag. -/
def ClientSide.called (sID : BitVec 16) : Bool × ClientState × List Datagram → ClientSide
  | (false, st, sent) => .leaving
      { ret := false, st := st, sequenceId := sID, sID := sID, sent := sent, slept := none }
  | (true, st, sent) => .waiting (Waiting.start st) sID sent

/-- Behind a pass of the loop. -/
def ClientSide.passed (sID : BitVec 16) (sent : List Datagram) : Except ClientState Waiting → ClientSide
  | .error st => .leaving (FlowResult.ofLoop sID sent (.error st))
  | .ok w => if w.GoesOn then .waiting w sID sent else .leaving (FlowResult.ofLoop sID sent (.ok w))

/-- `call` is a call up to its loop, with what `getUtcClock` reads and whether the sends succeed, `pass`
one pass of the loop with what it receives at the address `dst`. -/
inductive ClientEvent
  | call (sID : BitVec 16) (now : ClockReading) (netReqSync netFollowUp : Bool) (sent : List Packet)
  | pass (dst : SockAddr) (poll : Poll)
  | ret (r : FlowResult)

def ClientEvent.takes : ClientEvent → List Packet
  | .pass dst poll => poll.packets dst
  | _ => []

def ClientEvent.gives : ClientEvent → List Packet
  | .call _ _ _ _ sent => sent
  | _ => []

/-- The two sends of a call. -/
def ClientState.sends (opt : ClientOpt) (sID : BitVec 16) (now : ClockReading)
    (netReqSync netFollowUp : Bool) : Attempt ClientState Datagram :=
  ClientState.transmit opt.useTwoSteps sID ⟨now, netReqSync, netFollowUp, []⟩

inductive ClientStep (address : SockAddr) (opt : ClientOpt) :
    ClientSide → ClientEvent → ClientSide → Prop
  | call {st : ClientState} {sID : BitVec 16} {now : ClockReading} {netReqSync netFollowUp : Bool} :
      ClientStep address opt (.between st sID)
        (.call sID now netReqSync netFollowUp
          ((ClientState.sends opt sID now netReqSync netFollowUp st).2.2.map (Datagram.sentFrom address)))
        (.called sID (ClientState.sends opt sID now netReqSync netFollowUp st))
  | pass {w : Waiting} {sID : BitVec 16} {sent : List Datagram} {dst : SockAddr} {poll : Poll}
      (hdst : address.eq dst = true) :
      ClientStep address opt (.waiting w sID sent) (.pass dst poll)
        (.passed sID sent (w.body opt.domainNumber sID poll))
  | ret {r : FlowResult} : ClientStep address opt (.leaving r) (.ret r) (.between r.st r.sID)

/-- A name and the protocol that was asked for. -/
abbrev Resolver := List Octet → Prot → Option (Prot × OctetArray 16)

/-- The first call uses the number one. -/
def clientHost (resolve : Resolver) (address : SockAddr) (opt : ClientOpt) :
    Hosts ClientSide ClientEvent Packet where
  start s := ∃ contents st, clientAllocObjs resolve opt contents = some st ∧ s = .between st 1
  step := ClientStep address opt
  takes := ClientEvent.takes
  gives := ClientEvent.gives

/-! ## All of them -/

/-- Services and clients, no two at the same address. -/
structure Site (κ ι : Type) where
  serviceType : κ → Prot
  serviceAddr : κ → SockAddr
  useTxTwoSteps : κ → Bool
  resolve : Resolver
  clientAddr : ι → SockAddr
  opt : ι → ClientOpt
  services_apart : ∀ k k', (serviceAddr k).eq (serviceAddr k') = true → k = k'
  clients_apart : ∀ i i', (clientAddr i).eq (clientAddr i') = true → i = i'
  apart : ∀ k i, (serviceAddr k).eq (clientAddr i) = false

namespace Site
variable {κ ι : Type} (site : Site κ ι)

def service (k : κ) : Hosts ServiceSide ServiceEvent Packet :=
  serviceHost (site.serviceType k) (site.serviceAddr k) (site.useTxTwoSteps k)

def client (i : ι) : Hosts ClientSide ClientEvent Packet :=
  clientHost site.resolve (site.clientAddr i) (site.opt i)

abbrev Parties (κ ι : Type) := (κ → ServiceSide) × (ι → ClientSide)

abbrev PartyEvent (κ ι : Type) := κ × ServiceEvent ⊕ ι × ClientEvent

def hosts : Hosts (Parties κ ι) (PartyEvent κ ι) Packet :=
  (Hosts.all site.service).beside (Hosts.all site.client)

/-- A packet from none of the parties, whose `messageLength` covers the header. -/
def Stranger (p : Packet) : Prop :=
  (∀ k, (site.serviceAddr k).eq p.src = false) ∧ (∀ i, (site.clientAddr i).eq p.src = false) ∧ p.WellSized

abbrev History (κ ι : Type) := List (Event (PartyEvent κ ι) Packet)

/-- The runs in which a stranger sends from an address of its own. -/
def Run (history : History κ ι) (s : Links.State (Parties κ ι) Packet) : Prop :=
  site.hosts.Run site.Stranger history s

/-- The runs in which a stranger sends from any address, also from one of a party. -/
def OpenRun (history : History κ ι) (s : Links.State (Parties κ ι) Packet) : Prop :=
  site.hosts.Run Packet.WellSized history s

/-- An event of this service, if it is one. -/
def ofService [DecidableEq κ] (k : κ) (e : Event (PartyEvent κ ι) Packet) : Option ServiceEvent :=
  e.host?.bind fun x => x.getLeft?.bind (Hosts.own k)

def ofClient [DecidableEq ι] (i : ι) (e : Event (PartyEvent κ ι) Packet) : Option ClientEvent :=
  e.host?.bind fun x => x.getRight?.bind (Hosts.own i)

theorem ofService_eq_some [DecidableEq κ] {k : κ} {e : Event (PartyEvent κ ι) Packet} {x : ServiceEvent} :
    ofService k e = some x ↔ e = .host (.inl (k, x)) := by
  rcases e with (⟨k', e⟩ | ⟨i, e⟩) | p | p | p <;> simp [ofService, Event.host?, Hosts.own]

theorem ofClient_eq_some [DecidableEq ι] {i : ι} {e : Event (PartyEvent κ ι) Packet} {x : ClientEvent} :
    ofClient i e = some x ↔ e = .host (.inr (i, x)) := by
  rcases e with (⟨k, e⟩ | ⟨i', e⟩) | p | p | p <;> simp [ofClient, Event.host?, Hosts.own]

variable {site} {history : History κ ι} {s : Links.State (Parties κ ι) Packet}

theorem Run.toOpen (h : site.Run history s) : site.OpenRun history s := Hosts.Run.mono h fun _ hp => hp.2.2

/-- In every run of the network each service makes a run of its own. -/
theorem OpenRun.service [DecidableEq κ] (h : site.OpenRun history s) (k : κ) :
    (site.service k).Local (history.filterMap (ofService k)) (s.hosts.1 k) := by
  have hown := (Hosts.Local.left (Hosts.Run.hosts h)).own k
  rwa [List.filterMap_filterMap, List.filterMap_filterMap] at hown

theorem OpenRun.client [DecidableEq ι] (h : site.OpenRun history s) (i : ι) :
    (site.client i).Local (history.filterMap (ofClient i)) (s.hosts.2 i) := by
  have hown := (Hosts.Local.right (Hosts.Run.hosts h)).own i
  rwa [List.filterMap_filterMap, List.filterMap_filterMap] at hown

end Site

end Csptp
