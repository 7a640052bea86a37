import Csptp.Message.Object
import Csptp.Attempt
import Csptp.Socket
import Mathlib

/-! # The client (`main_client.c`)

As in the service, the objects of the client state exist from `client_main_allocObjs` on. What the
polls of a call find is given from outside, one `Poll` for each pass of its loop. -/
namespace Csptp
open Octets Octets.Prog
set_option autoImplicit false

/-- Number of polls to use. -/
def waitLoopPolls : ℕ := 50
/-- Timeout of a single poll in milliseconds. -/
def pollMs : ℤ := 50
def cycleTime : Timespec := ⟨1, 0⟩

/-- What the command line sets; `ip` is a host name or an address. -/
structure ClientOpt where
  useTwoSteps : Bool
  useCSPTPstatus : Bool
  useAltTimeScale : Bool
  domainNumber : Octet
  type : Prot
  ip : Option (List Octet)

structure ClientState where
  type : Prot
  size : ℕ
  tlvReqFlags0 : Octet
  params : PtpParams
  address : SockAddr
  rxAddress : SockAddr
  message : PtpMsg
  buffer : Buf
  tmpTs : Timespec
  t1 : Timespec
  r1 : Timespec
  t2 : Timespec
  r2 : Timespec

/-! ## Preparation -/

/-- `setIP` with the octets of an address, of which IPv4 takes the first four. -/
def SockAddr.setIP (ip : OctetArray 16) : SockAddr → SockAddr
  | .in4 port _ => .in4 port (ofOctets 32 (ip.val.take ipv4AddrLen))
  | .in6 port flow _ scope => .in6 port flow ip scope

/-- `resolve` is `addressStringToBinary`, which asks the system: the protocol and the octets of an
address. -/
def clientCreateAddress (resolve : List Octet → Prot → Option (Prot × OctetArray 16))
    (opt : ClientOpt) : Option (Prot × SockAddr) :=
  if opt.domainNumber < 128 ∨ opt.domainNumber > 239 then none
  else match opt.ip with
    | none => none
    | some ip => (resolve ip opt.type).bind fun (type, bin) =>
      (addrAlloc type).map fun address => (type, address.setIP bin)

def clientGetMsgSize (opt : ClientOpt) (type : Prot) : ℕ :=
  PtpMsg.getPTPMsgSize + PtpMsg.getTlvSize .csptpResponse +
    (if opt.useCSPTPstatus then PtpMsg.getCSPTPStatusTlvSize type else 0) +
    (if opt.useAltTimeScale then PtpMsg.getTlvSize .alternateTimeOffsetIndicator else 0)

/-- On a 64-bit `size_t`. -/
def clientSmoothSize (sz : ℕ) : ℕ :=
  let sz := (sz + 10) % 2 ^ 64
  (sz + ((0x11 - ((sz + 1) &&& 0xf)) &&& 0xf)) % 2 ^ 64

def clientSetTxParams (opt : ClientOpt) : PtpParams × Octet :=
  ({ PtpParams.zero with domainNumber := opt.domainNumber, useTwoSteps := opt.useTwoSteps },
    (if opt.useCSPTPstatus then flags0ReqStatusTlv else 0#8) |||
      (if opt.useAltTimeScale then flags0ReqAlternateTimeTlv else 0#8))

theorem clientSmoothSize_lt (sz : ℕ) : clientSmoothSize sz < 2 ^ 64 := Nat.mod_lt _ (by norm_num)

/-- `client_main_allocObjs`, where memory is not short and the system gives a socket. -/
def clientAllocObjs (resolve : List Octet → Prot → Option (Prot × OctetArray 16)) (opt : ClientOpt)
    (contents : Mem) : Option ClientState :=
  (clientCreateAddress resolve opt).bind fun (type, address) =>
    (addrAlloc type).bind fun rxAddress =>
      let size := clientSmoothSize (clientGetMsgSize opt type)
      (bufferAlloc size contents (clientSmoothSize_lt _)).map fun buffer =>
        { type := type, size := size, tlvReqFlags0 := (clientSetTxParams opt).2,
          params := (clientSetTxParams opt).1, address := address, rxAddress := rxAddress,
          message := .detach, buffer := buffer, tmpTs := ⟨0, 0⟩, t1 := ⟨0, 0⟩, r1 := ⟨0, 0⟩,
          t2 := ⟨0, 0⟩, r2 := ⟨0, 0⟩ }

/-! ## Sending -/

namespace ClientState

/-- `t1->toTimestamp(t1, &prms->timestamp)` -/
def stamp (st : ClientState) : Bool × ClientState :=
  match st.t1.toTimestamp with
  | none => (false, st)
  | some ts => (true, { st with params := { st.params with timestamp := ts } })

def init (st : ClientState) : Bool × ClientState :=
  let r := st.message.init st.params st.buffer
  (r.1, { st with message := r.2.1, buffer := r.2.2 })

def addCSPTPReqTlv (st : ClientState) : Bool × ClientState :=
  let r := st.message.addCSPTPReqTlv st.tlvReqFlags0 st.buffer
  (r.1, { st with message := r.2.1, buffer := r.2.2 })

def buildDone (st : ClientState) : Bool × ClientState :=
  let r := st.message.buildDone st.size st.buffer
  (r.1, { st with message := r.2.1, buffer := r.2.2 })

def socketSend (net : Bool) : Attempt ClientState Datagram := fun st =>
  (net, st, send st.buffer st.address net)

def composeReqSync (net : Bool) : Attempt ClientState Datagram :=
  (Attempt.call stamp).andThen <| (Attempt.call init).andThen <|
    (Attempt.call addCSPTPReqTlv).andThen <| (Attempt.call buildDone).andThen (socketSend net)

/-- `now` is what `getUtcClock` reads and `net` whether `sendto` succeeds. -/
def sendReqSync (sequenceId : BitVec 16) (now : ClockReading) (net : Bool) :
    Attempt ClientState Datagram := fun st =>
  composeReqSync net { st with
    params := { st.params with type := .sync, sequenceId := sequenceId }, t1 := now.toTimespec }

def composeFollowUp (net : Bool) : Attempt ClientState Datagram :=
  (Attempt.call init).andThen <| (Attempt.call buildDone).andThen (socketSend net)

def sendFollowUp (sequenceId : BitVec 16) (net : Bool) : Attempt ClientState Datagram := fun st =>
  composeFollowUp net { st with
    params := { st.params with type := .followUp, sequenceId := sequenceId, timestamp := ⟨⟨0, 0⟩, 0⟩ } }

end ClientState

/-! ## Receiving -/

/-- The scan of the TLVs for responses, which all write to `r1`. -/
def rcvRespSync : List TlvRec → Timespec → Bool → Prog (Bool × Timespec)
  | [], r1, haveResp => pure (haveResp, r1)
  | r :: rs, r1, haveResp =>
    if r.id = .csptpResponse then do
      let reqIngressTimestamp ← loadTimestamp (r.tlv + 10)
      rcvRespSync rs (r1.fromTimestamp reqIngressTimestamp).2 true
    else rcvRespSync rs r1 haveResp

/-- The local variables of the loop, and the client state. -/
structure Waiting where
  loops : ℕ
  timeouted : ℕ
  wait : Octet
  st : ClientState

/-- The condition of the loop. -/
def Waiting.GoesOn (w : Waiting) : Prop := w.loops > 0 ∧ w.wait > 0

instance (w : Waiting) : Decidable w.GoesOn := inferInstanceAs (Decidable (_ ∧ _))

namespace ClientState

/-- The condition on a received datagram: the parameters of its message, if it is accepted, and the
state afterwards. -/
def receive (domainNumber : Octet) (sequenceId : BitVec 16) (arrival : Option Datagram)
    (rxNow : ClockReading) (st : ClientState) : Option PtpParams × ClientState :=
  let r := recv st.buffer st.rxAddress arrival rxNow
  let st := { st with buffer := r.buf, rxAddress := r.address, tmpTs := r.ts }
  if r.ok = false then (none, st)
  else
    let p := st.message.parse .zero st.buffer
    let st := { st with message := p.self, buffer := p.buf }
    if p.ok = true ∧ p.params.sequenceId = sequenceId ∧ p.params.domainNumber = domainNumber ∧
        st.address.eq st.rxAddress = true then (some p.params, st)
    else (none, st)

end ClientState

namespace Waiting

/-- The `Sync` case; the error is the `return false` on a message without a response. -/
def onSync (rxParams : PtpParams) (w : Waiting) : Except ClientState Waiting :=
  let wait := w.wait &&& 2
  let (wait, t2) :=
    if rxParams.useTwoSteps = false then
      (wait &&& 1, (w.st.t2.fromTimestamp rxParams.timestamp).2)
    else (wait, w.st.t2)
  let st := { w.st with t2 := t2, r2 := w.st.r2.assign w.st.tmpTs }
  let r := ((rcvRespSync st.message.tlvs st.r1 false).run st.buffer.mem).1
  let st := { st with r1 := r.2 }
  if r.1 then .ok { w with wait := wait, st := st } else .error st

/-- The `Follow_Up` case. -/
def onFollowUp (rxParams : PtpParams) (w : Waiting) : Waiting :=
  { w with
    wait := w.wait &&& 1
    st := { w.st with t2 := (w.st.t2.fromTimestamp rxParams.timestamp).2 } }

/-- The body of the loop. -/
def body (domainNumber : Octet) (sequenceId : BitVec 16) (poll : Poll) (w : Waiting) :
    Except ClientState Waiting :=
  match poll with
  | .idle => .ok { w with loops := w.loops - 1, timeouted := w.timeouted + 1 }
  | .ready arrival rxNow =>
    match w.st.receive domainNumber sequenceId arrival rxNow with
    | (none, st) => .ok { w with loops := w.loops - 1, st := st }
    | (some rxParams, st) =>
      match rxParams.type with
      | .sync => { w with st := st }.onSync rxParams
      | .followUp => .ok ({ w with st := st }.onFollowUp rxParams)
      | _ => .ok { w with st := st }

/-- The loop, with the findings of its polls, one for each pass. `none`: the loop makes more passes
than that, or fewer. -/
def loop (domainNumber : Octet) (sequenceId : BitVec 16) :
    List Poll → Waiting → Option (Except ClientState Waiting)
  | [], w => if w.GoesOn then none else some (.ok w)
  | poll :: polls, w =>
    if w.GoesOn then
      match w.body domainNumber sequenceId poll with
      | .error st => if polls.isEmpty then some (.error st) else none
      | .ok w => loop domainNumber sequenceId polls w
    else none

end Waiting

/-! ## One cycle -/

/-- What one call of `client_main_flow` gets from outside. -/
structure FlowInput where
  now : ClockReading
  netReqSync : Bool
  netFollowUp : Bool
  polls : List Poll

/-- What it returns and leaves: `sequenceId` is the number it used and `sID` the one it leaves for the
next call; `slept` is the duration of its last `nanosleep`. -/
structure FlowResult where
  ret : Bool
  st : ClientState
  sequenceId : BitVec 16
  sID : BitVec 16
  sent : List Datagram
  slept : Option Timespec

namespace ClientState

/-- The two sends in front of the loop. -/
def transmit (useTwoSteps : Bool) (sequenceId : BitVec 16) (inp : FlowInput) :
    Attempt ClientState Datagram :=
  (sendReqSync sequenceId inp.now inp.netReqSync).andThen
    (Attempt.orElse (useTwoSteps = false) (sendFollowUp sequenceId inp.netFollowUp))

def nextSequenceId (sequenceId : BitVec 16) : BitVec 16 :=
  if sequenceId = 0xffff#16 then 1 else sequenceId + 1

/-- `client_main_flow`; `none` when the polls are not the ones of this call. -/
def flow (domainNumber : Octet) (useTwoSteps : Bool) (sID : BitVec 16) (inp : FlowInput)
    (st : ClientState) : Option FlowResult :=
  let s := transmit useTwoSteps sID inp st
  if s.1 = false then
    if inp.polls.isEmpty then
      some { ret := false, st := s.2.1, sequenceId := sID, sID := sID, sent := s.2.2, slept := none }
    else none
  else
    (Waiting.loop domainNumber sID inp.polls
      { loops := waitLoopPolls, timeouted := 0, wait := 3, st := s.2.1 }).map fun
      | .error st =>
        { ret := false, st := st, sequenceId := sID, sID := sID, sent := s.2.2, slept := none }
      | .ok w =>
        let tmpTs := (w.st.tmpTs.fromTimespec cycleTime).addMilliseconds (-w.timeouted * pollMs)
        { ret := w.wait = 0
          st := { w.st with tmpTs := tmpTs }
          sequenceId := sID
          sID := nextSequenceId sID
          sent := s.2.2
          slept := tmpTs.sleep }

end ClientState

/-- The loop of `client_main`, call after call. -/
def clientMain (opt : ClientOpt) : List FlowInput → ClientState → BitVec 16 → Option (List FlowResult)
  | [], _, _ => some []
  | inp :: inps, st, sequenceId =>
    (st.flow opt.domainNumber opt.useTwoSteps sequenceId inp).bind fun r =>
      (clientMain opt inps r.st r.sID).map (r :: ·)

end Csptp
