import Csptp.Message.Object
import Csptp.Attempt
import Csptp.Socket

/-! # The service (`main_service.c`)

The objects of the service state exist from `service_main_allocObjs` on, so the checks for null
pointers have no counterpart. -/
namespace Csptp
open Octets Octets.Prog
set_option autoImplicit false

/-- The octets of a C string in front of its terminating zero. -/
abbrev CString := { l : List Octet // 0#8 ∉ l }

/-- `struct ifClk_t`; `addressField` is a pointer, `none` is a null `TZName`. -/
structure IfClk where
  clockIdentity : OctetArray 8
  organizationId : OctetArray 3
  organizationSubType : OctetArray 3
  networkProtocol : Prot
  addressField : Mem
  priority1 : Octet
  priority2 : Octet
  clockQuality : ClockQuality
  currentUtcOffset : BitVec 16
  keyField : Octet
  currentOffset : BitVec 32
  jumpSeconds : BitVec 32
  timeOfNextJump : BitVec 64
  tzName : Option CString

/-- `dummyClockInfo` -/
def dummyClockInfo : IfClk :=
  { clockIdentity := ⟨[1, 2, 3, 0xfe, 0xff, 4, 5, 6], rfl⟩
    organizationId := ⟨[1, 2, 3], rfl⟩
    organizationSubType := ⟨[4, 5, 6], rfl⟩
    networkProtocol := .udpIPv4
    addressField := blit (fun _ => 0) 0 [1, 4, 7, 0]
    priority1 := 127
    priority2 := 127
    clockQuality := ⟨12, 73, 7⟩
    currentUtcOffset := 37
    keyField := 1
    currentOffset := 10800
    jumpSeconds := 1
    timeOfNextJump := 175863
    tzName := some ⟨[67, 69, 83, 84], by decide⟩ }

structure ServiceState where
  clockInfo : IfClk
  params : PtpParams
  address : SockAddr
  message : PtpMsg
  rxTs : Timespec
  t2 : Timespec
  buffer : Buf

/-! ## TLVs of the answer -/

/-- `none` is a receive time without a PTP timestamp, which leaves that field alone. -/
def fillResponse (clk : IfClk) (rxTs : Option Timestamp) (rp : ℕ) : Prog Bool := do
  storeOctets (rp + 4) clk.organizationId.val
  storeOctets (rp + 7) clk.organizationSubType.val
  store (rp + 20) 0#64
  match rxTs with
  | none => pure false
  | some ts => do
    storeTimestamp (rp + 10) ts
    pure true

def fillStatus (clk : IfClk) (st : ℕ) : Prog Bool := do
  storeOctets (st + 4) clk.organizationId.val
  storeOctets (st + 7) clk.organizationSubType.val
  store (st + 10) clk.priority1
  store (st + 11) clk.clockQuality.clockClass
  store (st + 12) clk.clockQuality.clockAccuracy
  store (st + 13) clk.clockQuality.offsetScaledLogVariance
  store (st + 15) clk.priority2
  store (st + 16) 0#16
  store (st + 18) clk.currentUtcOffset
  storeOctets (st + 20) clk.clockIdentity.val
  store (st + 28) clk.networkProtocol.code
  match clk.networkProtocol with
  | .udpIPv4 => do
    store (st + 30) (BitVec.ofNat 16 ipv4AddrLen)
    storeOctets (st + 32) (region clk.addressField 0 ipv4AddrLen)
    pure true
  | .udpIPv6 => do
    store (st + 30) (BitVec.ofNat 16 ipv6AddrLen)
    storeOctets (st + 32) (region clk.addressField 0 ipv6AddrLen)
    pure true
  | .invalidProto => pure false

/-- A null pointer stands for the empty name. -/
def IfClk.displayName (clk : IfClk) : List Octet :=
  match clk.tzName with
  | none => []
  | some name => name.val

def fillAltTime (clk : IfClk) (a : ℕ) : Prog Bool := do
  store (a + 4) clk.keyField
  store (a + 5) clk.currentOffset
  store (a + 9) clk.jumpSeconds
  match setUint48 clk.timeOfNextJump with
  | none => pure false
  | some jump => do
    storeUint48 (a + 13) jump
    if clk.displayName = [] then do
      store (a + 19) 0#8
      pure true
    else do
      -- `strnlen` looks at no more than this
      let l := min clk.displayName.length (maxTzLen + 1)
      if l > maxTzLen then pure false
      else do
        store (a + 19) (BitVec.ofNat 8 l)
        storeOctets (a + 20) clk.displayName
        pure true

namespace ServiceState

/-- The place for a TLV of the needed size, filled. -/
def fillNext (need : ℕ) (fill : ℕ → Prog Bool) (st : ServiceState) : Bool × ServiceState :=
  match st.message.nextTlv need with
  | none => (false, st)
  | some p =>
    let r := (fill p).run st.buffer.mem
    (r.1, { st with buffer := st.buffer.withMem r.2 })

def addTlv (id : TlvTypeId) (st : ServiceState) : Bool × ServiceState :=
  let r := st.message.addTlv id st.buffer
  (r.1, { st with message := r.2.1, buffer := r.2.2 })

def addRespTlv (st : ServiceState) : Bool × ServiceState :=
  st.fillNext (PtpMsg.getTlvSize .csptpResponse) (fillResponse st.clockInfo st.rxTs.toTimestamp)

def addStatusTlv : Attempt ServiceState Datagram :=
  (Attempt.call fun st => st.fillNext (PtpMsg.getCSPTPStatusTlvSize st.clockInfo.networkProtocol)
    (fillStatus st.clockInfo)).andThen (Attempt.call (addTlv .csptpStatus))

def addAltTimeTlv : Attempt ServiceState Datagram :=
  (Attempt.call fun st => st.fillNext (PtpMsg.getTlvSize .alternateTimeOffsetIndicator)
    (fillAltTime st.clockInfo)).andThen (Attempt.call (addTlv .alternateTimeOffsetIndicator))

/-! ## Sending -/

/-- `t2->toTimestamp(t2, &prms->timestamp)` -/
def stamp (st : ServiceState) : Bool × ServiceState :=
  match st.t2.toTimestamp with
  | none => (false, st)
  | some ts => (true, { st with params := { st.params with timestamp := ts } })

def init (st : ServiceState) : Bool × ServiceState :=
  let r := st.message.init st.params st.buffer
  (r.1, { st with message := r.2.1, buffer := r.2.2 })

def buildDone (size : ℕ) (st : ServiceState) : Bool × ServiceState :=
  let r := st.message.buildDone size st.buffer
  (r.1, { st with message := r.2.1, buffer := r.2.2 })

def socketSend (net : Bool) : Attempt ServiceState Datagram := fun st =>
  (net, st, send st.buffer st.address net)

def composeRespSync (size : ℕ) (tlvReqFlags0 : Octet) (net : Bool) : Attempt ServiceState Datagram :=
  (Attempt.call stamp).andThen <| (Attempt.call init).andThen <|
    ((Attempt.call addRespTlv).andThen (Attempt.call (addTlv .csptpResponse))).andThen <|
    (Attempt.orElse (tlvReqFlags0 &&& flags0ReqStatusTlv = 0) addStatusTlv).andThen <|
    (Attempt.orElse (tlvReqFlags0 &&& flags0ReqAlternateTimeTlv = 0) addAltTimeTlv).andThen <|
    (Attempt.call (buildDone size)).andThen (socketSend net)

/-- `now` is what `getUtcClock` reads and `net` whether `sendto` succeeds. -/
def sendRespSync (size : ℕ) (tlvReqFlags0 : Octet) (now : ClockReading) (net : Bool) :
    Attempt ServiceState Datagram := fun st =>
  composeRespSync size tlvReqFlags0 net
    { st with params := { st.params with type := .sync }, t2 := now.toTimespec }

def composeFollowUp (size : ℕ) (net : Bool) : Attempt ServiceState Datagram :=
  (Attempt.call stamp).andThen <| (Attempt.call init).andThen <|
    (Attempt.call (buildDone size)).andThen (socketSend net)

def sendFollowUp (size : ℕ) (net : Bool) : Attempt ServiceState Datagram := fun st =>
  composeFollowUp size net { st with params := { st.params with type := .followUp } }

end ServiceState

/-! ## Receiving -/

/-- The scan of the TLVs for request flags; the last request counts. `none` is a message without
one. -/
def rcvReqSync : List TlvRec → Option Octet → Prog (Option Octet)
  | [], tlvReqFlags0 => pure tlvReqFlags0
  | r :: rs, tlvReqFlags0 =>
    if r.id = .csptpRequest then do
      let flags ← load 8 (r.tlv + 4)
      rcvReqSync rs (some flags)
    else rcvReqSync rs tlvReqFlags0

/-- What one pass of the service gets from outside: the poll, the clock when it answers, and whether
each of the two sends succeeds. -/
structure ServiceInput where
  poll : Poll
  now : ClockReading
  netRespSync : Bool
  netFollowUp : Bool

namespace ServiceState

/-- The state after `recv` and `parse`, with their flags. -/
def receive (arrival : Option Datagram) (rxNow : ClockReading) (st : ServiceState) :
    Bool × ServiceState :=
  let r := recv st.buffer st.address arrival rxNow
  let st := { st with buffer := r.buf, address := r.address, rxTs := r.ts }
  if r.ok = false then (false, st)
  else
    let p := st.message.parse st.params st.buffer
    (p.ok, { st with message := p.self, params := p.params, buffer := p.buf })

def answerRequest (useTxTwoSteps : Bool) (inp : ServiceInput) (size : ℕ) (tlvReqFlags0 : Octet) :
    Attempt ServiceState Datagram :=
  (sendRespSync size tlvReqFlags0 inp.now inp.netRespSync).andThen
    (Attempt.orElse (useTxTwoSteps = false) (sendFollowUp size inp.netFollowUp))

def answer (useTxTwoSteps : Bool) (inp : ServiceInput) : Attempt ServiceState Datagram := fun st =>
  match st.params.type with
  | .sync =>
    let size := st.buffer.len
    let st := { st with params := { st.params with useTwoSteps := useTxTwoSteps } }
    match ((rcvReqSync st.message.tlvs none).run st.buffer.mem).1 with
    | none => (false, st, [])
    | some tlvReqFlags0 => answerRequest useTxTwoSteps inp size tlvReqFlags0 st
  | _ => (false, st, [])

/-- One pass of `main_flow`. -/
def mainFlow (useTxTwoSteps : Bool) (inp : ServiceInput) : Attempt ServiceState Datagram := fun st =>
  match inp.poll with
  | .idle => (false, st, [])
  | .ready arrival rxNow =>
    ((Attempt.call (receive arrival rxNow)).andThen (answer useTxTwoSteps inp)) st

end ServiceState

/-- `service_main_allocObjs`, where memory is not short: the system gives an empty state, any octets
for the buffer, and `dummyClockInfo` sets the clock. -/
def serviceAllocObjs (type : Prot) (contents : Mem) : Option ServiceState :=
  match addrAlloc type, bufferAlloc 256 contents (by norm_num) with
  | some address, some buffer => some {
      clockInfo := dummyClockInfo, params := .zero, address := address, message := .detach,
      rxTs := ⟨0, 0⟩, t2 := ⟨0, 0⟩, buffer := buffer }
  | _, _ => none

end Csptp
