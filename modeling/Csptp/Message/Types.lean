import Csptp.Time
import Csptp.Buffer

/-! # Messages: numbers, layouts and objects (`msg.h`, `common.h`) -/
namespace Csptp
open Octets
set_option autoImplicit false

/-! ## Enumerations -/

inductive Prot
  | invalidProto
  | udpIPv4
  | udpIPv6
deriving DecidableEq, Repr

def Prot.code : Prot → BitVec 16
  | .invalidProto => 0
  | .udpIPv4 => 1
  | .udpIPv6 => 2

/-- Every other number takes the default branch of each switch, as `Invalid_PROTO` does. -/
def Prot.ofCode (v : BitVec 16) : Prot :=
  if v = 1 then .udpIPv4 else if v = 2 then .udpIPv6 else .invalidProto

inductive MessageType
  | sync
  | delayReq
  | pdelayReq
  | pdelayResp
  | followUp
  | delayResp
  | pdelayRespFollowUp
  | announce
  | signaling
  | management
deriving DecidableEq, Repr

def MessageType.code : MessageType → BitVec 8
  | .sync => 0
  | .delayReq => 1
  | .pdelayReq => 2
  | .pdelayResp => 3
  | .followUp => 8
  | .delayResp => 9
  | .pdelayRespFollowUp => 10
  | .announce => 11
  | .signaling => 12
  | .management => 13

inductive TlvTypeId
  | invalidTlvId
  | alternateTimeOffsetIndicator
  | csptpRequest
  | csptpResponse
  | csptpStatus
  | pad
deriving DecidableEq, Repr

def TlvTypeId.code : TlvTypeId → BitVec 16
  | .invalidTlvId => 0xffff
  | .alternateTimeOffsetIndicator => 9
  | .csptpRequest => 0xff00
  | .csptpResponse => 0xff01
  | .csptpStatus => 0xf002
  | .pad => 0x8008

/-- An unknown number takes the default branch of each switch, as `Invalid_tlv_ID` does. -/
def TlvTypeId.ofCode (v : BitVec 16) : TlvTypeId :=
  if v = 9 then .alternateTimeOffsetIndicator
  else if v = 0xff00 then .csptpRequest
  else if v = 0xff01 then .csptpResponse
  else if v = 0xf002 then .csptpStatus
  else if v = 0x8008 then .pad
  else .invalidTlvId

theorem TlvTypeId.ofCode_code (id : TlvTypeId) : ofCode id.code = id := by cases id <;> rfl

theorem Prot.ofCode_code (p : Prot) : ofCode p.code = p := by cases p <;> rfl

/-! ## Sizes -/

/-- Maximum number of TLVs in a message. -/
def maxTlvs : ℕ := 4
/-- Maximum length of the display name that `addTlv` accepts. -/
def maxTzLen : ℕ := 10
def ipv4AddrLen : ℕ := 4
def ipv6AddrLen : ℕ := 16
/-- `sizeof(struct msg_t)` -/
def msgSize : ℕ := 44
/-- `sizeof(struct tlv_hdr_t)` -/
def tlvHdr : ℕ := 4
/-- `sizeof(struct CSPTP_REQUEST_t)` -/
def csptpReq : ℕ := 8

def isOdd (v : ℕ) : Bool := v % 2 = 1
/-- On a 64-bit `size_t`. -/
def makeEven (v : ℕ) : ℕ := (v + v % 2) % 2 ^ 64

/-- Zero where the source logs an unknown identifier. -/
def minTlvSize : TlvTypeId → ℕ
  | .alternateTimeOffsetIndicator => 20
  | .csptpRequest => csptpReq
  | .csptpResponse => 28
  | .csptpStatus => 32
  | .pad => tlvHdr
  | .invalidTlvId => 0

def adderSize : Prot → ℕ
  | .udpIPv4 => ipv4AddrLen
  | .udpIPv6 => ipv6AddrLen
  | .invalidProto => 0

/-! ## Constants of the header -/

/-- `(minorVersionPTP << 4) | versionPTP` -/
def versionOctet : Octet := (1#8 <<< 4) ||| 2#8
def majorSdoId : Octet := 3
def minorSdoId : Octet := 0
def twoStepsFlag : Octet := 1#8 <<< 1
def unicastFlag : Octet := 1#8 <<< 2
def logIntervalUnicast : Octet := 0x7f
def flags0ReqStatusTlv : Octet := 1#8 <<< 0
def flags0ReqAlternateTimeTlv : Octet := 1#8 <<< 1

/-- The switch on the message type in `_init` and `_parse`; `none` is its default branch. -/
def MessageType.controlField : MessageType → Option Octet
  | .sync => some 0
  | .followUp => some 2
  | _ => none

/-- The message type that the low half of the first octet names, where the switch of `_parse` knows
it. -/
def MessageType.ofLow (type : Octet) : Option MessageType :=
  if type = 0 then some .sync else if type = 8 then some .followUp else none

/-! ## Parameters and the message object -/

/-- A fixed array of octets. -/
abbrev OctetArray (n : ℕ) := { l : List Octet // l.length = n }

structure ClockQuality where
  clockClass : Octet
  clockAccuracy : Octet
  offsetScaledLogVariance : BitVec 16
deriving DecidableEq, Repr

structure PtpParams where
  type : MessageType
  domainNumber : Octet
  correctionField : BitVec 64
  sequenceId : BitVec 16
  flagField2 : Octet
  timestamp : Timestamp
  useTwoSteps : Bool
deriving DecidableEq, Repr

/-- All octets zero. -/
def PtpParams.zero : PtpParams :=
  { type := .sync, domainNumber := 0, correctionField := 0, sequenceId := 0, flagField2 := 0,
    timestamp := ⟨⟨0, 0⟩, 0⟩, useTwoSteps := false }

/-- One record of the TLV table: offset in the buffer, size with the header, identifier. -/
structure TlvRec where
  tlv : ℕ
  len : ℕ
  id : TlvTypeId
deriving DecidableEq, Repr

/-- The message object. `attached` tells whether `_msg` and `_buf` are set: the message lies at the
start of the buffer, which the operations get beside the object. `tlvs` are the used records of the
TLV table, so `_num_tlvs` is its length. -/
structure PtpMsg where
  attached : Bool
  type : Option MessageType
  len : ℕ
  endPtr : Option ℕ
  left : ℕ
  tlvs : List TlvRec
deriving DecidableEq, Repr

namespace PtpMsg

/-- A fresh or detached object. -/
def detach : PtpMsg :=
  { attached := false, type := none, len := 0, endPtr := none, left := 0, tlvs := [] }

def getPTPMsgSize : ℕ := msgSize

def getTlvSize (id : TlvTypeId) : ℕ :=
  minTlvSize id + (if id = .alternateTimeOffsetIndicator then maxTzLen else 0)

def getCSPTPStatusTlvSize (p : Prot) : ℕ :=
  if adderSize p = 0 then 0 else adderSize p + minTlvSize .csptpStatus

end PtpMsg
end Csptp
