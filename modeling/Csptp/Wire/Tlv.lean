import Csptp.Message.Types

/-! # TLVs as values

A TLV here is the values of its fields; the types leave no room for a TLV that the code refuses, so a
protocol and its address, a name and its fill octet, cannot disagree. `Tlv.octets o` is how the TLV
lies in memory when its words are in order `o`. The code itself never builds these values;
`Wire/Conversion.lean` connects them with what it does to memory. -/
namespace Csptp
open Octets
set_option autoImplicit false

/-! ## TLV values -/

/-- An ALTERNATE_TIME_OFFSET_INDICATOR; `fill` is the octet behind a name of odd length. -/
structure AltTime where
  keyField : Octet
  currentOffset : BitVec 32
  jumpSeconds : BitVec 32
  timeOfNextJump : UInteger48
  displayName : List Octet
  fill : List Octet
  name_lt : displayName.length < 2 ^ 8
  fill_len : fill.length = displayName.length % 2
deriving DecidableEq

structure Response where
  organizationId : OctetArray 3
  organizationSubType : OctetArray 3
  reqIngressTimestamp : Timestamp
  reqCorrectionField : BitVec 64
deriving DecidableEq

/-- A protocol together with an address of its length. -/
inductive PortAddress
  | ipv4 (addressField : OctetArray 4)
  | ipv6 (addressField : OctetArray 16)
deriving DecidableEq

structure Status where
  organizationId : OctetArray 3
  organizationSubType : OctetArray 3
  grandmasterPriority1 : Octet
  grandmasterClockQuality : ClockQuality
  grandmasterPriority2 : Octet
  stepsRemoved : BitVec 16
  currentUtcOffset : BitVec 16
  grandmasterIdentity : OctetArray 8
  parentAddress : PortAddress
deriving DecidableEq

inductive Tlv
  | altTime (t : AltTime)
  | request (tlvRequestFlags : OctetArray 4)
  | response (t : Response)
  | status (t : Status)
  | pad (data : { l : List Octet // l.length < 2 ^ 16 })
deriving DecidableEq

namespace PortAddress

def networkProtocol : PortAddress → Prot
  | .ipv4 _ => .udpIPv4
  | .ipv6 _ => .udpIPv6

def addressField : PortAddress → List Octet
  | .ipv4 a => a.val
  | .ipv6 a => a.val

@[simp] theorem addressField_length (a : PortAddress) :
    a.addressField.length = adderSize a.networkProtocol := by
  cases a with
  | ipv4 a => exact a.property
  | ipv6 a => exact a.property

theorem adderSize_pos (a : PortAddress) : 0 < adderSize a.networkProtocol := by
  cases a <;> simp [networkProtocol, adderSize, ipv4AddrLen, ipv6AddrLen]

theorem adderSize_le (a : PortAddress) : adderSize a.networkProtocol ≤ 16 := by
  cases a <;> simp [networkProtocol, adderSize, ipv4AddrLen, ipv6AddrLen]

end PortAddress

/-! ## Octets of a TLV -/

def AltTime.body (o : ByteOrder) (t : AltTime) : List Octet :=
  [t.keyField] ++ inOrder o t.currentOffset ++ inOrder o t.jumpSeconds ++
    inOrder o t.timeOfNextJump.high ++ inOrder o t.timeOfNextJump.low ++
    [BitVec.ofNat 8 t.displayName.length] ++ t.displayName ++ t.fill

def Response.body (o : ByteOrder) (t : Response) : List Octet :=
  t.organizationId.val ++ t.organizationSubType.val ++ t.reqIngressTimestamp.octets o ++
    inOrder o t.reqCorrectionField

def Status.body (o : ByteOrder) (t : Status) : List Octet :=
  t.organizationId.val ++ t.organizationSubType.val ++
    [t.grandmasterPriority1, t.grandmasterClockQuality.clockClass,
      t.grandmasterClockQuality.clockAccuracy] ++
    inOrder o t.grandmasterClockQuality.offsetScaledLogVariance ++ [t.grandmasterPriority2] ++
    inOrder o t.stepsRemoved ++ inOrder o t.currentUtcOffset ++ t.grandmasterIdentity.val ++
    inOrder o t.parentAddress.networkProtocol.code ++
    inOrder o (BitVec.ofNat 16 (adderSize t.parentAddress.networkProtocol)) ++
    t.parentAddress.addressField

/-- The TLV with a zero octet behind a name of odd length. -/
def AltTime.zeroFill (t : AltTime) : AltTime :=
  { t with fill := List.replicate (t.displayName.length % 2) 0, fill_len := List.length_replicate }

/-- The size of an ALTERNATE_TIME_OFFSET_INDICATOR TLV with a name of this length. -/
def altTimeSize (nameLen : ℕ) : ℕ := 20 + (nameLen + nameLen % 2)

namespace Tlv

def id : Tlv → TlvTypeId
  | .altTime _ => .alternateTimeOffsetIndicator
  | .request _ => .csptpRequest
  | .response _ => .csptpResponse
  | .status _ => .csptpStatus
  | .pad _ => .pad

/-- The size with the header. -/
def size : Tlv → ℕ
  | .altTime t => altTimeSize t.displayName.length
  | .request _ => 8
  | .response _ => 28
  | .status t => 32 + adderSize t.parentAddress.networkProtocol
  | .pad data => 4 + data.val.length

/-- What follows the header. -/
def body (o : ByteOrder) : Tlv → List Octet
  | .altTime t => t.body o
  | .request flags => flags.val
  | .response t => t.body o
  | .status t => t.body o
  | .pad data => data.val

def header (o : ByteOrder) (t : Tlv) : List Octet :=
  inOrder o t.id.code ++ inOrder o (BitVec.ofNat 16 (t.size - 4))

def octets (o : ByteOrder) (t : Tlv) : List Octet := t.header o ++ t.body o

def zeroFill : Tlv → Tlv
  | .altTime t => .altTime t.zeroFill
  | t => t

@[simp] theorem header_length (o : ByteOrder) (t : Tlv) : (t.header o).length = 4 := by
  simp [header]

theorem body_length (o : ByteOrder) (t : Tlv) : (t.body o).length = t.size - 4 := by
  cases t with
  | altTime t =>
    simp only [body, AltTime.body, size, altTimeSize, List.length_append, inOrder_length,
      List.length_singleton, t.fill_len]
    omega
  | request flags => exact flags.property
  | response t =>
    simp [body, Response.body, size, t.organizationId.property, t.organizationSubType.property]
  | status t =>
    simp only [body, Status.body, size, List.length_append, inOrder_length, List.length_cons,
      List.length_nil, t.organizationId.property, t.organizationSubType.property,
      t.grandmasterIdentity.property, PortAddress.addressField_length]
    omega
  | pad data => simp [body, size]

theorem four_le_size (t : Tlv) : 4 ≤ t.size := by
  cases t <;> simp only [size, altTimeSize] <;> omega

theorem size_lt (t : Tlv) : t.size - 4 < 2 ^ 16 := by
  cases t with
  | altTime t => have := t.name_lt; simp only [size, altTimeSize]; omega
  | request flags => simp [size]
  | response t => simp [size]
  | status t => have := t.parentAddress.adderSize_le; simp only [size]; omega
  | pad data => have := data.property; simp only [size]; omega

@[simp] theorem octets_length (o : ByteOrder) (t : Tlv) : (t.octets o).length = t.size := by
  have := t.four_le_size
  rw [octets, List.length_append, header_length, body_length]
  omega

@[simp] theorem zeroFill_id (t : Tlv) : t.zeroFill.id = t.id := by cases t <;> rfl

@[simp] theorem zeroFill_size (t : Tlv) : t.zeroFill.size = t.size := by cases t <;> rfl

@[simp] theorem zeroFill_zeroFill (t : Tlv) : t.zeroFill.zeroFill = t.zeroFill := by cases t <;> rfl

theorem id_valid (t : Tlv) : t.id ≠ .invalidTlvId := by cases t <;> simp [id]

theorem minTlvSize_pos (t : Tlv) : minTlvSize t.id ≠ 0 := by
  cases t <;> simp [id, minTlvSize, csptpReq, tlvHdr]

theorem minTlvSize_le (t : Tlv) : minTlvSize t.id ≤ t.size := by
  cases t <;> simp [id, size, altTimeSize, minTlvSize, csptpReq, tlvHdr]

end Tlv

end Csptp
