import Csptp.Message.Types

/-! # Byte order conversion of a message in place (`msg.c`)

Offsets follow the packed structures of `msg.h`. A TLV lies at offset `p`. -/
namespace Csptp
open Octets Octets.Prog
set_option autoImplicit false

/-! ## Header -/

/-- Returns the message length. -/
def netToCpuMsg : Prog ℕ := do
  let len ← swapAt 16 2
  let _ ← swapAt 64 8
  let _ ← swapAt 16 30
  netToCpuTs 34
  pure len.toNat

def cpuToNetMsg (len : ℕ) : Prog Unit := do
  store 2 (swap (BitVec.ofNat 16 len))
  let _ ← swapAt 64 8
  let _ ← swapAt 16 30
  cpuToNetTs 34

/-! ## From network to host order -/

def netToCpuAltTime (p len minSz : ℕ) : Prog Bool := do
  let nameLen ← load 8 (p + 19)
  if len ≠ minSz + makeEven nameLen.toNat then pure false
  else do
    let _ ← swapAt 32 (p + 5)
    let _ ← swapAt 32 (p + 9)
    netToCpu48 (p + 13)
    pure true

def netToCpuResponse (p len minSz : ℕ) : Prog Bool :=
  if len ≠ minSz then pure false
  else do
    netToCpuTs (p + 10)
    let _ ← swapAt 64 (p + 20)
    pure true

def netToCpuStatus (p len minSz : ℕ) : Prog Bool := do
  let networkProtocol ← load 16 (p + 28)
  let addressLength ← load 16 (p + 30)
  let pt := swap networkProtocol
  let alen := (swap addressLength).toNat
  let nlen := adderSize (Prot.ofCode pt)
  if nlen = 0 then pure false
  else if nlen ≠ alen ∨ len ≠ minSz + alen then pure false
  else do
    store (p + 28) pt
    store (p + 30) (BitVec.ofNat 16 alen)
    let _ ← swapAt 16 (p + 13)
    let _ ← swapAt 16 (p + 16)
    let _ ← swapAt 16 (p + 18)
    pure true

/-- The switch of `net_to_cpu_tlv`; the result tells whether the TLV passed. -/
def netToCpuBody (id : TlvTypeId) (p len minSz : ℕ) : Prog Bool :=
  match id with
  | .alternateTimeOffsetIndicator => netToCpuAltTime p len minSz
  | .csptpRequest => pure (decide (len = minSz))
  | .csptpResponse => netToCpuResponse p len minSz
  | .csptpStatus => netToCpuStatus p len minSz
  | .pad => pure true
  | .invalidTlvId => pure false

/-- The identifier and the TLV's length; the length counts only with a valid identifier. -/
def netToCpuTlv (p size : ℕ) : Prog (TlvTypeId × ℕ) := do
  let tlvType ← swapAt 16 p
  let lengthField ← swapAt 16 (p + 2)
  let id := TlvTypeId.ofCode tlvType
  let len := lengthField.toNat + tlvHdr
  let minSz := minTlvSize id
  if minSz = 0 then pure (.invalidTlvId, 0)
  else if len < minSz then pure (.invalidTlvId, 0)
  else if len > size then pure (.invalidTlvId, 0)
  else do
    let ok ← netToCpuBody id p len minSz
    pure (if ok then (id, len) else (.invalidTlvId, 0))

/-! ## From host to network order -/

def cpuToNetAltTime (p tlvLen sz : ℕ) : Prog Bool := do
  let nameLen ← load 8 (p + 19)
  let l := nameLen.toNat
  -- the octet behind a name of odd length
  if isOdd l then store (p + 20 + l) 0#8
  if tlvLen ≠ sz + (if isOdd l then l + 1 else l) then pure false
  else do
    let _ ← swapAt 32 (p + 5)
    let _ ← swapAt 32 (p + 9)
    cpuToNet48 (p + 13)
    pure true

def cpuToNetResponse (p tlvLen sz : ℕ) : Prog Bool :=
  if tlvLen ≠ sz then pure false
  else do
    cpuToNetTs (p + 10)
    let _ ← swapAt 64 (p + 20)
    pure true

def cpuToNetStatus (p tlvLen sz : ℕ) : Prog Bool := do
  let addressLength ← load 16 (p + 30)
  let networkProtocol ← load 16 (p + 28)
  let alen := addressLength.toNat
  let nlen := adderSize (Prot.ofCode networkProtocol)
  if nlen = 0 ∨ nlen ≠ alen ∨ tlvLen ≠ sz + alen then pure false
  else do
    store (p + 28) (swap networkProtocol)
    store (p + 30) (swap (BitVec.ofNat 16 alen))
    let _ ← swapAt 16 (p + 13)
    let _ ← swapAt 16 (p + 16)
    let _ ← swapAt 16 (p + 18)
    pure true

/-- The switch of `cpu_to_net_tlv`. -/
def cpuToNetBody (id : TlvTypeId) (p tlvLen sz : ℕ) : Prog Bool :=
  match id with
  | .alternateTimeOffsetIndicator => cpuToNetAltTime p tlvLen sz
  | .csptpRequest => pure (decide (tlvLen = sz))
  | .csptpResponse => cpuToNetResponse p tlvLen sz
  | .csptpStatus => cpuToNetStatus p tlvLen sz
  | .pad => pure true
  | .invalidTlvId => pure false

def cpuToNetTlv (id : TlvTypeId) (p tlvLen : ℕ) : Prog Bool := do
  let sz := minTlvSize id
  if sz = 0 ∨ tlvLen < sz then pure false
  else do
    let tlvType ← load 16 p
    let lengthField ← load 16 (p + 2)
    if tlvType ≠ id.code ∨ lengthField.toNat + tlvHdr ≠ tlvLen then pure false
    else do
      let ok ← cpuToNetBody id p tlvLen sz
      if ok then do
        store p (swap id.code)
        store (p + 2) (swap (BitVec.ofNat 16 (tlvLen - tlvHdr)))
        pure true
      else pure false

end Csptp
