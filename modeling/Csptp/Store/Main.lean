import Csptp.List.Manager
import Csptp.Socket

/-! # The store (`store.c`)

For every client address the store keeps the last transmission timestamp, the sequence number it was used
with and the second of the update. The records are spread over sorted lists by a hash of the address. -/
namespace Csptp
open Linked Octets
set_option autoImplicit false

def Prot.addrLen : Prot → ℕ
  | .udpIPv4 => ipv4AddrLen
  | .udpIPv6 => ipv6AddrLen
  | .invalidProto => 0

/-- `struct _nodeIPData` with an address of `n` octets. -/
structure NodeIPData (n : ℕ) where
  ts : Timespec
  last : ℤ
  sequenceId : BitVec 16
  ip : OctetArray n
deriving DecidableEq

/-- `struct _cookie_t`, and what `time` returns to a callback. A pointer that no callback of the call
follows is null in the source and anything here. -/
structure Cookie (n : ℕ) where
  ts : Timespec
  sequenceId : BitVec 16
  last : ℤ
  ip : OctetArray n
  now : ℤ

def OctetArray.zero (n : ℕ) : OctetArray n := ⟨List.replicate n 0, List.length_replicate⟩

/-- Only the sign of the result is documented. -/
def memcmp : List Octet → List Octet → ℤ
  | x :: l, y :: l' => if x = y then memcmp l l' else (x.toNat : ℤ) - y.toNat
  | _, _ => 0

/-- The callbacks `_cmp`, `_set` and `_cleanUp` for addresses of `n` octets. -/
def storeCallbacks (n : ℕ) : ListMgr.Callbacks (NodeIPData n) (Cookie n) where
  cmp d c := memcmp d.ip.val c.ip.val
  set _ c := { ts := c.ts, last := c.now, sequenceId := c.sequenceId, ip := c.ip }
  cleanup := some fun d c => if d.last < c.last then 1 else 0
  release := none

/-- A node of zeros. -/
def blankNode (n : ℕ) : NodeIPData n := ⟨⟨0, 0⟩, 0, 0, OctetArray.zero n⟩

namespace SockAddr

def getIP4Val : SockAddr → BitVec 32
  | .in4 _ addr => swap addr
  | .in6 _ _ _ _ => 0

/-- `none` is a null pointer. -/
def getIP6 : SockAddr → Option (OctetArray 16)
  | .in4 _ _ => none
  | .in6 _ _ addr _ => some addr

/-- The octets that a store reads at the address `getIP` returns; `none` where it reads too far. -/
def getIP : (type : Prot) → SockAddr → Option (OctetArray type.addrLen)
  | .udpIPv4, .in4 _ addr => some ⟨octets addr, octets_length addr⟩
  | .udpIPv4, .in6 _ _ addr _ => some ⟨addr.val.take 4, by simp [addr.property, Prot.addrLen, ipv4AddrLen]⟩
  | .udpIPv6, .in6 _ _ addr _ => some addr
  | .udpIPv6, .in4 _ _ => none
  | .invalidProto, _ => some (OctetArray.zero 0)

end SockAddr

inductive Hash
  | hash0
  | hash4
  | hash6
deriving DecidableEq

/-- The list of an address, or `none` where the source follows a null pointer. -/
def Hash.apply (hashMask : BitVec 32) : Hash → SockAddr → Option ℕ
  | .hash0, _ => some 0
  | .hash4, addr => some (addr.getIP4Val &&& hashMask).toNat
  | .hash6, addr => do
    let ip ← addr.getIP6
    some (swap (ofOctets 32 (ip.val.drop 12)) &&& hashMask).toNat

/-- A store for addresses of one type with a number of lists. -/
structure Store (type : Prot) (size : ℕ) where
  hashMask : BitVec 32
  hash : Hash
  mgr : ListMgr (Fin size) (NodeIPData type.addrLen)

def Prot.hash : Prot → Option Hash
  | .udpIPv4 => some .hash4
  | .udpIPv6 => some .hash6
  | .invalidProto => none

/-- `store_alloc` when there is memory. -/
def storeAlloc (type : Prot) (hashBitsSize : ℕ) : Option (Store type (1 <<< hashBitsSize)) := do
  let hash ← type.hash
  if hashBitsSize > 32 then none
  else some {
    hashMask := BitVec.ofNat 32 (1 <<< hashBitsSize - 1)
    hash := if hashBitsSize = 0 then .hash0 else hash
    mgr := ListMgr.alloc }

namespace ListMgr
variable {ι : Type} {n : ℕ}

/-! What `_fetch` does with a node after the mutex is free again. -/

def readSequenceId (s : ListMgr ι (NodeIPData n)) (d : Ptr) : Option (BitVec 16) :=
  (s.heap d).map fun node => node.data.sequenceId

def readTs (s : ListMgr ι (NodeIPData n)) (d : Ptr) : Option Timespec :=
  (s.heap d).map fun node => node.data.ts

def clearTs (s : ListMgr ι (NodeIPData n)) (d : Ptr) : Option (ListMgr ι (NodeIPData n)) := do
  let node ← s.heap d
  let data := { node.data with ts := ⟨0, 0⟩ }
  some { s with heap := Function.update s.heap d (some ⟨node.nxt, data⟩) }

end ListMgr

namespace Store
variable {type : Prot} {size : ℕ}

/-- `none` where the source leaves the table of lists. -/
def list (s : Store type size) (addr : SockAddr) : Option (Fin size) := do
  let i ← s.hash.apply s.hashMask addr
  if h : i < size then some ⟨i, h⟩ else none

def updateCookie {n : ℕ} (ts : Timespec) (sID : BitVec 16) (ip : OctetArray n) (now : ℤ) : Cookie n :=
  { ts := ts, sequenceId := sID, last := 0, ip := ip, now := now }

/-- `now` is what `time` returns while the node is set. -/
def update (s : Store type size) (addr : SockAddr) (ts : Timespec) (sID : BitVec 16) (now : ℤ)
    (fresh : Option Ptr) : Option (Bool × Store type size) := do
  let ip ← addr.getIP type
  let i ← s.list addr
  let (done, mgr) ← s.mgr.updateNode (storeCallbacks _) (blankNode _) i (updateCookie ts sID ip now) fresh
  some (done, { s with mgr := mgr })

def fetchCookie {n : ℕ} (sID : BitVec 16) (ip : OctetArray n) : Cookie n :=
  { ts := ⟨0, 0⟩, sequenceId := sID, last := 0, ip := ip, now := 0 }

/-- The part of `_fetch` under the mutex. -/
def lookUp (s : Store type size) (addr : SockAddr) (sID : BitVec 16) :
    Option (Option Ptr × Store type size) := do
  let ip ← addr.getIP type
  let i ← s.list addr
  let (d, mgr) ← s.mgr.fetchNode (storeCallbacks _) i (fetchCookie sID ip)
  some (d, { s with mgr := mgr })

/-- The result and the timestamp object afterwards. -/
def fetch (s : Store type size) (addr : SockAddr) (ts : Timespec) (sID : BitVec 16) (clear : Bool) :
    Option ((Bool × Timespec) × Store type size) := do
  let (d, s) ← s.lookUp addr sID
  match d with
  | none => some ((false, ts), s)
  | some d => do
    let sequenceId ← s.mgr.readSequenceId d
    if sequenceId ≠ sID then some ((false, ts), s)
    else do
      let stored ← s.mgr.readTs d
      let ts := ts.fromTimespec stored
      if clear then do
        let mgr ← s.mgr.clearTs d
        some ((true, ts), { s with mgr := mgr })
      else some ((true, ts), s)

def cleanupCookie {n : ℕ} (timeGap : BitVec 32) (now : ℤ) : Cookie n :=
  { ts := ⟨0, 0⟩, sequenceId := 0, last := now - timeGap.toNat, ip := OctetArray.zero n, now := now }

def cleanupLoop (cookie : Cookie type.addrLen) :
    List (Fin size) → ℕ → ListMgr (Fin size) (NodeIPData type.addrLen) →
      Option (ℕ × ListMgr (Fin size) (NodeIPData type.addrLen))
  | [], count, mgr => some (count, mgr)
  | i :: l, count, mgr => do
    let (cnt, mgr) ← mgr.cleanUpNodes (storeCallbacks _) i cookie
    cleanupLoop cookie l (count + cnt) mgr

def cleanup (s : Store type size) (timeGap : BitVec 32) (now : ℤ) :
    Option (ℕ × Store type size) := do
  let (count, mgr) ← cleanupLoop (cleanupCookie timeGap now) (List.finRange size) 0 s.mgr
  some (count, { s with mgr := mgr })

def records (s : Store type size) : Option ℕ := s.mgr.getUsedNodes

end Store

end Csptp
