import Csptp.List.Sorted
import Csptp.Store.Main
import Mathlib.Data.List.Lex
import Mathlib.Data.Set.Card
import Mathlib.Order.OrderDual

/-! # The store as a map

What a store answers is what a map from addresses to records answers. Memory is part of it: an update for
a new address needs a record that was cleaned up before, or new memory. The map knows nothing of hashes. -/
namespace Csptp
open Linked Octets Runs
set_option autoImplicit false

structure Record where
  ts : Timespec
  sequenceId : BitVec 16
  last : ℤ
deriving DecidableEq

structure RecordMap (n : ℕ) where
  records : OctetArray n → Option Record
  /-- The number of records that were cleaned up and not used again. -/
  spare : ℕ

/-- A call; `room` says whether there is new memory. -/
inductive MapCall (n : ℕ)
  | update (ip : OctetArray n) (ts : Timespec) (sID : BitVec 16) (now : ℤ) (room : Bool)
  | fetch (ip : OctetArray n) (ts : Timespec) (sID : BitVec 16) (clear : Bool)
  | cleanup (timeGap : BitVec 32) (now : ℤ)
  | records

inductive StoreResult
  | updated (done : Bool)
  | fetched (done : Bool) (ts : Timespec)
  | cleaned (count : ℕ)
  | counted (count : ℕ)
deriving DecidableEq

namespace RecordMap
variable {n : ℕ}

def empty : RecordMap n := ⟨fun _ => none, 0⟩

/-- The addresses whose records have the property. -/
def having (m : RecordMap n) (P : Record → Prop) : Set (OctetArray n) :=
  { ip | ∃ r, m.records ip = some r ∧ P r }

def update (m : RecordMap n) (ip : OctetArray n) (r : Record) (room : Bool) : Bool × RecordMap n :=
  let records := Function.update m.records ip (some r)
  if (m.records ip).isSome then (true, ⟨records, m.spare⟩)
  else if 0 < m.spare then (true, ⟨records, m.spare - 1⟩)
  else if room then (true, ⟨records, m.spare⟩)
  else (false, m)

def fetch (m : RecordMap n) (ip : OctetArray n) (ts : Timespec) (sID : BitVec 16) (clear : Bool) :
    (Bool × Timespec) × RecordMap n :=
  match m.records ip with
  | none => ((false, ts), m)
  | some r =>
    if r.sequenceId ≠ sID then ((false, ts), m)
    else if clear then
      ((true, r.ts), { m with records := Function.update m.records ip (some { r with ts := ⟨0, 0⟩ }) })
    else ((true, r.ts), m)

/-- The last update of the record is before the time. -/
def Old (time : ℤ) (r : Record) : Prop := r.last < time

instance (time : ℤ) : DecidablePred (Old time) := fun r => inferInstanceAs (Decidable (r.last < time))

noncomputable def cleanup (m : RecordMap n) (time : ℤ) : ℕ × RecordMap n :=
  let count := (m.having (Old time)).ncard
  (count, ⟨fun ip => (m.records ip).filter fun r => ¬ Old time r, m.spare + count⟩)

noncomputable def call (m : RecordMap n) : MapCall n → StoreResult × RecordMap n
  | .update ip ts sID now room =>
    let r := m.update ip ⟨ts, sID, now⟩ room
    (.updated r.1, r.2)
  | .fetch ip ts sID clear =>
    let r := m.fetch ip ts sID clear
    (.fetched r.1.1 r.1.2, r.2)
  | .cleanup timeGap now =>
    let r := m.cleanup (now - timeGap.toNat)
    (.cleaned r.1, r.2)
  | .records => (.counted (m.having fun _ => True).ncard, m)

/-- The results of calls, and the map afterwards. -/
noncomputable def calls (m : RecordMap n) : List (MapCall n) → List StoreResult × RecordMap n
  | [] => ([], m)
  | c :: cs =>
    let r := m.call c
    let rest := r.2.calls cs
    (r.1 :: rest.1, rest.2)

theorem calls_concat (m : RecordMap n) (cs : List (MapCall n)) (c : MapCall n) :
    m.calls (cs ++ [c]) =
      ((m.calls cs).1 ++ [((m.calls cs).2.call c).1], ((m.calls cs).2.call c).2) := by
  induction cs generalizing m with
  | nil => rfl
  | cons x cs ih => simp [calls, ih]

end RecordMap

/-! ## Calls of the store -/

/-- `fresh` is what `malloc` returns if it is called. -/
inductive StoreCall
  | update (addr : SockAddr) (ts : Timespec) (sID : BitVec 16) (now : ℤ) (fresh : Option Ptr)
  | fetch (addr : SockAddr) (ts : Timespec) (sID : BitVec 16) (clear : Bool)
  | cleanup (timeGap : BitVec 32) (now : ℤ)
  | records

def SockAddr.IsType : Prot → SockAddr → Prop
  | .udpIPv4, .in4 _ _ => True
  | .udpIPv6, .in6 _ _ _ _ => True
  | _, _ => False

/-- The IP address of an address of this type. -/
def SockAddr.ip (type : Prot) (addr : SockAddr) : OctetArray type.addrLen :=
  (addr.getIP type).getD (OctetArray.zero _)

namespace Store
variable {type : Prot} {size : ℕ}

def call (s : Store type size) : StoreCall → Option (StoreResult × Store type size)
  | .update addr ts sID now fresh => (s.update addr ts sID now fresh).map fun r => (.updated r.1, r.2)
  | .fetch addr ts sID clear => (s.fetch addr ts sID clear).map fun r => (.fetched r.1.1 r.1.2, r.2)
  | .cleanup timeGap now => (s.cleanup timeGap now).map fun r => (.cleaned r.1, r.2)
  | .records => s.records.map fun count => (.counted count, s)

/-- Addresses are of the type of the store, timestamps are in range, and memory is new. -/
def Allowed (s : Store type size) : StoreCall → Prop
  | .update addr ts _ _ fresh => addr.IsType type ∧ ts.Normal ∧ s.mgr.Unused fresh
  | .fetch addr _ _ _ => addr.IsType type
  | _ => True

end Store

/-- The call as the map sees it. -/
def StoreCall.onMap (type : Prot) : StoreCall → MapCall type.addrLen
  | .update addr ts sID now fresh => .update (addr.ip type) ts sID now fresh.isSome
  | .fetch addr ts sID clear => .fetch (addr.ip type) ts sID clear
  | .cleanup timeGap now => .cleanup timeGap now
  | .records => .records

/-! ## The order of the addresses -/

theorem memcmp_neg {l l' : List Octet} (h : l.length = l'.length) :
    memcmp l l' < 0 ↔ l.map BitVec.toNat < l'.map BitVec.toNat := by
  induction l generalizing l' with
  | nil =>
    obtain rfl := List.length_eq_zero_iff.mp h.symm
    simp [memcmp]
  | cons x l ih =>
    cases l' with
    | nil => simp at h
    | cons y l' =>
      rw [List.map_cons, List.map_cons, List.cons_lt_cons_iff, ← ih (by simpa using h), memcmp]
      split_ifs with hxy
      · simp [hxy]
      · have hne : x.toNat ≠ y.toNat := fun heq => hxy (BitVec.eq_of_toNat_eq heq)
        simp only [hne, false_and, or_false]
        omega

theorem memcmp_zero {l l' : List Octet} (h : l.length = l'.length) : memcmp l l' = 0 ↔ l = l' := by
  induction l generalizing l' with
  | nil =>
    obtain rfl := List.length_eq_zero_iff.mp h.symm
    simp [memcmp]
  | cons x l ih =>
    cases l' with
    | nil => simp at h
    | cons y l' =>
      rw [memcmp]
      split_ifs with hxy
      · simp [hxy, ih (by simpa using h)]
      · have hne : x.toNat ≠ y.toNat := fun heq => hxy (BitVec.eq_of_toNat_eq heq)
        simp only [List.cons.injEq, hxy, false_and, iff_false]
        omega

/-- The lists are sorted in descending order of the addresses. -/
def IpKey := (List ℕ)ᵒᵈ

instance : LinearOrder IpKey := inferInstanceAs (LinearOrder (List ℕ)ᵒᵈ)

def ipKey {n : ℕ} (ip : OctetArray n) : IpKey := OrderDual.toDual (ip.val.map BitVec.toNat)

theorem ipKey_inj {n : ℕ} {ip ip' : OctetArray n} : ipKey ip = ipKey ip' ↔ ip = ip' := by
  have hinj : Function.Injective (BitVec.toNat : Octet → ℕ) := fun _ _ => BitVec.eq_of_toNat_eq
  have hlist : ipKey ip = ipKey ip' ↔ ip.val.map BitVec.toNat = ip'.val.map BitVec.toNat := Iff.rfl
  rw [hlist, (List.map_injective_iff.mpr hinj).eq_iff]
  exact Subtype.ext_iff.symm

def NodeIPData.record {n : ℕ} (d : NodeIPData n) : Record := ⟨d.ts, d.sequenceId, d.last⟩

def storeContract (n : ℕ) : ListMgr.Contract (storeCallbacks n) IpKey Record where
  key d := ipKey d.ip
  val := NodeIPData.record
  cookieKey c := ipKey c.ip
  cookieVal c := ⟨c.ts, c.sequenceId, c.now⟩
  cmp_neg d c := by
    have hlen : d.ip.val.length = c.ip.val.length := by rw [d.ip.property, c.ip.property]
    exact memcmp_neg hlen
  cmp_zero d c := by
    have hlen : d.ip.val.length = c.ip.val.length := by rw [d.ip.property, c.ip.property]
    rw [ipKey_inj, Subtype.ext_iff]
    exact (memcmp_zero hlen).trans eq_comm
  key_set _ _ := rfl
  val_set _ _ := rfl

end Csptp
