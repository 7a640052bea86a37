import Csptp.Store.Map
import Mathlib.Algebra.BigOperators.Fin

/-! # The store refines the map

Every address has its list. The lists together hold the records of the map, whatever the hash. -/
namespace Csptp
open Linked Octets Runs
set_option autoImplicit false

/-! ## The list of an address -/

/-- An address of this type with the given IP address. -/
def SockAddr.ofIp : (type : Prot) → OctetArray type.addrLen → SockAddr
  | .udpIPv4, ip => .in4 0 (ofOctets 32 ip.val)
  | .udpIPv6, ip => .in6 0 0 ip 0
  | .invalidProto, _ => .in4 0 0

theorem SockAddr.getIP_eq {type : Prot} {addr : SockAddr} (h : addr.IsType type) :
    addr.getIP type = some (addr.ip type) := by
  cases type <;> cases addr <;> first | rfl | exact h.elim

theorem Hash.apply_ofIp {type : Prot} {addr : SockAddr} (h : addr.IsType type) (hashMask : BitVec 32)
    (hash : Hash) :
    hash.apply hashMask (SockAddr.ofIp type (addr.ip type)) = hash.apply hashMask addr := by
  cases type <;> cases addr <;> try exact h.elim
  · have hword (a : BitVec 32) : ofOctets 32 (octets a) = a := ofOctets_octets a rfl
    cases hash <;> simp [Hash.apply, SockAddr.ofIp, SockAddr.ip, SockAddr.getIP, SockAddr.getIP4Val,
      SockAddr.getIP6, hword]
  · cases hash <;> rfl

theorem and_mask_lt (v : BitVec 32) {bits : ℕ} (hbits : bits ≤ 30) :
    (v &&& BitVec.ofNat 32 (1 <<< bits - 1)).toNat < 1 <<< bits := by
  have hpow : 2 ^ bits ≤ 2 ^ 30 := Nat.pow_le_pow_right (by decide) hbits
  have hpos : 0 < 2 ^ bits := Nat.two_pow_pos bits
  rw [Nat.shiftLeft_eq, one_mul, BitVec.toNat_and, BitVec.toNat_ofNat, Nat.mod_eq_of_lt (by omega),
    Nat.and_two_pow_sub_one_eq_mod]
  exact Nat.mod_lt _ hpos

theorem Hash.apply_lt {type : Prot} {hash : Hash} (hhash : type.hash = some hash) {addr : SockAddr}
    (h : addr.IsType type) {bits : ℕ} (hbits : bits ≤ 30) :
    ∃ v, (if bits = 0 then Hash.hash0 else hash).apply (BitVec.ofNat 32 (1 <<< bits - 1)) addr = some v ∧
      v < 1 <<< bits := by
  split_ifs with hzero
  · exact ⟨0, rfl, by simp [hzero]⟩
  · cases type <;> cases addr <;> try exact h.elim
    · obtain rfl : Hash.hash4 = hash := by simpa [Prot.hash] using hhash
      exact ⟨_, rfl, and_mask_lt _ hbits⟩
    · obtain rfl : Hash.hash6 = hash := by simpa [Prot.hash] using hhash
      exact ⟨_, rfl, and_mask_lt _ hbits⟩

/-- In a new store every address has its list, and only the IP address decides which. -/
theorem storeAlloc_list {type : Prot} {bits : ℕ} {s : Store type (1 <<< bits)} (hbits : bits ≤ 30)
    (hs : storeAlloc type bits = some s) : ∃ listOf : OctetArray type.addrLen → Fin (1 <<< bits),
      ∀ addr, addr.IsType type → s.list addr = some (listOf (addr.ip type)) := by
  obtain ⟨hash, hhash, hs⟩ := Option.bind_eq_some_iff.mp hs
  rw [if_neg (by omega)] at hs
  have hpos : 0 < 1 <<< bits := by
    rw [Nat.shiftLeft_eq, one_mul]
    exact Nat.two_pow_pos bits
  refine ⟨fun ip => (s.list (SockAddr.ofIp type ip)).getD ⟨0, hpos⟩, fun addr haddr => ?_⟩
  obtain rfl := Option.some.inj hs
  obtain ⟨v, happly, hv⟩ := Hash.apply_lt hhash haddr hbits
  simp only [Store.list, Hash.apply_ofIp haddr, happly, Option.bind_eq_bind, Option.bind_some, hv,
    dif_pos, Option.getD_some]

/-! ## What a store stands for -/

namespace Store
variable {type : Prot} {size : ℕ}

abbrev contract (type : Prot) := storeContract type.addrLen

/-- The lists are sound, and every node is on the list of its address. -/
structure Valid (listOf : OctetArray type.addrLen → Fin size) (s : Store type size) : Prop where
  list : ∀ addr, addr.IsType type → s.list addr = some (listOf (addr.ip type))
  sound : (contract type).Sound s.mgr
  placed : ∀ i, ∀ c ∈ s.mgr.nodes (some i), listOf c.2.ip = i ∧ c.2.ts.Normal

/-- The nodes of the lists are the records of the map. -/
structure Models (listOf : OctetArray type.addrLen → Fin size) (s : Store type size)
    (m : RecordMap type.addrLen) : Prop extends Valid listOf s where
  records : ∀ ip, m.records ip = (contract type).contents s.mgr (listOf ip) (ipKey ip)
  spare : m.spare = (s.mgr.nodes none).length

variable {listOf : OctetArray type.addrLen → Fin size} {s : Store type size}
  {m : RecordMap type.addrLen}

theorem Models.mem_records (H : Models listOf s m) {ip : OctetArray type.addrLen} {r : Record} :
    m.records ip = some r ↔ ∃ c ∈ s.mgr.nodes (some (listOf ip)), c.2.ip = ip ∧ c.2.record = r := by
  rw [H.records, ListMgr.Contract.contents, ListMgr.Contract.get, (H.sound.sorted (listOf ip)).get_eq_some]
  simp only [storeContract, ipKey_inj]

/-- The addresses with a property are counted list by list. -/
theorem Models.ncard_having (H : Models listOf s m) (P : Record → Prop) [DecidablePred P] :
    (m.having P).ncard = ∑ i, (s.mgr.nodes (some i)).countP fun c => P c.2.record := by
  classical
  let found (i : Fin size) : Finset (OctetArray type.addrLen) :=
    (((s.mgr.nodes (some i)).filter fun c => P c.2.record).map fun c => c.2.ip).toFinset
  have hunion : m.having P = ↑(Finset.univ.biUnion found) := by
    ext ip
    simp only [RecordMap.having, Set.mem_ofPred_eq, Finset.coe_biUnion, Set.mem_iUnion, found,
      H.mem_records, List.coe_toFinset, List.mem_map, List.mem_filter, decide_eq_true_eq]
    constructor
    · rintro ⟨r, ⟨c, hc, hip, rfl⟩, hP⟩
      exact ⟨listOf ip, by simp, c, ⟨hc, hP⟩, hip⟩
    · rintro ⟨i, -, c, ⟨hc, hP⟩, rfl⟩
      rw [(H.placed i c hc).1]
      exact ⟨_, ⟨c, hc, rfl, rfl⟩, hP⟩
  have hdisjoint : ∀ i ∈ Finset.univ, ∀ j ∈ Finset.univ, i ≠ j → Disjoint (found i) (found j) := by
    intro i _ j _ hij
    rw [Finset.disjoint_left]
    intro ip hi hj
    simp only [found, List.mem_toFinset, List.mem_map, List.mem_filter] at hi hj
    obtain ⟨c, ⟨hc, -⟩, rfl⟩ := hi
    obtain ⟨c', ⟨hc', -⟩, hip⟩ := hj
    have hplace := (H.placed j c' hc').1
    rw [hip, (H.placed i c hc).1] at hplace
    exact hij hplace
  rw [hunion, Set.ncard_coe_finset, Finset.card_biUnion hdisjoint]
  refine Finset.sum_congr rfl fun i _ => ?_
  have hsorted := (H.sound.sorted i).filter fun c => decide (P c.2.record)
  have hnodup : (((s.mgr.nodes (some i)).filter fun c => P c.2.record).map fun c => c.2.ip).Nodup := by
    refine List.pairwise_map.mpr (hsorted.imp fun {a b} hlt heq => ?_)
    simp only [storeContract, heq, lt_self_iff_false] at hlt
  rw [List.toFinset_card_of_nodup hnodup, List.length_map, List.countP_eq_length_filter]

theorem Models.set (H : Models listOf s m) {mgr' : ListMgr (Fin size) (NodeIPData type.addrLen)}
    {ip : OctetArray type.addrLen} {r : Record} {spare' : ℕ} (hsound : (contract type).Sound mgr')
    (hstored : (contract type).Stored s.mgr (listOf ip) (ipKey ip) r mgr') (hr : r.ts.Normal)
    (hspare : spare' = (mgr'.nodes none).length) :
    Models listOf { s with mgr := mgr' } ⟨Function.update m.records ip (some r), spare'⟩ := by
  refine ⟨⟨H.list, hsound, fun i c hc => ?_⟩, fun ip' => ?_, hspare⟩
  · by_cases hi : i = listOf ip
    · subst hi
      by_cases hip : c.2.ip = ip
      · have hget : (contract type).contents mgr' (listOf ip) (ipKey c.2.ip) = some c.2.record :=
          (hsound.sorted (listOf ip)).get_of_mem hc
        rw [hip, hstored.contents, Function.update_self] at hget
        rw [Option.some.inj hget] at hr
        exact ⟨by rw [hip], hr⟩
      · have hkey : (contract type).key c.2 ≠ ipKey ip := fun h => hip (ipKey_inj.mp h)
        exact H.placed _ c ((hstored.rest c hkey).mp hc)
    · rw [hstored.others i hi] at hc
      exact H.placed i c hc
  · change Function.update m.records ip (some r) ip' = _
    by_cases hi : listOf ip' = listOf ip
    · rw [hi, hstored.contents]
      by_cases hip : ip' = ip
      · rw [hip, Function.update_self, Function.update_self]
      · rw [Function.update_of_ne hip, Function.update_of_ne fun h => hip (ipKey_inj.mp h), H.records, hi]
    · have hip : ip' ≠ ip := fun h => hi (by rw [h])
      rw [Function.update_of_ne hip, H.records, ListMgr.Contract.contents, ListMgr.Contract.contents,
        hstored.others _ hi]

theorem Valid.update_updated (H : Valid listOf s) {addr : SockAddr} (haddr : addr.IsType type)
    (ts : Timespec) (sID : BitVec 16) (now : ℤ) {fresh : Option Ptr} (hfresh : s.mgr.Unused fresh) :
    ∃ done mgr' L', s.update addr ts sID now fresh = some (done, { s with mgr := mgr' }) ∧
      ListMgr.Shape mgr' L' ∧ (contract type).Sound mgr' ∧
      ListMgr.Updated (storeCallbacks _) (blankNode _) (listOf (addr.ip type))
        (updateCookie ts sID (addr.ip type) now) fresh s.mgr.nodes done L' ∧
      (done = false → mgr' = s.mgr) := by
  obtain ⟨done, mgr', L', hcall, H', hmtx, hupdated, hsame⟩ :=
    ListMgr.updateNode_updates (storeCallbacks _) (blankNode _) (listOf (addr.ip type))
      (updateCookie ts sID (addr.ip type) now) H.sound.shape H.sound.released hfresh
  refine ⟨done, mgr', L', ?_, H', ?_, hupdated, hsame⟩
  · simp only [update, SockAddr.getIP_eq haddr, H.list addr haddr, hcall, Option.bind_eq_bind,
      Option.bind_some]
  · exact (contract type).sound H' ((contract type).updated_sorted hupdated H.sound.sorted) hmtx

theorem Models.update_call (H : Models listOf s m) {addr : SockAddr} (haddr : addr.IsType type)
    {ts : Timespec} (hts : ts.Normal) (sID : BitVec 16) (now : ℤ) {fresh : Option Ptr}
    (hfresh : s.mgr.Unused fresh) :
    ∃ s', s.update addr ts sID now fresh =
        some ((m.update (addr.ip type) ⟨ts, sID, now⟩ fresh.isSome).1, s') ∧
      Models listOf s' (m.update (addr.ip type) ⟨ts, sID, now⟩ fresh.isSome).2 := by
  obtain ⟨done, mgr', L', hresult, H', hsound', hupdated, hsame⟩ :=
    H.update_updated haddr ts sID now hfresh
  rw [hresult]
  have hset (hdone : done = true) {spare' : ℕ} (hspare : spare' = (L' none).length) :
      Models listOf { s with mgr := mgr' }
        ⟨Function.update m.records (addr.ip type) (some ⟨ts, sID, now⟩), spare'⟩ := by
    subst hdone
    refine H.set hsound' ((contract type).updated_stored hupdated rfl H'.nodes_eq) hts ?_
    rw [hspare, H'.nodes_eq]
  have hrecords := H.records (addr.ip type)
  rcases (contract type).updated_spare hupdated H.sound.sorted with
    ⟨hpresent, hdone, hfree⟩ | ⟨habsent, ⟨hdone, c, hfree⟩ | ⟨hempty, hfree, hdone⟩⟩
  · have hfound : (m.records (addr.ip type)).isSome := by
      rw [hrecords]
      exact hpresent
    simp only [RecordMap.update, hfound, if_true, hdone]
    refine ⟨_, rfl, hset hdone ?_⟩
    rw [H.spare, hfree]
  · have hnone : m.records (addr.ip type) = none := by
      rw [hrecords]
      exact habsent
    have hspare : m.spare = (L' none).length + 1 := by rw [H.spare, hfree, List.length_cons]
    have hpos : 0 < m.spare := by omega
    simp only [RecordMap.update, hnone, Option.isSome_none, Bool.false_eq_true, if_false, hpos, if_true,
      hdone]
    refine ⟨_, rfl, hset hdone ?_⟩
    omega
  · have hnone : m.records (addr.ip type) = none := by
      rw [hrecords]
      exact habsent
    have hspare : m.spare = 0 := by rw [H.spare, hempty, List.length_nil]
    simp only [RecordMap.update, hnone, Option.isSome_none, Bool.false_eq_true, if_false, hspare,
      Nat.lt_irrefl, hdone]
    cases hroom : fresh.isSome with
    | true =>
      refine ⟨_, rfl, hset (hdone.trans hroom) ?_⟩
      rw [hfree, List.length_nil]
    | false =>
      refine ⟨_, rfl, ?_⟩
      rw [hsame (hdone.trans hroom)]
      exact H

/-- The locked part of a fetch finds the node of the address. -/
theorem Valid.lookUp_eq (H : Valid listOf s) {addr : SockAddr} (haddr : addr.IsType type)
    (sID : BitVec 16) : ∃ node, s.lookUp addr sID = some (node, s) ∧
      match node with
      | none => (contract type).contents s.mgr (listOf (addr.ip type)) (ipKey (addr.ip type)) = none
      | some d => ∃ data, (d, data) ∈ s.mgr.nodes (some (listOf (addr.ip type))) ∧
          data.ip = addr.ip type := by
  obtain ⟨node, hcall, hpresent, hnode⟩ := (contract type).fetchNode_does H.sound
    (listOf (addr.ip type)) (fetchCookie sID (addr.ip type))
  refine ⟨node, ?_, ?_⟩
  · simp only [lookUp, SockAddr.getIP_eq haddr, H.list addr haddr, hcall, Option.bind_eq_bind,
      Option.bind_some]
  · cases node with
    | none =>
      refine Option.not_isSome_iff_eq_none.mp fun h => ?_
      simpa using hpresent.mpr h
    | some d =>
      obtain ⟨data, hmem, hkey⟩ := hnode d rfl
      exact ⟨data, hmem, ipKey_inj.mp hkey⟩

theorem Models.fetch_call (H : Models listOf s m) {addr : SockAddr} (haddr : addr.IsType type)
    (ts : Timespec) (sID : BitVec 16) (clear : Bool) :
    ∃ s', s.fetch addr ts sID clear = some ((m.fetch (addr.ip type) ts sID clear).1, s') ∧
      Models listOf s' (m.fetch (addr.ip type) ts sID clear).2 := by
  obtain ⟨node, hlookUp, hnode⟩ := H.lookUp_eq haddr sID
  simp only [fetch, hlookUp, Option.bind_eq_bind, Option.bind_some]
  cases node with
  | none =>
    have hnone : m.records (addr.ip type) = none := (H.records _).trans hnode
    simp only [RecordMap.fetch, hnone]
    exact ⟨_, rfl, H⟩
  | some d =>
    obtain ⟨data, hmem, hip⟩ := hnode
    have hrecord : m.records (addr.ip type) = some data.record :=
      H.mem_records.mpr ⟨_, hmem, hip, rfl⟩
    have hnormal := (H.placed _ _ hmem).2
    have hkey : (contract type).key { data with ts := ⟨0, 0⟩ } = (contract type).key data := rfl
    obtain ⟨nxt, hcell, hsound', hstored, hfree⟩ := (contract type).rewrite_stored H.sound hmem hkey
    have hid : data.record.sequenceId = data.sequenceId := rfl
    simp only [RecordMap.fetch, hrecord, ListMgr.readSequenceId, hcell, Option.map_some, Option.bind_some,
      hid]
    by_cases hsID : data.sequenceId = sID
    · subst hsID
      simp only [ne_eq, not_true_eq_false, if_false, ListMgr.readTs, hcell, Option.map_some,
        Option.bind_some, Timespec.fromTimespec_of_normal hnormal]
      cases clear with
      | false => exact ⟨_, rfl, H⟩
      | true =>
        simp only [ListMgr.clearTs, hcell, Option.bind_eq_bind, Option.bind_some, if_true]
        have hzero : (⟨0, 0⟩ : Timespec).Normal := by decide
        refine ⟨_, rfl, H.set hsound' ?_ hzero ?_⟩
        · rw [← congrArg ipKey hip]
          exact hstored
        · rw [H.spare, hfree]
    · simp only [ne_eq, hsID, not_false_eq_true, if_true]
      exact ⟨_, rfl, H⟩

theorem cleans_eq {n : ℕ} (cookie : Cookie n) (c : Ptr × NodeIPData n) :
    (storeCallbacks n).cleans cookie c = decide (RecordMap.Old cookie.last c.2.record) := by
  simp only [ListMgr.Callbacks.cleans, storeCallbacks]
  by_cases h : c.2.last < cookie.last <;> simp [RecordMap.Old, NodeIPData.record, h]

theorem cleanupLoop_spec (cookie : Cookie type.addrLen) {l : List (Fin size)} (hl : l.Nodup)
    {mgr : ListMgr (Fin size) (NodeIPData type.addrLen)} (hsound : (contract type).Sound mgr)
    (count : ℕ) :
    ∃ sum mgr', cleanupLoop cookie l count mgr = some (count + sum, mgr') ∧
      (contract type).Sound mgr' ∧
      sum = (l.map fun i => (mgr.nodes (some i)).countP ((storeCallbacks _).cleans cookie)).sum ∧
      (∀ i, mgr'.nodes (some i) =
        if i ∈ l then (mgr.nodes (some i)).filter fun c => !(storeCallbacks _).cleans cookie c
        else mgr.nodes (some i)) ∧
      (mgr'.nodes none).length = (mgr.nodes none).length + sum := by
  induction l generalizing mgr count with
  | nil => exact ⟨0, mgr, rfl, hsound, rfl, by simp, rfl⟩
  | cons i l ih =>
    obtain ⟨hi, hl⟩ := List.nodup_cons.mp hl
    obtain ⟨cnt, mgr₁, hcall, hsound₁, hkept, hcount, hothers, hspare⟩ :=
      (contract type).cleanUpNodes_does hsound i cookie
    obtain ⟨sum, mgr₂, hloop, hsound₂, hsum, hlists, hspare₂⟩ := ih hl hsound₁ (count + cnt)
    refine ⟨cnt + sum, mgr₂, ?_, hsound₂, ?_, fun j => ?_, ?_⟩
    · simp only [cleanupLoop, hcall, Option.bind_eq_bind, Option.bind_some, hloop, Nat.add_assoc]
    · rw [hsum, hcount, List.map_cons, List.sum_cons]
      congr 2
      refine List.map_congr_left fun j hj => ?_
      have hne : j ≠ i := by
        rintro rfl
        exact hi hj
      rw [hothers j hne]
    · rw [hlists j]
      by_cases hj : j = i
      · subst hj
        simp [hi, hkept]
      · simp [hj, hothers j hj]
    · rw [hspare₂, hspare rfl, Nat.add_assoc]

theorem Models.cleanup_call (H : Models listOf s m) (timeGap : BitVec 32) (now : ℤ) :
    ∃ s', s.cleanup timeGap now = some ((m.cleanup (now - timeGap.toNat)).1, s') ∧
      Models listOf s' (m.cleanup (now - timeGap.toNat)).2 := by
  obtain ⟨sum, mgr', hloop, hsound', hsum, hlists, hspare⟩ :=
    cleanupLoop_spec (cleanupCookie timeGap now) (List.nodup_finRange size) H.sound 0
  have hcleans : (storeCallbacks type.addrLen).cleans (cleanupCookie timeGap now) =
      fun c => decide (RecordMap.Old (now - timeGap.toNat) c.2.record) := funext (cleans_eq _)
  have hcount : (m.cleanup (now - timeGap.toNat)).1 = sum := by
    rw [hsum, hcleans]
    exact (H.ncard_having _).trans (Fin.sum_univ_def _)
  have hfilter (i : Fin size) : mgr'.nodes (some i) =
      (s.mgr.nodes (some i)).filter fun c => !decide (RecordMap.Old (now - timeGap.toNat) c.2.record) := by
    rw [hlists i, if_pos (List.mem_finRange i), hcleans]
  refine ⟨{ s with mgr := mgr' }, ?_, ⟨H.list, hsound', fun i c hc => ?_⟩, fun ip => ?_, ?_⟩
  · rw [hcount]
    simp only [cleanup, hloop, Option.bind_eq_bind, Option.bind_some, Nat.zero_add]
  · rw [hfilter] at hc
    exact H.placed i c (List.mem_filter.mp hc).1
  · have hsorted := H.sound.sorted (listOf ip)
    have hget : (contract type).get (mgr'.nodes (some (listOf ip))) (ipKey ip) =
        ((contract type).contents s.mgr (listOf ip) (ipKey ip)).filter
          fun r => !decide (RecordMap.Old (now - timeGap.toNat) r) := by
      rw [hfilter]
      exact @Keyed.Sorted.get_filter _ _ _ _ (fun c => c.2.record) _ _ hsorted
        (fun r => !decide (RecordMap.Old (now - timeGap.toNat) r)) _
    rw [ListMgr.Contract.contents, hget, ← H.records]
    simp only [RecordMap.cleanup, decide_not]
  · rw [hspare, ← H.spare, ← hcount]
    rfl

theorem Models.records_call (H : Models listOf s m) :
    s.records = some (m.having fun _ => True).ncard := by
  rw [H.ncard_having, Store.records, ListMgr.getUsedNodes]
  simp [ListMgr.mlock, H.sound.released, ListMgr.munlock, H.sound.shape.used, ListMgr.total]

/-! ## Runs -/

/-- A call that is allowed returns what the map returns, and leaves a store of the map behind. -/
theorem Models.call_eq (H : Models listOf s m) {c : StoreCall} (hc : s.Allowed c) :
    ∃ s', s.call c = some ((m.call (c.onMap type)).1, s') ∧
      Models listOf s' (m.call (c.onMap type)).2 := by
  cases c with
  | update addr ts sID now fresh =>
    obtain ⟨s', hcall, H'⟩ := H.update_call hc.1 hc.2.1 sID now hc.2.2
    exact ⟨s', by simp [call, hcall, RecordMap.call, StoreCall.onMap], H'⟩
  | fetch addr ts sID clear =>
    obtain ⟨s', hcall, H'⟩ := H.fetch_call hc ts sID clear
    exact ⟨s', by simp [call, hcall, RecordMap.call, StoreCall.onMap], H'⟩
  | cleanup timeGap now =>
    obtain ⟨s', hcall, H'⟩ := H.cleanup_call timeGap now
    exact ⟨s', by simp [call, hcall, RecordMap.call, StoreCall.onMap], H'⟩
  | records => exact ⟨s, by simp [call, H.records_call, RecordMap.call, StoreCall.onMap], H⟩

theorem storeAlloc_mgr {bits : ℕ} {s : Store type (1 <<< bits)} (hbits : bits ≤ 30)
    (hs : storeAlloc type bits = some s) : s.mgr = ListMgr.alloc := by
  obtain ⟨hash, -, hs⟩ := Option.bind_eq_some_iff.mp hs
  rw [if_neg (by omega)] at hs
  rw [← Option.some.inj hs]

theorem nodes_alloc {ι δ : Type} (k : Option ι) : (ListMgr.alloc : ListMgr ι δ).nodes k = [] := by
  cases k <;> rfl

theorem models_alloc {bits : ℕ} {s : Store type (1 <<< bits)} (hbits : bits ≤ 30)
    (hs : storeAlloc type bits = some s) : ∃ listOf, Models listOf s RecordMap.empty := by
  obtain ⟨listOf, hlist⟩ := storeAlloc_list hbits hs
  have hmgr := storeAlloc_mgr hbits hs
  have hsound : (contract type).Sound s.mgr := by
    rw [hmgr]
    exact (contract type).sound_alloc
  have hnodes (k : Option (Fin (1 <<< bits))) : s.mgr.nodes k = [] := by
    rw [hmgr]
    exact nodes_alloc k
  refine ⟨listOf, ⟨hlist, hsound, fun i c hc => ?_⟩, fun ip => ?_, ?_⟩
  · simp [hnodes] at hc
  · simp [ListMgr.Contract.contents, hnodes]
    rfl
  · simp [hnodes, RecordMap.empty]

end Store

section Runs
variable {type : Prot} {bits : ℕ}

/-- Calls of a new store, with what they return. -/
def StoreRun (type : Prot) (bits : ℕ) : List (StoreCall × StoreResult) → Store type (1 <<< bits) → Prop :=
  Run (fun s => storeAlloc type bits = some s)
    fun _ s e s' => s.Allowed e.1 ∧ s.call e.1 = some (e.2, s')

/-- What the map says to the calls of a run. -/
noncomputable def onMap (type : Prot) (past : List (StoreCall × StoreResult)) :
    List StoreResult × RecordMap type.addrLen :=
  RecordMap.empty.calls (past.map fun e => e.1.onMap type)

theorem StoreRun.models (hbits : bits ≤ 30) {past : List (StoreCall × StoreResult)}
    {s : Store type (1 <<< bits)} (h : StoreRun type bits past s) :
    past.map Prod.snd = (onMap type past).1 ∧ ∃ listOf, s.Models listOf (onMap type past).2 := by
  induction h with
  | start hs => exact ⟨rfl, Store.models_alloc hbits hs⟩
  | @step past s s' e hrun hstep ih =>
    obtain ⟨hresults, listOf, H⟩ := ih
    obtain ⟨hallowed, hcall⟩ := hstep
    obtain ⟨s'', hcall', H'⟩ := H.call_eq hallowed
    obtain ⟨hresult, rfl⟩ := Prod.mk.inj (Option.some.inj (hcall.symm.trans hcall'))
    have honMap : onMap type (past ++ [e]) =
        ((onMap type past).1 ++ [((onMap type past).2.call (e.1.onMap type)).1],
          ((onMap type past).2.call (e.1.onMap type)).2) := by
      rw [onMap, List.map_append]
      exact RecordMap.calls_concat _ _ _
    rw [honMap]
    refine ⟨?_, listOf, H'⟩
    rw [List.map_append, hresults, List.map_singleton, hresult]

/-- A store answers every sequence of calls like the map, the next call returns, and a store with any
number of lists answers the same calls in the same way. -/
theorem store_is_map (hbits : bits ≤ 30) {past : List (StoreCall × StoreResult)}
    {s : Store type (1 <<< bits)} (h : StoreRun type bits past s) :
    past.map Prod.snd = (onMap type past).1 ∧
      (∀ c, s.Allowed c →
        ∃ s', s.call c = some (((onMap type past).2.call (c.onMap type)).1, s')) ∧
      ∀ bits' past' s', bits' ≤ 30 → StoreRun type bits' past' s' →
        (past'.map fun e => e.1.onMap type) = (past.map fun e => e.1.onMap type) →
          past'.map Prod.snd = past.map Prod.snd := by
  obtain ⟨hresults, listOf, H⟩ := h.models hbits
  refine ⟨hresults, fun c hc => ?_, fun bits' past' s' hbits' h' hcalls => ?_⟩
  · obtain ⟨s', hcall, -⟩ := H.call_eq hc
    exact ⟨s', hcall⟩
  · rw [(h'.models hbits').1, hresults, onMap, onMap, hcalls]

end Runs

section Sample

def sampleStoreAddr (addr : BitVec 32) : SockAddr := .in4 ptpUdpPort addr

/-- Two clients, one of them cleaned up. -/
def sampleStoreCalls : List (StoreCall × StoreResult) :=
  [(.update (sampleStoreAddr 0x0100000a#32) ⟨5, 7⟩ 3 100 (some 10), .updated true),
    (.update (sampleStoreAddr 0x0200000a#32) ⟨6, 8⟩ 4 150 (some 11), .updated true),
    (.fetch (sampleStoreAddr 0x0100000a#32) ⟨1, 1⟩ 3 true, .fetched true ⟨5, 7⟩),
    (.fetch (sampleStoreAddr 0x0100000a#32) ⟨1, 1⟩ 3 false, .fetched true ⟨0, 0⟩),
    (.fetch (sampleStoreAddr 0x0200000a#32) ⟨1, 1⟩ 3 false, .fetched false ⟨1, 1⟩),
    (.cleanup 50#32 160, .cleaned 1), (.records, .counted 1)]

theorem StoreRun.next {type : Prot} {bits : ℕ} {past : List (StoreCall × StoreResult)}
    {s s' : Store type (1 <<< bits)} {c : StoreCall} {r : StoreResult} (h : StoreRun type bits past s)
    (hallowed : s.Allowed c) (hcall : s.call c = some (r, s')) :
    StoreRun type bits (past ++ [(c, r)]) s' := Run.step h ⟨hallowed, hcall⟩

theorem store_is_map_sample : ∃ s, StoreRun .udpIPv4 2 sampleStoreCalls s ∧
    sampleStoreCalls.map Prod.snd = (onMap .udpIPv4 sampleStoreCalls).1 := by
  have h₀ : StoreRun .udpIPv4 2 [] _ := Run.start rfl
  have h₁ := h₀.next (c := .update (sampleStoreAddr 0x0100000a#32) ⟨5, 7⟩ 3 100 (some 10))
    ⟨trivial, by decide, ListMgr.unused_some rfl⟩ rfl
  have h₂ := h₁.next (c := .update (sampleStoreAddr 0x0200000a#32) ⟨6, 8⟩ 4 150 (some 11))
    ⟨trivial, by decide, ListMgr.unused_some rfl⟩ rfl
  have h₃ := h₂.next (c := .fetch (sampleStoreAddr 0x0100000a#32) ⟨1, 1⟩ 3 true) trivial rfl
  have h₄ := h₃.next (c := .fetch (sampleStoreAddr 0x0100000a#32) ⟨1, 1⟩ 3 false) trivial rfl
  have h₅ := h₄.next (c := .fetch (sampleStoreAddr 0x0200000a#32) ⟨1, 1⟩ 3 false) trivial rfl
  have h₆ := h₅.next (c := .cleanup 50#32 160) trivial rfl
  have h₇ := h₆.next (c := .records) trivial rfl
  exact ⟨_, h₇, (store_is_map (by decide) h₇).1⟩

end Sample

end Csptp
