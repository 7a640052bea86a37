import Csptp.List.Concurrent
import Csptp.Store.Refinement

/-! # Fetches among other threads

A fetch gives the mutex away when it has found the node, and then reads the node and clears its timestamp.
In between the clean up can take the node off its list, and an update can store into it. -/
namespace Csptp
open Linked Octets Runs ListMgr
set_option autoImplicit false

/-- A call of `fetch` with the timestamp object of its caller. -/
structure FetchCall where
  addr : SockAddr
  ts : Timespec
  sID : BitVec 16
  clear : Bool

/-- Where a thread is in `_fetch`. -/
inductive Fetching
  | idle
  | found (c : FetchCall) (d : Ptr)
  | matched (c : FetchCall) (d : Ptr)
  | got (c : FetchCall) (d : Ptr) (ts : Timespec)
  | ended (c : FetchCall) (ts : Timespec)

/-- The node that the thread will use without the mutex. -/
def Fetching.node : Fetching → Option Ptr
  | .found _ d | .matched _ d | .got _ d _ => some d
  | .idle | .ended _ _ => none

/-- Where the thread in `_cleanup` is: the lists to do, and the section on the first of them. -/
structure StoreCleaning (type : Prot) (size : ℕ) where
  cookie : Cookie type.addrLen
  lists : List (Fin size)
  cleaner : Cleaner

/-- A store, the threads that fetch, and the one that cleans up. -/
structure Sharing (type : Prot) (size : ℕ) where
  store : Store type size
  fetches : ℕ → Fetching
  cleaning : Option (StoreCleaning type size)

/-- The steps that are seen: an update with the node it stores into, the accesses of a fetch without the
mutex, and a fetch that returns true. -/
inductive StoreEvent (n : ℕ)
  | update (ip : OctetArray n) (sID : BitVec 16) (ts : Timespec) (node : Option Ptr)
  | lookUp (thread : ℕ)
  | readId (thread : ℕ)
  | readTs (thread : ℕ) (c : FetchCall) (d : Ptr) (ts : Timespec)
  | clear (thread : ℕ) (c : FetchCall) (d : Ptr) (data : NodeIPData n)
  | returned (thread : ℕ) (c : FetchCall) (ts : Timespec)
  | cleanup

section Model
variable {type : Prot} {size : ℕ}

def Store.target (s : Store type size) (addr : SockAddr) (cookie : Cookie type.addrLen)
    (fresh : Option Ptr) : Option Ptr := do
  let i ← s.list addr
  ListMgr.target (storeCallbacks _) i cookie fresh s.mgr.nodes

def Sharing.next (x : Sharing type size) (j : ℕ) (phase : Fetching) : Sharing type size :=
  { x with fetches := Function.update x.fetches j phase }

/-- One atomic step of a thread. -/
inductive SharedStep (x : Sharing type size) : StoreEvent type.addrLen → Sharing type size → Prop
  | update {addr : SockAddr} {ts : Timespec} {sID : BitVec 16} {now : ℤ} {fresh : Option Ptr}
      {done : Bool} {s' : Store type size} (haddr : addr.IsType type) (hts : ts.Normal)
      (hfresh : x.store.mgr.Unused fresh) (h : x.store.update addr ts sID now fresh = some (done, s')) :
      SharedStep x (.update (addr.ip type) sID ts
        (x.store.target addr (Store.updateCookie ts sID (addr.ip type) now) fresh)) { x with store := s' }
  | lookUp {j : ℕ} {c : FetchCall} {node : Option Ptr} {s' : Store type size}
      (hphase : x.fetches j = .idle) (haddr : c.addr.IsType type)
      (h : x.store.lookUp c.addr c.sID = some (node, s')) :
      SharedStep x (.lookUp j) (Sharing.next { x with store := s' } j
        (match node with
        | none => .idle
        | some d => .found c d))
  | readId {j : ℕ} {c : FetchCall} {d : Ptr} {sequenceId : BitVec 16} (hphase : x.fetches j = .found c d)
      (h : x.store.mgr.readSequenceId d = some sequenceId) :
      SharedStep x (.readId j) (x.next j (if sequenceId ≠ c.sID then .idle else .matched c d))
  | readTs {j : ℕ} {c : FetchCall} {d : Ptr} {stored : Timespec} (hphase : x.fetches j = .matched c d)
      (h : x.store.mgr.readTs d = some stored) :
      SharedStep x (.readTs j c d (c.ts.fromTimespec stored))
        (x.next j (if c.clear then .got c d (c.ts.fromTimespec stored)
          else .ended c (c.ts.fromTimespec stored)))
  | clear {j : ℕ} {c : FetchCall} {d : Ptr} {ts : Timespec} {node : Node Ptr (NodeIPData type.addrLen)}
      {mgr' : ListMgr (Fin size) (NodeIPData type.addrLen)} (hphase : x.fetches j = .got c d ts)
      (hnode : x.store.mgr.heap d = some node) (h : x.store.mgr.clearTs d = some mgr') :
      SharedStep x (.clear j c d node.data)
        (Sharing.next { x with store := { x.store with mgr := mgr' } } j (.ended c ts))
  | returned {j : ℕ} {c : FetchCall} {ts : Timespec} (hphase : x.fetches j = .ended c ts) :
      SharedStep x (.returned j c ts) (x.next j .idle)
  | cleanupStarts {timeGap : BitVec 32} {now : ℤ} (h : x.cleaning = none) :
      SharedStep x .cleanup
        { x with cleaning := some ⟨Store.cleanupCookie timeGap now, List.finRange size, .head 0⟩ }
  | cleanupSection {cookie : Cookie type.addrLen} {i : Fin size} {l : List (Fin size)}
      {cleaner cleaner' : Cleaner} {cleanup : NodeIPData type.addrLen → Cookie type.addrLen → ℤ}
      {mgr' : ListMgr (Fin size) (NodeIPData type.addrLen)}
      (hcleaning : x.cleaning = some ⟨cookie, i :: l, cleaner⟩)
      (hcleanup : (storeCallbacks type.addrLen).cleanup = some cleanup)
      (hgoing : ∀ cnt, cleaner ≠ .done cnt)
      (h : cleanSection (storeCallbacks _) cleanup i cookie x.store.mgr cleaner = some (cleaner', mgr')) :
      SharedStep x .cleanup
        { x with store := { x.store with mgr := mgr' }, cleaning := some ⟨cookie, i :: l, cleaner'⟩ }
  | cleanupNext {cookie : Cookie type.addrLen} {i : Fin size} {l : List (Fin size)} {cnt : ℕ}
      (hcleaning : x.cleaning = some ⟨cookie, i :: l, .done cnt⟩) :
      SharedStep x .cleanup { x with cleaning := some ⟨cookie, l, .head 0⟩ }
  | cleanupEnds {cookie : Cookie type.addrLen} {cleaner : Cleaner}
      (hcleaning : x.cleaning = some ⟨cookie, [], cleaner⟩) :
      SharedStep x .cleanup { x with cleaning := none }

/-- The runs of a new store, in which the steps meet a condition. -/
abbrev SharedRun (type : Prot) (bits : ℕ) (meets : List (StoreEvent type.addrLen) →
    Sharing type (1 <<< bits) → StoreEvent type.addrLen → Prop) :
    List (StoreEvent type.addrLen) → Sharing type (1 <<< bits) → Prop :=
  Run (fun x => storeAlloc type bits = some x.store ∧ (∀ j, x.fetches j = .idle) ∧ x.cleaning = none)
    fun past x e x' => SharedStep x e x' ∧ meets past x e

end Model

/-! ## What is asked of fetches -/

section Spec
variable {n : ℕ}

/-- The event is an update that stores into the node. -/
def StoreEvent.Sets (d : Ptr) : StoreEvent n → Prop
  | .update _ _ _ node => node = some d
  | _ => False

/-- The event clears the timestamp of the node. -/
def StoreEvent.Clears (d : Ptr) : StoreEvent n → Prop
  | .clear _ _ d' _ => d' = d
  | _ => False

/-- An update stored the timestamp for the address and the sequence number, or the timestamp is zero and
what that update stored was cleared. -/
def StoredBy (past : List (StoreEvent n)) (ip : OctetArray n) (sID : BitVec 16) (ts : Timespec) : Prop :=
  ∃ d before t behind, past = before ++ .update ip sID t (some d) :: behind ∧
    (ts = t ∨ ts = ⟨0, 0⟩ ∧ ∃ kept e rest, behind = kept ++ e :: rest ∧ e.Clears d ∧
      ∀ e' ∈ kept, ¬ e'.Sets d)

end Spec

/-- A thread has read the timestamp of the node, and no update stored into it since. -/
def ReadSince {n : ℕ} (past : List (StoreEvent n)) (j : ℕ) (c : FetchCall) (d : Ptr) : Prop :=
  ∃ before ts behind, past = before ++ .readTs j c d ts :: behind ∧ ∀ e ∈ behind, ¬ e.Sets d

/-- A fetch that returns true has a timestamp that was stored for it, and a fetch clears the node of its
own address, into which no update stored after it read the timestamp. -/
def FetchRight (type : Prot) (past : List (StoreEvent type.addrLen)) : StoreEvent type.addrLen → Prop
  | .returned _ c ts => StoredBy past (c.addr.ip type) c.sID ts
  | .clear j c d data => data.ip = c.addr.ip type ∧ ReadSince past j c d
  | _ => True

/-- When a fetch reads the timestamp, the node still has its address and its sequence number, and no
update stores into a node between the read and the clear of a fetch. -/
def Undisturbed {type : Prot} {size : ℕ} (_ : List (StoreEvent type.addrLen)) (x : Sharing type size) :
    StoreEvent type.addrLen → Prop
  | .readTs _ c d _ => ∀ node, x.store.mgr.heap d = some node →
      node.data.ip = c.addr.ip type ∧ node.data.sequenceId = c.sID
  | .update _ _ _ node => ∀ d, node = some d → ∀ j c ts, x.fetches j ≠ .got c d ts
  | _ => True

/-! ## What a step does to the data of the nodes -/

section Data
variable {n : ℕ} {ι : Type} {e : StoreEvent n} {L L' : Shelf ι (NodeIPData n)}

/-- Nodes keep address and sequence number until an update stores into them, and their timestamps until
an update or a clear; no node goes away. -/
structure DataEffect (e : StoreEvent n) (L L' : Shelf ι (NodeIPData n)) : Prop where
  source : ∀ d data', Held L' d data' →
    (e = .update data'.ip data'.sequenceId data'.ts (some d) ∧ data'.ts.Normal) ∨
      ¬ e.Sets d ∧ ∃ data, Held L d data ∧ data'.ip = data.ip ∧ data'.sequenceId = data.sequenceId ∧
        (data'.ts = data.ts ∨ data'.ts = ⟨0, 0⟩ ∧ e.Clears d)
  kept : ∀ d data, Held L d data → ∃ data', Held L' d data'

theorem DataEffect.of_same (hsets : ∀ d, ¬ e.Sets d)
    (h : ∀ x : Ptr × NodeIPData n, Held L' x.1 x.2 ↔ Held L x.1 x.2) : DataEffect e L L' := by
  constructor
  · intro d data' hheld
    exact .inr ⟨hsets d, data', (h (d, data')).mp hheld, rfl, rfl, .inl rfl⟩
  · intro d data hheld
    exact ⟨data, (h (d, data)).mpr hheld⟩

variable {k k' : Option ι} {pre post : List (Ptr × NodeIPData n)}

theorem mem_rewrite [DecidableEq ι] {x x' c : Ptr × NodeIPData n} (hL : L k = pre ++ x :: post)
    (hc : c ∈ Function.update L k (pre ++ x' :: post) k') : c ∈ L k' ∨ k' = k ∧ c = x' := by
  by_cases hk : k' = k
  · subst hk
    rw [Function.update_self, List.mem_append, List.mem_cons] at hc
    rw [hL, List.mem_append, List.mem_cons]
    tauto
  · rw [Function.update_of_ne hk] at hc
    exact .inl hc

theorem zero_normal : Timespec.Normal ⟨0, 0⟩ := ⟨le_rfl, by decide⟩

theorem DataEffect.of_clear [DecidableEq ι] {j : ℕ} {c : FetchCall} {d : Ptr} {data : NodeIPData n}
    (hL : L k = pre ++ (d, data) :: post) : DataEffect (.clear j c d data) L
      (Function.update L k (pre ++ (d, { data with ts := ⟨0, 0⟩ }) :: post)) := by
  have hk : (d, data) ∈ L k := by simp [hL]
  constructor
  · rintro d' data' ⟨k', hk'⟩
    refine .inr ⟨fun hsets => hsets, ?_⟩
    rcases mem_rewrite hL hk' with hold | ⟨-, heq⟩
    · exact ⟨data', ⟨k', hold⟩, rfl, rfl, .inl rfl⟩
    · obtain ⟨rfl, rfl⟩ := Prod.mk.inj heq
      exact ⟨data, ⟨k, hk⟩, rfl, rfl, .inr ⟨rfl, rfl⟩⟩
  · rintro d' data' ⟨k', hk'⟩
    have hback : Function.update (Function.update L k (pre ++ (d, { data with ts := ⟨0, 0⟩ }) :: post)) k
        (pre ++ (d, data) :: post) = L := by
      rw [Function.update_idem, ← hL, Function.update_eq_self]
    rw [← hback] at hk'
    rcases mem_rewrite (Function.update_self ..) hk' with hnew | ⟨-, heq⟩
    · exact ⟨data', k', hnew⟩
    · obtain ⟨rfl, rfl⟩ := Prod.mk.inj heq
      exact ⟨{ data' with ts := ⟨0, 0⟩ }, k, by simp⟩

end Data

namespace Store
variable {type : Prot} {size : ℕ} {listOf : OctetArray type.addrLen → Fin size} {s : Store type size}

theorem Valid.models (H : Valid listOf s) : Models listOf s
    ⟨fun ip => (contract type).contents s.mgr (listOf ip) (ipKey ip), (s.mgr.nodes none).length⟩ :=
  ⟨H, fun _ => rfl, rfl⟩

theorem Valid.update_data (H : Valid listOf s) {addr : SockAddr} (haddr : addr.IsType type)
    {ts : Timespec} (hts : ts.Normal) {sID : BitVec 16} {now : ℤ} {fresh : Option Ptr}
    (hfresh : s.mgr.Unused fresh) {done : Bool} {s' : Store type size}
    (h : s.update addr ts sID now fresh = some (done, s')) :
    Valid listOf s' ∧
      DataEffect (.update (addr.ip type) sID ts
        (s.target addr (updateCookie ts sID (addr.ip type) now) fresh)) s.mgr.nodes s'.mgr.nodes ∧
      ∀ i, List.Sublist (addrs (s.mgr.nodes (some i))) (addrs (s'.mgr.nodes (some i))) := by
  obtain ⟨done', mgr', L', hcall, H', hsound', hupdated, hsame⟩ :=
    H.update_updated haddr ts sID now hfresh
  obtain ⟨rfl, rfl⟩ := Prod.mk.inj (Option.some.inj (h.symm.trans hcall))
  have hnodes : mgr'.nodes = L' := H'.nodes_eq
  refine ⟨?_, ?_, fun i => ?_⟩
  · obtain ⟨s'', hcall', hmodels⟩ := H.models.update_call haddr hts sID now hfresh
    obtain ⟨-, rfl⟩ := Prod.mk.inj (Option.some.inj (hcall.symm.trans hcall'))
    exact hmodels.toValid
  · have htarget : s.target addr (updateCookie ts sID (addr.ip type) now) fresh =
        ListMgr.target (storeCallbacks _) (listOf (addr.ip type))
          (updateCookie ts sID (addr.ip type) now) fresh s.mgr.nodes := by
      simp [Store.target, H.list addr haddr]
    rw [htarget]
    change DataEffect _ s.mgr.nodes mgr'.nodes
    cases done with
    | false =>
      have hmgr : mgr' = s.mgr := hsame rfl
      rw [hupdated.target_eq_none, hmgr]
      exact .of_same (fun d hsets => by cases hsets) fun _ => Iff.rfl
    | true =>
      obtain ⟨node, data, hnode, hmem, hothers⟩ := hupdated.stores
      rw [hnode]
      rw [← hnodes] at hmem hothers
      constructor
      · rintro d data' ⟨k, hk⟩
        by_cases hd : d = node
        · subst hd
          obtain rfl := hsound'.shape.chains.data_unique hk hmem
          exact .inl ⟨rfl, hts⟩
        · refine .inr ⟨fun hsets => hd (Option.some.inj hsets).symm, data', ⟨k, ?_⟩, rfl, rfl, .inl rfl⟩
          exact (hothers (d, data') hd k).mp hk
      · rintro d data' ⟨k, hk⟩
        by_cases hd : d = node
        · subst hd
          exact ⟨_, _, hmem⟩
        · exact ⟨data', k, (hothers (d, data') hd k).mpr hk⟩
  · rw [← hnodes] at hupdated
    exact hupdated.sublist i

/-- A fetch writes the timestamp of a node, wherever the node is. -/
theorem Valid.clear_data (H : Valid listOf s) {d : Ptr} {data : NodeIPData type.addrLen}
    (hheld : Held s.mgr.nodes d data) {mgr' : ListMgr (Fin size) (NodeIPData type.addrLen)}
    (h : s.mgr.clearTs d = some mgr') (j : ℕ) (c : FetchCall) :
    Valid listOf { s with mgr := mgr' } ∧ DataEffect (.clear j c d data) s.mgr.nodes mgr'.nodes ∧
      ∀ k, addrs (mgr'.nodes k) = addrs (s.mgr.nodes k) := by
  obtain ⟨k, hk⟩ := hheld
  obtain ⟨pre, post, hL⟩ := List.append_of_mem hk
  have hcell := H.sound.shape.chains.node hL
  have H' := H.sound.shape.rewrite { data with ts := ⟨0, 0⟩ } hL
  have hmgr := h
  simp only [ListMgr.clearTs, hcell, Option.bind_eq_bind, Option.bind_some] at hmgr
  rw [Option.some.inj hmgr] at H'
  have hnodes := H'.nodes_eq
  refine ⟨⟨H.list, (contract type).sound H' ?_ ?_, fun i c hc => ?_⟩, ?_, fun k' => ?_⟩
  · intro i
    have hold := H.sound.sorted i
    by_cases hi : some i = k
    · subst hi
      rw [hL] at hold
      rw [Function.update_self]
      exact hold.replace rfl
    · rwa [Function.update_of_ne hi]
  · rw [← Option.some.inj hmgr]
    exact H.sound.released
  · rw [hnodes] at hc
    rcases mem_rewrite hL hc with hold | ⟨hi, rfl⟩
    · exact H.placed i c hold
    · subst hi
      exact ⟨(H.placed i _ hk).1, zero_normal⟩
  · rw [hnodes]
    exact .of_clear hL
  · rw [hnodes]
    by_cases hk' : k' = k
    · subst hk'
      rw [Function.update_self, hL, addrs_append, addrs_append, addrs_cons, addrs_cons]
    · rw [Function.update_of_ne hk']

/-- A section of the clean up moves nodes with their data. -/
theorem Valid.clean_data (H : Valid listOf s) {i : Fin size} {cookie : Cookie type.addrLen}
    {cleanup : NodeIPData type.addrLen → Cookie type.addrLen → ℤ} {cleaner cleaner' : Cleaner}
    {mgr' : ListMgr (Fin size) (NodeIPData type.addrLen)}
    (hcleanup : (storeCallbacks type.addrLen).cleanup = some cleanup)
    (hplaced : Placed i s.mgr.nodes cleaner) (hgoing : ∀ cnt, cleaner ≠ .done cnt)
    (h : cleanSection (storeCallbacks _) cleanup i cookie s.mgr cleaner = some (cleaner', mgr')) :
    Valid listOf { s with mgr := mgr' } ∧ DataEffect .cleanup s.mgr.nodes mgr'.nodes ∧
      Placed i mgr'.nodes cleaner' := by
  obtain ⟨cleaner₁, mgr₁, L', hsection, H', hmtx, hcleaned⟩ :=
    cleanSection_cleaned (storeCallbacks _) cleanup cookie H.sound.shape H.sound.released hplaced hgoing
  obtain ⟨rfl, rfl⟩ := Prod.mk.inj (Option.some.inj (h.symm.trans hsection))
  have heffect := hcleaned.effect hcleanup
  have hsorted := (contract type).effect_sorted heffect H.sound.sorted
  have hnodes := H'.nodes_eq
  refine ⟨⟨H.list, (contract type).sound H' hsorted hmtx, fun i' c hc => ?_⟩, ?_, ?_⟩
  · rw [hnodes] at hc
    exact H.placed i' c (heffect.subset i' hc)
  · rw [hnodes]
    exact .of_same (fun d hsets => hsets) (hcleaned.held_iff rfl)
  · rw [hnodes]
    exact hcleaned.placed

end Store

end Csptp
