import Csptp.List.Manager
import Mathlib.Algebra.Order.BigOperators.Group.Finset

/-! # The lists of a manager as a family of chains

The lists and the free list share no node. A node that a call has taken off one of them is held outside
until it is linked into another. -/
namespace Csptp
open Linked
set_option autoImplicit false

namespace ListMgr
variable {ι δ γ : Type}

/-- The nodes of the lists, and under `none` those of the free list. -/
abbrev Shelf (ι δ : Type) := Option ι → List (Ptr × δ)

def heads (s : ListMgr ι δ) : Option ι → Option Ptr
  | none => s.freeList
  | some list => s.lists list

variable {s s' : ListMgr ι δ} {L L' : Shelf ι δ}

/-- Where a new node comes from. -/
inductive Taken [DecidableEq ι] (blank : δ) (L : Shelf ι δ) (fresh : Option Ptr) :
    Ptr → δ → Shelf ι δ → Prop
  | reused {node : Ptr} {data : δ} {rest : List (Ptr × δ)} (h : L none = (node, data) :: rest) :
      Taken blank L fresh node data (Function.update L none rest)
  | allocated {node : Ptr} (h : L none = []) (hfresh : fresh = some node) :
      Taken blank L fresh node blank L

theorem Taken.same [DecidableEq ι] {blank data : δ} {fresh : Option Ptr} {node : Ptr}
    (h : Taken blank L fresh node data L') (list : ι) : L' (some list) = L (some list) := by
  cases h with
  | reused h => simp
  | allocated h hfresh => rfl

/-- What becomes of a node that has left its list; only `release` changes its data. -/
inductive Freed [DecidableEq ι] (cb : Callbacks δ γ) (L : Shelf ι δ) (node : Ptr) (data : δ) :
    Shelf ι δ → Prop
  | kept (data' : δ) (h : cb.release = none → data' = data) :
      Freed cb L node data (Function.update L none ((node, data') :: L none))
  | released (h : cb.release ≠ none) : Freed cb L node data L

theorem Freed.same [DecidableEq ι] {cb : Callbacks δ γ} {node : Ptr} {data : δ}
    (h : Freed cb L node data L') (list : ι) : L' (some list) = L (some list) := by
  cases h with
  | kept data' h => simp
  | released h => rfl

theorem setNxt_eq {node : Ptr} {x : Option Ptr} {d : δ} (h : s.heap node = some ⟨x, d⟩)
    (nxt : Option Ptr) :
    s.setNxt node nxt = some { s with heap := Function.update s.heap node (some ⟨nxt, d⟩) } := by
  simp [setNxt, h]

theorem callSet_eq (cb : Callbacks δ γ) {node : Ptr} {nxt : Option Ptr} {d : δ}
    (h : s.heap node = some ⟨nxt, d⟩) (cookie : γ) : s.callSet cb node cookie =
      some { s with heap := Function.update s.heap node (some ⟨nxt, cb.set d cookie⟩) } := by
  simp [callSet, h]

theorem callCmp_eq (cb : Callbacks δ γ) {node : Ptr} {nxt : Option Ptr} {d : δ}
    (h : s.heap node = some ⟨nxt, d⟩) (cookie : γ) :
    s.callCmp cb node cookie = some (cb.cmp d cookie) := by
  simp [callCmp, h]

/-- What the search of a list finds. -/
def lookUp (cb : Callbacks δ γ) (cookie : γ) : List (Ptr × δ) → Option (Ptr × δ)
  | [] => none
  | c :: l =>
    if cb.cmp c.2 cookie = 0 then some c
    else if cb.cmp c.2 cookie < 0 then none
    else lookUp cb cookie l

theorem fetchLoop_eq (cb : Callbacks δ γ) (cookie : γ) {l : List (Ptr × δ)}
    (hl : Segment s.heap l none) {n : ℕ} (hn : l.length < n) :
    fetchLoop cb cookie s n (entry l none) = some ((lookUp cb cookie l).map Prod.fst) := by
  induction l generalizing n with
  | nil =>
    obtain ⟨n, rfl⟩ := Nat.exists_eq_succ_of_ne_zero hn.ne'
    rfl
  | cons c l ih =>
    obtain ⟨n, rfl⟩ := Nat.exists_eq_succ_of_ne_zero (Nat.ne_zero_of_lt hn)
    simp only [entry_cons, fetchLoop, hl.1, Option.bind_eq_bind, Option.bind_some, lookUp]
    rw [ih hl.2 (Nat.lt_of_succ_lt_succ hn)]
    split_ifs <;> rfl

section Shape
variable [Fintype ι]

def total (L : Shelf ι δ) : ℕ := ∑ list, (L (some list)).length

structure Shape (s : ListMgr ι δ) (L : Shelf ι δ) : Prop where
  chains : Chains s.heap s.heads L
  used : s.count = total L
  free : s.freeCount = (L none).length

/-- The manager has a node that is on no list; it is counted as used. -/
structure Holding (s : ListMgr ι δ) (L : Shelf ι δ) (node : Ptr) (nxt : Option Ptr) (data : δ) :
    Prop where
  chains : Chains s.heap s.heads L
  outside : Outside L node
  cell : s.heap node = some ⟨nxt, data⟩
  used : s.count = total L + 1
  free : s.freeCount = (L none).length

theorem length_le_total (L : Shelf ι δ) (list : ι) : (L (some list)).length ≤ total L :=
  Finset.single_le_sum (f := fun i => (L (some i)).length) (fun _ _ => Nat.zero_le _)
    (Finset.mem_univ list)

theorem getFreeNode_none (H : Shape s L) (blank : δ) (nxt : Option Ptr) (hL : L none = []) :
    s.getFreeNode blank nxt none = some (none, s) := by
  have hhead : s.freeList = none := by
    have h := H.chains.head none
    rwa [hL] at h
  simp [getFreeNode, hhead]

theorem Holding.callSet {node : Ptr} {nxt : Option Ptr} {data : δ} (H : Holding s L node nxt data)
    (cb : Callbacks δ γ) (cookie : γ) :
    ∃ s', s.callSet cb node cookie = some s' ∧ Holding s' L node nxt (cb.set data cookie) ∧
      s'.mtx = s.mtx := by
  refine ⟨_, callSet_eq cb H.cell cookie, ?_, rfl⟩
  exact ⟨H.chains.outside H.outside _, H.outside, by simp, H.used, H.free⟩

theorem fetchNode_eq (H : Shape s L) (hmtx : s.mtx = false) (cb : Callbacks δ γ) (list : ι)
    (cookie : γ) : s.fetchNode cb list cookie =
      some ((lookUp cb cookie (L (some list))).map Prod.fst, s) := by
  have hlen := length_le_total L list
  rw [← H.used] at hlen
  have hhead : s.lists list = entry (L (some list)) none := H.chains.head (some list)
  have hloop := fetchLoop_eq (s := { s with mtx := true }) cb cookie (H.chains.linked (some list))
    (Nat.lt_succ_of_le hlen)
  have hself : { s with mtx := false } = s := by
    cases s
    simp_all
  simp [fetchNode, mlock, hmtx, hhead, hloop, munlock, hself]

variable [DecidableEq ι]

theorem total_update_none (L : Shelf ι δ) (l : List (Ptr × δ)) :
    total (Function.update L none l) = total L := by
  simp [total]

theorem total_update_some (L : Shelf ι δ) (list : ι) (l : List (Ptr × δ)) :
    total (Function.update L (some list) l) + (L (some list)).length = total L + l.length := by
  have hrest : ∑ i ∈ Finset.univ.erase list, (Function.update L (some list) l (some i)).length =
      ∑ i ∈ Finset.univ.erase list, (L (some i)).length := by
    refine Finset.sum_congr rfl fun i hi => ?_
    rw [Function.update_of_ne]
    simpa using Finset.ne_of_mem_erase hi
  unfold total
  rw [← Finset.add_sum_erase _ _ (Finset.mem_univ list), hrest,
    ← Finset.add_sum_erase _ (fun i => (L (some i)).length) (Finset.mem_univ list),
    Function.update_self]
  omega

/-! ## Nodes taken and linked -/

theorem getFreeNode_some (H : Shape s L) (blank : δ) (nxt : Option Ptr) {fresh : Option Ptr}
    (hfresh : ∀ a, fresh = some a → s.heap a = none) (hroom : L none = [] → fresh ≠ none) :
    ∃ node data L' s', Taken blank L fresh node data L' ∧
      s.getFreeNode blank nxt fresh = some (some node, s') ∧ Holding s' L' node nxt data ∧
      s'.mtx = s.mtx := by
  have hhead := H.chains.head none
  cases hL : L none with
  | nil =>
    obtain ⟨node, rfl⟩ := Option.ne_none_iff_exists'.mp (hroom hL)
    have hout := H.chains.outside_of_dead (hfresh node rfl)
    have hfreeList : s.freeList = none := by rwa [hL] at hhead
    let s' : ListMgr ι δ := { s with
      heap := Function.update s.heap node (some ⟨nxt, blank⟩)
      count := s.count + 1 }
    have hget : s.getFreeNode blank nxt (some node) = some (some node, s') := by
      simp [getFreeNode, hfreeList, ListMgr.setNxt, s']
    refine ⟨node, blank, L, s', .allocated hL rfl, hget, ?_, rfl⟩
    exact ⟨H.chains.outside hout _, hout, by simp [s'], by simp [s', H.used], H.free⟩
  | cons c rest =>
    obtain ⟨node, data⟩ := c
    have hwhole : L none = [] ++ (node, data) :: rest := hL
    have hcell := H.chains.node hwhole
    have hfreeList : s.freeList = some node := by rwa [hL] at hhead
    have hpop := H.chains.pop hL
    have hout := H.chains.outside_removed hwhole
    let s' : ListMgr ι δ := { s with
      heap := Function.update s.heap node (some ⟨nxt, data⟩)
      freeList := entry rest none
      freeCount := s.freeCount - 1
      count := s.count + 1 }
    have hget : s.getFreeNode blank nxt fresh = some (some node, s') := by
      simp [getFreeNode, hfreeList, hcell, ListMgr.setNxt, s']
    refine ⟨node, data, _, s', .reused hL, hget, ?_, rfl⟩
    refine ⟨?_, hout, by simp [s'], by simp [s', total_update_none, H.used], by simp [s', H.free, hL]⟩
    convert hpop.outside hout (some ⟨nxt, data⟩) using 1
    funext k
    cases k <;> simp [heads, s']

theorem Holding.setHead {node : Ptr} {nxt : Option Ptr} {data : δ} {list : ι}
    (H : Holding s L node nxt data) (hnxt : nxt = entry (L (some list)) none) :
    ∃ s', ListMgr.setHead list node s = some s' ∧
      Shape s' (Function.update L (some list) ((node, data) :: L (some list))) ∧ s'.mtx = s.mtx := by
  refine ⟨_, rfl, ⟨?_, ?_, by simp [H.free]⟩, rfl⟩
  · have hcell := H.cell
    rw [hnxt, ← H.chains.head (some list)] at hcell
    convert H.chains.push H.outside hcell using 1
    funext k
    cases k with
    | none => simp [heads]
    | some i => by_cases hi : i = list <;> simp [heads, hi]
  · have htotal := total_update_some L list ((node, data) :: L (some list))
    simp only [List.length_cons] at htotal
    have hused := H.used
    simp only
    omega

theorem Holding.setNxt {node p : Ptr} {nxt : Option Ptr} {data e : δ} {list : ι}
    {l₁ l₂ : List (Ptr × δ)} (H : Holding s L node nxt data)
    (hL : L (some list) = l₁ ++ (p, e) :: l₂) (hnxt : nxt = entry l₂ none) :
    ∃ s', s.setNxt p (some node) = some s' ∧
      Shape s' (Function.update L (some list) (l₁ ++ (p, e) :: (node, data) :: l₂)) ∧
      s'.mtx = s.mtx := by
  have hcell := H.cell
  rw [hnxt] at hcell
  refine ⟨_, setNxt_eq (H.chains.node hL) _, ⟨H.chains.insertAfter hL H.outside hcell, ?_, ?_⟩, rfl⟩
  · have htotal := total_update_some L list (l₁ ++ (p, e) :: (node, data) :: l₂)
    simp only [hL, List.length_append, List.length_cons] at htotal
    have hused := H.used
    simp only
    omega
  · simp [H.free]

/-- The data of a node are written, wherever the node is. -/
theorem Shape.rewrite (H : Shape s L) {k : Option ι} {pre post : List (Ptr × δ)} {node : Ptr}
    {data : δ} (data' : δ) (hL : L k = pre ++ (node, data) :: post) :
    Shape { s with heap := Function.update s.heap node (some ⟨entry post none, data'⟩) }
      (Function.update L k (pre ++ (node, data') :: post)) := by
  refine ⟨H.chains.rewrite data' hL, ?_, ?_⟩
  · cases k with
    | none => rw [total_update_none, H.used]
    | some list =>
      have htotal := total_update_some L list (pre ++ (node, data') :: post)
      simp only [hL, List.length_append, List.length_cons] at htotal
      have hused := H.used
      simp only
      omega
  · cases k with
    | none => simp [H.free, hL]
    | some list => simp [H.free]

/-- `freeNode` asked to use the free list or not; only `release` can change that. -/
theorem Holding.freeNode_any {node : Ptr} {nxt : Option Ptr} {data : δ}
    (H : Holding s L node nxt data) (cb : Callbacks δ γ) (useFreeList : Bool) :
    ∃ s' L', s.freeNode cb node useFreeList = some s' ∧ Shape s' L' ∧
      (Freed cb L node data L' ∨ useFreeList = false ∧ L' = L) ∧ s'.mtx = s.mtx := by
  have hused := H.used
  have hkept (d : δ) : Shape { s with
      heap := Function.update s.heap node (some ⟨s.freeList, d⟩)
      freeList := some node
      freeCount := s.freeCount + 1
      count := s.count - 1 } (Function.update L none ((node, d) :: L none)) := by
    have hout := H.chains.outside H.outside (some ⟨s.freeList, d⟩)
    have hpush := @Chains.push _ _ _ _ _ _ _ hout none node d H.outside (Function.update_self _ _ _)
    refine ⟨?_, by simp [hused, total_update_none], by simp [H.free]⟩
    convert hpush using 1
    funext k
    cases k <;> simp [heads]
  have hgone : Shape { s with
      heap := Function.update s.heap node none
      count := s.count - 1 } L :=
    ⟨H.chains.outside H.outside _, by simp [hused], H.free⟩
  simp only [ListMgr.freeNode, H.cell, Option.bind_eq_bind, Option.bind_some]
  cases hrelease : cb.release with
  | none =>
    cases useFreeList with
    | true => exact ⟨_, _, rfl, hkept data, .inl (.kept data fun _ => rfl), rfl⟩
    | false => exact ⟨_, L, rfl, hgone, .inr ⟨rfl, rfl⟩, rfl⟩
  | some release =>
    simp only
    split
    · exact ⟨_, _, rfl, hkept _, .inl (.kept _ (by simp [hrelease])), rfl⟩
    · exact ⟨_, L, rfl, hgone, .inl (.released (by simp [hrelease])), rfl⟩

theorem Holding.freeNode {node : Ptr} {nxt : Option Ptr} {data : δ} (H : Holding s L node nxt data)
    (cb : Callbacks δ γ) :
    ∃ s' L', s.freeNode cb node true = some s' ∧ Shape s' L' ∧ Freed cb L node data L' ∧
      s'.mtx = s.mtx := by
  obtain ⟨s', L', hfree, H', hfreed, hmtx⟩ := H.freeNode_any cb true
  exact ⟨s', L', hfree, H', hfreed.resolve_right (by simp), hmtx⟩

end Shape

end ListMgr

end Csptp
