import Csptp.List.Sorted

/-! # Freeing a list

`freeList` frees all nodes of a list, and its head still points to the first of them. What the manager
would look like without this head is `forget`. -/
namespace Csptp
open Linked Runs
set_option autoImplicit false

namespace ListMgr
variable {ι δ γ : Type} [DecidableEq ι] {s s' : ListMgr ι δ} {L L' : Shelf ι δ} {list : ι}

/-- The head of the list is replaced. -/
def withHead (s : ListMgr ι δ) (list : ι) (head : Option Ptr) : ListMgr ι δ :=
  { s with lists := Function.update s.lists list head }

def forget (s : ListMgr ι δ) (list : ι) : ListMgr ι δ := s.withHead list none

theorem withHead_self (h : s.lists list = none) : s.withHead list none = s := by
  simp [withHead, ← h]

omit [DecidableEq ι] in
/-- The heads of the lists are no business of `freeNode`. -/
theorem freeNode_with_lists (cb : Callbacks δ γ) (s : ListMgr ι δ) (lists : ι → Option Ptr)
    (node : Ptr) (useFreeList : Bool) :
    ({ s with lists := lists }).freeNode cb node useFreeList =
      (s.freeNode cb node useFreeList).map fun s' => { s' with lists := lists } := by
  cases hcell : s.heap node with
  | none => simp [freeNode, hcell]
  | some cell =>
    simp only [freeNode, hcell, Option.bind_eq_bind, Option.bind_some]
    rw [apply_ite (Option.map _)]
    rfl

omit [DecidableEq ι] in
theorem freeNode_lists {cb : Callbacks δ γ} {node : Ptr} {useFreeList : Bool}
    (h : s.freeNode cb node useFreeList = some s') : s'.lists = s.lists := by
  have hsame := freeNode_with_lists cb s s.lists node useFreeList
  rw [show { s with lists := s.lists } = s from rfl, h] at hsame
  have heq : s' = { s' with lists := s.lists } := Option.some.inj hsame
  rw [heq]

section Shape
variable [Fintype ι]

/-- The nodes from the head on are freed one by one. -/
theorem freeList0_forgets (cb : Callbacks δ γ) (useFreeList : Bool) {l : List (Ptr × δ)} {n : ℕ}
    (H : Shape (s.withHead list (entry l none)) L) (hL : L (some list) = l) (hn : l.length ≤ n) :
    ∃ s' L', freeList0 cb useFreeList n (entry l none) s = some s' ∧ Shape (s'.forget list) L' ∧
      L' (some list) = [] ∧ (∀ i, i ≠ list → L' (some i) = L (some i)) ∧ s'.lists = s.lists ∧
      s'.mtx = s.mtx := by
  induction l generalizing s L n with
  | nil =>
    refine ⟨s, L, ?_, H, hL, fun _ _ => rfl, rfl, rfl⟩
    cases n <;> rfl
  | cons c post ih =>
    obtain ⟨node, data⟩ := c
    obtain ⟨n, rfl⟩ := Nat.exists_eq_succ_of_ne_zero (Nat.ne_zero_of_lt hn)
    have hwhole : L (some list) = [] ++ (node, data) :: post := hL
    have hcell : s.heap node = some ⟨entry post none, data⟩ := H.chains.node hwhole
    let v := s.withHead list (entry post none)
    have hchains : Chains v.heap v.heads (Function.update L (some list) post) := by
      have hheads : v.heads = Function.update (s.withHead list (some node)).heads (some list)
          (entry post none) := by
        funext k
        cases k with
        | none => simp [heads, v, withHead]
        | some i => by_cases hi : i = list <;> simp [heads, v, withHead, hi]
      rw [hheads]
      exact H.chains.pop hL
    have H₁ : Holding v (Function.update L (some list) ([] ++ post)) node (entry post none) data :=
      H.unlinked hwhole hchains hcell rfl rfl
    obtain ⟨v', L₁, hfree, H₂, hfreed, hmtx⟩ := H₁.freeNode_any cb useFreeList
    have hsame (i : ι) : L₁ (some i) = Function.update L (some list) post (some i) := by
      rcases hfreed with hfreed | ⟨-, rfl⟩
      · exact hfreed.same i
      · rfl
    -- The same node is freed in the manager that still has its old head.
    obtain ⟨s₁, hfree₁, rfl⟩ : ∃ s₁, s.freeNode cb node useFreeList = some s₁ ∧
        { s₁ with lists := v.lists } = v' := by
      have hmap := freeNode_with_lists cb s v.lists node useFreeList
      rw [show { s with lists := v.lists } = v from rfl, hfree] at hmap
      exact Option.map_eq_some_iff.mp hmap.symm
    have hlists := freeNode_lists hfree₁
    have H₃ : Shape (s₁.withHead list (entry post none)) L₁ := by
      have heq : s₁.withHead list (entry post none) = { s₁ with lists := v.lists } := by
        simp [withHead, v, hlists]
      rwa [heq]
    obtain ⟨s', L', hloop, H', hnil, hothers, hheads, hmtx'⟩ :=
      ih H₃ (by simp [hsame]) (Nat.le_of_succ_le_succ hn)
    refine ⟨s', L', ?_, H', hnil, fun i hi => ?_, hheads.trans hlists, hmtx'.trans hmtx⟩
    · simp [freeList0, hcell, hfree₁, hloop]
    · rw [hothers i hi, hsame, Function.update_of_ne (by simpa using hi)]

theorem freeAll_forgets (H : Shape s L) (hmtx : s.mtx = false) (cb : Callbacks δ γ) (list : ι)
    (useFreeList : Bool) :
    ∃ s' L', s.freeAll cb list useFreeList = some s' ∧ Shape (s'.forget list) L' ∧
      L' (some list) = [] ∧ (∀ i, i ≠ list → L' (some i) = L (some i)) ∧ s'.lists = s.lists ∧
      s'.mtx = false := by
  have hhead : s.lists list = entry (L (some list)) none := H.chains.head (some list)
  let s₀ : ListMgr ι δ := { s with mtx := true }
  have H₀ : Shape (s₀.withHead list (entry (L (some list)) none)) L := by
    have heq : s₀.withHead list (entry (L (some list)) none) = s₀ := by
      simp [withHead, ← hhead, s₀]
    rw [heq]
    exact ⟨H.chains, H.used, H.free⟩
  have hlen : (L (some list)).length ≤ s.count + s.freeCount := by
    have hle := length_le_total L list
    have hused := H.used
    omega
  obtain ⟨s₁, L', hloop, H₁, hnil, hothers, hlists, hheld⟩ :=
    freeList0_forgets cb useFreeList H₀ rfl hlen
  rw [← hhead] at hloop
  refine ⟨{ s₁ with mtx := false }, L', ?_, ⟨H₁.chains, H₁.used, H₁.free⟩, hnil, hothers, hlists, rfl⟩
  have hlock : s.mlock = some s₀ := by simp [mlock, hmtx, s₀]
  simp only [freeAll, hlock, Option.bind_eq_bind, Option.bind_some]
  rw [show freeList0 cb useFreeList (s₀.count + s₀.freeCount) (s₀.lists list) s₀ = some s₁ from hloop]
  simp [munlock, show s₁.mtx = true from hheld]

/-- A head that is left behind makes one node too many. -/
theorem Shape.dangling {a : Ptr} (H : Shape (s.forget list) L) (hnil : L (some list) = [])
    (hhead : s.lists list = some a) (N : Shelf ι δ) : ¬ Shape s N := by
  intro hN
  have hsame (i : ι) (hi : i ≠ list) : (N (some i)).length = (L (some i)).length := by
    have hentry : entry (N (some i)) none = entry (L (some i)) none := by
      rw [← hN.chains.head (some i), ← H.chains.head (some i)]
      simp [heads, forget, withHead, hi]
    rw [(hN.chains.linked (some i)).unique (H.chains.linked (some i)) hentry]
  have hne : N (some list) ≠ [] := by
    intro hempty
    have hentry := hN.chains.head (some list)
    rw [hempty] at hentry
    simp [heads, hhead] at hentry
  have htotal : total L < total N := by
    refine Finset.sum_lt_sum (fun i _ => ?_) ⟨list, Finset.mem_univ _, ?_⟩
    · by_cases hi : i = list
      · subst hi
        simp [hnil]
      · exact (hsame i hi).ge
    · rw [hnil]
      exact List.length_pos_iff.mpr hne
  have hused : total L = s.count := H.used.symm
  rw [hused, hN.used] at htotal
  exact lt_irrefl _ htotal

end Shape

/-! ## Runs that free lists -/

inductive ListOp (ι γ : Type) where
  | call (c : ListCall ι γ)
  | freeList (list : ι) (useFreeList : Bool)

structure ListEvent (ι δ γ : Type) where
  before : ListMgr ι δ
  op : ListOp ι γ
  result : Option ListResult
  after : ListMgr ι δ

omit [DecidableEq ι] in
def ListOp.Allowed (s : ListMgr ι δ) : ListOp ι γ → Prop
  | .call c => c.Allowed s
  | .freeList _ _ => True

omit [DecidableEq ι] in
/-- A list that is freed has no nodes. -/
def ListEvent.OnEmpty (e : ListEvent ι δ γ) : Prop :=
  ∀ list useFreeList, e.op = .freeList list useFreeList → e.before.lists list = none

section Runs
variable (cb : Callbacks δ γ) (blank : δ)

def op (s : ListMgr ι δ) : ListOp ι γ → Option (Option ListResult × ListMgr ι δ)
  | .call c => (s.call cb blank c).map fun r => (some r.1, r.2)
  | .freeList list useFreeList => (s.freeAll cb list useFreeList).map fun s' => (none, s')

def ListEvent.Happens (e : ListEvent ι δ γ) : Prop :=
  e.op.Allowed e.before ∧ e.before.op cb blank e.op = some (e.result, e.after)

def OpStep (_ : List (ListEvent ι δ γ)) (s : ListMgr ι δ) (e : ListEvent ι δ γ) (s' : ListMgr ι δ) :
    Prop := e.before = s ∧ e.after = s' ∧ e.Happens cb blank

variable {cb blank} [Fintype ι] {κ ν : Type} [LinearOrder κ] (C : Contract cb κ ν)

/-- What a call may do; a list that is freed has no nodes then, and the other lists keep theirs. -/
def Contract.OpDoes (s : ListMgr ι δ) (result : Option ListResult) (s' : ListMgr ι δ) :
    ListOp ι γ → Prop
  | .call c => ∃ r, result = some r ∧ C.Does s c r s'
  | .freeList list _ => s'.nodes (some list) = [] ∧ ∀ i, i ≠ list → s'.nodes (some i) = s.nodes (some i)

structure Contract.Right (e : ListEvent ι δ γ) : Prop where
  before : C.Sound e.before
  after : C.Sound e.after
  does : C.OpDoes e.before e.result e.after e.op

variable (blank) in
/-- In all states of a run the lists are sorted chains that share no node, the counters are exact, every
call has done what it should, and the next one returns. -/
structure Contract.Intact (history : List (ListEvent ι δ γ)) (s : ListMgr ι δ) : Prop where
  right : Each (fun _ e => C.Right e) history
  sound : C.Sound s
  used : s.getUsedNodes = some (∑ list, (s.nodes (some list)).length)
  returns : ∀ op : ListOp ι γ, op.Allowed s → ∃ result s', s.op cb blank op = some (result, s')

theorem Contract.freeAll_returns (H : C.Sound s) (list : ι) (useFreeList : Bool) :
    ∃ s', s.freeAll cb list useFreeList = some s' ∧ s'.lists = s.lists ∧
      (C.Sound s' ↔ s.lists list = none) := by
  obtain ⟨s', L', hcall, H', hnil, hothers, hlists, hmtx⟩ :=
    freeAll_forgets H.shape H.released cb list useFreeList
  refine ⟨s', hcall, hlists, fun hsound => ?_, fun hhead => ?_⟩
  · cases hhead : s.lists list with
    | none => rfl
    | some a => exact absurd hsound.shape (H'.dangling hnil (by rw [hlists, hhead]) _)
  · have hsame : s'.forget list = s' := withHead_self (by rw [hlists, hhead])
    rw [hsame] at H'
    refine C.sound H' (fun i => ?_) hmtx
    by_cases hi : i = list
    · subst hi
      rw [hnil]
      exact List.Pairwise.nil
    · rw [hothers i hi]
      exact H.sorted i

variable (cb) in
omit [DecidableEq ι] [Fintype ι] in
/-- Nothing happens to an empty list. -/
theorem freeAll_empty (hmtx : s.mtx = false) (hhead : s.lists list = none) (useFreeList : Bool) :
    s.freeAll cb list useFreeList = some s := by
  have hlock : s.mlock = some { s with mtx := true } := by simp [mlock, hmtx]
  have hself : { s with mtx := false } = s := by
    cases s
    simp_all
  have hloop (n : ℕ) (s : ListMgr ι δ) : freeList0 cb useFreeList n none s = some s := by
    cases n <;> rfl
  simp [freeAll, hlock, hhead, hloop, munlock, hself]

theorem Contract.op_returns (H : C.Sound s) (op : ListOp ι γ) (hallowed : op.Allowed s) :
    ∃ result s', s.op cb blank op = some (result, s') := by
  cases op with
  | call c =>
    obtain ⟨result, s', hcall, -⟩ := C.call_does blank H hallowed
    exact ⟨some result, s', by simp [ListMgr.op, hcall]⟩
  | freeList list useFreeList =>
    obtain ⟨s', hcall, -⟩ := C.freeAll_returns H list useFreeList
    exact ⟨none, s', by simp [ListMgr.op, hcall]⟩

/-- One call keeps the lists in order if and only if it does not free a list that has nodes. -/
theorem Contract.right_iff {e : ListEvent ι δ γ} (H : C.Sound e.before) (h : e.Happens cb blank) :
    C.Right e ↔ e.OnEmpty := by
  obtain ⟨before, op, result, after⟩ := e
  obtain ⟨hallowed, hcall⟩ := h
  simp only at H hallowed hcall
  cases op with
  | call c =>
    obtain ⟨r, s', hcall', H', hdoes⟩ := C.call_does blank H hallowed
    obtain ⟨rfl, rfl⟩ : some r = result ∧ s' = after := by simpa [ListMgr.op, hcall'] using hcall
    exact ⟨fun _ _ _ hop => by simp at hop, fun _ => ⟨H, H', r, rfl, hdoes⟩⟩
  | freeList list useFreeList =>
    obtain ⟨s', hcall', hlists, hsound⟩ := C.freeAll_returns H list useFreeList
    obtain ⟨rfl, rfl⟩ : none = result ∧ s' = after := by simpa [ListMgr.op, hcall'] using hcall
    constructor
    · rintro hright list' useFreeList' hop
      obtain ⟨rfl, rfl⟩ : list = list' ∧ useFreeList = useFreeList' := by simpa using hop
      exact hsound.mp hright.after
    · intro hempty
      have hhead : before.lists list = none := hempty list useFreeList rfl
      have hself := freeAll_empty cb H.released hhead useFreeList
      obtain rfl : s' = before := by simpa [hcall'] using hself
      refine ⟨H, H, ?_, fun _ _ => rfl⟩
      have hentry := H.shape.chains.head (some list)
      cases hnodes : s'.nodes (some list) with
      | nil => rfl
      | cons c l => simp [heads, hhead, hnodes] at hentry

theorem Contract.sound_of_empty {history : List (ListEvent ι δ γ)}
    (h : Run (· = alloc) (OpStep cb blank) history s) (hempty : Each (fun _ e => e.OnEmpty) history) :
    C.Sound s ∧ Each (fun _ e => C.Right e) history := by
  induction h with
  | start h =>
    subst h
    exact ⟨C.sound_alloc, each_nil _⟩
  | @step past s s' e hrun h ih =>
    obtain ⟨rfl, rfl, hhappens⟩ := h
    obtain ⟨hpast, he⟩ := each_concat.mp hempty
    obtain ⟨H, hright⟩ := ih hpast
    have hlast := (C.right_iff H hhappens).mpr he
    exact ⟨hlast.after, each_concat.mpr ⟨hright, hlast⟩⟩

/-- A run is in order if and only if the lists that it frees are empty. -/
theorem freed_lists {history : List (ListEvent ι δ γ)}
    (h : Run (· = alloc) (OpStep cb blank) history s) :
    C.Intact blank history s ↔ Each (fun _ e => e.OnEmpty) history := by
  constructor
  · intro hintact past e hprefix
    have hhappens : Each (fun _ e => e.Happens cb blank) history :=
      @Run.each _ _ _ _ _ _ (fun _ _ => True) _ (fun _ _ _ => trivial)
        (fun _ _ _ _ _ hstep => hstep.2.2) h
    have hright := hintact.right past e hprefix
    exact (C.right_iff hright.before (hhappens past e hprefix)).mp hright
  · intro hempty
    obtain ⟨H, hright⟩ := C.sound_of_empty h hempty
    refine ⟨hright, H, ?_, C.op_returns H⟩
    simp [getUsedNodes, mlock, H.released, munlock, H.shape.used, total]

end Runs

section Sample

theorem opRun_next {cb : Callbacks δ γ} {blank : δ} {past : List (ListEvent ι δ γ)} {c : ListOp ι γ}
    {result : Option ListResult} (h : Run (· = alloc) (OpStep cb blank) past s) (hallowed : c.Allowed s)
    (hcall : s.op cb blank c = some (result, s')) :
    Run (· = alloc) (OpStep cb blank) (past ++ [⟨s, c, result, s'⟩]) s' :=
  Run.step h ⟨rfl, rfl, hallowed, hcall⟩

/-- A list that a clean up has emptied is freed. -/
theorem freed_lists_sample : ∃ (history : List (ListEvent Bool (ℕ × ℕ) (ℕ × ℕ)))
    (s : ListMgr Bool (ℕ × ℕ)),
    history.map (fun e => e.op) =
        [.call (.update false (7, 1) (some 10)), .call (.cleanUp false (0, 5)),
          .freeList false true] ∧
      sampleContract.Intact (0, 0) history s := by
  have h₀ : Run (· = alloc) (@OpStep Bool _ _ _ sampleCallbacks (0, 0)) [] alloc := Run.start rfl
  have h₁ := opRun_next h₀ (c := .call (.update false (7, 1) (some 10))) (unused_some rfl) rfl
  have h₂ := opRun_next h₁ (c := .call (.cleanUp false (0, 5))) trivial rfl
  have h₃ := opRun_next h₂ (c := .freeList false true) trivial rfl
  refine ⟨_, _, rfl, (freed_lists sampleContract h₃).mpr ?_⟩
  simp only [each_concat]
  refine ⟨⟨⟨each_nil _, ?_⟩, ?_⟩, ?_⟩
  · rintro list useFreeList hop
    cases hop
  · rintro list useFreeList hop
    cases hop
  · rintro list useFreeList hop
    cases hop
    rfl

/-- The node of the freed list is given to the other one. -/
theorem freed_lists_fails : ∃ (history : List (ListEvent Bool (ℕ × ℕ) (ℕ × ℕ)))
    (s : ListMgr Bool (ℕ × ℕ)),
    Run (· = alloc) (OpStep sampleCallbacks (0, 0)) history s ∧
      history.map (fun e => e.op) =
        [.call (.update false (7, 1) (some 10)), .freeList false true,
          .call (.update true (4, 4) none)] ∧
      s.lists false = some 10 ∧ s.lists true = some 10 ∧
      ¬ sampleContract.Intact (0, 0) history s := by
  have h₀ : Run (· = alloc) (@OpStep Bool _ _ _ sampleCallbacks (0, 0)) [] alloc := Run.start rfl
  have h₁ := opRun_next h₀ (c := .call (.update false (7, 1) (some 10))) (unused_some rfl) rfl
  have h₂ := opRun_next h₁ (c := .freeList false true) trivial rfl
  have h₃ := opRun_next h₂ (c := .call (.update true (4, 4) none)) unused_none rfl
  refine ⟨_, _, h₃, rfl, rfl, rfl, fun hintact => ?_⟩
  have hapart := hintact.sound.shape.chains.apart (some false) (some true) (by simp)
  exact hapart (a := 10) (by decide) (by decide)

end Sample

end ListMgr

end Csptp
