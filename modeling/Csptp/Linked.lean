import Mathlib.Data.List.Nodup
import Mathlib.Logic.Function.Basic

/-! # Chains of linked nodes

A heap maps addresses to nodes, and a node holds the address of the next one. A chain is described by
the list of its addresses and contents; a family of chains shares one heap, and an operation rewires one
of them. -/
namespace Linked
set_option autoImplicit false

universe u v w
variable {α : Type u} {δ : Type v} {κ : Type w}

structure Node (α : Type u) (δ : Type v) where
  nxt : Option α
  data : δ

abbrev Heap (α : Type u) (δ : Type v) := α → Option (Node α δ)

def addrs (l : List (α × δ)) : List α := l.map Prod.fst

@[simp] theorem addrs_nil : addrs ([] : List (α × δ)) = [] := rfl

@[simp] theorem addrs_cons (c : α × δ) (l : List (α × δ)) : addrs (c :: l) = c.1 :: addrs l := rfl

@[simp] theorem addrs_append (l l' : List (α × δ)) : addrs (l ++ l') = addrs l ++ addrs l' :=
  List.map_append

theorem mem_addrs {l : List (α × δ)} {a : α} : a ∈ addrs l ↔ ∃ d, (a, d) ∈ l := by
  simp [addrs]

/-- A chain is cut at an address in one way only. -/
theorem split_unique {l₁ l₂ l₁' l₂' : List (α × δ)} {a : α} {d d' : δ}
    (hnodup : (addrs (l₁ ++ (a, d) :: l₂)).Nodup)
    (h : l₁ ++ (a, d) :: l₂ = l₁' ++ (a, d') :: l₂') : l₁ = l₁' ∧ d = d' ∧ l₂ = l₂' := by
  induction l₁ generalizing l₁' with
  | nil =>
    cases l₁' with
    | nil => simpa using h
    | cons c l₁' =>
      obtain ⟨rfl, rfl⟩ : (a, d) = c ∧ l₂ = l₁' ++ (a, d') :: l₂' := by simpa using h
      simp at hnodup
  | cons c l₁ ih =>
    cases l₁' with
    | nil =>
      obtain ⟨rfl, rfl⟩ : c = (a, d') ∧ l₁ ++ (a, d) :: l₂ = l₂' := by simpa using h
      simp at hnodup
    | cons c' l₁' =>
      obtain ⟨rfl, hrest⟩ : c = c' ∧ l₁ ++ (a, d) :: l₂ = l₁' ++ (a, d') :: l₂' := by simpa using h
      obtain ⟨rfl, hd, hl₂⟩ := ih (List.nodup_cons.mp hnodup).2 hrest
      exact ⟨rfl, hd, hl₂⟩

/-- The address of the first node, or the end of an empty chain. -/
def entry : List (α × δ) → Option α → Option α
  | [], last => last
  | c :: _, _ => some c.1

@[simp] theorem entry_nil (last : Option α) : entry ([] : List (α × δ)) last = last := rfl

@[simp] theorem entry_cons (c : α × δ) (l : List (α × δ)) (last : Option α) :
    entry (c :: l) last = some c.1 := rfl

theorem entry_append (l l' : List (α × δ)) (last : Option α) :
    entry (l ++ l') last = entry l (entry l' last) := by
  cases l <;> rfl

/-- The nodes of the list are linked in this order, and the last one links to `last`. -/
def Segment (h : Heap α δ) : List (α × δ) → Option α → Prop
  | [], _ => True
  | c :: l, last => h c.1 = some ⟨entry l last, c.2⟩ ∧ Segment h l last

theorem segment_append {h : Heap α δ} {l l' : List (α × δ)} {last : Option α} :
    Segment h (l ++ l') last ↔ Segment h l (entry l' last) ∧ Segment h l' last := by
  induction l with
  | nil => simp [Segment]
  | cons c l ih => simp [Segment, ih, entry_append, and_assoc]

/-- A chain rests on its own nodes only. -/
theorem Segment.congr {h h' : Heap α δ} {l : List (α × δ)} {last : Option α} (hl : Segment h l last)
    (hsame : ∀ a ∈ addrs l, h' a = h a) : Segment h' l last := by
  induction l with
  | nil => trivial
  | cons c l ih =>
    refine ⟨?_, ih hl.2 fun a ha => hsame a (List.mem_cons_of_mem _ ha)⟩
    rw [hsame c.1 List.mem_cons_self]
    exact hl.1

theorem Segment.node {h : Heap α δ} {l₁ l₂ : List (α × δ)} {a : α} {d : δ}
    (hl : Segment h (l₁ ++ (a, d) :: l₂) none) : h a = some ⟨entry l₂ none, d⟩ :=
  (segment_append.mp hl).2.1

/-- The first address and the heap determine a chain. -/
theorem Segment.unique {h : Heap α δ} {l l' : List (α × δ)} (hl : Segment h l none)
    (hl' : Segment h l' none) (hentry : entry l none = entry l' none) : l = l' := by
  induction l generalizing l' with
  | nil =>
    cases l' with
    | nil => rfl
    | cons c' l' => simp at hentry
  | cons c l ih =>
    cases l' with
    | nil => simp at hentry
    | cons c' l' =>
      have haddr : c.1 = c'.1 := by simpa using hentry
      have hnode := hl.1
      rw [haddr, hl'.1] at hnode
      obtain ⟨hnxt, hdata⟩ := Node.mk.inj (Option.some.inj hnode)
      rw [ih hl.2 hl'.2 hnxt.symm, Prod.ext haddr hdata.symm]

/-! ## Walks -/

/-- The nodes met on a walk of at most `n` steps. -/
def walk (h : Heap α δ) : ℕ → Option α → List (α × δ)
  | 0, _ => []
  | _ + 1, none => []
  | n + 1, some a =>
    match h a with
    | none => []
    | some node => (a, node.data) :: walk h n node.nxt

theorem walk_eq {h : Heap α δ} {l : List (α × δ)} (hl : Segment h l none) {n : ℕ}
    (hn : l.length ≤ n) : walk h n (entry l none) = l := by
  induction l generalizing n with
  | nil => cases n <;> rfl
  | cons c l ih =>
    obtain ⟨n, rfl⟩ := Nat.exists_eq_succ_of_ne_zero (Nat.ne_of_gt (Nat.lt_of_lt_of_le
      (Nat.succ_pos l.length) hn))
    simp only [entry_cons, walk, hl.1]
    rw [ih hl.2 (Nat.le_of_succ_le_succ hn)]

/-! ## Families of chains -/

/-- Chains in one heap that share no node, under their heads. -/
structure Chains (h : Heap α δ) (heads : κ → Option α) (lists : κ → List (α × δ)) : Prop where
  head : ∀ k, heads k = entry (lists k) none
  linked : ∀ k, Segment h (lists k) none
  nodup : ∀ k, (addrs (lists k)).Nodup
  apart : ∀ k k', k ≠ k' → List.Disjoint (addrs (lists k)) (addrs (lists k'))

/-- The address is in none of the chains. -/
def Outside (lists : κ → List (α × δ)) (a : α) : Prop := ∀ k, a ∉ addrs (lists k)

namespace Chains
variable {h h' : Heap α δ} {heads : κ → Option α} {lists : κ → List (α × δ)}

theorem node (H : Chains h heads lists) {k : κ} {l₁ l₂ : List (α × δ)} {a : α} {d : δ}
    (hl : lists k = l₁ ++ (a, d) :: l₂) : h a = some ⟨entry l₂ none, d⟩ := by
  have hlinked := H.linked k
  rw [hl] at hlinked
  exact hlinked.node

theorem live (H : Chains h heads lists) {k : κ} {a : α} (ha : a ∈ addrs (lists k)) :
    (h a).isSome := by
  obtain ⟨d, hd⟩ := mem_addrs.mp ha
  obtain ⟨l₁, l₂, hl⟩ := List.append_of_mem hd
  rw [H.node hl]
  rfl

theorem outside_of_dead (H : Chains h heads lists) {a : α} (ha : h a = none) : Outside lists a := by
  intro k hk
  have hlive := H.live hk
  simp [ha] at hlive

theorem node_of_mem (H : Chains h heads lists) {k : κ} {a : α} {d : δ} (hmem : (a, d) ∈ lists k) :
    ∃ nxt, h a = some ⟨nxt, d⟩ := by
  obtain ⟨l₁, l₂, hl⟩ := List.append_of_mem hmem
  exact ⟨_, H.node hl⟩

theorem data_unique (H : Chains h heads lists) {k k' : κ} {a : α} {d d' : δ}
    (hmem : (a, d) ∈ lists k) (hmem' : (a, d') ∈ lists k') : d = d' := by
  obtain ⟨nxt, hnode⟩ := H.node_of_mem hmem
  obtain ⟨nxt', hnode'⟩ := H.node_of_mem hmem'
  rw [hnode] at hnode'
  exact (Node.mk.inj (Option.some.inj hnode')).2

theorem elsewhere (H : Chains h heads lists) {k k' : κ} (hk : k' ≠ k) {a b : α}
    (ha : a ∈ addrs (lists k)) (hb : b ∈ addrs (lists k')) : b ≠ a := by
  rintro rfl
  exact H.apart k' k hk hb ha

theorem outside [DecidableEq α] (H : Chains h heads lists) {a : α} (ha : Outside lists a)
    (x : Option (Node α δ)) : Chains (Function.update h a x) heads lists := by
  refine ⟨H.head, fun k => (H.linked k).congr fun b hb => ?_, H.nodup, H.apart⟩
  rw [Function.update_of_ne]
  rintro rfl
  exact ha k hb

variable [DecidableEq κ]

/-- One chain is replaced; the nodes of the others are left alone. -/
theorem rewire (H : Chains h heads lists) {k : κ} {l : List (α × δ)} (hl : Segment h' l none)
    (hnodup : (addrs l).Nodup) (hapart : ∀ k', k' ≠ k → List.Disjoint (addrs l) (addrs (lists k')))
    (hsame : ∀ k', k' ≠ k → ∀ a ∈ addrs (lists k'), h' a = h a) :
    Chains h' (Function.update heads k (entry l none)) (Function.update lists k l) := by
  constructor
  · intro k'
    by_cases hk : k' = k
    · subst hk
      simp
    · simp [hk, H.head k']
  · intro k'
    by_cases hk : k' = k
    · subst hk
      simpa using hl
    · simpa [hk] using (H.linked k').congr (hsame k' hk)
  · intro k'
    by_cases hk : k' = k
    · subst hk
      simpa using hnodup
    · simpa [hk] using H.nodup k'
  · intro k₁ k₂ hne
    by_cases h₁ : k₁ = k
    · subst h₁
      simpa [Ne.symm hne] using hapart k₂ (Ne.symm hne)
    · by_cases h₂ : k₂ = k
      · subst h₂
        have hdisj : List.Disjoint (addrs (lists k₁)) (addrs l) := fun a ha hb => hapart k₁ h₁ hb ha
        simpa [h₁] using hdisj
      · simpa [h₁, h₂] using H.apart k₁ k₂ hne

theorem pop (H : Chains h heads lists) {k : κ} {c : α × δ} {l : List (α × δ)}
    (hl : lists k = c :: l) :
    Chains h (Function.update heads k (entry l none)) (Function.update lists k l) := by
  have hlinked := H.linked k
  have hnodup := H.nodup k
  rw [hl] at hlinked hnodup
  refine H.rewire hlinked.2 (List.nodup_cons.mp hnodup).2 ?_ fun _ _ _ _ => rfl
  intro k' hk a ha
  have hmem : a ∈ addrs (lists k) := by
    rw [hl]
    exact List.mem_cons_of_mem _ ha
  exact H.apart k k' (Ne.symm hk) hmem

/-- A node that links to the head of a chain becomes its head. -/
theorem push (H : Chains h heads lists) {k : κ} {a : α} {d : δ} (ha : Outside lists a)
    (hnode : h a = some ⟨heads k, d⟩) :
    Chains h (Function.update heads k (some a)) (Function.update lists k ((a, d) :: lists k)) := by
  have hentry : some a = entry ((a, d) :: lists k) none := rfl
  rw [hentry]
  refine H.rewire ⟨?_, H.linked k⟩ (List.nodup_cons.mpr ⟨ha k, H.nodup k⟩) ?_ fun _ _ _ _ => rfl
  · rw [hnode, H.head k]
  · intro k' hk b hb
    rcases List.mem_cons.mp hb with rfl | hb
    · exact ha k'
    · exact H.apart k k' (Ne.symm hk) hb

theorem outside_removed (H : Chains h heads lists) {k : κ} {l₁ l₂ : List (α × δ)} {c : α × δ}
    (hl : lists k = l₁ ++ c :: l₂) : Outside (Function.update lists k (l₁ ++ l₂)) c.1 := by
  intro k'
  have hmem : c.1 ∈ addrs (lists k) := by simp [hl]
  by_cases hk : k' = k
  · subst hk
    have hnodup := H.nodup k'
    rw [hl, addrs_append, addrs_cons, List.nodup_middle] at hnodup
    simpa using (List.nodup_cons.mp hnodup).1
  · simpa [hk] using H.apart k k' (Ne.symm hk) hmem

variable [DecidableEq α]

/-- The chain is rewired behind its node `p`, and the head stays. -/
theorem relink (H : Chains h heads lists) {k : κ} {l₁ l₂ l₂' : List (α × δ)} {p : α} {e e' : δ}
    (hl : lists k = l₁ ++ (p, e) :: l₂) (hl₂ : Segment h l₂' none) (hnodup : (addrs l₂').Nodup)
    (hnew : ∀ a ∈ addrs l₂', a ∈ addrs l₂ ∨ Outside lists a) :
    Chains (Function.update h p (some ⟨entry l₂' none, e'⟩)) heads
      (Function.update lists k (l₁ ++ (p, e') :: l₂')) := by
  have hall := H.nodup k
  have hlinked := H.linked k
  rw [hl, segment_append] at hlinked
  simp only [hl, addrs_append, addrs_cons, List.nodup_append, List.nodup_cons] at hall
  obtain ⟨hnodup₁, ⟨hp₂, -⟩, hdisj⟩ := hall
  have hp : p ∈ addrs (lists k) := by simp [hl]
  have hp₂' : p ∉ addrs l₂' := by
    intro hmem
    rcases hnew p hmem with hmem | hout
    · exact hp₂ hmem
    · exact hout k hp
  have hentry : heads k = entry (l₁ ++ (p, e') :: l₂') none := by
    rw [H.head k, hl, entry_append, entry_append]
    rfl
  have hheads : heads = Function.update heads k (entry (l₁ ++ (p, e') :: l₂') none) := by
    rw [← hentry, Function.update_eq_self]
  rw [hheads]
  refine H.rewire (segment_append.mpr ⟨?_, ?_, ?_⟩) ?_ ?_ ?_
  · refine hlinked.1.congr fun a ha => Function.update_of_ne ?_ _ _
    exact hdisj a ha p List.mem_cons_self
  · exact Function.update_self _ _ _
  · refine hl₂.congr fun a ha => Function.update_of_ne ?_ _ _
    rintro rfl
    exact hp₂' ha
  · simp only [addrs_append, addrs_cons, List.nodup_append, List.nodup_cons]
    refine ⟨hnodup₁, ⟨hp₂', hnodup⟩, fun a ha b hb => ?_⟩
    rcases List.mem_cons.mp hb with rfl | hb
    · exact hdisj a ha _ List.mem_cons_self
    · rcases hnew b hb with hb | hout
      · exact hdisj a ha b (List.mem_cons_of_mem _ hb)
      · rintro rfl
        exact hout k (by simp [hl, ha])
  · intro k' hk a ha
    have hcases : a ∈ addrs (lists k) ∨ Outside lists a := by
      simp only [addrs_append, addrs_cons, List.mem_append, List.mem_cons] at ha
      rcases ha with ha | rfl | ha
      · exact .inl (by simp [hl, ha])
      · exact .inl hp
      · refine (hnew a ha).imp_left fun hmem => ?_
        simp [hl, hmem]
    rcases hcases with hmem | hout
    · exact H.apart k k' (Ne.symm hk) hmem
    · exact hout k'
  · intro k' hk a ha
    exact Function.update_of_ne (H.elsewhere hk hp ha) _ _

/-- A node with the successor of `p` comes behind `p`. -/
theorem insertAfter (H : Chains h heads lists) {k : κ} {l₁ l₂ : List (α × δ)} {p a : α} {e d : δ}
    (hl : lists k = l₁ ++ (p, e) :: l₂) (ha : Outside lists a)
    (hnode : h a = some ⟨entry l₂ none, d⟩) :
    Chains (Function.update h p (some ⟨some a, e⟩)) heads
      (Function.update lists k (l₁ ++ (p, e) :: (a, d) :: l₂)) := by
  have hlinked := H.linked k
  have hnodup := H.nodup k
  rw [hl, segment_append] at hlinked
  simp only [hl, addrs_append, addrs_cons, List.nodup_append, List.nodup_cons] at hnodup
  have hsegment : Segment h ((a, d) :: l₂) none := ⟨hnode, hlinked.2.2⟩
  refine H.relink hl hsegment ?_ fun b hb => ?_
  · refine List.nodup_cons.mpr ⟨fun hmem => ha k ?_, hnodup.2.1.2⟩
    have hmem' : a ∈ addrs l₂ := hmem
    simp [hl, hmem']
  · rcases List.mem_cons.mp hb with rfl | hb
    · exact .inr ha
    · exact .inl hb

theorem removeAfter (H : Chains h heads lists) {k : κ} {l₁ l₂ : List (α × δ)} {p : α} {e : δ}
    {c : α × δ} (hl : lists k = l₁ ++ (p, e) :: c :: l₂) :
    Chains (Function.update h p (some ⟨entry l₂ none, e⟩)) heads
      (Function.update lists k (l₁ ++ (p, e) :: l₂)) := by
  have hlinked := H.linked k
  have hnodup := H.nodup k
  rw [hl, segment_append] at hlinked
  simp only [hl, addrs_append, addrs_cons, List.nodup_append, List.nodup_cons] at hnodup
  exact H.relink hl hlinked.2.2.2 hnodup.2.1.2.2 fun a ha => .inl (List.mem_cons_of_mem _ ha)

theorem rewrite (H : Chains h heads lists) {k : κ} {l₁ l₂ : List (α × δ)} {p : α} {e : δ} (e' : δ)
    (hl : lists k = l₁ ++ (p, e) :: l₂) :
    Chains (Function.update h p (some ⟨entry l₂ none, e'⟩)) heads
      (Function.update lists k (l₁ ++ (p, e') :: l₂)) := by
  have hlinked := H.linked k
  have hnodup := H.nodup k
  rw [hl, segment_append] at hlinked
  simp only [hl, addrs_append, addrs_cons, List.nodup_append, List.nodup_cons] at hnodup
  exact H.relink hl hlinked.2.2 hnodup.2.1.2 fun a ha => .inl ha

end Chains

end Linked
