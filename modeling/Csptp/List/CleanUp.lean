import Csptp.List.Shape

/-! # What a clean up does to the lists

Every critical section of a clean up removes one node of its list, or none. -/
namespace Csptp
open Linked
set_option autoImplicit false

namespace ListMgr
variable {ι δ γ : Type}

variable {s s' : ListMgr ι δ} {L L' : Shelf ι δ}

/-- The clean up has left `pre` behind it. -/
def Cleaner.Behind (pre : List (Ptr × δ)) : Cleaner → Prop
  | .head _ => pre = []
  | .tail prv _ => ∃ l e, pre = l ++ [(prv, e)]
  | .done _ => False

theorem Cleaner.behind_tail (l : List (Ptr × δ)) (prv : Ptr) (e : δ) (cnt : ℕ) :
    (Cleaner.tail prv cnt).Behind (l ++ [(prv, e)]) := ⟨l, e, rfl⟩

theorem cleanLoop_done [DecidableEq ι] {cb : Callbacks δ γ} {cleanup : δ → γ → ℤ} {list : ι}
    {cookie : γ} (n cnt : ℕ) : cleanLoop cb cleanup list cookie n (.done cnt) s = some (cnt, s) := by
  cases n <;> rfl

theorem cleanLoop_succ [DecidableEq ι] {cb : Callbacks δ γ} {cleanup : δ → γ → ℤ} {list : ι}
    {cookie : γ} {n : ℕ} {cleaner cleaner' : Cleaner}
    (hgoing : ∀ cnt, cleaner ≠ .done cnt)
    (h : cleanSection cb cleanup list cookie s cleaner = some (cleaner', s')) :
    cleanLoop cb cleanup list cookie (n + 1) cleaner s =
      cleanLoop cb cleanup list cookie n cleaner' s' := by
  cases cleaner with
  | head cnt | tail prv cnt => simp [cleanLoop, h]
  | done cnt => exact absurd rfl (hgoing cnt)

section Shape
variable [Fintype ι] [DecidableEq ι]

section CleanUp
variable (cb : Callbacks δ γ) (cleanup : δ → γ → ℤ) (list : ι) (cookie : γ)

/-- The ways a critical section of a clean up goes. -/
inductive Cleaned (L : Shelf ι δ) : Cleaner → Cleaner → Shelf ι δ → Prop
  | empty {cnt : ℕ} (hL : L (some list) = []) : Cleaned L (.head cnt) (.done cnt) L
  | headRemoved {cnt : ℕ} {node : Ptr} {data : δ} {post : List (Ptr × δ)} {L' : Shelf ι δ}
      (hL : L (some list) = (node, data) :: post) (hclean : cleanup data cookie ≠ 0)
      (hfreed : Freed cb (Function.update L (some list) post) node data L') :
      Cleaned L (.head cnt) (.head (cnt + 1)) L'
  | headKept {cnt : ℕ} {node : Ptr} {data : δ} {post : List (Ptr × δ)}
      (hL : L (some list) = (node, data) :: post) (hclean : cleanup data cookie = 0) :
      Cleaned L (.head cnt) (.tail node cnt) L
  | last {cnt : ℕ} {pre : List (Ptr × δ)} {prv : Ptr} {e : δ} (hL : L (some list) = pre ++ [(prv, e)]) :
      Cleaned L (.tail prv cnt) (.done cnt) L
  | removed {cnt : ℕ} {pre post : List (Ptr × δ)} {prv node : Ptr} {e data : δ} {L' : Shelf ι δ}
      (hL : L (some list) = pre ++ (prv, e) :: (node, data) :: post) (hclean : cleanup data cookie ≠ 0)
      (hfreed : Freed cb (Function.update L (some list) (pre ++ (prv, e) :: post)) node data L') :
      Cleaned L (.tail prv cnt) (.tail prv (cnt + 1)) L'
  | kept {cnt : ℕ} {pre post : List (Ptr × δ)} {prv node : Ptr} {e data : δ}
      (hL : L (some list) = pre ++ (prv, e) :: (node, data) :: post) (hclean : cleanup data cookie = 0) :
      Cleaned L (.tail prv cnt) (.tail node cnt) L

/-- The node remembered between two sections is on the list. -/
def Placed (L : Shelf ι δ) : Cleaner → Prop
  | .tail prv _ => prv ∈ addrs (L (some list))
  | _ => True

/-- A clean up that nothing interrupts, from any of its sections on. -/
structure CleansUp (L : Shelf ι δ) (pre rest : List (Ptr × δ)) (cnt : ℕ)
    (r : Option (ℕ × ListMgr ι δ)) (s' : ListMgr ι δ) (L' : Shelf ι δ) : Prop where
  result : r = some (cnt + rest.countP fun c => cleanup c.2 cookie ≠ 0, s')
  shape : Shape s' L'
  released : s'.mtx = false
  cleaned : L' (some list) = pre ++ rest.filter fun c => cleanup c.2 cookie = 0
  others : ∀ i, i ≠ list → L' (some i) = L (some i)
  spare : cb.release = none →
    (L' none).length = (L none).length + rest.countP fun c => cleanup c.2 cookie ≠ 0

variable {cb cleanup list cookie}

omit [Fintype ι] [DecidableEq ι] in
theorem Placed.mono {cleaner : Cleaner} (h : Placed list L cleaner)
    (hsub : addrs (L (some list)) ⊆ addrs (L' (some list))) : Placed list L' cleaner := by
  cases cleaner with
  | head cnt | done cnt => trivial
  | tail prv cnt => exact hsub h

theorem Shape.unlinked {pre post : List (Ptr × δ)} {node : Ptr} {data : δ} (H : Shape s L)
    (hL : L (some list) = pre ++ (node, data) :: post)
    (hchains : Chains s'.heap s'.heads (Function.update L (some list) (pre ++ post)))
    (hcell : s'.heap node = some ⟨entry post none, data⟩) (hcount : s'.count = s.count)
    (hfree : s'.freeCount = s.freeCount) :
    Holding s' (Function.update L (some list) (pre ++ post)) node (entry post none) data := by
  refine ⟨hchains, H.chains.outside_removed hL, hcell, ?_, by simp [hfree, H.free]⟩
  have htotal := total_update_some L list (pre ++ post)
  simp only [hL, List.length_append, List.length_cons] at htotal
  have hused := H.used
  omega

theorem cleanSection_head (H : Shape s L) (hmtx : s.mtx = false) (cnt : ℕ) :
    ∃ cleaner' s' L', cleanSection cb cleanup list cookie s (.head cnt) = some (cleaner', s') ∧
      Shape s' L' ∧ s'.mtx = false ∧ Cleaned cb cleanup list cookie L (.head cnt) cleaner' L' := by
  have hhead : s.lists list = entry (L (some list)) none := H.chains.head (some list)
  cases hL : L (some list) with
  | nil =>
    refine ⟨_, { s with mtx := false }, L, ?_, ⟨H.chains, H.used, H.free⟩, rfl, .empty hL⟩
    simp [cleanSection, mlock, hmtx, hhead, hL, munlock]
  | cons c post =>
    obtain ⟨node, data⟩ := c
    have hwhole : L (some list) = [] ++ (node, data) :: post := hL
    have hcell := H.chains.node hwhole
    by_cases hclean : cleanup data cookie = 0
    · refine ⟨_, { s with mtx := false }, L, ?_, ⟨H.chains, H.used, H.free⟩, rfl,
        .headKept hL hclean⟩
      simp [cleanSection, mlock, hmtx, hhead, hL, munlock, hcell, hclean]
    · let s₁ : ListMgr ι δ := { s with
        lists := Function.update s.lists list (entry post none)
        mtx := true }
      have hchains : Chains s₁.heap s₁.heads (Function.update L (some list) post) := by
        convert H.chains.pop hL using 1
        funext k
        cases k with
        | none => simp [heads, s₁]
        | some i => by_cases hi : i = list <;> simp [heads, s₁, hi]
      have H₁ := H.unlinked hwhole hchains hcell rfl rfl
      obtain ⟨s₂, L', hfree, H₂, hfreed, hmtx₂⟩ := H₁.freeNode cb
      have hheld : s₂.mtx = true := hmtx₂
      refine ⟨.head (cnt + 1), { s₂ with mtx := false }, L', ?_, ⟨H₂.chains, H₂.used, H₂.free⟩, rfl,
        .headRemoved hL hclean hfreed⟩
      simp only [s₁] at hfree
      simp [cleanSection, mlock, hmtx, hhead, hL, hcell, hclean, munlock, hfree, hheld]

theorem cleanSection_tail (H : Shape s L) (hmtx : s.mtx = false) {prv : Ptr}
    (cnt : ℕ) (hprv : prv ∈ addrs (L (some list))) :
    ∃ cleaner' s' L', cleanSection cb cleanup list cookie s (.tail prv cnt) = some (cleaner', s') ∧
      Shape s' L' ∧ s'.mtx = false ∧ Cleaned cb cleanup list cookie L (.tail prv cnt) cleaner' L' := by
  obtain ⟨e, he⟩ := mem_addrs.mp hprv
  obtain ⟨pre, rest, hL⟩ := List.append_of_mem he
  have hprvCell := H.chains.node hL
  cases rest with
  | nil =>
    refine ⟨_, { s with mtx := false }, L, ?_, ⟨H.chains, H.used, H.free⟩, rfl, .last hL⟩
    simp [cleanSection, mlock, hmtx, hprvCell, munlock]
  | cons c post =>
    obtain ⟨node, data⟩ := c
    have hwhole : L (some list) = (pre ++ [(prv, e)]) ++ (node, data) :: post := by simp [hL]
    have hcell := H.chains.node hwhole
    by_cases hclean : cleanup data cookie = 0
    · refine ⟨_, { s with mtx := false }, L, ?_, ⟨H.chains, H.used, H.free⟩, rfl, .kept hL hclean⟩
      simp [cleanSection, mlock, hmtx, hprvCell, munlock, hcell, hclean]
    · let s₁ : ListMgr ι δ := { s with
        heap := Function.update s.heap prv (some ⟨entry post none, e⟩)
        mtx := true }
      have hne : node ≠ prv := by
        have hnodup := H.chains.nodup (some list)
        rw [hwhole, addrs_append, addrs_cons, List.nodup_append] at hnodup
        exact fun heq => hnodup.2.2 prv (by simp) node List.mem_cons_self heq.symm
      have hcell₁ : s₁.heap node = some ⟨entry post none, data⟩ := by
        simpa only [s₁, Function.update_of_ne hne] using hcell
      have hchains : Chains s₁.heap s₁.heads
          (Function.update L (some list) ((pre ++ [(prv, e)]) ++ post)) := by
        have happend : (pre ++ [(prv, e)]) ++ post = pre ++ (prv, e) :: post := by simp
        rw [happend]
        exact H.chains.removeAfter hL
      have H₁ := H.unlinked hwhole hchains hcell₁ rfl rfl
      obtain ⟨s₂, L', hfree, H₂, hfreed, hmtx₂⟩ := H₁.freeNode cb
      have hheld : s₂.mtx = true := hmtx₂
      have hfreed' : Freed cb (Function.update L (some list) (pre ++ (prv, e) :: post)) node data L' := by
        simpa using hfreed
      refine ⟨.tail prv (cnt + 1), { s₂ with mtx := false }, L', ?_, ⟨H₂.chains, H₂.used, H₂.free⟩, rfl,
        .removed hL hclean hfreed'⟩
      simp only [s₁] at hfree
      simp [cleanSection, mlock, hmtx, hprvCell, hcell, hclean, munlock, ListMgr.setNxt, hfree, hheld]

variable (cb cleanup cookie) in
theorem cleanSection_cleaned (H : Shape s L) (hmtx : s.mtx = false)
    {cleaner : Cleaner} (hplaced : Placed list L cleaner) (hgoing : ∀ cnt, cleaner ≠ .done cnt) :
    ∃ cleaner' s' L', cleanSection cb cleanup list cookie s cleaner = some (cleaner', s') ∧
      Shape s' L' ∧ s'.mtx = false ∧ Cleaned cb cleanup list cookie L cleaner cleaner' L' := by
  cases cleaner with
  | head cnt => exact cleanSection_head H hmtx cnt
  | tail prv cnt => exact cleanSection_tail H hmtx cnt hplaced
  | done cnt => exact absurd rfl (hgoing cnt)

section CleansUp
variable {pre rest : List (Ptr × δ)} {c : Ptr × δ} {cnt : ℕ} {r : Option (ℕ × ListMgr ι δ)}

omit [DecidableEq ι] in
theorem CleansUp.ofKept (h : CleansUp cb cleanup list cookie L (pre ++ [c]) rest cnt r s' L')
    (hclean : cleanup c.2 cookie = 0) :
    CleansUp cb cleanup list cookie L pre (c :: rest) cnt r s' L' := by
  obtain ⟨hresult, hshape, hreleased, hcleaned, hothers, hspare⟩ := h
  refine ⟨?_, hshape, hreleased, ?_, hothers, ?_⟩
  · simpa [hclean] using hresult
  · simpa [hclean] using hcleaned
  · simpa [hclean] using hspare

theorem CleansUp.ofRemoved {L₁ : Shelf ι δ}
    (h : CleansUp cb cleanup list cookie L₁ pre rest (cnt + 1) r s' L')
    (hfreed : Freed cb (Function.update L (some list) (pre ++ rest)) c.1 c.2 L₁)
    (hclean : cleanup c.2 cookie ≠ 0) :
    CleansUp cb cleanup list cookie L pre (c :: rest) cnt r s' L' := by
  obtain ⟨hresult, hshape, hreleased, hcleaned, hothers, hspare⟩ := h
  refine ⟨?_, hshape, hreleased, ?_, fun i hi => ?_, fun hrelease => ?_⟩
  · simpa [hclean, Nat.add_assoc, Nat.add_comm] using hresult
  · simpa [hclean] using hcleaned
  · rw [hothers i hi, hfreed.same, Function.update_of_ne (by simpa using hi)]
  · have hlen := hspare hrelease
    cases hfreed with
    | kept data h =>
      simp only [Function.update_self, List.length_cons] at hlen
      rw [Function.update_of_ne (by simp)] at hlen
      rw [List.countP_cons_of_pos (by simpa using hclean)]
      omega
    | released hnot => exact absurd hrelease hnot

end CleansUp

theorem cleanLoop_cleansUp {n : ℕ} {cleaner : Cleaner} {pre rest : List (Ptr × δ)} (H : Shape s L)
    (hmtx : s.mtx = false) (hL : L (some list) = pre ++ rest) (hbehind : cleaner.Behind pre)
    (hn : rest.length < n) :
    ∃ s' L', CleansUp cb cleanup list cookie L pre rest cleaner.cnt
      (cleanLoop cb cleanup list cookie n cleaner s) s' L' := by
  induction n generalizing s L cleaner pre rest with
  | zero => exact absurd hn (Nat.not_lt_zero _)
  | succ n ih =>
    have hgoing : ∀ cnt, cleaner ≠ .done cnt := by
      rintro cnt rfl
      exact hbehind
    have hplaced : Placed list L cleaner := by
      cases cleaner with
      | head cnt => trivial
      | tail prv cnt =>
        obtain ⟨l, e, rfl⟩ := hbehind
        simp [Placed, hL]
      | done cnt => exact absurd rfl (hgoing cnt)
    have hspec := cleanSection_cleaned cb cleanup cookie H hmtx hplaced hgoing
    obtain ⟨cleaner', s₁, L₁, hsection, H₁, hmtx₁, hcleaned⟩ := hspec
    rw [cleanLoop_succ hgoing hsection]
    have hnodup := H.chains.nodup (some list)
    rw [hL] at hnodup
    cases hcleaned with
    | empty hnil =>
      obtain rfl : pre = [] := hbehind
      obtain rfl : rest = [] := by simpa [hL] using hnil
      exact ⟨s₁, _, by simp [cleanLoop_done, Cleaner.cnt], H₁, hmtx₁, by simp [hL], fun _ _ => rfl,
        by simp⟩
    | @headRemoved cnt node data post _ hhead hclean hfreed =>
      obtain rfl : pre = [] := hbehind
      obtain rfl : rest = (node, data) :: post := hL.symm.trans hhead
      have hL₁ : L₁ (some list) = [] ++ post := by simp [hfreed.same]
      have hbehind₁ : (Cleaner.head (cnt + 1)).Behind ([] : List (Ptr × δ)) := rfl
      obtain ⟨s', L', h⟩ := ih H₁ hmtx₁ hL₁ hbehind₁ (Nat.lt_of_succ_lt_succ hn)
      exact ⟨s', L', h.ofRemoved hfreed hclean⟩
    | @headKept cnt node data post hhead hclean =>
      obtain rfl : pre = [] := hbehind
      obtain rfl : rest = (node, data) :: post := hL.symm.trans hhead
      have hL₁ : L (some list) = ([] ++ [(node, data)]) ++ post := hhead
      have hbehind₁ := Cleaner.behind_tail [] node data cnt
      obtain ⟨s', L', h⟩ := ih H₁ hmtx₁ hL₁ hbehind₁ (Nat.lt_of_succ_lt_succ hn)
      exact ⟨s', L', h.ofKept hclean⟩
    | last hlast =>
      obtain ⟨l, e, rfl⟩ := hbehind
      rw [List.append_assoc] at hL hnodup
      obtain ⟨rfl, rfl, rfl⟩ := split_unique hnodup (hL.symm.trans hlast)
      exact ⟨s₁, _, by simp [cleanLoop_done, Cleaner.cnt], H₁, hmtx₁, by simp [hL], fun _ _ => rfl,
        by simp⟩
    | @removed cnt _ post prv node _ data _ hmid hclean hfreed =>
      obtain ⟨l, e, rfl⟩ := hbehind
      rw [List.append_assoc] at hL hnodup
      obtain ⟨rfl, rfl, rfl⟩ := split_unique hnodup (hL.symm.trans hmid)
      rw [List.append_cons] at hfreed
      have hL₁ : L₁ (some list) = (l ++ [(prv, e)]) ++ post := by
        rw [hfreed.same, Function.update_self]
      have hbehind₁ := Cleaner.behind_tail l prv e (cnt + 1)
      obtain ⟨s', L', h⟩ := ih H₁ hmtx₁ hL₁ hbehind₁ (Nat.lt_of_succ_lt_succ hn)
      exact ⟨s', L', h.ofRemoved hfreed hclean⟩
    | @kept cnt _ post prv node _ data hmid hclean =>
      obtain ⟨l, e, rfl⟩ := hbehind
      rw [List.append_assoc] at hL hnodup
      obtain ⟨rfl, rfl, rfl⟩ := split_unique hnodup (hL.symm.trans hmid)
      rw [List.append_cons, List.append_cons] at hmid
      have hbehind₁ := Cleaner.behind_tail (l ++ [(prv, e)]) node data cnt
      obtain ⟨s', L', h⟩ := ih H₁ hmtx₁ hmid hbehind₁ (Nat.lt_of_succ_lt_succ hn)
      exact ⟨s', L', h.ofKept hclean⟩

variable (list cookie) in
theorem cleanUpNodes_cleansUp (H : Shape s L) (hmtx : s.mtx = false)
    (hcleanup : cb.cleanup = some cleanup) :
    ∃ s' L', CleansUp cb cleanup list cookie L [] (L (some list)) 0 (s.cleanUpNodes cb list cookie)
      s' L' := by
  have hlen := length_le_total L list
  rw [← H.used] at hlen
  have hbehind : (Cleaner.head 0).Behind ([] : List (Ptr × δ)) := rfl
  simp only [cleanUpNodes, hcleanup]
  exact cleanLoop_cleansUp H hmtx rfl hbehind (Nat.lt_succ_of_le hlen)

end CleanUp

end Shape

/-! ## The data of the nodes -/

section Data
variable [DecidableEq ι] {cb : Callbacks δ γ} {list : ι} {cookie : γ}

/-- The node holds the data, on a list or on the free list. -/
def Held (L : Shelf ι δ) (node : Ptr) (data : δ) : Prop := ∃ k, (node, data) ∈ L k

theorem held_update_iff {k : Option ι} {l : List (Ptr × δ)} {c x : Ptr × δ}
    (h : x ∈ L k ↔ x ∈ l ∨ x = c) :
    Held L x.1 x.2 ↔ Held (Function.update L k l) x.1 x.2 ∨ x = c := by
  constructor
  · rintro ⟨k', hk'⟩
    by_cases heq : k' = k
    · subst heq
      refine (h.mp hk').imp_left fun hmem => ⟨k', ?_⟩
      rwa [Function.update_self]
    · refine .inl ⟨k', ?_⟩
      rwa [Function.update_of_ne heq]
  · rintro (⟨k', hk'⟩ | hx)
    · by_cases heq : k' = k
      · subst heq
        rw [Function.update_self] at hk'
        exact ⟨k', h.mpr (.inl hk')⟩
      · rw [Function.update_of_ne heq] at hk'
        exact ⟨k', hk'⟩
    · exact ⟨k, h.mpr (.inr hx)⟩

/-- Without a callback `release` a node that leaves its list keeps its data. -/
theorem Freed.held_iff {node : Ptr} {data : δ} (h : Freed cb L node data L')
    (hrelease : cb.release = none) (x : Ptr × δ) :
    Held L' x.1 x.2 ↔ Held L x.1 x.2 ∨ x = (node, data) := by
  cases h with
  | kept data' hsame =>
    obtain rfl := hsame hrelease
    constructor
    · rintro ⟨k, hk⟩
      by_cases hnone : k = none
      · subst hnone
        rw [Function.update_self] at hk
        exact (List.mem_cons.mp hk).symm.imp_left fun hmem => ⟨none, hmem⟩
      · rw [Function.update_of_ne hnone] at hk
        exact .inl ⟨k, hk⟩
    · rintro (⟨k, hk⟩ | rfl)
      · by_cases hnone : k = none
        · subst hnone
          exact ⟨none, by simp [hk]⟩
        · refine ⟨k, ?_⟩
          rwa [Function.update_of_ne hnone]
      · exact ⟨none, by simp⟩
  | released hnot => exact absurd hrelease hnot

theorem Cleaned.held_iff {cleanup : δ → γ → ℤ} {cleaner cleaner' : Cleaner}
    (h : Cleaned cb cleanup list cookie L cleaner cleaner' L') (hrelease : cb.release = none)
    (x : Ptr × δ) : Held L' x.1 x.2 ↔ Held L x.1 x.2 := by
  cases h with
  | empty | headKept | last | kept => rfl
  | headRemoved hL hclean hfreed =>
    rw [hfreed.held_iff hrelease]
    refine (held_update_iff ?_).symm
    rw [hL, List.mem_cons, or_comm]
  | removed hL hclean hfreed =>
    rw [hfreed.held_iff hrelease]
    refine (held_update_iff ?_).symm
    simp only [hL, List.mem_append, List.mem_cons]
    tauto

end Data

end ListMgr

end Csptp
