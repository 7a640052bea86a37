import Csptp.List.Shape

/-! # What an update does to the lists

An update stores into one node, which has the key already, comes from the free list or is new memory. -/
namespace Csptp
open Linked
set_option autoImplicit false

namespace ListMgr
variable {ι δ γ : Type}

section Shape
variable [Fintype ι] [DecidableEq ι] {s s' : ListMgr ι δ} {L L' : Shelf ι δ}

section Update
variable (cb : Callbacks δ γ) (blank : δ) (list : ι) (cookie : γ) (fresh : Option Ptr)

/-- What an update does to the lists. -/
inductive Updated (L : Shelf ι δ) : Bool → Shelf ι δ → Prop
  | replaced {pre post : List (Ptr × δ)} {node : Ptr} {data : δ}
      (hL : L (some list) = pre ++ (node, data) :: post)
      (hpre : ∀ c ∈ pre, 0 < cb.cmp c.2 cookie) (heq : cb.cmp data cookie = 0) :
      Updated L true (Function.update L (some list) (pre ++ (node, cb.set data cookie) :: post))
  | added {pre post : List (Ptr × δ)} {node : Ptr} {data : δ} {L' : Shelf ι δ}
      (hL : L (some list) = pre ++ post) (hpre : ∀ c ∈ pre, 0 < cb.cmp c.2 cookie)
      (hpost : ∀ c ∈ post.head?, cb.cmp c.2 cookie < 0) (htaken : Taken blank L fresh node data L') :
      Updated L true (Function.update L' (some list) (pre ++ (node, cb.set data cookie) :: post))
  | full {pre post : List (Ptr × δ)} (hL : L (some list) = pre ++ post)
      (hpre : ∀ c ∈ pre, 0 < cb.cmp c.2 cookie) (hpost : ∀ c ∈ post.head?, cb.cmp c.2 cookie < 0)
      (hfree : L none = []) (hfresh : fresh = none) : Updated L false L

/-- The call returns with the mutex released, and has done an update. -/
def Updates (s : ListMgr ι δ) (L : Shelf ι δ) (r : Option (Bool × ListMgr ι δ)) : Prop :=
  ∃ done s' L', r = some (done, s') ∧ Shape s' L' ∧ s'.mtx = false ∧
    Updated cb blank list cookie fresh L done L' ∧ (done = false → s' = { s with mtx := false })

variable {cb blank list cookie fresh}

theorem addNode_updates (H : Shape s L) (hmtx : s.mtx = true)
    (hfresh : ∀ a, fresh = some a → s.heap a = none) {pre post : List (Ptr × δ)}
    (hL : L (some list) = pre ++ post) (hpre : ∀ c ∈ pre, 0 < cb.cmp c.2 cookie)
    (hpost : ∀ c ∈ post.head?, cb.cmp c.2 cookie < 0) {nxt : Option Ptr}
    {link : Ptr → ListMgr ι δ → Option (ListMgr ι δ)}
    (hlink : ∀ node data L' s', Holding s' L' node nxt data → L' (some list) = pre ++ post →
      ∃ s'', link node s' = some s'' ∧
        Shape s'' (Function.update L' (some list) (pre ++ (node, data) :: post)) ∧
        s''.mtx = s'.mtx) :
    Updates cb blank list cookie fresh s L (s.addNode cb blank nxt cookie fresh link) := by
  by_cases hroom : L none = [] → fresh ≠ none
  · obtain ⟨node, data, L₁, s₁, htaken, hget, H₁, hmtx₁⟩ := getFreeNode_some H blank nxt hfresh hroom
    obtain ⟨s₂, hset, H₂, hmtx₂⟩ := H₁.callSet cb cookie
    obtain ⟨s₃, hlinked, H₃, hmtx₃⟩ := hlink _ _ _ _ H₂ ((htaken.same list).trans hL)
    have hheld : s₃.mtx = true := by rw [hmtx₃, hmtx₂, hmtx₁, hmtx]
    refine ⟨true, { s₃ with mtx := false }, _, ?_, ⟨H₃.chains, H₃.used, H₃.free⟩, rfl,
      .added hL hpre hpost htaken, by simp⟩
    simp [addNode, hget, hset, hlinked, munlock, hheld]
  · obtain ⟨hfree, hnull⟩ := Classical.not_imp.mp hroom
    obtain rfl : fresh = none := not_not.mp hnull
    refine ⟨false, { s with mtx := false }, L, ?_, ⟨H.chains, H.used, H.free⟩, rfl,
      .full hL hpre hpost hfree rfl, fun _ => rfl⟩
    simp [addNode, getFreeNode_none H blank nxt hfree, munlock, hmtx]

/-- The search: `pre` is behind it, and every node in `pre` is smaller than the cookie. -/
theorem updateLoop_updates {n : ℕ} {pre post : List (Ptr × δ)} {prv : Option Ptr} {cur : Ptr}
    {data : δ} (H : Shape s L) (hmtx : s.mtx = true)
    (hfresh : ∀ a, fresh = some a → s.heap a = none)
    (hL : L (some list) = pre ++ (cur, data) :: post) (hpre : ∀ c ∈ pre, 0 < cb.cmp c.2 cookie)
    (hprv : cb.cmp data cookie < 0 → ∃ l p e, pre = l ++ [(p, e)] ∧ prv = some p)
    (hn : post.length < n) :
    Updates cb blank list cookie fresh s L
      (updateLoop cb blank cookie fresh n prv cur (cb.cmp data cookie) s) := by
  induction n generalizing pre post prv cur data with
  | zero => exact absurd hn (Nat.not_lt_zero _)
  | succ n ih =>
    have hcell := H.chains.node hL
    rcases lt_trichotomy (cb.cmp data cookie) 0 with hlt | heq | hgt
    · -- In middle
      obtain ⟨l, p, e, rfl, rfl⟩ := hprv hlt
      have hL' : L (some list) = l ++ (p, e) :: (cur, data) :: post := by simp [hL]
      rw [updateLoop, if_neg hlt.ne, if_neg hlt.le.not_gt]
      refine addNode_updates H hmtx hfresh hL hpre (by simpa using hlt) ?_
      intro node data' L' s' Hs hL''
      have hmid : L' (some list) = l ++ (p, e) :: (cur, data) :: post := by simp [hL'']
      simpa using Hs.setNxt hmid rfl
    · -- Update node
      rw [updateLoop, if_pos heq, callSet_eq cb hcell]
      refine ⟨true, { s with
        heap := Function.update s.heap cur (some ⟨entry post none, cb.set data cookie⟩)
        mtx := false }, _, by simp [munlock, hmtx], ?_, rfl, .replaced hL hpre heq, by simp⟩
      have hnew := H.rewrite (cb.set data cookie) hL
      exact ⟨hnew.chains, hnew.used, hnew.free⟩
    · have hpre' : ∀ c ∈ pre ++ [(cur, data)], 0 < cb.cmp c.2 cookie := by
        intro c hc
        rcases List.mem_append.mp hc with hc | hc
        · exact hpre c hc
        · simpa [List.mem_singleton.mp hc] using hgt
      rw [updateLoop, if_neg hgt.ne', if_pos hgt]
      simp only [hcell, Option.bind_eq_bind, Option.bind_some]
      cases post with
      | nil =>
        -- New tail
        have hL' : L (some list) = (pre ++ [(cur, data)]) ++ [] := by simpa using hL
        refine addNode_updates H hmtx hfresh hL' hpre' (by simp) ?_
        intro node data' L' s' Hs hL''
        have hlast : L' (some list) = pre ++ (cur, data) :: [] := by simpa using hL''
        simpa using Hs.setNxt hlast rfl
      | cons c post =>
        obtain ⟨nxt, data'⟩ := c
        have hL' : L (some list) = (pre ++ [(cur, data)]) ++ (nxt, data') :: post := by simpa using hL
        simp only [entry_cons, callCmp_eq cb (H.chains.node hL'), Option.bind_some]
        exact ih hL' hpre' (fun _ => ⟨pre, cur, data, rfl, rfl⟩) (Nat.lt_of_succ_lt_succ hn)

variable (cb blank list cookie) in
theorem updateNode_updates (H : Shape s L) (hmtx : s.mtx = false)
    (hfresh : ∀ a, fresh = some a → s.heap a = none) :
    ∃ done s' L', s.updateNode cb blank list cookie fresh = some (done, s') ∧ Shape s' L' ∧
      s'.mtx = false ∧ Updated cb blank list cookie fresh L done L' ∧ (done = false → s' = s) := by
  let s₁ : ListMgr ι δ := { s with mtx := true }
  have H₁ : Shape s₁ L := ⟨H.chains, H.used, H.free⟩
  have hunlocked : { s₁ with mtx := false } = s := by
    cases s
    simp_all [s₁]
  suffices h : Updates cb blank list cookie fresh s₁ L (s.updateNode cb blank list cookie fresh) by
    simpa only [Updates, hunlocked] using h
  have hlock : s.mlock = some s₁ := by simp [mlock, hmtx, s₁]
  have hhead := H₁.chains.head (some list)
  simp only [updateNode, hlock, Option.bind_eq_bind, Option.bind_some]
  cases hL : L (some list) with
  | nil =>
    have hnull : s₁.lists list = none := by rwa [hL] at hhead
    simp only [hnull]
    have hnil : L (some list) = [] ++ [] := hL
    refine addNode_updates H₁ rfl hfresh hnil (by simp) (by simp) ?_
    intro node data L' s' Hs hL'
    have hnxt : none = entry (L' (some list)) none := by simp [hL']
    simpa [hL'] using Hs.setHead hnxt
  | cons c post =>
    obtain ⟨cur, data⟩ := c
    have hcur : s₁.lists list = some cur := by rwa [hL] at hhead
    have hwhole : L (some list) = [] ++ (cur, data) :: post := hL
    simp only [hcur, callCmp_eq cb (H₁.chains.node hwhole), Option.bind_some]
    split
    · refine addNode_updates H₁ rfl hfresh hwhole (by simp) (by simpa) ?_
      intro node data' L' s' Hs hL'
      have hnxt : some cur = entry (L' (some list)) none := by simp [hL']
      simpa [hL'] using Hs.setHead hnxt
    · have hlen := length_le_total L list
      rw [← H.used, hL, List.length_cons] at hlen
      exact updateLoop_updates H₁ rfl hfresh hwhole (by simp) (fun hlt => absurd hlt ‹_›) hlen

end Update

end Shape

/-! ## The node that is stored into -/

section Data
variable [DecidableEq ι] {cb : Callbacks δ γ} {blank : δ} {list : ι} {cookie : γ}
  {fresh : Option Ptr} {L L' : Shelf ι δ}

/-- The node that an update stores into, if there is one. -/
def target (cb : Callbacks δ γ) (list : ι) (cookie : γ) (fresh : Option Ptr) (L : Shelf ι δ) :
    Option Ptr :=
  match lookUp cb cookie (L (some list)) with
  | some c => some c.1
  | none =>
    match L none with
    | c :: _ => some c.1
    | [] => fresh

theorem lookUp_append {pre post : List (Ptr × δ)} (h : ∀ c ∈ pre, 0 < cb.cmp c.2 cookie) :
    lookUp cb cookie (pre ++ post) = lookUp cb cookie post := by
  induction pre with
  | nil => rfl
  | cons c pre ih =>
    have hc := h c List.mem_cons_self
    rw [List.cons_append, lookUp, if_neg hc.ne', if_neg hc.le.not_gt]
    exact ih fun x hx => h x (List.mem_cons_of_mem _ hx)

theorem lookUp_eq_none {post : List (Ptr × δ)} (h : ∀ c ∈ post.head?, cb.cmp c.2 cookie < 0) :
    lookUp cb cookie post = none := by
  cases post with
  | nil => rfl
  | cons c post =>
    have hc := h c rfl
    rw [lookUp, if_neg hc.ne, if_pos hc]

theorem mem_update_iff {k k' : Option ι} {l : List (Ptr × δ)} {c : Ptr × δ}
    (h : c ∈ l ↔ c ∈ L k) : c ∈ Function.update L k l k' ↔ c ∈ L k' := by
  by_cases hk : k' = k
  · subst hk
    rwa [Function.update_self]
  · rw [Function.update_of_ne hk]

/-- An update stores into one node and leaves the data of the others alone. -/
theorem Updated.stores (h : Updated cb blank list cookie fresh L true L') :
    ∃ node data, target cb list cookie fresh L = some node ∧
      (node, cb.set data cookie) ∈ L' (some list) ∧ ∀ c, c.1 ≠ node → ∀ k, c ∈ L' k ↔ c ∈ L k := by
  cases h with
  | @replaced pre post node data hL hpre heq =>
    have hfind : lookUp cb cookie (L (some list)) = some (node, data) := by
      rw [hL, lookUp_append hpre, lookUp, if_pos heq]
    refine ⟨node, data, by rw [target, hfind], by simp, fun c hc k => mem_update_iff ?_⟩
    have hne (d : δ) : c ≠ (node, d) := fun heq => hc (by rw [heq])
    simp [hL, hne]
  | @added pre post node data L₁ hL hpre hpost htaken =>
    have hfind : lookUp cb cookie (L (some list)) = none := by
      rw [hL, lookUp_append hpre, lookUp_eq_none hpost]
    have htarget : target cb list cookie fresh L = some node := by
      cases htaken with
      | reused hfree => rw [target, hfind, hfree]
      | allocated hfree hfresh => rw [target, hfind, hfree, hfresh]
    refine ⟨node, data, htarget, by simp, fun c hc k => ?_⟩
    have hne (d : δ) : c ≠ (node, d) := fun heq => hc (by rw [heq])
    have hold : c ∈ L₁ k ↔ c ∈ L k := by
      cases htaken with
      | reused hfree =>
        refine mem_update_iff ?_
        simp [hfree, hne]
      | allocated hfree hfresh => rfl
    rw [← hold]
    refine mem_update_iff ?_
    simp [htaken.same, hL, hne]

theorem Updated.target_eq_none (h : Updated cb blank list cookie fresh L false L') :
    target cb list cookie fresh L = none := by
  cases h with
  | full hL hpre hpost hfree hfresh =>
    rw [target, hL, lookUp_append hpre, lookUp_eq_none hpost, hfree, hfresh]

end Data

/-! ## The memory that is used -/

section Memory
variable {s s' : ListMgr ι δ} {node : Ptr} {nxt fresh : Option Ptr} {cookie : γ} {done : Bool}

/-- Memory that is not in use stays so, unless it is what `malloc` returned. -/
def Takes (fresh : Option Ptr) (s s' : ListMgr ι δ) : Prop :=
  ∀ a, fresh ≠ some a → s.heap a = none → s'.heap a = none

theorem Takes.refl : Takes fresh s s := fun _ _ h => h

theorem Takes.trans {s₁ s₂ s₃ : ListMgr ι δ} (h : Takes fresh s₁ s₂) (h' : Takes fresh s₂ s₃) :
    Takes fresh s₁ s₃ := fun a ha hnone => h' a ha (h a ha hnone)

theorem takes_of_update {cell cell' : Node Ptr δ} (hcell : s.heap node = some cell)
    (h : s'.heap = Function.update s.heap node (some cell')) : Takes fresh s s' := by
  intro a _ hnone
  rw [h, Function.update_of_ne, hnone]
  rintro rfl
  rw [hcell] at hnone
  cases hnone

theorem setNxt_takes (h : s.setNxt node nxt = some s') : Takes fresh s s' := by
  simp only [setNxt, Option.bind_eq_bind, Option.bind_eq_some_iff] at h
  obtain ⟨cell, hcell, h⟩ := h
  cases h
  exact takes_of_update hcell rfl

theorem callSet_takes {cb : Callbacks δ γ} (h : callSet cb s node cookie = some s') : Takes fresh s s' := by
  simp only [callSet, Option.bind_eq_bind, Option.bind_eq_some_iff] at h
  obtain ⟨cell, hcell, h⟩ := h
  cases h
  exact takes_of_update hcell rfl

theorem getFreeNode_takes {blank : δ} {r : Option Ptr}
    (h : getFreeNode blank s nxt fresh = some (r, s')) : Takes fresh s s' := by
  unfold getFreeNode at h
  split at h
  · split at h
    · cases h
      exact .refl
    · rename_i ret
      simp only [Option.bind_eq_bind, Option.bind_eq_some_iff] at h
      obtain ⟨s₁, hset, h⟩ := h
      cases h
      intro a ha hnone
      refine (setNxt_takes hset : Takes (some ret) _ _) a ha ?_
      exact (Function.update_of_ne (fun heq => ha (by rw [heq])) _ _).trans hnone
  · simp only [Option.bind_eq_bind, Option.bind_eq_some_iff] at h
    obtain ⟨cell, -, s₁, hset, h⟩ := h
    cases h
    exact fun a ha hnone => setNxt_takes hset a ha hnone

theorem munlock_takes (h : s.munlock = some s') : Takes fresh s s' := by
  rw [munlock] at h
  split at h
  · cases h
    exact .refl
  · cases h

theorem addNode_takes {cb : Callbacks δ γ} {blank : δ} {link : Ptr → ListMgr ι δ → Option (ListMgr ι δ)}
    (hlink : ∀ tmp s s', link tmp s = some s' → Takes fresh s s')
    (h : addNode cb blank s nxt cookie fresh link = some (done, s')) : Takes fresh s s' := by
  simp only [addNode, Option.bind_eq_bind, Option.bind_eq_some_iff] at h
  obtain ⟨⟨tmp, s₁⟩, hget, h⟩ := h
  have htakes := getFreeNode_takes hget
  dsimp only at h
  split at h
  · simp only [Option.bind_eq_some_iff] at h
    obtain ⟨s₂, hunlock, h⟩ := h
    cases h
    exact htakes.trans (munlock_takes hunlock)
  · simp only [Option.bind_eq_some_iff] at h
    obtain ⟨s₂, hset, s₃, hlinked, s₄, hunlock, h⟩ := h
    cases h
    exact ((htakes.trans (callSet_takes hset)).trans (hlink _ _ _ hlinked)).trans (munlock_takes hunlock)

theorem updateLoop_takes {cb : Callbacks δ γ} {blank : δ} {n : ℕ} {prv : Option Ptr} {cur : Ptr} {c : ℤ}
    (h : updateLoop cb blank cookie fresh n prv cur c s = some (done, s')) : Takes fresh s s' := by
  induction n generalizing prv cur c with
  | zero => exact absurd h (by simp [updateLoop])
  | succ n ih =>
    rw [updateLoop] at h
    split at h
    · simp only [Option.bind_eq_bind, Option.bind_eq_some_iff] at h
      obtain ⟨s₁, hset, s₂, hunlock, h⟩ := h
      cases h
      exact (callSet_takes hset).trans (munlock_takes hunlock)
    · split at h
      · simp only [Option.bind_eq_bind, Option.bind_eq_some_iff] at h
        obtain ⟨cell, -, h⟩ := h
        split at h
        · exact addNode_takes (fun _ _ _ hlinked => setNxt_takes hlinked) h
        · simp only [Option.bind_eq_some_iff] at h
          obtain ⟨c', -, h⟩ := h
          exact ih h
      · refine addNode_takes (fun tmp s s' hlinked => ?_) h
        simp only [Option.bind_eq_bind, Option.bind_eq_some_iff] at hlinked
        obtain ⟨p, -, hlinked⟩ := hlinked
        exact setNxt_takes hlinked

/-- An update uses no other memory than the nodes there are and what `malloc` returned. -/
theorem updateNode_takes [DecidableEq ι] {cb : Callbacks δ γ} {blank : δ} {list : ι}
    (h : s.updateNode cb blank list cookie fresh = some (done, s')) : Takes fresh s s' := by
  have hhead (tmp : Ptr) (s s' : ListMgr ι δ) (hlinked : setHead list tmp s = some s') :
      Takes fresh s s' := by
    cases hlinked
    exact .refl
  simp only [updateNode, Option.bind_eq_bind, Option.bind_eq_some_iff] at h
  obtain ⟨s₁, hlock, h⟩ := h
  have hlock : Takes fresh s s₁ := by
    rw [mlock] at hlock
    split at hlock
    · cases hlock
    · cases hlock
      exact .refl
  split at h
  · exact hlock.trans (addNode_takes hhead h)
  · simp only [Option.bind_eq_some_iff] at h
    obtain ⟨c, -, h⟩ := h
    split at h
    · exact hlock.trans (addNode_takes hhead h)
    · exact hlock.trans (updateLoop_takes h)

end Memory

end ListMgr

end Csptp
