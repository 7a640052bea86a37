import Csptp.List.Sorted
import Mathlib.Algebra.GroupWithZero.Nat

/-! # A clean up while others update

`cleanUpNodes` gives the mutex away between two nodes and only remembers the node it has looked at last.
Other threads update and fetch in between; the clean up is the only thread that removes nodes. -/
namespace Csptp
open Linked Runs
set_option autoImplicit false

namespace ListMgr
variable {ι δ γ : Type}

/-- A manager, and where the thread in `cleanUpNodes` is. -/
structure Cleaning (ι δ : Type) where
  mgr : ListMgr ι δ
  cleaner : Cleaner

inductive Op (ι γ : Type) where
  | update (list : ι) (cookie : γ) (fresh : Option Ptr)
  | fetch (list : ι) (cookie : γ)
  | clean

/-- A critical section. -/
structure Section (ι δ γ : Type) where
  op : Op ι γ
  before : ListMgr ι δ
  after : ListMgr ι δ

/-- The nodes that a section takes off a list. -/
def Section.removed (e : Section ι δ γ) (list : ι) : List (Ptr × δ) :=
  (e.before.nodes (some list)).filter fun c => c.1 ∉ addrs (e.after.nodes (some list))

def Op.Allowed (x : Cleaning ι δ) : Op ι γ → Prop
  | .update _ _ fresh => x.mgr.Unused fresh
  | .fetch _ _ => True
  | .clean => ∀ cnt, x.cleaner ≠ .done cnt

/-- Without a callback `cleanUpNodes` returns at once. -/
def cleanStart (cb : Callbacks δ γ) : Cleaner :=
  match cb.cleanup with
  | none => .done 0
  | some _ => .head 0

section Steps
variable [DecidableEq ι] (cb : Callbacks δ γ) (blank : δ) (list : ι) (cookie : γ)

/-- One critical section, of the clean up of the list or of a call of another thread. -/
inductive SectionStep : Cleaning ι δ → Section ι δ γ → Cleaning ι δ → Prop
  | update {x : Cleaning ι δ} {i : ι} {c : γ} {fresh : Option Ptr} {done : Bool} {s' : ListMgr ι δ}
      (hfresh : x.mgr.Unused fresh) (h : x.mgr.updateNode cb blank i c fresh = some (done, s')) :
      SectionStep x ⟨.update i c fresh, x.mgr, s'⟩ ⟨s', x.cleaner⟩
  | fetch {x : Cleaning ι δ} {i : ι} {c : γ} {node : Option Ptr} {s' : ListMgr ι δ}
      (h : x.mgr.fetchNode cb i c = some (node, s')) :
      SectionStep x ⟨.fetch i c, x.mgr, s'⟩ ⟨s', x.cleaner⟩
  | clean {x : Cleaning ι δ} {cleanup : δ → γ → ℤ} {cleaner' : Cleaner} {s' : ListMgr ι δ}
      (hcleanup : cb.cleanup = some cleanup) (hgoing : ∀ cnt, x.cleaner ≠ .done cnt)
      (h : cleanSection cb cleanup list cookie x.mgr x.cleaner = some (cleaner', s')) :
      SectionStep x ⟨.clean, x.mgr, s'⟩ ⟨s', cleaner'⟩

/-- The sections that threads go through from the call of `cleanUpNodes` on. -/
abbrev CleanRun (s₀ : ListMgr ι δ) : List (Section ι δ γ) → Cleaning ι δ → Prop :=
  Run (· = ⟨s₀, cleanStart cb⟩) fun _ => SectionStep cb blank list cookie

/-- As long as no section has removed the node, it is to be cleaned up whenever it is on the list. -/
def CleansThroughout (a : Ptr) : List (Section ι δ γ) → Prop :=
  Each fun past e => (∀ p ∈ past, a ∉ addrs (p.removed list)) →
    ∀ data, (a, data) ∈ e.before.nodes (some list) → cb.cleans cookie (a, data)

/-- Only the clean up removes nodes, from its own list, and only those that are to be cleaned up in the
section that removes them. -/
def RemovesOnly (_ : List (Section ι δ γ)) (e : Section ι δ γ) : Prop :=
  ∀ i, ∀ c ∈ e.removed i, e.op = .clean ∧ i = list ∧ cb.cleans cookie c

end Steps

/-! ## One section -/

/-- The clean up has not come to the node yet. -/
def Ahead (list : ι) (a : Ptr) (L : Shelf ι δ) : Cleaner → Prop
  | .head _ => a ∈ addrs (L (some list))
  | .tail prv _ => List.Sublist [prv, a] (addrs (L (some list)))
  | .done _ => False

theorem pair_sublist_iff {α : Type} {l₁ l₂ : List α} {p a : α} (h : (l₁ ++ p :: l₂).Nodup) :
    List.Sublist [p, a] (l₁ ++ p :: l₂) ↔ a ∈ l₂ := by
  constructor
  · intro hsub
    induction l₁ with
    | nil =>
      cases hsub with
      | cons _ hsub => exact absurd (hsub.subset List.mem_cons_self) (List.nodup_cons.mp h).1
      | cons_cons _ hsub => exact List.singleton_sublist.mp hsub
    | cons x l₁ ih =>
      obtain ⟨hx, h⟩ := List.nodup_cons.mp h
      cases hsub with
      | cons _ hsub => exact ih h hsub
      | cons_cons _ hsub => exact absurd (by simp) hx
  · intro ha
    exact ((List.singleton_sublist.mpr ha).cons_cons p).trans (List.sublist_append_right _ _)

theorem behind_iff {pre post : List (Ptr × δ)} {p a : Ptr} {e : δ}
    (h : (addrs (pre ++ (p, e) :: post)).Nodup) :
    List.Sublist [p, a] (addrs (pre ++ (p, e) :: post)) ↔ a ∈ addrs post := by
  rw [addrs_append, addrs_cons] at h ⊢
  exact pair_sublist_iff h

theorem Section.removed_eq_nil {e : Section ι δ γ} {i : ι}
    (h : List.Sublist (addrs (e.before.nodes (some i))) (addrs (e.after.nodes (some i)))) :
    e.removed i = [] := by
  rw [Section.removed, List.filter_eq_nil_iff]
  intro c hc
  simpa using h.subset (mem_addrs.mpr ⟨c.2, hc⟩)

theorem Section.removed_eq_singleton {e : Section ι δ γ} {i : ι} {pre post : List (Ptr × δ)}
    {c : Ptr × δ} (hbefore : e.before.nodes (some i) = pre ++ c :: post)
    (hafter : e.after.nodes (some i) = pre ++ post)
    (hnodup : (addrs (e.before.nodes (some i))).Nodup) : e.removed i = [c] := by
  have hpre : ∀ x ∈ pre, x.1 ∈ addrs (pre ++ post) := fun x hx =>
    mem_addrs.mpr ⟨x.2, List.mem_append_left _ hx⟩
  have hpost : ∀ x ∈ post, x.1 ∈ addrs (pre ++ post) := fun x hx =>
    mem_addrs.mpr ⟨x.2, List.mem_append_right _ hx⟩
  rw [hbefore, addrs_append, addrs_cons, List.nodup_middle, ← addrs_append] at hnodup
  rw [Section.removed, hbefore, hafter, List.filter_append,
    List.filter_cons_of_pos (by simpa using (List.nodup_cons.mp hnodup).1),
    List.filter_eq_nil_iff.mpr fun x hx => by simpa [-addrs_append] using hpre x hx,
    List.filter_eq_nil_iff.mpr fun x hx => by simpa [-addrs_append] using hpost x hx]
  rfl

section Effects
variable [DecidableEq ι] {cb : Callbacks δ γ} {blank : δ} {list : ι} {cookie : γ}
  {L L' : Shelf ι δ}

/-- An update takes no node off any list. -/
theorem Updated.sublist {i : ι} {c : γ} {fresh : Option Ptr} {done : Bool}
    (h : Updated cb blank i c fresh L done L') (j : ι) :
    List.Sublist (addrs (L (some j))) (addrs (L' (some j))) := by
  cases h with
  | @replaced pre post node data hL hpre heq =>
    by_cases hj : j = i
    · subst hj
      simp [hL]
    · rw [Function.update_of_ne (by simpa using hj)]
  | @added pre post node data L₁ hL hpre hpost htaken =>
    by_cases hj : j = i
    · subst hj
      simp only [hL, Function.update_self, addrs_append, addrs_cons]
      exact (List.Sublist.refl _).append (List.sublist_cons_self _ _)
    · rw [Function.update_of_ne (by simpa using hj), htaken.same]
  | full => exact List.Sublist.refl _

/-- What a section of the clean up does to the lists: it removes a node of its list, or nothing. -/
inductive Effect (cb : Callbacks δ γ) (list : ι) (cookie : γ) (L L' : Shelf ι δ)
    (cleaner cleaner' : Cleaner) : Prop
  | removed {pre post : List (Ptr × δ)} {c : Ptr × δ} (hL : L (some list) = pre ++ c :: post)
      (hclean : cb.cleans cookie c) (hL' : L' (some list) = pre ++ post)
      (hothers : ∀ i, i ≠ list → L' (some i) = L (some i)) (hcnt : cleaner'.cnt = cleaner.cnt + 1)
  | kept (hL : ∀ i, L' (some i) = L (some i)) (hcnt : cleaner'.cnt = cleaner.cnt)

theorem cleans_iff {cleanup : δ → γ → ℤ} (hcleanup : cb.cleanup = some cleanup) (c : Ptr × δ) :
    cb.cleans cookie c ↔ cleanup c.2 cookie ≠ 0 := by
  simp [Callbacks.cleans, hcleanup]

theorem Cleaned.effect {cleanup : δ → γ → ℤ} (hcleanup : cb.cleanup = some cleanup)
    {cleaner cleaner' : Cleaner} (h : Cleaned cb cleanup list cookie L cleaner cleaner' L') :
    Effect cb list cookie L L' cleaner cleaner' := by
  cases h with
  | empty | headKept | last | kept => exact .kept (fun _ => rfl) rfl
  | @headRemoved cnt node data post _ hL hclean hfreed =>
    have hwhole : L (some list) = [] ++ (node, data) :: post := hL
    refine .removed hwhole ((cleans_iff hcleanup _).mpr hclean) ?_ (fun i hi => ?_) rfl
    · rw [hfreed.same, Function.update_self, List.nil_append]
    · rw [hfreed.same, Function.update_of_ne (by simpa using hi)]
  | @removed cnt pre post prv node e data _ hL hclean hfreed =>
    rw [List.append_cons] at hL hfreed
    refine .removed hL ((cleans_iff hcleanup _).mpr hclean) ?_ (fun i hi => ?_) rfl
    · rw [hfreed.same, Function.update_self]
    · rw [hfreed.same, Function.update_of_ne (by simpa using hi)]

theorem Cleaned.placed {cleanup : δ → γ → ℤ} {cleaner cleaner' : Cleaner}
    (h : Cleaned cb cleanup list cookie L cleaner cleaner' L') : Placed list L' cleaner' := by
  cases h with
  | empty | headRemoved | last => trivial
  | headKept hL => simp [Placed, hL]
  | removed hL hclean hfreed => simp [Placed, hfreed.same]
  | kept hL => simp [Placed, hL]

/-- The clean up does not walk past a node that is to be cleaned up. -/
theorem Cleaned.ahead {cleanup : δ → γ → ℤ} (hcleanup : cb.cleanup = some cleanup)
    {cleaner cleaner' : Cleaner} (h : Cleaned cb cleanup list cookie L cleaner cleaner' L')
    (hnodup : (addrs (L (some list))).Nodup) {a : Ptr} (ha : Ahead list a L cleaner)
    (hcleans : ∀ data, (a, data) ∈ L (some list) → cb.cleans cookie (a, data))
    (hstays : a ∈ addrs (L' (some list))) : Ahead list a L' cleaner' := by
  have hne {node : Ptr} {data : δ} (hmem : (node, data) ∈ L (some list))
      (hclean : cleanup data cookie = 0) : a ≠ node := by
    rintro rfl
    exact (cleans_iff hcleanup _).mp (hcleans data hmem) hclean
  cases h with
  | empty hL => simp [Ahead, hL] at ha
  | headRemoved => exact hstays
  | @headKept cnt node data post hL hclean =>
    have hmem : (node, data) ∈ L (some list) := by simp [hL]
    have hwhole : L (some list) = [] ++ (node, data) :: post := hL
    rw [hwhole] at hnodup
    simp only [Ahead, hL, addrs_cons] at ha
    simp only [Ahead, hwhole]
    rw [behind_iff hnodup]
    exact (List.mem_cons.mp ha).resolve_left (hne hmem hclean)
  | @last cnt pre prv e hL =>
    rw [hL] at hnodup
    simp only [Ahead, hL] at ha
    exact absurd ((behind_iff hnodup).mp ha) List.not_mem_nil
  | @removed cnt pre post prv node e data _ hL hclean hfreed =>
    rw [hL] at hnodup
    simp only [Ahead, hL] at ha
    simp only [Ahead, hfreed.same, Function.update_self] at hstays ⊢
    rw [behind_iff hnodup] at ha
    rw [List.append_cons, addrs_append, addrs_cons, List.nodup_middle, ← addrs_append,
      ← List.append_cons] at hnodup
    obtain ⟨hnode, hnodup⟩ := List.nodup_cons.mp hnodup
    rw [behind_iff hnodup]
    refine (List.mem_cons.mp ha).resolve_left ?_
    rintro rfl
    exact hnode hstays
  | @kept cnt pre post prv node e data hL hclean =>
    have hmem : (node, data) ∈ L (some list) := by simp [hL]
    rw [hL] at hnodup
    simp only [Ahead, hL] at ha ⊢
    rw [behind_iff hnodup] at ha
    rw [List.append_cons] at hnodup ⊢
    rw [behind_iff hnodup]
    exact (List.mem_cons.mp ha).resolve_left (hne hmem hclean)

theorem Effect.subset {cleaner cleaner' : Cleaner} (h : Effect cb list cookie L L' cleaner cleaner')
    (i : ι) : L' (some i) ⊆ L (some i) := by
  cases h with
  | removed hL hclean hL' hothers hcnt =>
    by_cases hi : i = list
    · subst hi
      rw [hL, hL']
      exact ((List.Sublist.refl _).append (List.sublist_cons_self _ _)).subset
    · rw [hothers i hi]
      exact List.Subset.refl _
  | kept hL hcnt =>
    rw [hL]
    exact List.Subset.refl _

theorem Contract.effect_sorted {κ ν : Type} [LinearOrder κ] (C : Contract cb κ ν)
    {cleaner cleaner' : Cleaner} (h : Effect cb list cookie L L' cleaner cleaner')
    (hsorted : C.Sorted L) : C.Sorted L' := by
  intro i
  cases h with
  | removed hL hclean hL' hothers hcnt =>
    by_cases hi : i = list
    · subst hi
      have hold := hsorted i
      rw [hL] at hold
      rw [hL']
      exact List.Pairwise.sublist ((List.Sublist.refl _).append (List.sublist_cons_self _ _)) hold
    · rw [hothers i hi]
      exact hsorted i
  | kept hL hcnt =>
    rw [hL]
    exact hsorted i

omit [DecidableEq ι] in
theorem Ahead.mem {a : Ptr} {cleaner : Cleaner} (h : Ahead list a L cleaner) :
    a ∈ addrs (L (some list)) := by
  cases cleaner with
  | head cnt => exact h
  | tail prv cnt => exact h.subset (by simp)
  | done cnt => exact h.elim

/-- What any section does to the lists and to the clean up. -/
inductive Progress (cb : Callbacks δ γ) (list : ι) (cookie : γ) (e : Section ι δ γ)
    (cleaner : Cleaner) : Cleaner → Prop
  | other (h : ∀ i, List.Sublist (addrs (e.before.nodes (some i))) (addrs (e.after.nodes (some i)))) :
      Progress cb list cookie e cleaner cleaner
  | clean {cleanup : δ → γ → ℤ} {cleaner' : Cleaner} (hop : e.op = .clean)
      (hcleanup : cb.cleanup = some cleanup)
      (h : Cleaned cb cleanup list cookie e.before.nodes cleaner cleaner' e.after.nodes) :
      Progress cb list cookie e cleaner cleaner'

namespace Progress
variable {e : Section ι δ γ} {cleaner cleaner' : Cleaner}

theorem placed (h : Progress cb list cookie e cleaner cleaner')
    (hplaced : Placed list e.before.nodes cleaner) : Placed list e.after.nodes cleaner' := by
  cases h with
  | other hsub => exact hplaced.mono (hsub list).subset
  | clean hop hcleanup hcleaned => exact hcleaned.placed

theorem null (h : Progress cb list cookie e cleaner cleaner') (hcb : cb.cleanup = none) :
    cleaner' = cleaner := by
  cases h with
  | other hsub => rfl
  | clean hop hcleanup hcleaned => simp [hcb] at hcleanup

theorem removed (h : Progress cb list cookie e cleaner cleaner')
    (hnodup : ∀ i, (addrs (e.before.nodes (some i))).Nodup) :
    cleaner'.cnt = cleaner.cnt + (e.removed list).length ∧ ∀ past, RemovesOnly cb list cookie past e := by
  cases h with
  | other hsub =>
    have hnone (i : ι) : e.removed i = [] := Section.removed_eq_nil (hsub i)
    refine ⟨by simp [hnone], fun _ i c hc => ?_⟩
    simp [hnone] at hc
  | clean hop hcleanup hcleaned =>
    cases hcleaned.effect hcleanup with
    | removed hL hclean hL' hothers hcnt =>
      have hone := Section.removed_eq_singleton hL hL' (hnodup list)
      refine ⟨by simp [hone, hcnt], fun _ i c hc => ?_⟩
      by_cases hi : i = list
      · subst hi
        rw [hone, List.mem_singleton] at hc
        subst hc
        exact ⟨hop, rfl, hclean⟩
      · rw [Section.removed_eq_nil (by rw [hothers i hi])] at hc
        simp at hc
    | kept hL hcnt =>
      have hnone (i : ι) : e.removed i = [] := Section.removed_eq_nil (by rw [hL])
      refine ⟨by simp [hnone, hcnt], fun _ i c hc => ?_⟩
      simp [hnone] at hc

theorem ahead (h : Progress cb list cookie e cleaner cleaner')
    (hnodup : (addrs (e.before.nodes (some list))).Nodup) {a : Ptr}
    (ha : Ahead list a e.before.nodes cleaner)
    (hcleans : ∀ data, (a, data) ∈ e.before.nodes (some list) → cb.cleans cookie (a, data))
    (hstays : a ∉ addrs (e.removed list)) : Ahead list a e.after.nodes cleaner' := by
  cases h with
  | other hsub =>
    cases cleaner with
    | head cnt => exact (hsub list).subset ha
    | tail prv cnt => exact ha.trans (hsub list)
    | done cnt => exact ha
  | clean hop hcleanup hcleaned =>
    refine hcleaned.ahead hcleanup hnodup ha hcleans ?_
    obtain ⟨data, hdata⟩ := mem_addrs.mp ha.mem
    by_contra hgone
    exact hstays (mem_addrs.mpr ⟨data, by simp [Section.removed, hdata, hgone]⟩)

end Progress

end Effects

section Run
variable [Fintype ι] [DecidableEq ι] {κ ν : Type} [LinearOrder κ] {cb : Callbacks δ γ}
  (C : Contract cb κ ν) {blank : δ} {list : ι} {cookie : γ} {s₀ : ListMgr ι δ}
  {x x' : Cleaning ι δ} {e : Section ι δ γ} {history : List (Section ι δ γ)}

theorem Contract.section_progress (H : C.Sound x.mgr) (hplaced : Placed list x.mgr.nodes x.cleaner)
    (h : SectionStep cb blank list cookie x e x') : e.before = x.mgr ∧ e.after = x'.mgr ∧
      C.Sound x'.mgr ∧ Progress cb list cookie e x.cleaner x'.cleaner := by
  cases h with
  | update hfresh hcall =>
    obtain ⟨done, s', L', hcall', H', hmtx, hupdated, -⟩ :=
      updateNode_updates cb blank _ _ H.shape H.released hfresh
    obtain ⟨rfl, rfl⟩ := Prod.mk.inj (Option.some.inj (hcall.symm.trans hcall'))
    refine ⟨rfl, rfl, C.sound H' (C.updated_sorted hupdated H.sorted) hmtx, .other fun i => ?_⟩
    rw [H'.nodes_eq]
    exact hupdated.sublist i
  | fetch hcall =>
    rw [fetchNode_eq H.shape H.released] at hcall
    obtain ⟨-, rfl⟩ := Prod.mk.inj (Option.some.inj hcall)
    exact ⟨rfl, rfl, H, .other fun _ => List.Sublist.refl _⟩
  | clean hcleanup hgoing hsection =>
    obtain ⟨cleaner', s', L', hsection', H', hmtx, hcleaned⟩ :=
      cleanSection_cleaned cb _ cookie H.shape H.released hplaced hgoing
    obtain ⟨rfl, rfl⟩ := Prod.mk.inj (Option.some.inj (hsection.symm.trans hsection'))
    have hsorted := C.effect_sorted (hcleaned.effect hcleanup) H.sorted
    refine ⟨rfl, rfl, C.sound H' hsorted hmtx, .clean rfl hcleanup ?_⟩
    simpa only [H'.nodes_eq] using hcleaned

/-- The invariant of the run. -/
structure Contract.Kept (list : ι) (cookie : γ) (s₀ : ListMgr ι δ) (past : List (Section ι δ γ))
    (x : Cleaning ι δ) : Prop where
  sound : C.Sound x.mgr
  placed : Placed list x.mgr.nodes x.cleaner
  null : cb.cleanup = none → x.cleaner = .done 0
  count : x.cleaner.cnt = (past.map fun e => (e.removed list).length).sum
  ahead : ∀ a ∈ addrs (s₀.nodes (some list)), CleansThroughout cb list cookie a past →
    (∀ p ∈ past, a ∉ addrs (p.removed list)) → cb.cleanup ≠ none → Ahead list a x.mgr.nodes x.cleaner

theorem Contract.kept_step {past : List (Section ι δ γ)} (hkept : C.Kept list cookie s₀ past x)
    (h : SectionStep cb blank list cookie x e x') :
    C.Kept list cookie s₀ (past ++ [e]) x' ∧ RemovesOnly cb list cookie past e := by
  obtain ⟨hsound, hplaced, hnull, hcount, hahead⟩ := hkept
  obtain ⟨hbefore, hafter, hsound', hprogress⟩ := C.section_progress hsound hplaced h
  have hnodup (i : ι) := hsound.shape.chains.nodup (some i)
  rw [← hbefore] at hplaced hnodup hahead
  obtain ⟨hcnt, hremoves⟩ := hprogress.removed hnodup
  refine ⟨⟨hsound', ?_, fun hcb => ?_, by simp [hcnt, hcount], fun a ha hall hno hcb => ?_⟩,
    hremoves past⟩
  · rw [← hafter]
    exact hprogress.placed hplaced
  · rw [hprogress.null hcb, hnull hcb]
  · obtain ⟨hpast, hnow⟩ := each_concat.mp hall
    have hnoPast : ∀ p ∈ past, a ∉ addrs (p.removed list) := fun p hp =>
      hno p (List.mem_append_left _ hp)
    rw [← hafter]
    exact hprogress.ahead (hnodup list) (hahead a ha hpast hnoPast hcb) (hnow hnoPast) (hno e (by simp))

theorem Contract.kept_of_run (hs₀ : C.Sound s₀) (h : CleanRun cb blank list cookie s₀ history x) :
    C.Kept list cookie s₀ history x := by
  have hstart : ∀ x : Cleaning ι δ, x = ⟨s₀, cleanStart cb⟩ → C.Kept list cookie s₀ [] x := by
    rintro x rfl
    cases hcb : cb.cleanup with
    | none => refine ⟨hs₀, ?_, ?_, ?_, ?_⟩ <;> simp [cleanStart, hcb, Placed, Cleaner.cnt]
    | some cleanup =>
      refine ⟨hs₀, ?_, ?_, ?_, fun a ha _ _ _ => ?_⟩
      · simp [cleanStart, hcb, Placed]
      · simp [hcb]
      · simp [cleanStart, hcb, Cleaner.cnt]
      · simpa [cleanStart, hcb, Ahead] using ha
  exact Run.invariant hstart (fun _ _ _ _ hkept hstep => (C.kept_step hkept hstep).1) h

theorem Contract.section_returns (hkept : C.Kept list cookie s₀ history x) {op : Op ι γ}
    (hop : op.Allowed x) (blank : δ) :
    ∃ e x', e.op = op ∧ SectionStep cb blank list cookie x e x' := by
  have hsound := hkept.sound
  cases op with
  | update i c fresh =>
    obtain ⟨done, s', hcall, -⟩ := C.updateNode_does blank hsound i c hop
    exact ⟨_, _, rfl, .update hop hcall⟩
  | fetch i c =>
    obtain ⟨node, hcall, -⟩ := C.fetchNode_does hsound i c
    exact ⟨_, _, rfl, .fetch hcall⟩
  | clean =>
    cases hcleanup : cb.cleanup with
    | none => exact absurd (hkept.null hcleanup) (hop 0)
    | some cleanup =>
      obtain ⟨cleaner', s', L', hsection, -⟩ :=
        cleanSection_cleaned cb cleanup cookie hsound.shape hsound.released hkept.placed hop
      exact ⟨_, _, rfl, .clean hcleanup hop hsection⟩

end Run

section Sample

end Sample

end ListMgr

end Csptp
