import Csptp.Keyed
import Csptp.List.CleanUp
import Csptp.List.Update
import Csptp.Runs
import Mathlib.Data.Int.Order.Basic

/-! # Sorted lists

The callbacks of a list manager implement an order of keys. Whatever calls are made, every list stays
sorted, no node is in two places, and a call does to its list what it does to a map. -/
namespace Csptp
open Linked Runs
set_option autoImplicit false

namespace ListMgr
variable {ι δ γ : Type}

/-- Nodes and cookies have keys and values: `cmp` compares the keys, and `set` stores key and value of the
cookie. -/
structure Contract (cb : Callbacks δ γ) (κ ν : Type) [LinearOrder κ] where
  key : δ → κ
  val : δ → ν
  cookieKey : γ → κ
  cookieVal : γ → ν
  cmp_neg : ∀ data cookie, cb.cmp data cookie < 0 ↔ cookieKey cookie < key data
  cmp_zero : ∀ data cookie, cb.cmp data cookie = 0 ↔ cookieKey cookie = key data
  key_set : ∀ data cookie, key (cb.set data cookie) = cookieKey cookie
  val_set : ∀ data cookie, val (cb.set data cookie) = cookieVal cookie

/-- The nodes on the lists, and under `none` those on the free list. -/
def nodes (s : ListMgr ι δ) : Shelf ι δ
  | none => walk s.heap s.freeCount s.freeList
  | some list => walk s.heap s.count (s.lists list)

inductive ListCall (ι γ : Type) where
  | update (list : ι) (cookie : γ) (fresh : Option Ptr)
  | fetch (list : ι) (cookie : γ)
  | cleanUp (list : ι) (cookie : γ)

inductive ListResult where
  | updated (done : Bool)
  | fetched (node : Option Ptr)
  | cleaned (cnt : ℕ)
deriving DecidableEq

/-- What `malloc` returns is no part of the memory in use. -/
def Unused (s : ListMgr ι δ) (fresh : Option Ptr) : Prop := ∀ a, fresh = some a → s.heap a = none

def ListCall.Allowed (s : ListMgr ι δ) : ListCall ι γ → Prop
  | .update _ _ fresh => s.Unused fresh
  | _ => True

section Contract
variable {κ ν : Type} [LinearOrder κ] {cb : Callbacks δ γ} (C : Contract cb κ ν) (s : ListMgr ι δ)

/-- The map that a list stands for. -/
def Contract.get (l : List (Ptr × δ)) : κ → Option ν :=
  Keyed.get (fun c => C.key c.2) (fun c => C.val c.2) l

def Contract.contents (list : ι) : κ → Option ν := C.get (s.nodes (some list))

def Contract.Sorted (L : Shelf ι δ) : Prop :=
  ∀ list, Keyed.Sorted (fun c => C.key c.2) (L (some list))

/-- The lists and the free list are chains that share no node, the lists are sorted, the counters are
exact, and the mutex is free. -/
structure Contract.Sound [Fintype ι] : Prop where
  shape : Shape s s.nodes
  sorted : C.Sorted s.nodes
  released : s.mtx = false

/-- The list has the old contents with the key set to the value, and no other node has changed. -/
structure Contract.Stored (list : ι) (k : κ) (v : ν) (s' : ListMgr ι δ) : Prop where
  contents : C.contents s' list = Function.update (C.contents s list) k (some v)
  rest : ∀ c, C.key c.2 ≠ k → (c ∈ s'.nodes (some list) ↔ c ∈ s.nodes (some list))
  others : ∀ i, i ≠ list → s'.nodes (some i) = s.nodes (some i)

structure Contract.Found (list : ι) (cookie : γ) (node : Option Ptr) : Prop where
  present : node.isSome ↔ (C.contents s list (C.cookieKey cookie)).isSome
  node : ∀ a, node = some a → ∃ data, (a, data) ∈ s.nodes (some list) ∧ C.key data = C.cookieKey cookie

end Contract

/-- The node is to be cleaned up; without a callback none is. -/
def Callbacks.cleans (cb : Callbacks δ γ) (cookie : γ) (c : Ptr × δ) : Bool :=
  match cb.cleanup with
  | none => false
  | some cleanup => cleanup c.2 cookie ≠ 0

structure Removed (cb : Callbacks δ γ) (s : ListMgr ι δ) (list : ι) (cookie : γ) (cnt : ℕ)
    (s' : ListMgr ι δ) : Prop where
  kept : s'.nodes (some list) = (s.nodes (some list)).filter fun c => !cb.cleans cookie c
  count : cnt = (s.nodes (some list)).countP (cb.cleans cookie)
  others : ∀ i, i ≠ list → s'.nodes (some i) = s.nodes (some i)
  spare : cb.release = none → (s'.nodes none).length = (s.nodes none).length + cnt

section Calls
variable [DecidableEq ι] {κ ν : Type} [LinearOrder κ] (cb : Callbacks δ γ) (blank : δ)

def call (s : ListMgr ι δ) : ListCall ι γ → Option (ListResult × ListMgr ι δ)
  | .update list cookie fresh =>
    (s.updateNode cb blank list cookie fresh).map fun r => (.updated r.1, r.2)
  | .fetch list cookie => (s.fetchNode cb list cookie).map fun r => (.fetched r.1, r.2)
  | .cleanUp list cookie => (s.cleanUpNodes cb list cookie).map fun r => (.cleaned r.1, r.2)

/-- What a call may do. -/
inductive Contract.Does {cb : Callbacks δ γ} (C : Contract cb κ ν) (s : ListMgr ι δ) :
    ListCall ι γ → ListResult → ListMgr ι δ → Prop
  | stored {list : ι} {cookie : γ} {fresh : Option Ptr} {s' : ListMgr ι δ}
      (h : C.Stored s list (C.cookieKey cookie) (C.cookieVal cookie) s') :
      Does C s (.update list cookie fresh) (.updated true) s'
  | full {list : ι} {cookie : γ} (h : s.nodes none = []) :
      Does C s (.update list cookie none) (.updated false) s
  | fetched {list : ι} {cookie : γ} {node : Option Ptr} (h : C.Found s list cookie node) :
      Does C s (.fetch list cookie) (.fetched node) s
  | cleaned {list : ι} {cookie : γ} {cnt : ℕ} {s' : ListMgr ι δ}
      (h : Removed cb s list cookie cnt s') : Does C s (.cleanUp list cookie) (.cleaned cnt) s'

def CallStep (_ : List (ListCall ι γ × ListResult)) (s : ListMgr ι δ)
    (e : ListCall ι γ × ListResult) (s' : ListMgr ι δ) : Prop :=
  e.1.Allowed s ∧ s.call cb blank e.1 = some (e.2, s')

end Calls

/-! ## The lists after a call -/

section Effects
variable {κ ν : Type} [LinearOrder κ] {cb : Callbacks δ γ} (C : Contract cb κ ν)
  {s s' : ListMgr ι δ} {L L' : Shelf ι δ}

section Search
variable {cookie : γ} {pre post : List (Ptr × δ)}

theorem Contract.cmp_pos (data : δ) (cookie : γ) :
    0 < cb.cmp data cookie ↔ C.key data < C.cookieKey cookie := by
  have hneg := C.cmp_neg data cookie
  have hzero := C.cmp_zero data cookie
  constructor
  · intro h
    rcases lt_trichotomy (C.key data) (C.cookieKey cookie) with hlt | heq | hgt
    · exact hlt
    · exact absurd (hzero.mpr heq.symm) h.ne'
    · exact absurd (hneg.mpr hgt) h.le.not_gt
  · intro h
    rcases lt_trichotomy (cb.cmp data cookie) 0 with hlt | heq | hgt
    · exact absurd (hneg.mp hlt) h.le.not_gt
    · exact absurd (hzero.mp heq) h.ne'
    · exact hgt

theorem Contract.before_of_cmp (h : ∀ c ∈ pre, 0 < cb.cmp c.2 cookie) (data : δ) :
    ∀ c ∈ pre, C.key c.2 < C.key (cb.set data cookie) := by
  intro c hc
  rw [C.key_set]
  exact (C.cmp_pos _ _).mp (h c hc)

theorem Contract.behind_of_cmp (h : ∀ c ∈ post.head?, cb.cmp c.2 cookie < 0) (data : δ) :
    ∀ c ∈ post.head?, C.key (cb.set data cookie) < C.key c.2 := by
  intro c hc
  rw [C.key_set]
  exact (C.cmp_neg _ _).mp (h c hc)

/-- In a sorted list the search finds the node with the key of the cookie. -/
theorem Contract.lookUp_eq {l : List (Ptr × δ)} (hl : Keyed.Sorted (fun c => C.key c.2) l)
    (cookie : γ) : lookUp cb cookie l = l.find? fun c => C.key c.2 = C.cookieKey cookie := by
  induction l with
  | nil => rfl
  | cons c l ih =>
    obtain ⟨hc, hl⟩ := List.pairwise_cons.mp hl
    simp only [lookUp, C.cmp_zero, C.cmp_neg]
    by_cases heq : C.cookieKey cookie = C.key c.2
    · simp [heq]
    · rw [if_neg heq, List.find?_cons_of_neg (by simpa using Ne.symm heq)]
      split_ifs with hlt
      · symm
        rw [List.find?_eq_none]
        intro x hx
        simpa using (hlt.trans (hc x hx)).ne'
      · exact ih hl

end Search

section Update
variable [DecidableEq ι] {blank : δ} {list : ι} {cookie : γ} {fresh : Option Ptr} {done : Bool}

theorem Contract.sorted_update (hsorted : C.Sorted L) {l : List (Ptr × δ)}
    (hl : Keyed.Sorted (fun c => C.key c.2) l) (hsame : ∀ i, L' (some i) = L (some i)) :
    C.Sorted (Function.update L' (some list) l) := by
  intro i
  by_cases hi : i = list
  · subst hi
    rwa [Function.update_self]
  · rw [Function.update_of_ne (by simpa using hi), hsame]
    exact hsorted i

theorem Contract.updated_sorted (h : Updated cb blank list cookie fresh L done L')
    (hsorted : C.Sorted L) : C.Sorted L' := by
  have hlist := hsorted list
  cases h with
  | replaced hL hpre heq =>
    rw [hL] at hlist
    refine C.sorted_update hsorted (hlist.replace ?_) fun _ => rfl
    rw [C.key_set]
    exact (C.cmp_zero _ _).mp heq
  | added hL hpre hpost htaken =>
    rw [hL] at hlist
    exact C.sorted_update hsorted (hlist.add (C.before_of_cmp hpre _) (C.behind_of_cmp hpost _))
      htaken.same
  | full => exact hsorted

theorem Contract.get_replaced {pre post : List (Ptr × δ)} {node : Ptr} {data : δ}
    (hpre : ∀ c ∈ pre, 0 < cb.cmp c.2 cookie) (heq : cb.cmp data cookie = 0) :
    C.get (pre ++ (node, cb.set data cookie) :: post) =
      Function.update (C.get (pre ++ (node, data) :: post)) (C.cookieKey cookie)
        (some (C.cookieVal cookie)) := by
  have hne : ∀ c ∈ pre, C.key c.2 ≠ C.key (cb.set data cookie) := fun c hc =>
    (C.before_of_cmp hpre data c hc).ne
  have hkey : C.key data = C.key (cb.set data cookie) := by
    rw [C.key_set]
    exact ((C.cmp_zero _ _).mp heq).symm
  rw [← C.key_set data, ← C.val_set data]
  exact @Keyed.get_replace _ _ _ _ _ _ _ _ (node, cb.set data cookie) (node, data) hne hkey

theorem Contract.get_added {pre post : List (Ptr × δ)} {node : Ptr} {data : δ}
    (hpre : ∀ c ∈ pre, 0 < cb.cmp c.2 cookie) :
    C.get (pre ++ (node, cb.set data cookie) :: post) =
      Function.update (C.get (pre ++ post)) (C.cookieKey cookie) (some (C.cookieVal cookie)) := by
  have hne : ∀ c ∈ pre, C.key c.2 ≠ C.key (cb.set data cookie) := fun c hc =>
    (C.before_of_cmp hpre data c hc).ne
  rw [← C.key_set data, ← C.val_set data]
  exact @Keyed.get_add _ _ _ _ _ _ _ _ (node, cb.set data cookie) hne

theorem mem_of_ne {pre post : List (Ptr × δ)} {c x : Ptr × δ} (h : c ≠ x) :
    c ∈ pre ++ x :: post ↔ c ∈ pre ++ post := by
  simp [h]

theorem Contract.updated_stored (h : Updated cb blank list cookie fresh L true L')
    (hs : s.nodes = L) (hs' : s'.nodes = L') :
    C.Stored s list (C.cookieKey cookie) (C.cookieVal cookie) s' := by
  have hne (node : Ptr) (data : δ) (c : Ptr × δ) (hc : C.key c.2 ≠ C.cookieKey cookie) :
      c ≠ (node, cb.set data cookie) := by
    rintro rfl
    exact hc (C.key_set _ _)
  rw [← hs] at h
  cases h with
  | @replaced pre post node data hL hpre heq =>
    have hlist : s'.nodes (some list) = pre ++ (node, cb.set data cookie) :: post := by
      rw [hs', Function.update_self]
    refine ⟨?_, fun c hc => ?_, fun i hi => ?_⟩
    · rw [Contract.contents, Contract.contents, hlist, hL]
      exact C.get_replaced hpre heq
    · have hold : c ≠ (node, data) := by
        rintro rfl
        exact hc ((C.cmp_zero _ _).mp heq).symm
      rw [hlist, hL, mem_of_ne (hne _ _ _ hc), mem_of_ne hold]
    · rw [hs', Function.update_of_ne (by simpa using hi)]
  | @added pre post node data L₁ hL hpre hpost htaken =>
    have hlist : s'.nodes (some list) = pre ++ (node, cb.set data cookie) :: post := by
      rw [hs', Function.update_self]
    refine ⟨?_, fun c hc => ?_, fun i hi => ?_⟩
    · rw [Contract.contents, Contract.contents, hlist, hL]
      exact C.get_added hpre
    · rw [hlist, hL, mem_of_ne (hne _ _ _ hc)]
    · rw [hs', Function.update_of_ne (by simpa using hi), htaken.same]

/-- Between the smaller and the larger keys there is no room for another node with the key. -/
theorem Contract.get_absent {pre post : List (Ptr × δ)} {l : List (Ptr × δ)} (hl : l = pre ++ post)
    (hsorted : Keyed.Sorted (fun c => C.key c.2) l) (hpre : ∀ c ∈ pre, 0 < cb.cmp c.2 cookie)
    (hpost : ∀ c ∈ post.head?, cb.cmp c.2 cookie < 0) : C.get l (C.cookieKey cookie) = none := by
  subst hl
  have hlarger := hsorted.append_right.lt_of_head fun c hc => (C.cmp_neg _ _).mp (hpost c hc)
  refine Keyed.get_eq_none.mpr fun c hc => ?_
  rcases List.mem_append.mp hc with hc | hc
  · exact ((C.cmp_pos _ _).mp (hpre c hc)).ne
  · exact (hlarger c hc).ne'

theorem Contract.updated_spare (h : Updated cb blank list cookie fresh L done L')
    (hsorted : C.Sorted L) :
    ((C.get (L (some list)) (C.cookieKey cookie)).isSome ∧ done = true ∧ L' none = L none) ∨
      (C.get (L (some list)) (C.cookieKey cookie) = none ∧
        ((done = true ∧ ∃ c, L none = c :: L' none) ∨
          (L none = [] ∧ L' none = [] ∧ done = fresh.isSome))) := by
  have hlist := hsorted list
  cases h with
  | @replaced pre post node data hL hpre heq =>
    refine .inl ⟨?_, rfl, by simp⟩
    have hmem : (node, data) ∈ L (some list) := by simp [hL]
    have hkey : C.key data = C.cookieKey cookie := ((C.cmp_zero _ _).mp heq).symm
    have hget : C.get (L (some list)) (C.cookieKey cookie) = some (C.val data) :=
      hlist.get_eq_some.mpr ⟨_, hmem, hkey, rfl⟩
    simp [hget]
  | @added pre post node data L₁ hL hpre hpost htaken =>
    refine .inr ⟨C.get_absent hL hlist hpre hpost, ?_⟩
    cases htaken with
    | reused hfree => exact .inl ⟨rfl, _, by simp [hfree]; rfl⟩
    | allocated hfree hfresh => exact .inr ⟨hfree, by simp [hfree], by simp [hfresh]⟩
  | full hL hpre hpost hfree hfresh =>
    exact .inr ⟨C.get_absent hL hlist hpre hpost, .inr ⟨hfree, hfree, by simp [hfresh]⟩⟩

theorem Updated.full_of_false (h : Updated cb blank list cookie fresh L false L') :
    L none = [] ∧ fresh = none := by
  cases h with
  | full hL hpre hpost hfree hfresh => exact ⟨hfree, hfresh⟩

end Update

end Effects

section Invariant
variable [Fintype ι] {κ ν : Type} [LinearOrder κ] {cb : Callbacks δ γ} (C : Contract cb κ ν)
  {s s' : ListMgr ι δ} {L L' : Shelf ι δ}

theorem Shape.nodes_eq (H : Shape s L) : s.nodes = L := by
  funext k
  have hhead := H.chains.head k
  cases k with
  | none =>
    have hwalk := walk_eq (H.chains.linked none) H.free.ge
    rwa [← hhead] at hwalk
  | some list =>
    have hlen := length_le_total L list
    rw [← H.used] at hlen
    have hwalk := walk_eq (H.chains.linked (some list)) hlen
    rwa [← hhead] at hwalk

theorem Contract.sound (H : Shape s L) (hsorted : C.Sorted L) (hmtx : s.mtx = false) : C.Sound s := by
  have hnodes := H.nodes_eq
  constructor
  · rwa [hnodes]
  · rwa [hnodes]
  · exact hmtx

theorem shape_alloc : Shape (alloc : ListMgr ι δ) fun _ => [] := by
  refine ⟨⟨?_, fun _ => trivial, fun _ => List.nodup_nil, ?_⟩, ?_, rfl⟩
  · intro k
    cases k <;> rfl
  · intro _ _ _
    exact List.disjoint_nil_left _
  · simp [total, alloc]

theorem Contract.sound_alloc : C.Sound (alloc : ListMgr ι δ) :=
  C.sound shape_alloc (fun _ => List.Pairwise.nil) rfl

theorem Contract.fetchNode_does (H : C.Sound s) (list : ι) (cookie : γ) :
    ∃ node, s.fetchNode cb list cookie = some (node, s) ∧ C.Found s list cookie node := by
  have hfind := C.lookUp_eq (H.sorted list) cookie
  refine ⟨_, fetchNode_eq H.shape H.released cb list cookie, ?_, fun a ha => ?_⟩
  · simp [hfind, Contract.contents, Contract.get, Keyed.get]
  · rw [hfind] at ha
    obtain ⟨c, hc, rfl⟩ := Option.map_eq_some_iff.mp ha
    refine ⟨c.2, List.mem_of_find?_eq_some hc, ?_⟩
    simpa using List.find?_some hc

/-- The data of a node are written without the mutex, and its key stays. -/
theorem Contract.rewrite_stored [DecidableEq ι] (H : C.Sound s) {list : ι} {node : Ptr}
    {data data' : δ} (hmem : (node, data) ∈ s.nodes (some list)) (hkey : C.key data' = C.key data) :
    ∃ nxt, s.heap node = some ⟨nxt, data⟩ ∧
      C.Sound { s with heap := Function.update s.heap node (some ⟨nxt, data'⟩) } ∧
      C.Stored s list (C.key data') (C.val data')
        { s with heap := Function.update s.heap node (some ⟨nxt, data'⟩) } ∧
      nodes { s with heap := Function.update s.heap node (some ⟨nxt, data'⟩) } none = s.nodes none := by
  obtain ⟨pre, post, hL⟩ := List.append_of_mem hmem
  refine ⟨entry post none, H.shape.chains.node hL, ?_⟩
  have hsorted := H.sorted list
  rw [hL] at hsorted
  have hnew : Keyed.Sorted (fun c => C.key c.2) (pre ++ (node, data') :: post) := hsorted.replace hkey
  have H' := H.shape.rewrite data' hL
  refine ⟨C.sound H' (C.sorted_update H.sorted hnew fun _ => rfl) H.released,
    ⟨?_, fun c hc => ?_, fun i hi => ?_⟩, ?_⟩
  · have hne : ∀ c ∈ pre, C.key c.2 ≠ C.key data' := fun c hc => by
      rw [hkey]
      exact ((List.pairwise_append.mp hsorted).2.2 c hc _ List.mem_cons_self).ne
    rw [Contract.contents, Contract.contents, H'.nodes_eq, Function.update_self, hL]
    exact @Keyed.get_replace _ _ _ _ _ _ _ _ (node, data') (node, data) hne hkey.symm
  · have hold : c ≠ (node, data) := by
      rintro rfl
      exact hc hkey.symm
    have hnew : c ≠ (node, data') := by
      rintro rfl
      exact hc rfl
    rw [H'.nodes_eq, Function.update_self, hL, mem_of_ne hnew, mem_of_ne hold]
  · rw [H'.nodes_eq, Function.update_of_ne (by simpa using hi)]
  · rw [H'.nodes_eq, Function.update_of_ne (by simp)]

section Calls
variable [DecidableEq ι] (blank : δ)

theorem Contract.updateNode_does (H : C.Sound s) (list : ι) (cookie : γ) {fresh : Option Ptr}
    (hfresh : s.Unused fresh) :
    ∃ done s', s.updateNode cb blank list cookie fresh = some (done, s') ∧ C.Sound s' ∧
      C.Does s (.update list cookie fresh) (.updated done) s' := by
  obtain ⟨done, s', L', hcall, H', hmtx, hupdated, hsame⟩ :=
    updateNode_updates cb blank list cookie H.shape H.released hfresh
  refine ⟨done, s', hcall, C.sound H' (C.updated_sorted hupdated H.sorted) hmtx, ?_⟩
  cases done with
  | true => exact .stored (C.updated_stored hupdated rfl H'.nodes_eq)
  | false =>
    obtain ⟨hfree, rfl⟩ := hupdated.full_of_false
    rw [hsame rfl]
    exact .full hfree

theorem Contract.cleanUpNodes_does (H : C.Sound s) (list : ι) (cookie : γ) :
    ∃ cnt s', s.cleanUpNodes cb list cookie = some (cnt, s') ∧ C.Sound s' ∧
      Removed cb s list cookie cnt s' := by
  cases hcleanup : cb.cleanup with
  | none =>
    have hnone : cb.cleans cookie = fun _ => false := by
      funext c
      simp [Callbacks.cleans, hcleanup]
    refine ⟨0, s, by simp [cleanUpNodes, hcleanup], H, ?_, ?_, fun _ _ => rfl, fun _ => rfl⟩
    · simp [hnone]
    · simp [hnone]
  | some cleanup =>
    have hcleans : cb.cleans cookie = fun c => decide (cleanup c.2 cookie ≠ 0) := by
      funext c
      simp [Callbacks.cleans, hcleanup]
    obtain ⟨s', L', hresult, H', hmtx, hkept, hothers, hspare⟩ :=
      cleanUpNodes_cleansUp list cookie H.shape H.released hcleanup
    have hsorted : C.Sorted L' := by
      intro i
      by_cases hi : i = list
      · subst hi
        rw [hkept]
        exact (H.sorted i).filter _
      · rw [hothers i hi]
        exact H.sorted i
    refine ⟨_, s', hresult, C.sound H' hsorted hmtx, ?_, ?_, fun i hi => ?_, fun hrelease => ?_⟩
    · simp [H'.nodes_eq, hkept, hcleans]
    · simp [hcleans]
    · rw [H'.nodes_eq, hothers i hi]
    · rw [H'.nodes_eq, hspare hrelease, Nat.zero_add]

theorem Contract.call_does (H : C.Sound s) {c : ListCall ι γ} (hc : c.Allowed s) :
    ∃ result s', s.call cb blank c = some (result, s') ∧ C.Sound s' ∧ C.Does s c result s' := by
  cases c with
  | update list cookie fresh =>
    obtain ⟨done, s', hcall, H', hdoes⟩ := C.updateNode_does blank H list cookie hc
    exact ⟨_, s', by simp [call, hcall], H', hdoes⟩
  | fetch list cookie =>
    obtain ⟨node, hcall, hfound⟩ := C.fetchNode_does H list cookie
    exact ⟨_, s, by simp [call, hcall], H, .fetched hfound⟩
  | cleanUp list cookie =>
    obtain ⟨cnt, s', hcall, H', hremoved⟩ := C.cleanUpNodes_does H list cookie
    exact ⟨_, s', by simp [call, hcall], H', .cleaned hremoved⟩

variable {blank}

theorem Contract.sound_of_run {past : List (ListCall ι γ × ListResult)}
    (h : Run (· = alloc) (CallStep cb blank) past s) : C.Sound s := by
  have hstart : ∀ s : ListMgr ι δ, s = alloc → C.Sound s := by
    rintro s rfl
    exact C.sound_alloc
  have hstep : ∀ past (s : ListMgr ι δ) e s', C.Sound s → CallStep cb blank past s e s' → C.Sound s' := by
    rintro past s ⟨c, result⟩ s' H ⟨hallowed, hcall⟩
    obtain ⟨result', s'', hcall', H', -⟩ := C.call_does blank H hallowed
    obtain ⟨rfl, rfl⟩ : result = result' ∧ s' = s'' := by simpa [hcall] using hcall'
    exact H'
  exact @Run.invariant _ _ _ _ _ _ (fun _ (s : ListMgr ι δ) => C.Sound s) hstart hstep h

/-- After any calls the lists are sorted chains that share no node with each other or the free list, the
counters are exact, and the next call returns and does what it should. -/
theorem sorted_lists {past : List (ListCall ι γ × ListResult)}
    (h : Run (· = alloc) (CallStep cb blank) past s) :
    C.Sound s ∧ s.getUsedNodes = some (∑ list, (s.nodes (some list)).length) ∧
      s.getFreeNodes = some (s.nodes none).length ∧
      ∀ c : ListCall ι γ, c.Allowed s →
        ∃ result s', s.call cb blank c = some (result, s') ∧ C.Does s c result s' := by
  have H := C.sound_of_run h
  have hused := H.shape.used
  have hfree := H.shape.free
  refine ⟨H, ?_, ?_, fun c hc => ?_⟩
  · simp [getUsedNodes, mlock, H.released, munlock, hused, total]
  · simp [getFreeNodes, mlock, H.released, munlock, hfree]
  · obtain ⟨result, s', hcall, -, hdoes⟩ := C.call_does blank H hc
    exact ⟨result, s', hcall, hdoes⟩

end Calls

end Invariant

section Sample

/-- Pairs of a key and a value; a clean up removes the values smaller than that of the cookie. -/
def sampleCallbacks : Callbacks (ℕ × ℕ) (ℕ × ℕ) where
  cmp data cookie := cookie.1 - data.1
  set _ cookie := cookie
  cleanup := some fun data cookie => if data.2 < cookie.2 then 1 else 0
  release := none

def sampleContract : Contract sampleCallbacks ℕ ℕ where
  key := Prod.fst
  val := Prod.snd
  cookieKey := Prod.fst
  cookieVal := Prod.snd
  cmp_neg data cookie := by
    simp only [sampleCallbacks]
    omega
  cmp_zero data cookie := by
    simp only [sampleCallbacks]
    omega
  key_set _ _ := rfl
  val_set _ _ := rfl

theorem unused_some {ι : Type} {s : ListMgr ι δ} {a : Ptr} (h : s.heap a = none) :
    s.Unused (some a) := by
  intro b hb
  cases hb
  exact h

theorem unused_none {ι : Type} {s : ListMgr ι δ} : s.Unused none := by
  intro b hb
  cases hb

theorem callRun_next {ι : Type} [DecidableEq ι] {cb : Callbacks δ γ} {blank : δ}
    {past : List (ListCall ι γ × ListResult)} {s s' : ListMgr ι δ} {c : ListCall ι γ}
    {result : ListResult} (h : Run (· = alloc) (CallStep cb blank) past s) (hallowed : c.Allowed s)
    (hcall : s.call cb blank c = some (result, s')) :
    Run (· = alloc) (CallStep cb blank) (past ++ [(c, result)]) s' := Run.step h ⟨hallowed, hcall⟩

/-- A node leaves the first list and serves the second one. -/
theorem sorted_lists_sample : ∃ s : ListMgr Bool (ℕ × ℕ),
    Run (· = alloc) (CallStep sampleCallbacks (0, 0))
      [(.update false (7, 1) (some 10), .updated true), (.update false (3, 9) (some 11), .updated true),
        (.update false (5, 9) none, .updated false), (.cleanUp false (0, 5), .cleaned 1),
        (.update true (4, 4) none, .updated true), (.fetch true (4, 0), .fetched (some 10))] s ∧
      sampleContract.Sound s ∧ s.getUsedNodes = some 2 ∧ s.getFreeNodes = some 0 := by
  have h₀ : Run (· = alloc) (@CallStep Bool _ _ _ sampleCallbacks (0, 0)) [] alloc := Run.start rfl
  have h₁ := callRun_next h₀ (c := .update false (7, 1) (some 10)) (unused_some rfl) rfl
  have h₂ := callRun_next h₁ (c := .update false (3, 9) (some 11)) (unused_some rfl) rfl
  have h₃ := callRun_next h₂ (c := .update false (5, 9) none) unused_none rfl
  have h₄ := callRun_next h₃ (c := .cleanUp false (0, 5)) trivial rfl
  have h₅ := callRun_next h₄ (c := .update true (4, 4) none) unused_none rfl
  have h₆ := callRun_next h₅ (c := .fetch true (4, 0)) trivial rfl
  refine ⟨_, h₆, (sorted_lists sampleContract h₆).1, ?_, ?_⟩
  · rfl
  · rfl

end Sample

end ListMgr

end Csptp
