import Mathlib.Data.List.Pairwise
import Mathlib.Logic.Function.Basic
import Mathlib.Order.Lattice

/-! # Lists of keyed entries

A list of entries stands for the map from the keys of its entries to their values. -/
namespace Keyed
set_option autoImplicit false

variable {χ : Type*} {κ : Type*} {ν : Type*} {key : χ → κ} {val : χ → ν} {l l₁ l₂ : List χ}

section Get
variable [DecidableEq κ]

/-- The value of the first entry with this key. -/
def get (key : χ → κ) (val : χ → ν) (l : List χ) (k : κ) : Option ν :=
  (l.find? fun c => key c = k).map val

theorem get_cons (c : χ) (k : κ) :
    get key val (c :: l) k = if key c = k then some (val c) else get key val l k := by
  unfold get
  by_cases h : key c = k <;> simp [h]

theorem get_eq_none {k : κ} : get key val l k = none ↔ ∀ c ∈ l, key c ≠ k := by
  simp [get]

theorem get_append_of_ne {k : κ} (h : ∀ c ∈ l₁, key c ≠ k) :
    get key val (l₁ ++ l₂) k = get key val l₂ k := by
  induction l₁ with
  | nil => rfl
  | cons c l₁ ih =>
    rw [List.cons_append, get_cons, if_neg (h c List.mem_cons_self)]
    exact ih fun x hx => h x (List.mem_cons_of_mem _ hx)

/-- An entry is put behind entries with other keys; none or one with its key comes behind it. -/
theorem get_insert {c : χ} {rest : List χ} (h : ∀ x ∈ l₁, key x ≠ key c)
    (hrest : ∀ k, k ≠ key c → get key val rest k = get key val l₂ k) :
    get key val (l₁ ++ c :: rest) =
      Function.update (get key val (l₁ ++ l₂)) (key c) (some (val c)) := by
  funext k
  by_cases hk : k = key c
  · subst hk
    rw [get_append_of_ne h, get_cons, if_pos rfl, Function.update_self]
  · rw [Function.update_of_ne hk]
    clear h
    induction l₁ with
    | nil => rw [List.nil_append, List.nil_append, get_cons, if_neg (Ne.symm hk), hrest k hk]
    | cons x l₁ ih => rw [List.cons_append, List.cons_append, get_cons, get_cons, ih]

theorem get_add {c : χ} (h : ∀ x ∈ l₁, key x ≠ key c) : get key val (l₁ ++ c :: l₂) =
    Function.update (get key val (l₁ ++ l₂)) (key c) (some (val c)) :=
  get_insert h fun _ _ => rfl

theorem get_replace {c c' : χ} (h : ∀ x ∈ l₁, key x ≠ key c) (hc : key c' = key c) :
    get key val (l₁ ++ c :: l₂) =
      Function.update (get key val (l₁ ++ c' :: l₂)) (key c) (some (val c)) := by
  refine get_insert h fun k hk => ?_
  rw [get_cons, if_neg]
  rw [hc]
  exact Ne.symm hk

end Get

/-! ## Sorted lists -/

section Sorted
variable [LinearOrder κ]

/-- The keys grow along the list, so that no two entries have the same. -/
def Sorted (key : χ → κ) (l : List χ) : Prop := l.Pairwise fun a b => key a < key b

theorem Sorted.lt_of_head {k : κ} (h : Sorted key l) (hhead : ∀ x ∈ l.head?, k < key x) :
    ∀ x ∈ l, k < key x := by
  cases l with
  | nil => simp
  | cons y l =>
    intro x hx
    have hy := hhead y rfl
    rcases List.mem_cons.mp hx with rfl | hx
    · exact hy
    · exact hy.trans ((List.pairwise_cons.mp h).1 x hx)

theorem Sorted.append_right (h : Sorted key (l₁ ++ l₂)) : Sorted key l₂ :=
  (List.pairwise_append.mp h).2.1

theorem Sorted.add {c : χ} (h : Sorted key (l₁ ++ l₂)) (hbefore : ∀ x ∈ l₁, key x < key c)
    (hbehind : ∀ x ∈ l₂.head?, key c < key x) : Sorted key (l₁ ++ c :: l₂) := by
  have hall := h.append_right.lt_of_head hbehind
  unfold Sorted at *
  rw [List.pairwise_append] at h
  obtain ⟨h₁, h₂, hacross⟩ := h
  rw [List.pairwise_append, List.pairwise_cons]
  refine ⟨h₁, ⟨hall, h₂⟩, fun x hx y hy => ?_⟩
  rcases List.mem_cons.mp hy with rfl | hy
  · exact hbefore x hx
  · exact hacross x hx y hy

theorem Sorted.replace {c c' : χ} (h : Sorted key (l₁ ++ c :: l₂)) (hc : key c' = key c) :
    Sorted key (l₁ ++ c' :: l₂) := by
  unfold Sorted at *
  simpa only [List.pairwise_append, List.pairwise_cons, List.mem_cons, forall_eq_or_imp, hc] using h

theorem Sorted.filter (h : Sorted key l) (p : χ → Bool) : Sorted key (l.filter p) :=
  List.Pairwise.filter p h

theorem Sorted.eq_of_key {c c' : χ} (h : Sorted key l) (hc : c ∈ l) (hc' : c' ∈ l)
    (hkey : key c = key c') : c = c' := by
  induction l with
  | nil => simp at hc
  | cons x l ih =>
    obtain ⟨hx, hl⟩ := List.pairwise_cons.mp h
    rcases List.mem_cons.mp hc with rfl | hmem <;> rcases List.mem_cons.mp hc' with rfl | hmem'
    · rfl
    · exact absurd hkey (hx c' hmem').ne
    · exact absurd hkey (hx c hmem).ne'
    · exact ih hl hmem hmem'

theorem Sorted.get_of_mem {c : χ} (h : Sorted key l) (hc : c ∈ l) :
    get key val l (key c) = some (val c) := by
  cases hget : get key val l (key c) with
  | none => exact absurd rfl (get_eq_none.mp hget c hc)
  | some v =>
    obtain ⟨c', hfind, rfl⟩ := Option.map_eq_some_iff.mp hget
    have hkey : key c' = key c := by simpa using List.find?_some hfind
    rw [h.eq_of_key (List.mem_of_find?_eq_some hfind) hc hkey]

theorem Sorted.get_eq_some {k : κ} {v : ν} (h : Sorted key l) :
    get key val l k = some v ↔ ∃ c ∈ l, key c = k ∧ val c = v := by
  constructor
  · intro hget
    obtain ⟨c, hfind, hval⟩ := Option.map_eq_some_iff.mp hget
    exact ⟨c, List.mem_of_find?_eq_some hfind, by simpa using List.find?_some hfind, hval⟩
  · rintro ⟨c, hc, rfl, rfl⟩
    exact h.get_of_mem hc

theorem Sorted.get_filter (h : Sorted key l) (p : ν → Bool) (k : κ) :
    get key val (l.filter fun c => p (val c)) k = (get key val l k).filter p := by
  ext v
  rw [(h.filter _).get_eq_some, Option.filter_eq_some_iff, h.get_eq_some]
  constructor
  · rintro ⟨c, hc, hkey, rfl⟩
    obtain ⟨hc, hp⟩ := List.mem_filter.mp hc
    exact ⟨⟨c, hc, hkey, rfl⟩, hp⟩
  · rintro ⟨⟨c, hc, hkey, rfl⟩, hp⟩
    exact ⟨c, List.mem_filter.mpr ⟨hc, hp⟩, hkey, rfl⟩

end Sorted

end Keyed
