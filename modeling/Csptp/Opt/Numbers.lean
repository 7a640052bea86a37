import Csptp.Opt.Calls

/-! # Numbers of options

What `parseInt` finds lies within the limits of its record, and it finds the first name of an enumerator
that fits. It is undefined only when the search for a name reaches the largest number. -/
namespace Csptp
open Octets
set_option autoImplicit false

variable {φ : Type} {func : ℤ → Option (List Octet)} {scmp : List Octet → List Octet → ℤ}
  {s : List Octet} {r : OptRec φ} {fl : OptFlags}

/-! ## Names -/

theorem strcmp_eq_zero {s t : List Octet} : strcmp s t = 0 ↔ s = t := by
  induction s generalizing t with
  | nil => cases t <;> simp [strcmp]
  | cons a s ih =>
    cases t with
    | nil => simp [strcmp]
    | cons b t =>
      rw [strcmp, List.cons.injEq]
      split
      · rename_i hab
        rw [ih]
        simp [hab]
      · rename_i hab
        split <;> simp [hab]

theorem strcasecmp_eq_zero {s t : List Octet} : strcasecmp s t = 0 ↔ s.map tolower = t.map tolower :=
  strcmp_eq_zero

/-- The number has this name. -/
def Named (func : ℤ → Option (List Octet)) (scmp : List Octet → List Octet → ℤ) (s : List Octet)
    (i : ℤ) : Prop := ∃ a, func i = some a ∧ scmp s a = 0

theorem any_iff_named (i : ℤ) :
    (func i).any (fun a => scmp s a = 0) = true ↔ Named func scmp s i := by
  rw [Named, Option.any_eq_true]
  simp

/-- The search for a name finds the first number with this name, or none. -/
theorem findEnum_spec (func : ℤ → Option (List Octet)) (scmp : List Octet → List Octet → ℤ)
    (s : List Octet) (max : ℤ) (n : ℕ) (i : ℤ) :
    (∃ j, i ≤ j ∧ j < i + n ∧ Named func scmp s j ∧ (∀ k, i ≤ k → k < j → ¬ Named func scmp s k) ∧
      findEnum func scmp s max n i = some (some j)) ∨
    ((∀ j, i ≤ j → j < i + n → ¬ Named func scmp s j) ∧
      findEnum func scmp s max n i = if max < int64Max then some none else none) := by
  induction n generalizing i with
  | zero => exact .inr ⟨fun j hj hj' => absurd hj' (by omega), rfl⟩
  | succ n ih =>
    rw [findEnum]
    by_cases hi : Named func scmp s i
    · rw [if_pos ((any_iff_named i).mpr hi)]
      exact .inl ⟨i, le_rfl, by omega, hi, fun k hk hk' => absurd hk' (by omega), rfl⟩
    · rw [if_neg fun h => hi ((any_iff_named i).mp h)]
      rcases ih (i + 1) with ⟨j, hle, hlt, hj, hmin, hfind⟩ | ⟨hno, hfind⟩
      · refine .inl ⟨j, by omega, by omega, hj, fun k hk hk' => ?_, hfind⟩
        rcases eq_or_lt_of_le hk with rfl | hlt'
        · exact hi
        · exact hmin k (by omega) hk'
      · refine .inr ⟨fun j hle hlt => ?_, hfind⟩
        rcases eq_or_lt_of_le hle with rfl | hlt'
        · exact hi
        · exact hno j (by omega) (by omega)

/-! ## Limits -/

/-- How the names of an enumerator are compared. -/
def nameCmp (fl : OptFlags) : List Octet → List Octet → ℤ :=
  if fl &&& optCaseCmp ≠ 0 then strcmp else strcasecmp

/-- The string is not compared with the name of the largest number there is. -/
def NameSearchEnds (r : OptRec φ) (s : List Octet) (fl : OptFlags) : Prop :=
  r.type = .enum → toInt64 s = none → ∀ func, r.func = some func → r.max.i < int64Max ∨
    ∃ i, r.min.i ≤ i ∧ i ≤ r.max.i ∧ Named func (nameCmp fl) s i

theorem parseInt_defined (h : NameSearchEnds r s fl) : ∃ i, parseInt r s fl = some i := by
  rw [parseInt]
  split
  · split <;> exact ⟨_, rfl⟩
  · rename_i henum
    split
    · exact ⟨_, rfl⟩
    · rename_i hno
      split
      · exact ⟨_, rfl⟩
      · rename_i func hfunc
        change ∃ i, findEnum func (nameCmp fl) s r.max.i _ _ = some i
        rcases findEnum_spec func (nameCmp fl) s r.max.i (r.max.i - r.min.i + 1).toNat r.min.i with
          ⟨j, -, -, -, -, hfind⟩ | ⟨hall, hfind⟩
        · exact ⟨_, hfind⟩
        · rcases h henum hno func hfunc with hmax | ⟨i, hmin, hmax, hi⟩
          · exact ⟨_, by rw [hfind, if_pos hmax]⟩
          · exact absurd hi (hall i hmin (by omega))
  · exact ⟨_, rfl⟩
  · exact ⟨_, rfl⟩

/-- A number within the limits of its record. -/
def InLimits (r : OptRec φ) (i : ℤ) : Prop :=
  match r.type with
  | .int => r.min.i ≤ i ∧ i ≤ r.max.i
  | .enum => r.min.i ≤ i ∧ i ≤ r.max.i
  | .bool => i = 0 ∨ i = 1
  | _ => True

theorem parseBool_eq {i : ℤ} (h : parseBool s = some i) : i = 0 ∨ i = 1 := by
  rw [parseBool] at h
  split at h
  · split at h
    · exact .inl (Option.some.inj h).symm
    · exact .inr (Option.some.inj h).symm
  · split at h
    · exact .inl (Option.some.inj h).symm
    · split at h
      · exact .inr (Option.some.inj h).symm
      · exact absurd h (by simp)

theorem inLimits_of_parseInt {i : ℤ} (h : parseInt r s fl = some (some i)) : InLimits r i := by
  have hrange {j : ℤ} (hj : (if j < r.min.i ∨ j > r.max.i then none else some j) = some i) :
      r.min.i ≤ i ∧ i ≤ r.max.i := by
    split at hj
    · exact absurd hj (by simp)
    · cases hj
      omega
  rw [parseInt] at h
  split at h
  · rename_i htype
    rw [InLimits, htype]
    split at h
    · exact absurd h (by simp)
    · exact hrange (Option.some.inj h)
  · rename_i htype
    rw [InLimits, htype]
    split at h
    · exact hrange (Option.some.inj h)
    · split at h
      · exact absurd h (by simp)
      · rename_i func hfunc
        change findEnum func (nameCmp fl) s r.max.i _ _ = some (some i) at h
        rcases findEnum_spec func (nameCmp fl) s r.max.i (r.max.i - r.min.i + 1).toNat r.min.i with
          ⟨j, hle, hlt, -, -, hfind⟩ | ⟨-, hfind⟩
        · rw [hfind] at h
          cases h
          exact ⟨hle, by omega⟩
        · rw [hfind] at h
          split at h <;> exact absurd h (by simp)
  · rename_i htype
    rw [InLimits, htype]
    exact parseBool_eq (Option.some.inj h)
  · exact absurd h (by simp)

theorem not_numeric_of_str [LongDouble φ] {r : OptRec φ} {s : Option CStr} {fl : OptFlags} {i : ℤ}
    (hstr : r.type = .str) : ¬ Numeric r s fl i := by
  intro hi
  cases hi with
  | inverse hdef => exact absurd (hdef.1.symm.trans hstr) (by simp)
  | text _ _ _ hi =>
    rw [parseInt, hstr] at hi
    exact absurd hi (by simp)

theorem inLimits_of_numeric [LongDouble φ] {s : Option CStr} {i : ℤ} (h : Numeric r s fl i) :
    InLimits r i := by
  cases h with
  | inverse hdef =>
    rw [InLimits, hdef.1]
    dsimp only
    split
    · exact .inr rfl
    · exact .inl rfl
  | text _ _ _ hi => exact inLimits_of_parseInt hi

end Csptp
