import Csptp.Opt.Main
import Mathlib.Data.Nat.Digits.Lemmas

/-! # Integer literals

A constant is a decimal, an octal or a hexadecimal one, and a literal is a constant behind blanks and a
sign. A string that is not empty is a number for `toInt64` if and only if it is a literal and the number
has 64 bits. -/
namespace Csptp
open Octets
set_option autoImplicit false

/-! ## Constants -/

/-- The number with these digits, the first of which is the highest. -/
def numeral (base : ℕ) (ds : List Octet) : ℕ := Nat.ofDigits base (ds.map digitVal).reverse

/-- The integer constants of C, without a suffix. -/
inductive Constant : List Octet → ℕ → Prop
  | decimal {c : Octet} {ds : List Octet} (hc : c ≠ 0x30) (h : ∀ d ∈ c :: ds, digitVal d < 10) :
      Constant (c :: ds) (numeral 10 (c :: ds))
  | octal {ds : List Octet} (h : ∀ d ∈ ds, digitVal d < 8) : Constant (0x30 :: ds) (numeral 8 ds)
  | hexadecimal {x : Octet} {ds : List Octet} (hx : tolower x = 0x78) (hne : ds ≠ [])
      (h : ∀ d ∈ ds, digitVal d < 16) : Constant (0x30 :: x :: ds) (numeral 16 ds)

/-- A sign, or none, with the number that it makes of another one. -/
inductive Signed : List Octet → ℕ → ℤ → Prop
  | none (n : ℕ) : Signed [] n n
  | plus (n : ℕ) : Signed [0x2b] n n
  | minus (n : ℕ) : Signed [0x2d] n (-n)

/-- A literal: blanks, a sign and a constant. -/
def Literal (s : List Octet) (i : ℤ) : Prop := ∃ w sign t n, s = w ++ (sign ++ t) ∧
  (∀ c ∈ w, isspace c = true) ∧ Constant t n ∧ Signed sign n i

section Digits
variable {base : ℕ} {ds : List Octet}

theorem readDigits_all (h : ∀ d ∈ ds, digitVal d < base) (n : ℕ) : readDigits base n ds =
    ((ds.map digitVal).foldl (fun n d => d + base * n) n, []) := by
  induction ds generalizing n with
  | nil => rfl
  | cons c ds ih =>
    rw [readDigits, if_pos (h c List.mem_cons_self), ih fun d hd => h d (List.mem_cons_of_mem _ hd),
      List.map_cons, List.foldl_cons, Nat.add_comm, Nat.mul_comm]

theorem readDigits_numeral (h : ∀ d ∈ ds, digitVal d < base) :
    readDigits base 0 ds = (numeral base ds, []) := by
  rw [readDigits_all h, numeral, Nat.ofDigits_eq_foldr, List.foldr_reverse]
  rfl

/-- Nothing is left when all are digits. -/
theorem readDigits_rest {n : ℕ} (h : (readDigits base n ds).2 = []) : ∀ d ∈ ds, digitVal d < base := by
  induction ds generalizing n with
  | nil => intro d hd; exact absurd hd List.not_mem_nil
  | cons c ds ih =>
    rw [readDigits] at h
    split at h
    · rename_i hc
      exact List.forall_mem_cons.mpr ⟨hc, ih h⟩
    · exact absurd h (by simp)

theorem readDigits_iff (n : ℕ) : readDigits base 0 ds = (n, []) ↔
    (∀ d ∈ ds, digitVal d < base) ∧ n = numeral base ds := by
  constructor
  · intro h
    have hall := readDigits_rest (congrArg Prod.snd h)
    rw [readDigits_numeral hall] at h
    exact ⟨hall, (Prod.mk.inj h).1.symm⟩
  · rintro ⟨hall, rfl⟩
    exact readDigits_numeral hall

end Digits

/-! ## What `strtoll` reads -/

/-- The constant that `strtoll` reads behind blanks and the sign, when it reads to the end. -/
def readConstant (t : List Octet) : Option ℕ :=
  let b := readBase t
  let r := readDigits b.1 0 b.2
  if digitVal (b.2.headD 0) < b.1 ∧ r.2 = [] then some r.1 else none

theorem readConstant_iff {t : List Octet} {n : ℕ} : readConstant t = some n ↔
    digitVal ((readBase t).2.headD 0) < (readBase t).1 ∧
      (∀ d ∈ (readBase t).2, digitVal d < (readBase t).1) ∧
        n = numeral (readBase t).1 (readBase t).2 := by
  have hread : (readDigits (readBase t).1 0 (readBase t).2).2 = [] ∧
      (readDigits (readBase t).1 0 (readBase t).2).1 = n ↔
        readDigits (readBase t).1 0 (readBase t).2 = (n, []) := by
    rw [Prod.ext_iff, and_comm]
  rw [← readDigits_iff, ← hread, readConstant]
  simp [and_assoc]

theorem numeral_zero (base : ℕ) (ds : List Octet) : numeral base (0x30 :: ds) = numeral base ds := by
  have hzero : digitVal 0x30 = 0 := by decide
  rw [numeral, numeral, List.map_cons, List.reverse_cons, Nat.ofDigits_append, hzero]
  simp

theorem digitVal_x {x : Octet} (h : tolower x = 0x78) : ¬ digitVal x < 8 := by
  have hall : ∀ x : Octet, tolower x = 0x78 → ¬ digitVal x < 8 := by decide +kernel
  exact hall x h

/-- A constant is what `strtoll` reads as one. -/
theorem constant_iff {t : List Octet} {n : ℕ} : Constant t n ↔ readConstant t = some n := by
  rw [readConstant_iff]
  have hzero : digitVal 0x30 < 8 := by decide
  constructor
  · rintro (⟨hc, h⟩ | h | ⟨hx, hne, h⟩)
    · rename_i c ds
      have hbase : readBase (c :: ds) = (10, c :: ds) := by
        cases ds with
        | nil => rw [readBase, if_neg hc]
        | cons x ds => rw [readBase, if_neg hc]
      rw [hbase]
      exact ⟨h c List.mem_cons_self, h, rfl⟩
    · rename_i ds
      have hbase : readBase (0x30 :: ds) = (8, 0x30 :: ds) := by
        cases ds with
        | nil => rfl
        | cons x ds =>
          rw [readBase, if_pos rfl, if_neg fun hx => digitVal_x hx.1 (h x List.mem_cons_self)]
      rw [hbase]
      exact ⟨hzero, List.forall_mem_cons.mpr ⟨hzero, h⟩, (numeral_zero 8 ds).symm⟩
    · rename_i x ds
      obtain ⟨c, ds, rfl⟩ := List.exists_cons_of_ne_nil hne
      have hc := h c List.mem_cons_self
      rw [readBase, if_pos rfl, if_pos ⟨hx, hc⟩]
      exact ⟨hc, h, rfl⟩
  · rintro ⟨hfirst, hall, rfl⟩
    match t with
    | [] => exact absurd hfirst (by decide)
    | [c] =>
      rw [readBase] at hfirst hall ⊢
      split at hfirst
      · rename_i hc
        rw [if_pos hc, hc]
        rw [numeral_zero]
        exact .octal (by simp)
      · rename_i hc
        rw [if_neg hc] at hall ⊢
        exact .decimal hc hall
    | c :: x :: s =>
      rw [readBase] at hfirst hall ⊢
      by_cases hc : c = 0x30
      · rw [if_pos hc] at hfirst hall ⊢
        subst hc
        by_cases hx : tolower x = 0x78 ∧ digitVal (s.headD 0) < 16
        · rw [if_pos hx] at hall ⊢
          refine .hexadecimal hx.1 (fun hs => ?_) hall
          rw [hs] at hx
          exact absurd hx.2 (by decide)
        · rw [if_neg hx] at hall ⊢
          rw [numeral_zero]
          exact .octal (List.forall_mem_cons.mp hall).2
      · rw [if_neg hc] at hall ⊢
        exact .decimal hc hall

/-! ## Literals -/

/-- The literal that `strtoll` reads, when it reads to the end. -/
def readLiteral (s : List Octet) : Option ℤ :=
  let sign := readSign (s.dropWhile isspace)
  (readConstant sign.2).map fun (n : ℕ) => if sign.1 then -(n : ℤ) else (n : ℤ)

theorem constant_first {t : List Octet} {n : ℕ} (h : Constant t n) :
    ∃ c ds, t = c :: ds ∧ digitVal c < 10 := by
  cases h with
  | decimal hc h => exact ⟨_, _, rfl, h _ List.mem_cons_self⟩
  | octal h => exact ⟨_, _, rfl, by decide⟩
  | hexadecimal hx hne h => exact ⟨_, _, rfl, by decide⟩

/-- A digit is neither a blank nor a sign. -/
theorem digit_range {c : Octet} (h : digitVal c < 10) : 0x30 ≤ c.toNat ∧ c.toNat ≤ 0x39 := by
  rw [digitVal] at h
  split at h
  · assumption
  · split at h
    · omega
    · split at h <;> omega

theorem dropWhile_blanks {w t : List Octet} {c : Octet} (hw : ∀ c ∈ w, isspace c = true)
    (hc : isspace c = false) : (w ++ c :: t).dropWhile isspace = c :: t := by
  rw [List.dropWhile_append_of_pos hw, List.dropWhile_cons_of_neg (by simp [hc])]

/-- What `readSign` takes away is a sign, or nothing. -/
theorem readSign_signed (u : List Octet) : ∃ sign, u = sign ++ (readSign u).2 ∧
    ∀ n : ℕ, Signed sign n (if (readSign u).1 then -(n : ℤ) else (n : ℤ)) := by
  cases u with
  | nil => exact ⟨[], rfl, .none⟩
  | cons c u =>
    rw [readSign]
    split
    · rename_i hc
      exact ⟨[0x2d], by rw [hc]; rfl, .minus⟩
    · split
      · rename_i hc
        exact ⟨[0x2b], by rw [hc]; rfl, .plus⟩
      · exact ⟨[], rfl, .none⟩

/-- A literal is what `strtoll` reads as one. -/
theorem literal_iff {s : List Octet} {i : ℤ} : Literal s i ↔ readLiteral s = some i := by
  constructor
  · rintro ⟨w, sign, t, n, rfl, hw, ht, hsign⟩
    have hread := constant_iff.mp ht
    obtain ⟨c, ds, rfl, hc⟩ := constant_first ht
    have hc := digit_range hc
    rw [readLiteral]
    cases hsign with
    | none =>
      have hblank : isspace c = false := by
        rw [isspace, Bool.or_eq_false_iff, decide_eq_false_iff_not]
        refine ⟨fun h => ?_, by simp; omega⟩
        rw [h] at hc
        exact absurd hc (by decide)
      have hsign : readSign (c :: ds) = (false, c :: ds) := by
        rw [readSign, if_neg, if_neg]
        · rintro rfl
          exact absurd hc (by decide)
        · rintro rfl
          exact absurd hc (by decide)
      rw [List.nil_append, dropWhile_blanks hw hblank, hsign, hread]
      rfl
    | plus =>
      rw [List.singleton_append, dropWhile_blanks hw (by decide), readSign, if_neg (by decide), if_pos rfl,
        hread]
      rfl
    | minus =>
      rw [List.singleton_append, dropWhile_blanks hw (by decide), readSign, if_pos rfl, hread]
      rfl
  · intro h
    rw [readLiteral, Option.map_eq_some_iff] at h
    obtain ⟨n, hn, hi⟩ := h
    have hw : ∀ c ∈ s.takeWhile isspace, isspace c = true := fun c hc => List.mem_takeWhile_imp hc
    obtain ⟨sign, hu, hsign⟩ := readSign_signed (s.dropWhile isspace)
    refine ⟨s.takeWhile isspace, sign, _, n, ?_, hw, constant_iff.mpr hn, hi ▸ hsign n⟩
    rw [← hu, List.takeWhile_append_dropWhile]

theorem literal_unique {s : List Octet} {i j : ℤ} (hi : Literal s i) (hj : Literal s j) : i = j :=
  Option.some.inj ((literal_iff.mp hi).symm.trans (literal_iff.mp hj))

/-- A number with 64 bits. -/
def IsInt64 (i : ℤ) : Prop := int64Min ≤ i ∧ i ≤ int64Max

theorem in_range_iff (n i : ℤ) : (if int64Min ≤ n ∧ n ≤ int64Max then some n else none) = some i ↔
    some n = some i ∧ IsInt64 i := by
  rw [Option.some_inj]
  split
  · rename_i hrange
    rw [Option.some_inj, iff_self_and]
    rintro rfl
    exact hrange
  · rename_i hrange
    refine ⟨fun h => absurd h (by simp), fun h => ?_⟩
    rw [h.1] at hrange
    exact absurd h.2 hrange

/-- `toInt64` takes the literals of numbers with 64 bits. -/
theorem toInt64_iff {s : List Octet} {i : ℤ} (hs : s ≠ []) :
    toInt64 s = some i ↔ Literal s i ∧ IsInt64 i := by
  rw [literal_iff, toInt64, strtoll, readLiteral, readConstant]
  dsimp only
  split
  · rename_i hfirst
    dsimp only
    split
    · rename_i hrest
      rw [if_pos (And.intro hfirst hrest), Option.map_some]
      exact in_range_iff _ _
    · rename_i hrest
      rw [if_neg fun h => hrest h.2]
      simp
  · rename_i hfirst
    rw [if_neg fun h => hfirst h.1]
    simp

/-- A word that begins with a letter is no literal. -/
theorem literal_first {s t : List Octet} {c : Octet} {i : ℤ} (h : Literal s i)
    (hs : s.map tolower = c :: t) : c.toNat < 0x41 := by
  have hblank : ∀ c : Octet, isspace c = true → (tolower c).toNat < 0x41 := by decide +kernel
  have hdigit : ∀ c : Octet, digitVal c < 10 → (tolower c).toNat < 0x41 := by decide +kernel
  obtain ⟨w, sign, u, n, rfl, hw, hu, hsign⟩ := h
  cases w with
  | cons a w =>
    cases hs
    exact hblank a (hw a List.mem_cons_self)
  | nil =>
    obtain ⟨d, ds, rfl, hd⟩ := constant_first hu
    cases hsign with
    | none =>
      cases hs
      exact hdigit d hd
    | plus =>
      cases hs
      decide
    | minus =>
      cases hs
      decide

/-! ## Decimal numbers -/

def decimal (n : ℕ) : List Octet := (Nat.digits 10 n).reverse.map fun d => BitVec.ofNat 8 (0x30 + d)

theorem digitVal_decimal {n d : ℕ} (h : d ∈ Nat.digits 10 n) :
    digitVal (BitVec.ofNat 8 (0x30 + d)) = d ∧ (BitVec.ofNat 8 (0x30 + d) = 0x30 → d = 0) := by
  have hall : ∀ d < 10, digitVal (BitVec.ofNat 8 (0x30 + d)) = d ∧ (BitVec.ofNat 8 (0x30 + d) = 0x30 → d = 0) := by
    decide
  exact hall d (Nat.digits_lt_base (by decide) h)

theorem numeral_decimal (n : ℕ) : numeral 10 (decimal n) = n := by
  have hdigits : (Nat.digits 10 n).map (digitVal ∘ fun d => BitVec.ofNat 8 (0x30 + d)) = Nat.digits 10 n := by
    exact (List.map_congr_left fun d hd => (digitVal_decimal hd).1).trans (List.map_id _)
  rw [numeral, decimal, List.map_map, ← List.map_reverse, List.reverse_reverse, hdigits, Nat.ofDigits_digits]

theorem decimal_ne_nil {n : ℕ} (hn : n ≠ 0) : decimal n ≠ [] := by
  rw [decimal, ne_eq, List.map_eq_nil_iff, List.reverse_eq_nil_iff]
  exact Nat.digits_ne_nil_iff_ne_zero.mpr hn

theorem constant_decimal {n : ℕ} (hn : n ≠ 0) : Constant (decimal n) n := by
  have hne : Nat.digits 10 n ≠ [] := Nat.digits_ne_nil_iff_ne_zero.mpr hn
  have hall : ∀ c ∈ decimal n, digitVal c < 10 := by
    intro c hc
    obtain ⟨d, hd, rfl⟩ := List.mem_map.mp hc
    rw [List.mem_reverse] at hd
    rw [(digitVal_decimal hd).1]
    exact Nat.digits_lt_base (by decide) hd
  obtain ⟨c, cs, hcs⟩ : ∃ c cs, decimal n = c :: cs := List.exists_cons_of_ne_nil (decimal_ne_nil hn)
  -- The highest digit is not zero, so this is no octal constant.
  have hfirst : c ≠ 0x30 := by
    have hlast : c = BitVec.ofNat 8 (0x30 + (Nat.digits 10 n).getLast hne) := by
      have hhead := congrArg List.head? hcs
      rw [decimal, List.head?_map, List.head?_reverse, List.getLast?_eq_getLast_of_ne_nil hne] at hhead
      exact (Option.some.inj hhead).symm
    rw [hlast]
    intro hzero
    exact Nat.getLast_digit_ne_zero 10 hn ((digitVal_decimal (List.getLast_mem hne)).2 hzero)
  have hconstant := Constant.decimal hfirst (hcs ▸ hall)
  rwa [← hcs, numeral_decimal] at hconstant

theorem toInt64_decimal {n : ℕ} (hn : n ≠ 0) (hmax : (n : ℤ) ≤ int64Max) : toInt64 (decimal n) = some (n : ℤ) := by
  have hmin : int64Min ≤ (n : ℤ) := le_trans (by decide) (Int.natCast_nonneg n)
  refine (toInt64_iff (decimal_ne_nil hn)).mpr ⟨⟨[], [], decimal n, n, rfl, ?_, constant_decimal hn, .none n⟩, hmin, hmax⟩
  exact fun c hc => absurd hc List.not_mem_nil

end Csptp
