import Csptp.Opt.Owning
import Csptp.Opt.Literals
import Mathlib.Data.Int.LeastGreatest

/-! # Values that strings denote

The strings that a numeric option ought to take, and the values they stand for. The code takes these
strings, with three exceptions. -/
namespace Csptp
open Octets
set_option autoImplicit false

variable {φ : Type} {r : OptRec φ} {fl : OptFlags} {s : List Octet} {i j : ℤ}

/-! ## What a string denotes -/

def falseWords : List String := ["false", "no", "off", "none", "null"]
def trueWords : List String := ["true", "yes", "on"]

/-- Equal, or equal up to the case of letters. -/
def SameName (fl : OptFlags) (s a : List Octet) : Prop :=
  if fl &&& optCaseCmp ≠ 0 then s = a else s.map tolower = a.map tolower

def InRange (r : OptRec φ) (i : ℤ) : Prop := r.min.i ≤ i ∧ i ≤ r.max.i

/-- A number of the record has this name. -/
def HasName (r : OptRec φ) (fl : OptFlags) (s : List Octet) (i : ℤ) : Prop :=
  InRange r i ∧ ∃ func a, r.func = some func ∧ func i = some a ∧ SameName fl s a

/-- The value that a string denotes for a record. -/
def Denotes (r : OptRec φ) (fl : OptFlags) (s : List Octet) (i : ℤ) : Prop :=
  match r.type with
  | .int => Literal s i ∧ InRange r i
  | .enum => Literal s i ∧ InRange r i ∨
      (¬ ∃ j, Literal s j ∧ InRange r j) ∧ HasName r fl s i ∧ ∀ j < i, ¬ HasName r fl s j
  | .bool => (∃ j, Literal s j ∧ i = if j = 0 then 0 else 1) ∨
      s.map tolower ∈ falseWords.map chars ∧ i = 0 ∨ s.map tolower ∈ trueWords.map chars ∧ i = 1
  | _ => False

/-- The strings that the code parses as it should: a boolean is not the word whose letters the code
swaps, nor a literal of more than 64 bits; the name of an enumerator is no number out of its range. -/
structure Plain (r : OptRec φ) (fl : OptFlags) (s : List Octet) : Prop where
  word : r.type = .bool → s.map tolower ≠ chars "false" ∧ s.map tolower ≠ chars "flase"
  literal : r.type = .bool → ∀ i, Literal s i → IsInt64 i
  name : r.type = .enum → ∀ i, Literal s i → IsInt64 i → ¬ InRange r i → ∀ j, ¬ HasName r fl s j

/-! ## Words -/

theorem any_word {l : List String} (hl : ∀ a ∈ l, (chars a).map tolower = chars a) :
    l.any (fun a => strcasecmp s (chars a) = 0) = true ↔ s.map tolower ∈ l.map chars := by
  simp only [List.any_eq_true, decide_eq_true_eq, List.mem_map, strcasecmp_eq_zero]
  constructor
  · rintro ⟨a, ha, h⟩
    exact ⟨a, ha, by rw [h, hl a ha]⟩
  · rintro ⟨a, ha, h⟩
    exact ⟨a, ha, by rw [hl a ha, h]⟩

/-- The words of a boolean are no literals. -/
theorem word_not_literal {l : List String} (hl : ∀ a ∈ l, 0x41 ≤ ((chars a).headD 0).toNat)
    (hs : s.map tolower ∈ l.map chars) : ¬ Literal s i := by
  intro h
  rw [List.mem_map] at hs
  obtain ⟨a, ha, hs⟩ := hs
  have hfirst := hl a ha
  cases hchars : chars a with
  | nil =>
    rw [hchars] at hfirst
    exact absurd hfirst (by decide)
  | cons c t =>
    rw [hchars] at hs hfirst
    exact absurd (literal_first h hs.symm) (by simpa using hfirst)

/-- The code reads the words for false, except that it swaps letters in one of them. -/
theorem false_word_iff (hs : s.map tolower ≠ chars "false" ∧ s.map tolower ≠ chars "flase") :
    s.map tolower ∈ falseNames.map chars ↔ s.map tolower ∈ falseWords.map chars := by
  simp [falseNames, falseWords, hs.1, hs.2]

theorem true_word_iff : s.map tolower ∈ trueNames.map chars ↔ s.map tolower ∈ trueWords.map chars := by
  simp only [trueNames, trueWords, List.map_cons, List.map_nil, List.mem_cons]
  tauto

theorem parseBool_literal (hs : s ≠ []) (h : Literal s j) (hj : IsInt64 j) :
    parseBool s = some (if j = 0 then 0 else 1) := by
  rw [parseBool, (toInt64_iff hs).mpr ⟨h, hj⟩]

theorem parseBool_word (hno : toInt64 s = none) : parseBool s =
    if s.map tolower ∈ falseNames.map chars then some 0
    else if s.map tolower ∈ trueNames.map chars then some 1 else none := by
  have hfalse : (falseNames.any fun a => strcasecmp s (chars a) = 0) = true ↔
      s.map tolower ∈ falseNames.map chars := any_word (by decide)
  have htrue : (trueNames.any fun a => strcasecmp s (chars a) = 0) = true ↔
      s.map tolower ∈ trueNames.map chars := any_word (by decide)
  rw [parseBool, hno]
  dsimp only
  simp only [hfalse, htrue]

/-! ## Each type -/

/-- What the code finds is what the string denotes. -/
def Reads (r : OptRec φ) (fl : OptFlags) (s : List Octet) : Prop :=
  ∃ o, parseInt r s fl = some o ∧ ∀ i, Denotes r fl s i ↔ o = some i

/-- The limits of a record are numbers of 64 bits, and one more fits. -/
def BoundsInt64 (r : OptRec φ) : Prop := int64Min ≤ r.min.i ∧ r.max.i < int64Max

theorem isInt64_of_inRange (hr : BoundsInt64 r) (h : InRange r i) : IsInt64 i :=
  ⟨hr.1.trans h.1, h.2.trans hr.2.le⟩

theorem inRange_iff : ¬ (i < r.min.i ∨ i > r.max.i) ↔ InRange r i := by
  rw [InRange]
  omega

theorem limited_iff : (if i < r.min.i ∨ i > r.max.i then none else some i) = some j ↔
    i = j ∧ InRange r i := by
  rw [← inRange_iff]
  split
  · rename_i hout
    simp [hout]
  · rename_i hin
    simp [hin]

theorem reads_int (hs : s ≠ []) (hr : BoundsInt64 r) (htype : r.type = .int) : Reads r fl s := by
  have hdenotes (i : ℤ) : Denotes r fl s i ↔ Literal s i ∧ InRange r i := by rw [Denotes, htype]
  simp only [Reads, hdenotes, parseInt, htype]
  cases hread : toInt64 s with
  | none =>
    refine ⟨none, rfl, fun i => iff_of_false (fun h => ?_) (by simp)⟩
    have hsome := (toInt64_iff hs).mpr ⟨h.1, isInt64_of_inRange hr h.2⟩
    exact absurd (hread.symm.trans hsome) (by simp)
  | some j =>
    have hj := ((toInt64_iff hs).mp hread).1
    refine ⟨_, rfl, fun i => ?_⟩
    rw [limited_iff]
    constructor
    · rintro ⟨hi, hin⟩
      obtain rfl := literal_unique hi hj
      exact ⟨rfl, hin⟩
    · rintro ⟨rfl, hin⟩
      exact ⟨hj, hin⟩

theorem nameCmp_iff {a : List Octet} : nameCmp fl s a = 0 ↔ SameName fl s a := by
  rw [nameCmp, SameName]
  split
  · exact strcmp_eq_zero
  · exact strcasecmp_eq_zero

theorem hasName_iff {func : ℤ → Option (List Octet)} (hfunc : r.func = some func) :
    HasName r fl s i ↔ InRange r i ∧ Named func (nameCmp fl) s i := by
  simp only [HasName, Named, hfunc, nameCmp_iff, Option.some.injEq, exists_and_left, exists_eq_left']

/-- The search for a name finds the least number that has it. -/
theorem findEnum_name {func : ℤ → Option (List Octet)} (hfunc : r.func = some func) (hr : BoundsInt64 r) :
    ∃ o, findEnum func (nameCmp fl) s r.max.i (r.max.i - r.min.i + 1).toNat r.min.i = some o ∧
      ∀ i, (HasName r fl s i ∧ ∀ j < i, ¬ HasName r fl s j) ↔ o = some i := by
  simp only [hasName_iff hfunc, InRange]
  rcases findEnum_spec func (nameCmp fl) s r.max.i (r.max.i - r.min.i + 1).toNat r.min.i with
    ⟨k, hle, hlt, hk, hmin, hfind⟩ | ⟨hno, hfind⟩
  · have hkIn : r.min.i ≤ k ∧ k ≤ r.max.i := by omega
    refine ⟨_, hfind, fun i => ?_⟩
    rw [Option.some.injEq]
    constructor
    · rintro ⟨⟨hi, hnamed⟩, hleast⟩
      rcases lt_trichotomy k i with hlt | heq | hgt
      · exact absurd ⟨hkIn, hk⟩ (hleast k hlt)
      · exact heq
      · exact absurd hnamed (hmin i hi.1 hgt)
    · rintro rfl
      exact ⟨⟨hkIn, hk⟩, fun j hj hname => hmin j hname.1.1 hj hname.2⟩
  · refine ⟨none, by rw [hfind, if_pos hr.2], fun i => iff_of_false (fun h => ?_) (by simp)⟩
    exact hno i h.1.1.1 (by omega) h.1.2

/-- A name belongs to a least number. -/
theorem exists_least_name (h : HasName r fl s i) : ∃ i, HasName r fl s i ∧ ∀ j < i, ¬ HasName r fl s j := by
  obtain ⟨k, hk, hleast⟩ := Int.exists_least_of_bdd ⟨r.min.i, fun z hz => hz.1.1⟩ ⟨i, h⟩
  exact ⟨k, hk, fun j hj hname => absurd (hleast j hname) (by omega)⟩

theorem denotes_enum (htype : r.type = .enum) : Denotes r fl s i ↔ Literal s i ∧ InRange r i ∨
    (¬ ∃ j, Literal s j ∧ InRange r j) ∧ HasName r fl s i ∧ ∀ j < i, ¬ HasName r fl s j := by
  rw [Denotes, htype]

/-- Without an enumerator in the range, the least number with the name is meant. -/
theorem denotes_enum_name (htype : r.type = .enum) (hno : ¬ ∃ j, Literal s j ∧ InRange r j) :
    Denotes r fl s i ↔ HasName r fl s i ∧ ∀ j < i, ¬ HasName r fl s j := by
  rw [denotes_enum htype, or_iff_right fun hi => hno ⟨i, hi⟩, and_iff_right hno]

/-- The enumerator that `strtoll` finds is read unless it is out of the range and a name as well. -/
theorem reads_enum_literal {k : ℤ} (htype : r.type = .enum) (hread : toInt64 s = some k)
    (hk : Literal s k) : Reads r fl s ↔ InRange r k ∨ ∀ j, ¬ HasName r fl s j := by
  have hparse : parseInt r s fl = some (if k < r.min.i ∨ k > r.max.i then none else some k) := by
    rw [parseInt, htype]
    dsimp only
    rw [hread]
  rw [Reads, hparse]
  by_cases hin : InRange r k
  · refine iff_of_true ⟨_, rfl, fun i => ?_⟩ (.inl hin)
    rw [limited_iff, denotes_enum htype]
    constructor
    · rintro (⟨hi, -⟩ | ⟨hno, -⟩)
      · exact ⟨literal_unique hk hi, hin⟩
      · exact absurd ⟨k, hk, hin⟩ hno
    · rintro ⟨rfl, -⟩
      exact .inl ⟨hk, hin⟩
  · have hno : ¬ ∃ j, Literal s j ∧ InRange r j := by
      rintro ⟨j, hj, hjIn⟩
      rw [literal_unique hj hk] at hjIn
      exact hin hjIn
    simp only [denotes_enum_name htype hno]
    rw [or_iff_right hin]
    constructor
    · rintro ⟨o, ho, hall⟩ j hname
      cases ho
      obtain ⟨m, hm⟩ := exists_least_name hname
      exact hin (limited_iff.mp ((hall m).mp hm)).2
    · intro h
      exact ⟨_, rfl, fun i => iff_of_false (fun hi => h i hi.1) fun hi => hin (limited_iff.mp hi).2⟩

/-- Where `strtoll` finds no enumerator, names are read. -/
theorem reads_enum_name (hr : BoundsInt64 r) (htype : r.type = .enum) (hread : toInt64 s = none)
    (hno : ¬ ∃ j, Literal s j ∧ InRange r j) : Reads r fl s := by
  simp only [Reads, denotes_enum_name htype hno]
  cases hfunc : r.func with
  | none =>
    refine ⟨none, ?_, fun i => iff_of_false (fun h => ?_) (by simp)⟩
    · rw [parseInt, htype]
      dsimp only
      rw [hread, hfunc]
    · obtain ⟨⟨-, func, a, hsome, -⟩, -⟩ := h
      exact absurd (hfunc.symm.trans hsome) (by simp)
  | some func =>
    obtain ⟨o, ho, hall⟩ := @findEnum_name φ r fl s func hfunc hr
    refine ⟨o, ?_, hall⟩
    rw [parseInt, htype]
    dsimp only
    rw [hread, hfunc]
    exact ho

/-- An enumerator out of its range is not taken for a name. -/
theorem reads_enum (hs : s ≠ []) (hr : BoundsInt64 r) (htype : r.type = .enum) :
    Reads r fl s ↔ ∀ i, Literal s i → IsInt64 i → ¬ InRange r i → ∀ j, ¬ HasName r fl s j := by
  cases hread : toInt64 s with
  | some k =>
    have hk := (toInt64_iff hs).mp hread
    rw [reads_enum_literal htype hread hk.1]
    constructor
    · intro h i hi _ hout
      rw [literal_unique hi hk.1] at hout
      exact h.resolve_left hout
    · intro h
      by_cases hin : InRange r k
      · exact .inl hin
      · exact .inr (h k hk.1 hk.2 hin)
  | none =>
    have hno : ¬ ∃ j, Literal s j ∧ InRange r j := by
      rintro ⟨j, hj, hin⟩
      have hsome := (toInt64_iff hs).mpr ⟨hj, isInt64_of_inRange hr hin⟩
      exact absurd (hread.symm.trans hsome) (by simp)
    refine iff_of_true (reads_enum_name hr htype hread hno) fun i hi h64 _ => ?_
    exact absurd (hread.symm.trans ((toInt64_iff hs).mpr ⟨hi, h64⟩)) (by simp)

theorem denotes_bool (htype : r.type = .bool) : Denotes r fl s i ↔
    (∃ j, Literal s j ∧ i = if j = 0 then 0 else 1) ∨
      s.map tolower ∈ falseWords.map chars ∧ i = 0 ∨ s.map tolower ∈ trueWords.map chars ∧ i = 1 := by
  rw [Denotes, htype]

theorem parseInt_bool (htype : r.type = .bool) : parseInt r s fl = some (parseBool s) := by
  rw [parseInt, htype]

/-- A literal denotes a boolean, and no word does so too. -/
theorem denotes_bool_literal (htype : r.type = .bool) (hj : Literal s j) :
    Denotes r fl s i ↔ i = if j = 0 then 0 else 1 := by
  rw [denotes_bool htype]
  constructor
  · rintro (⟨k, hk, hi⟩ | ⟨hs, -⟩ | ⟨hs, -⟩)
    · rw [hi, literal_unique hk hj]
    · exact absurd hj (word_not_literal (by decide) hs)
    · exact absurd hj (word_not_literal (by decide) hs)
  · intro hi
    exact .inl ⟨j, hj, hi⟩

/-- A literal is read as a boolean unless it is too long. -/
theorem reads_bool_literal (hs : s ≠ []) (htype : r.type = .bool) (hj : Literal s j) :
    Reads r fl s ↔ IsInt64 j := by
  simp only [Reads, denotes_bool_literal htype hj, parseInt_bool htype]
  constructor
  · rintro ⟨o, ho, hall⟩
    by_contra h64
    have hno : toInt64 s = none := by
      rw [Option.eq_none_iff_forall_ne_some]
      intro k hk
      have hk := (toInt64_iff hs).mp hk
      rw [literal_unique hk.1 hj] at hk
      exact h64 hk.2
    rw [parseBool_word hno, if_neg fun h => word_not_literal (by decide) h hj,
      if_neg fun h => word_not_literal (by decide) h hj] at ho
    cases ho
    exact absurd ((hall _).mp rfl) (by simp)
  · intro h64
    refine ⟨_, congrArg some (parseBool_literal hs hj h64), fun i => ?_⟩
    rw [Option.some.injEq]
    exact eq_comm

/-- A string that is no literal is read as a boolean unless the code misspells it. -/
theorem reads_bool_word (hs : s ≠ []) (htype : r.type = .bool) (hno : ¬ ∃ j, Literal s j) :
    Reads r fl s ↔ s.map tolower ≠ chars "false" ∧ s.map tolower ≠ chars "flase" := by
  have hread : toInt64 s = none := by
    rw [Option.eq_none_iff_forall_ne_some]
    exact fun k hk => hno ⟨k, ((toInt64_iff hs).mp hk).1⟩
  have hdenotes (i : ℤ) : Denotes r fl s i ↔ s.map tolower ∈ falseWords.map chars ∧ i = 0 ∨
      s.map tolower ∈ trueWords.map chars ∧ i = 1 := by
    rw [denotes_bool htype, or_iff_right]
    rintro ⟨j, hj, -⟩
    exact hno ⟨j, hj⟩
  simp only [Reads, hdenotes, parseInt_bool htype, parseBool_word hread]
  constructor
  · rintro ⟨o, ho, hall⟩
    constructor
    · intro hfalse
      rw [hfalse] at ho hall
      have ho : o = none := (Option.some.inj ho).symm.trans (by decide)
      rw [ho] at hall
      exact absurd ((hall 0).mp (.inl ⟨by decide, rfl⟩)) (by simp)
    · intro hflase
      rw [hflase] at ho hall
      have ho : o = some 0 := (Option.some.inj ho).symm.trans (by decide)
      have hflase : ¬ (chars "flase" ∈ falseWords.map chars ∧ (0 : ℤ) = 0 ∨
          chars "flase" ∈ trueWords.map chars ∧ (0 : ℤ) = 1) := by decide
      exact hflase ((hall 0).mpr ho)
  · intro hword
    have hdisjoint : ∀ a ∈ falseWords.map chars, a ∉ trueWords.map chars := by decide
    refine ⟨_, rfl, fun i => ?_⟩
    simp only [false_word_iff hword, true_word_iff]
    by_cases hf : s.map tolower ∈ falseWords.map chars
    · rw [if_pos hf, Option.some.injEq]
      have ht := hdisjoint _ hf
      simp [hf, ht, eq_comm]
    · rw [if_neg hf]
      by_cases ht : s.map tolower ∈ trueWords.map chars
      · rw [if_pos ht, Option.some.injEq]
        simp [hf, ht, eq_comm]
      · rw [if_neg ht]
        simp [hf, ht]

/-- A boolean is read, unless it is a misspelt word or a literal that is too long. -/
theorem reads_bool (hs : s ≠ []) (htype : r.type = .bool) : Reads r fl s ↔
    (s.map tolower ≠ chars "false" ∧ s.map tolower ≠ chars "flase") ∧ ∀ i, Literal s i → IsInt64 i := by
  by_cases hlit : ∃ j, Literal s j
  · obtain ⟨j, hj⟩ := hlit
    rw [reads_bool_literal hs htype hj]
    constructor
    · refine fun h64 => ⟨⟨fun h => ?_, fun h => ?_⟩, fun i hi => ?_⟩
      · exact word_not_literal (l := falseWords) (by decide) (by rw [h]; decide) hj
      · exact word_not_literal (l := falseNames) (by decide) (by rw [h]; decide) hj
      · rwa [literal_unique hi hj]
    · exact fun h => h.2 j hj
  · rw [reads_bool_word hs htype hlit, iff_self_and]
    exact fun _ i hi => absurd ⟨i, hi⟩ hlit

/-- The code finds what the string denotes if and only if the string is none of the exceptions. -/
theorem reads_iff (hs : s ≠ []) (hr : BoundsInt64 r)
    (htype : r.type = .int ∨ r.type = .enum ∨ r.type = .bool) : Reads r fl s ↔ Plain r fl s := by
  rcases htype with htype | htype | htype
  · have hnot {t : OptType} (ht : OptType.int ≠ t) : r.type ≠ t := htype ▸ ht
    refine iff_of_true (reads_int hs hr htype) ⟨fun h => ?_, fun h => ?_, fun h => ?_⟩
    · exact absurd h (hnot (by decide))
    · exact absurd h (hnot (by decide))
    · exact absurd h (hnot (by decide))
  · rw [reads_enum hs hr htype]
    have hbool : r.type ≠ .bool := by simp [htype]
    exact ⟨fun h => ⟨fun hb => absurd hb hbool, fun hb => absurd hb hbool, fun _ => h⟩,
      fun h => h.name htype⟩
  · rw [reads_bool hs htype]
    exact ⟨fun h => ⟨fun _ => h.1, fun _ => h.2, fun he => absurd (htype.symm.trans he) (by simp)⟩,
      fun h => ⟨h.word htype, h.literal htype⟩⟩

/-! ## Parsing a key -/

section ParseKey
variable [LongDouble φ] {self : Opt φ} {k : List Octet} {cur : ℕ × ℕ} {t : CStr} {ok : Bool}

/-- `parseKey` takes the strings that denote a value of the record, and then `getValKey` gives it. -/
def ParsesAs (opt : Opt φ) (k : List Octet) (r : OptRec φ) (t : CStr) (fl : OptFlags) (ok : Bool) : Prop :=
  ∃ b self', opt.parseKey k (some t) fl ok = some (b, self') ∧
    (b = true ↔ ∃ i, Denotes r fl t.text i) ∧
    ∀ i, Denotes r fl t.text i → ∃ v, self'.getValKey k = some (some v) ∧ v.i = i

/-- `parse_val` of a number of a record that is not set. -/
theorem parseVal_number {v : OptSet φ} {h : Memory} {o : Option ℤ} (hunset : v.isSet = false)
    (hlive : t.block ∉ h.released) (hs : t.text ≠ []) (hfl : fl &&& optBoolDef = 0)
    (htype : r.type = .int ∨ r.type = .enum ∨ r.type = .bool) (ho : parseInt r t.text fl = some o) :
    Opt.parseVal r v (some t) fl ok h = some (o.isSome, o.elim v v.setInt, h) := by
  unfold Opt.parseVal
  rw [if_neg (by simp [hunset]), if_neg (by simp [hfl])]
  dsimp only
  rw [if_neg hlive, if_neg hs, ho]
  rcases htype with htype | htype | htype <;> rw [htype] <;> cases o <;> rfl

/-- What `parseKey` returns, and what `getValKey` gives then. -/
theorem parseKey_number {v : OptSet φ} {o : Option ℤ} (hf : Formed self.rcs)
    (htarget : self.target (.name k) = some (cur, r)) (hslot : Opt.slotAt self.rcs cur = some v)
    (hunset : v.isSet = false) (hlive : t.block ∉ self.heap.released) (hs : t.text ≠ [])
    (hfl : fl &&& optBoolDef = 0) (htype : r.type = .int ∨ r.type = .enum ∨ r.type = .bool)
    (ho : parseInt r t.text fl = some o) : ∃ self', self.parseKey k (some t) fl ok = some (o.isSome, self') ∧
      ∀ i ∈ o, ∃ w, self'.getValKey k = some (some w) ∧ w.i = i := by
  refine ⟨self.store cur (o.elim v v.setInt) self.heap, ?_, fun i hi => ?_⟩
  · have hcall := Opt.call_eq hf ⟨.name k, some t, fl, ok⟩
    rw [htarget] at hcall
    refine hcall.trans ?_
    dsimp only
    rw [Opt.parseAt, hslot, Option.bind_eq_bind, Option.bind_some,
      parseVal_number hunset hlive hs hfl htype ho]
    rfl
  · cases hi
    have hf' : Formed (self.store cur (v.setInt i) self.heap).rcs := formed_store hf _
    have hget := Opt.getVal_eq hf' (.name k)
    rw [Opt.target_store, htarget] at hget
    dsimp only at hget
    rw [Opt.valueAt, slotAt_store hslot, if_pos rfl] at hget
    exact ⟨_, hget, rfl⟩

/-- For a numeric record that is not set, `parseKey` takes exactly the strings that denote a value, and
this value is then the one of the key, if and only if the string is none of the exceptions. -/
theorem parse_key_grammar (hf : Formed self.rcs) (htarget : self.target (.name k) = some (cur, r))
    (hunset : ∀ v, Opt.slotAt self.rcs cur = some v → v.isSet = false)
    (htype : r.type = .int ∨ r.type = .enum ∨ r.type = .bool) (hr : BoundsInt64 r)
    (hlive : t.block ∉ self.heap.released) (hs : t.text ≠ []) (hfl : fl &&& optBoolDef = 0) :
    ParsesAs self k r t fl ok ↔ Plain r fl t.text := by
  obtain ⟨v, hslot⟩ := exists_slotAt hf (Opt.recAt_of_target htarget)
  have hunset := hunset v hslot
  obtain ⟨o, ho⟩ : ∃ o, parseInt r t.text fl = some o := parseInt_defined fun _ _ _ _ => .inl hr.2
  obtain ⟨self', hparse, hget⟩ :=
    @parseKey_number φ r fl _ self k cur t ok v o hf htarget hslot hunset hlive hs hfl htype ho
  rw [← reads_iff hs hr htype]
  constructor
  · rintro ⟨b, self'', hparse', hb, hall⟩
    rw [hparse] at hparse'
    cases hparse'
    refine ⟨o, ho, fun i => ?_⟩
    cases o with
    | none => exact iff_of_false (fun hi => absurd (hb.mpr ⟨i, hi⟩) (by simp)) (by simp)
    | some j =>
      obtain ⟨w, hw, hwj⟩ := hget j rfl
      have heq (i : ℤ) (hi : Denotes r fl t.text i) : j = i := by
        obtain ⟨w', hw', rfl⟩ := hall i hi
        rw [hw] at hw'
        cases hw'
        exact hwj.symm
      constructor
      · exact fun hi => congrArg some (heq i hi)
      · intro hi
        obtain ⟨i', hi'⟩ := hb.mp rfl
        rw [← Option.some.inj hi, heq i' hi']
        exact hi'
  · rintro ⟨o', ho', hall⟩
    rw [ho] at ho'
    cases ho'
    refine ⟨_, self', hparse, ?_, fun i hi => hget i ((hall i).mp hi)⟩
    rw [Option.isSome_iff_exists]
    exact exists_congr fun i => (hall i).symm

end ParseKey

section Sample

/-- A boolean that is true by default. -/
def sampleBool : OptRec Unit :=
  ⟨[107], 0, .bool, none, 0, ⟨none, 1, ()⟩, ⟨none, 0, ()⟩, ⟨none, 0, ()⟩⟩

/-- The code does not know the word `false`. -/
theorem parse_key_grammar_fails :
    ¬ ParsesAs (Opt.withRecords [[sampleBool]]) [107] sampleBool ⟨.caller 0, chars "false"⟩ 0 true := by
  rintro ⟨b, self', hparse, hb, -⟩
  have hparse' : (Opt.withRecords [[sampleBool]]).parseKey [107] (some ⟨.caller 0, chars "false"⟩) 0 true =
      some (false, Opt.withRecords [[sampleBool]]) := by rfl
  rw [hparse'] at hparse
  cases hparse
  have hdenotes : Denotes sampleBool 0 (chars "false") 0 := .inr (.inl ⟨by decide, rfl⟩)
  exact absurd (hb.mpr ⟨0, hdenotes⟩) (by simp)

theorem parse_key_grammar_sample :
    ParsesAs (Opt.withRecords [[sampleBool]]) [107] sampleBool ⟨.caller 0, chars "No"⟩ 0 true := by
  have hno : ¬ ∃ i, Literal (chars "No") i := by
    rintro ⟨i, hi⟩
    exact absurd (literal_first hi rfl) (by decide)
  refine (parse_key_grammar ⟨by decide, by decide⟩ rfl (fun v hv => ?_) (.inr (.inr rfl))
    ⟨by decide, by decide⟩ (by decide) (by decide) (by decide)).mpr ⟨fun _ => ⟨by decide, by decide⟩, ?_, ?_⟩
  · cases hv
    rfl
  · exact fun _ i hi => absurd ⟨i, hi⟩ hno
  · exact fun _ i hi => absurd ⟨i, hi⟩ hno

end Sample

end Csptp
