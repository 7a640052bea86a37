import Csptp.Cfg.Main

/-! # What the parser reads of a line

On a line of a text `parseLine` stays inside the line and computes no negative length, unless the line
begins with the equal sign, has no equal sign although more text follows, or opens a section without a
name. It copies no more than its arrays hold from any line. -/
namespace Csptp
open Octets Octets.Prog
set_option autoImplicit false

/-! ## Lines -/

/-- A line of `len` octets at `line`, in a text that ends at `textEnd`. -/
structure TextLine (m : Mem) (textEnd line len : ℕ) : Prop where
  inText : ∀ o, line ≤ o → o < textEnd → m o ≠ 0
  zero : m textEnd = 0
  fits : line + len ≤ textEnd
  limit : m (line + len) = 0 ∨ m (line + len) = 0x0a ∨ m (line + len) = 0x0d
  addressable : textEnd < 2 ^ 64

/-- A section bracket with nothing but blanks in front of the closing one. -/
def EmptyName (sec : List Octet) : Prop :=
  (sec.dropWhile isspace).rdropWhile isspace = [closeBracket]

instance (sec : List Octet) : Decidable (EmptyName sec) := inferInstanceAs (Decidable (_ = _))

/-- A key line does not begin with its equal sign, and only the last line of a text may lack it; a section
has a name. `next` is the octet behind the line, which begins without blanks. -/
def StrippedSound (hasSection : Bool) (next : Octet) : List Octet → Prop
  | [] => True
  | c :: rest =>
    if c = numberSign then True
    else if c = openBracket then hasSection = true → ¬ EmptyName rest
    else c ≠ equalSign ∧ (equalSign ∈ rest ∨ next = 0)

def LineSound (hasSection : Bool) (next : Octet) (line : List Octet) : Prop :=
  StrippedSound hasSection next (line.dropWhile isspace)

/-- The same as a test. -/
def lineSound (hasSection : Bool) (next : Octet) (line : List Octet) : Bool :=
  match line.dropWhile isspace with
  | [] => true
  | c :: rest =>
    if c = numberSign then true
    else if c = openBracket then !hasSection || !decide (EmptyName rest)
    else c != equalSign && (rest.contains equalSign || next == 0)

theorem lineSound_iff (hasSection : Bool) (next : Octet) (line : List Octet) :
    lineSound hasSection next line = true ↔ LineSound hasSection next line := by
  rw [lineSound, LineSound]
  cases line.dropWhile isspace with
  | nil => exact iff_of_true rfl trivial
  | cons c rest =>
    rw [StrippedSound]
    dsimp only
    split
    · exact iff_of_true rfl trivial
    · split
      · cases hasSection <;> simp
      · simp

instance (hasSection : Bool) (next : Octet) (line : List Octet) :
    Decidable (LineSound hasSection next line) := decidable_of_iff _ (lineSound_iff hasSection next line)

/-- The copies fit into the arrays of the parser, with a terminating zero. -/
def ParsedLine.Fits : ParsedLine → Prop
  | .ignored => True
  | .refused key => ∀ k ∈ key, k.length < secKeySize
  | .setSection name => name.length < secKeySize
  | .setKey key val => key.length < secKeySize ∧ val.length < valSize

/-! ## Copies -/

theorem fits_refused : (ParsedLine.refused none).Fits := fun k hk => absurd hk (by simp)

theorem parseVal_fits {key : List Octet} (h : key.length < secKeySize) (v len : ℕ) :
    Returns ParsedLine.Fits (parseVal key v len) := by
  have hrefused : (ParsedLine.refused (some key)).Fits := by
    intro k hk
    rwa [← Option.some.inj hk]
  rw [parseVal]
  refine returns_bind fun r => returns_bind fun c => .ite (fun _ => returns_pure hrefused) fun _ => ?_
  refine returns_bind fun l => returns_bind fun l => .ite (fun _ => returns_pure hrefused) fun hlt => ?_
  exact (returns_loadOctets _ _).bind fun val hval => returns_pure ⟨h, by rw [hval]; omega⟩

theorem parseKeyAt_fits (line len v : ℕ) : Returns ParsedLine.Fits (parseKeyAt line len v) := by
  rw [parseKeyAt]
  refine returns_bind fun l => returns_bind fun len => returns_bind fun l => returns_bind fun l =>
    returns_bind fun q => .ite (fun _ => returns_pure fits_refused) fun hlt => ?_
  refine (returns_loadOctets _ _).bind fun key hkey => returns_bind fun len => ?_
  exact parseVal_fits (by rw [hkey]; omega) _ _

theorem parseKeyVal_fits (textEnd line len : ℕ) :
    Returns ParsedLine.Fits (parseKeyVal textEnd line len) := by
  rw [parseKeyVal]
  refine returns_bind fun v => ?_
  cases v with
  | none => exact returns_pure fits_refused
  | some v => exact parseKeyAt_fits line len v

theorem parseSection_fits (sec l : ℕ) : Returns ParsedLine.Fits (parseSection sec l) := by
  rw [parseSection]
  refine returns_bind fun r => returns_bind fun c => .ite (fun _ => returns_pure fits_refused) fun _ => ?_
  refine returns_bind fun l => returns_bind fun l => returns_bind fun c =>
    .ite (fun _ => returns_pure fits_refused) fun _ => ?_
  refine returns_bind fun l => returns_bind fun l => returns_bind fun q =>
    .ite (fun _ => returns_pure fits_refused) fun hlt => ?_
  refine (returns_loadOctets _ _).bind fun b hb => returns_pure ?_
  change b.length < secKeySize
  omega

theorem parseLine_fits (hasSection : Bool) (textEnd line len : ℕ) :
    Returns ParsedLine.Fits (parseLine hasSection textEnd line len) := by
  rw [parseLine]
  refine returns_bind fun len => returns_bind fun r => .ite (fun _ => returns_pure trivial) fun _ => ?_
  refine returns_bind fun c => .ite (fun _ => returns_pure trivial) fun _ => .ite (fun _ => ?_) fun _ => ?_
  · exact .ite (fun _ => returns_bind fun l => parseSection_fits _ _) fun _ => returns_pure fits_refused
  · exact parseKeyVal_fits _ _ _

/-! ## Reads -/

section Reads
variable {S : ℕ → Prop} {m : Mem}

theorem isspace_ne_zero {c : Octet} (h : isspace c = true) : c ≠ 0 := by
  rintro rfl
  exact absurd h (by decide)

/-- The test for a zero makes no difference. -/
theorem nonzero_isspace : (fun c : Octet => c ≠ 0 && isspace c) = isspace := by
  funext c
  cases hc : isspace c with
  | false => simp
  | true => simpa using isspace_ne_zero hc

theorem stripLeading_spec (len line : ℕ) : ∃ k ≤ len,
    (stripLeading len line).run m = ((line + k, len - k), m) ∧
    (region m line len).dropWhile isspace = region m (line + k) (len - k) ∧
    (k < len → isspace (m (line + k)) = false) ∧
    ((∀ o, line ≤ o → o ≤ line + len → S o) → Safe S (stripLeading len line) m) := by
  obtain ⟨k, hk, hrun, hdrop, hstop, hsafe⟩ := @skipWhile_spec isspace S m len line
  refine ⟨k, hk, ?_, hdrop, hstop, fun hS => ?_⟩
  · rw [stripLeading, nonzero_isspace, run_bind, hrun, run_ite]
    split <;> rfl
  · rw [stripLeading, nonzero_isspace, safe_bind, hrun, safe_ite]
    refine ⟨hsafe fun o ho ho' => hS o ho ho'.le, ?_⟩
    split
    · rw [safe_bind, safe_octetAt]
      exact ⟨hS (line + k) (by omega) (by omega), safe_pure _ _⟩
    · exact safe_pure _ _

theorem within_octetAt {o : ℕ} (h : S o) : Within S (octetAt o) := fun _ => safe_octetAt.mpr h

theorem quoted_within {s l : ℕ} (hs : S s) (hl : S (s + l)) : Within S (quoted s l) := by
  have hby (q : Octet) : Within S (quotedBy q s l) :=
    (within_octetAt hs).bind fun first =>
      .ite (fun _ => (within_octetAt hl).bind fun last => within_pure _) fun _ => within_pure _
  exact (hby _).bind fun double => .ite (fun _ => within_pure _) fun _ => hby _

theorem run_quoted (s l : ℕ) : ((quoted s l).run m).2 = m := by
  have hby (q : Octet) : ((quotedBy q s l).run m).2 = m := by
    rw [quotedBy, run_bind, run_ite]
    split <;> rfl
  rw [quoted, run_bind, run_ite, hby]
  split
  · rfl
  · exact hby _

theorem stripQuotes_spec (s : ℕ) {l : ℕ} (hl : l < 2 ^ 64) : ∃ s' l',
    (stripQuotes s l).run m = ((s', l'), m) ∧ s ≤ s' ∧ s' + l' ≤ s + l ∧
    ((∀ o, s ≤ o → o ≤ s + l → S o) → Safe S (stripQuotes s l) m) := by
  by_cases hgt : l > 1
  · have hrun : (stripQuotes s l).run m =
        if ((quoted s l).run m).1 = true then ((s + 1, l - 2), m) else ((s, l), m) := by
      rw [stripQuotes, if_pos hgt, run_bind, run_quoted, run_ite, run_bind,
        run_subSize (by omega) hl]
      rfl
    have hsafe (hS : ∀ o, s ≤ o → o ≤ s + l → S o) : Safe S (stripQuotes s l) m := by
      rw [stripQuotes, if_pos hgt, safe_bind, safe_ite]
      refine ⟨quoted_within (hS _ le_rfl (by omega)) (hS _ (by omega) le_rfl) m, ?_⟩
      split
      · rw [safe_bind, safe_subSize]
        exact ⟨by omega, safe_pure _ _⟩
      · exact safe_pure _ _
    rw [hrun]
    split
    · exact ⟨s + 1, l - 2, rfl, by omega, by omega, hsafe⟩
    · exact ⟨s, l, rfl, le_rfl, le_rfl, hsafe⟩
  · refine ⟨s, l, ?_, le_rfl, le_rfl, fun _ => ?_⟩
    · rw [stripQuotes, if_neg hgt]
      rfl
    · rw [stripQuotes, if_neg hgt]
      exact safe_pure _ _

theorem parseVal_safe (key : List Octet) {v len : ℕ} (hlen : len < 2 ^ 64)
    (hS : ∀ o, v ≤ o → o ≤ v + len → S o) : Safe S (parseVal key v len) m := by
  obtain ⟨k, hk, hrun, -, -, hsafe⟩ := @skipWhile_spec isspace S m len v
  rw [parseVal, safe_bind, hrun, safe_bind, run_octetAt, safe_octetAt, safe_ite]
  dsimp only
  refine ⟨hsafe fun o ho ho' => hS o ho ho'.le, hS _ (by omega) (by omega), ?_⟩
  split
  · exact safe_pure _ _
  · rename_i hsome
    rw [not_or] at hsome
    obtain ⟨l, hl, hstrip, -, hsafe⟩ := @stripWhile_spec isspace S m (v + k) (len - k - 1)
    rw [safe_bind, safe_subSize, run_subSize (by omega) (by omega), safe_bind, hstrip, safe_ite]
    refine ⟨by omega, hsafe fun o ho ho' => hS o (by omega) (by omega), ?_⟩
    split
    · exact safe_pure _ _
    · rw [safe_bind, safe_loadOctets]
      refine ⟨fun o ho ho' => hS o (by omega) ?_, safe_pure _ _⟩
      rw [succSize_of_lt (by omega)] at ho'
      omega

theorem parseKeyAt_safe {line len j : ℕ} (hline : line + len < 2 ^ 64) (hj : 0 < j) (hlt : j < len)
    (hS : ∀ o, line ≤ o → o ≤ line + len → S o) : Safe S (parseKeyAt line len (line + j)) m := by
  obtain ⟨l, hl, hstrip, -, hsafe⟩ := @stripWhile_spec isspace S m line (j - 1)
  obtain ⟨s', l', hquotes, hs', hl', hsafe'⟩ := @stripQuotes_spec S m line l (by omega)
  rw [parseKeyAt, safe_bind, safe_subSize, run_subSize (by omega) (by omega), Nat.add_sub_cancel_left,
    safe_bind, safe_subSize, run_subSize (by omega) (by omega), safe_bind, safe_subSize,
    run_subSize (by omega) (by omega), safe_bind, hstrip, safe_bind, hquotes, safe_ite]
  dsimp only
  refine ⟨by omega, by omega, by omega, hsafe fun o ho ho' => hS o (by omega) (by omega),
    hsafe' fun o ho ho' => hS o ho (by omega), ?_⟩
  split
  · exact safe_pure _ _
  · rw [safe_bind, safe_loadOctets, run_loadOctets, safe_bind, safe_subSize,
      run_subSize (by omega) (by omega)]
    refine ⟨fun o ho ho' => hS o (by omega) ?_, by omega,
      parseVal_safe _ (by omega) fun o ho ho' => hS o (by omega) (by omega)⟩
    rw [succSize_of_lt (by omega)] at ho'
    omega

/-- An empty key has no last character. -/
theorem parseKeyAt_unbounded {line : ℕ} (len : ℕ) (hline : line < 2 ^ 64) (hlen : len < 2 ^ 64) :
    ¬ Safe S (parseKeyAt line len line) m := by
  rw [parseKeyAt, safe_bind, run_subSize le_rfl hline, Nat.sub_self, safe_bind,
    run_subSize (Nat.zero_le _) hlen, safe_bind]
  rintro ⟨-, -, hneg, -⟩
  exact absurd (safe_subSize.mp hneg) (Nat.not_succ_le_zero 0)

/-- The first equal sign or zero decides: it lies in the line, or right behind a last line. -/
theorem parseKeyVal_safe_iff {textEnd start line len : ℕ} (h : TextLine m textEnd line len)
    (hlen : 0 < len) (hstart : start ≤ line) :
    Safe (fun o => start ≤ o ∧ o ≤ line + len) (parseKeyVal textEnd line len) m ↔
      m line ≠ equalSign ∧ ((∃ i, 0 < i ∧ i < len ∧ m (line + i) = equalSign) ∨ m (line + len) = 0) := by
  have hfits := h.fits
  have haddr := h.addressable
  have hin (i : ℕ) (hi : i < len) : m (line + i) ≠ 0 := h.inText _ (by omega) (by omega)
  have hex : ∃ i, m (line + i) = equalSign ∨ m (line + i) = 0 :=
    ⟨textEnd - line, .inr (by rw [Nat.add_sub_cancel' (by omega)]; exact h.zero)⟩
  obtain ⟨j, hj, hmin⟩ : ∃ j, (m (line + j) = equalSign ∨ m (line + j) = 0) ∧
      ∀ i < j, m (line + i) ≠ equalSign ∧ m (line + i) ≠ 0 :=
    ⟨Nat.find hex, Nat.find_spec hex, fun i hi => not_or.mp (Nat.find_min hex hi)⟩
  have hjn : j < textEnd + 1 - line := by
    by_contra hge
    refine (hmin (textEnd - line) (by omega)).2 ?_
    rw [Nat.add_sub_cancel' (by omega)]
    exact h.zero
  obtain ⟨hrun, hsafe⟩ :=
    @strchr_spec equalSign (fun o => start ≤ o ∧ o ≤ line + len) m j _ line hmin hjn hj
  rw [parseKeyVal, safe_bind, hrun, hsafe]
  rcases Nat.lt_trichotomy j len with hlt | heq | hgt
  · have hsign : m (line + j) = equalSign := hj.resolve_right (hin j hlt)
    rw [if_pos hsign]
    by_cases hzero : j = 0
    · rw [hzero, Nat.add_zero] at hsign ⊢
      exact ⟨fun hs => absurd hs.2 (parseKeyAt_unbounded len (by omega) (by omega)),
        fun hs => absurd hsign hs.1⟩
    · have hfirst := (hmin 0 (by omega)).1
      refine ⟨fun _ => ⟨hfirst, .inl ⟨j, by omega, hlt, hsign⟩⟩, fun _ => ⟨fun o ho ho' => ?_, ?_⟩⟩
      · exact ⟨by omega, by omega⟩
      · exact parseKeyAt_safe (by omega) (by omega) hlt fun o ho ho' => ⟨by omega, ho'⟩
  · have hfirst := (hmin 0 (by omega)).1
    have hnext : m (line + len) = 0 := by
      rw [heq] at hj
      rcases h.limit with hz | hlf | hcr
      · exact hz
      · exact hj.resolve_left (by rw [hlf]; decide)
      · exact hj.resolve_left (by rw [hcr]; decide)
    rw [heq, if_neg (by rw [hnext]; decide)]
    exact ⟨fun _ => ⟨hfirst, .inr hnext⟩,
      fun _ => ⟨fun o ho ho' => ⟨by omega, ho'⟩, safe_pure _ _⟩⟩
  · refine ⟨fun hs => ?_, fun hs => ?_⟩
    · have hbeyond := (hs.1 (line + len + 1) (by omega) (by omega)).2
      omega
    · rcases hs.2 with ⟨i, -, hi, hsign⟩ | hnext
      · exact absurd hsign (hmin i (by omega)).1
      · exact absurd hnext (hmin len hgt).2

theorem region_eq_singleton {s l : ℕ} {c : Octet} : region m s (l + 1) = [c] ↔ l = 0 ∧ m s = c := by
  constructor
  · intro h
    have hlen := congrArg List.length h
    rw [region_length, List.length_singleton] at hlen
    rw [region] at h
    exact ⟨by omega, (List.cons.inj h).1⟩
  · rintro ⟨rfl, rfl⟩
    rfl

/-- With an empty name the closing bracket is the first character that is left, and its position is
decremented. -/
theorem parseSection_safe_iff {start sec l : ℕ} (hl : sec + l < 2 ^ 64) (hstart : start ≤ sec) :
    Safe (fun o => start ≤ o ∧ o ≤ sec + l) (parseSection sec l) m ↔
      ¬ EmptyName (region m sec l) := by
  obtain ⟨k, hk, hrun, hdrop, hstop, hsafe⟩ :=
    @stripLeading_spec (fun o => start ≤ o ∧ o ≤ sec + l) m l sec
  have hlead := hsafe fun o ho ho' => ⟨by omega, ho'⟩
  rw [parseSection, safe_bind, hrun, safe_bind, run_octetAt, safe_octetAt, safe_ite, EmptyName, hdrop]
  dsimp only
  by_cases hnil : l - k = 0
  · have hname : ¬ (region m (sec + k) (l - k)).rdropWhile isspace = [closeBracket] := by
      rw [hnil, region_zero, List.rdropWhile_nil]
      decide
    rw [if_pos (.inr hnil)]
    exact ⟨fun _ => hname, fun _ => ⟨hlead, ⟨by omega, by omega⟩, safe_pure _ _⟩⟩
  · obtain ⟨l₁, hl₁, hstrip, hname, hsafe₁⟩ :=
      @stripWhile_spec isspace (fun o => start ≤ o ∧ o ≤ sec + l) m (sec + k) (l - k - 1)
    rw [Nat.sub_add_cancel (by omega)] at hname
    rw [hname (hstop (by omega)), region_eq_singleton]
    by_cases hzero : m (sec + k) = 0
    · rw [if_pos (.inl hzero), hzero]
      exact ⟨fun _ h => absurd h.2 (by decide), fun _ => ⟨hlead, ⟨by omega, by omega⟩, safe_pure _ _⟩⟩
    · rw [if_neg (by tauto), safe_bind, safe_subSize, run_subSize (by omega) (by omega), safe_bind,
        hstrip, safe_bind, run_octetAt, safe_octetAt, safe_ite]
      dsimp only
      have hread := hsafe₁ fun o ho ho' => ⟨by omega, by omega⟩
      by_cases hclose : m (sec + k + l₁) = closeBracket
      · rw [if_neg (by simpa using hclose), safe_bind, safe_subSize]
        by_cases hfirst : l₁ = 0
        · rw [hfirst, Nat.add_zero] at hclose
          exact ⟨fun h => absurd h.2.2.2.2.2.1 (by omega), fun h => absurd ⟨hfirst, hclose⟩ h⟩
        · obtain ⟨l₂, hl₂, hstrip₂, -, hsafe₂⟩ :=
            @stripWhile_spec isspace (fun o => start ≤ o ∧ o ≤ sec + l) m (sec + k) (l₁ - 1)
          obtain ⟨s', l', hquotes, hs', hl', hsafe'⟩ :=
            @stripQuotes_spec (fun o => start ≤ o ∧ o ≤ sec + l) m (sec + k) l₂ (by omega)
          rw [run_subSize (by omega) (by omega), safe_bind, hstrip₂, safe_bind, hquotes, safe_ite]
          refine ⟨fun _ h => hfirst h.1, fun _ => ⟨hlead, ⟨by omega, by omega⟩, by omega, hread,
            ⟨by omega, by omega⟩, by omega, hsafe₂ fun o ho ho' => ⟨by omega, by omega⟩,
            hsafe' fun o ho ho' => ⟨by omega, by omega⟩, ?_⟩⟩
          split
          · exact safe_pure _ _
          · rw [safe_bind, safe_loadOctets]
            refine ⟨fun o ho ho' => ?_, safe_pure _ _⟩
            dsimp only at ho ho'
            rw [succSize_of_lt (by omega)] at ho'
            exact ⟨by omega, by omega⟩
      · rw [if_pos (by simpa using hclose)]
        refine ⟨fun _ h => hclose ?_, fun _ => ⟨hlead, ⟨by omega, by omega⟩, by omega, hread,
          ⟨by omega, by omega⟩, safe_pure _ _⟩⟩
        rw [h.1, Nat.add_zero]
        exact h.2

theorem mem_region {x : Octet} {s n : ℕ} : x ∈ region m s n ↔ ∃ i < n, m (s + i) = x := by
  rw [List.mem_iff_getElem]
  constructor
  · rintro ⟨i, hi, rfl⟩
    rw [region_getElem]
    rw [region_length] at hi
    exact ⟨i, hi, rfl⟩
  · rintro ⟨i, hi, rfl⟩
    exact ⟨i, by rwa [region_length], region_getElem _ _ _ _ _⟩

theorem TextLine.stripped {textEnd line len k : ℕ} (h : TextLine m textEnd line len) (hk : k ≤ len) :
    TextLine m textEnd (line + k) (len - k) := by
  have hsum : line + k + (len - k) = line + len := by omega
  refine ⟨fun o ho => h.inText o (by omega), h.zero, ?_, ?_, h.addressable⟩
  · rw [hsum]
    exact h.fits
  · rw [hsum]
    exact h.limit

/-- The length of a line is given, or zero for the last line. -/
def GivenLength (m : Mem) (line L len : ℕ) : Prop := len = L ∧ 0 < L ∨ len = 0 ∧ m (line + L) = 0

theorem lineLen_spec {textEnd line L len : ℕ} (h : TextLine m textEnd line L)
    (hlen : GivenLength m line L len) : (lineLen textEnd line len).run m = (L, m) ∧
      ((∀ o, line ≤ o → o ≤ line + L → S o) → Safe S (lineLen textEnd line len) m) := by
  have hfits := h.fits
  rw [lineLen]
  rcases hlen with ⟨rfl, hpos⟩ | ⟨rfl, hzero⟩
  · rw [if_neg (by omega)]
    exact ⟨rfl, fun _ => safe_pure _ _⟩
  · rw [if_pos rfl]
    exact strlen_spec (fun i hi => h.inText _ (by omega) (by omega)) hzero (by omega)

theorem parseLine_safe_iff (hasSection : Bool) {textEnd line L len : ℕ}
    (h : TextLine m textEnd line L) (hlen : GivenLength m line L len) :
    Safe (fun o => line ≤ o ∧ o ≤ line + L) (parseLine hasSection textEnd line len) m ↔
      LineSound hasSection (m (line + L)) (region m line L) := by
  have hfits := h.fits
  have haddr := h.addressable
  obtain ⟨hrun, hread⟩ := @lineLen_spec (fun o => line ≤ o ∧ o ≤ line + L) m _ _ _ _ h hlen
  obtain ⟨k, hk, hstrip, hdrop, -, hsafe⟩ :=
    @stripLeading_spec (fun o => line ≤ o ∧ o ≤ line + L) m L line
  have hread := hread fun o ho ho' => ⟨ho, ho'⟩
  have hlead := hsafe fun o ho ho' => ⟨ho, ho'⟩
  rw [parseLine, safe_bind, hrun, safe_bind, hstrip, safe_ite, LineSound, hdrop]
  dsimp only
  by_cases hnil : L - k = 0
  · rw [if_pos hnil, hnil, region_zero]
    exact ⟨fun _ => trivial, fun _ => ⟨hread, hlead, safe_pure _ _⟩⟩
  · obtain ⟨n, hn⟩ := Nat.exists_eq_succ_of_ne_zero hnil
    have hne : m (line + k) ≠ 0 := h.inText _ (by omega) (by omega)
    have hnext : line + L = line + k + 1 + n := by omega
    rw [if_neg hnil, safe_bind, run_octetAt, safe_octetAt, safe_ite]
    rw [hn, region, StrippedSound]
    dsimp only
    by_cases hcomment : m (line + k) = numberSign
    · rw [if_pos (.inr hcomment), if_pos hcomment]
      exact ⟨fun _ => trivial, fun _ => ⟨hread, hlead, ⟨by omega, by omega⟩, safe_pure _ _⟩⟩
    · rw [if_neg (by tauto), if_neg hcomment, safe_ite]
      by_cases hopen : m (line + k) = openBracket
      · rw [if_pos hopen, if_pos hopen, safe_ite]
        cases hasSection with
        | false =>
          rw [if_neg (by simp)]
          exact ⟨fun _ hno => absurd hno (by simp),
            fun _ => ⟨hread, hlead, ⟨by omega, by omega⟩, safe_pure _ _⟩⟩
        | true =>
          have hsection := @parseSection_safe_iff m line (line + k + 1) n (by omega) (by omega)
          rw [← hnext] at hsection
          rw [if_pos rfl, safe_bind, safe_subSize, run_subSize (by omega) (by omega), Nat.succ_sub_one,
            hsection]
          exact ⟨fun hs _ => hs.2.2.2.2,
            fun hs => ⟨hread, hlead, ⟨by omega, by omega⟩, by omega, hs rfl⟩⟩
      · have hkey := @parseKeyVal_safe_iff m textEnd line (line + k) (n + 1)
          (by rw [← Nat.succ_eq_add_one, ← hn]; exact h.stripped hk) (by omega) (by omega)
        have hsum : line + k + (n + 1) = line + L := by omega
        have hsign : (∃ i, 0 < i ∧ i < n + 1 ∧ m (line + k + i) = equalSign) ↔
            equalSign ∈ region m (line + k + 1) n := by
          rw [mem_region]
          constructor
          · rintro ⟨i, hi, hin, hm⟩
            refine ⟨i - 1, by omega, ?_⟩
            rwa [show line + k + 1 + (i - 1) = line + k + i by omega]
          · rintro ⟨i, hi, hm⟩
            refine ⟨i + 1, by omega, by omega, ?_⟩
            rwa [show line + k + (i + 1) = line + k + 1 + i by omega]
        rw [hsum, hsign] at hkey
        rw [if_neg hopen, if_neg hopen, Nat.succ_eq_add_one, hkey]
        exact ⟨fun hs => hs.2.2.2, fun hs => ⟨hread, hlead, ⟨by omega, by omega⟩, hs⟩⟩

end Reads

/-! ## The parser on a line -/

/-- The parser stays on a line, and copies what its arrays hold, exactly when the line is sound. -/
theorem parse_line_bounds {σ κ : Type} (self : Cfg σ κ) {m : Mem} {textEnd line L len : ℕ}
    (h : TextLine m textEnd line L) (hlen : GivenLength m line L len) :
    (Safe (fun o => line ≤ o ∧ o ≤ line + L) (self.parseLine textEnd line len) m ∧
      ((parseLine self.setSection.isSome textEnd line len).run m).1.Fits) ↔
      LineSound self.setSection.isSome (m (line + L)) (region m line L) := by
  rw [← parseLine_safe_iff self.setSection.isSome h hlen, Cfg.parseLine, safe_bind]
  exact ⟨fun hs => hs.1.1,
    fun hs => ⟨⟨hs, safe_pure _ _⟩, (parseLine_fits _ _ _ _).result m⟩⟩

section Sample

/-- A text with this contents, at the start of the memory. -/
def sampleText (octs : List Octet) : Mem := blit (fun _ => 0) 0 octs

theorem sampleText_line {octs : List Octet} {line len : ℕ} (hno : 0#8 ∉ octs)
    (hfits : line + len ≤ octs.length) (haddr : octs.length < 2 ^ 64)
    (hlimit : sampleText octs (line + len) = 0 ∨ sampleText octs (line + len) = 0x0a ∨
      sampleText octs (line + len) = 0x0d) :
    TextLine (sampleText octs) octs.length line len := by
  refine ⟨fun o _ ho hzero => ?_, ?_, hfits, hlimit, haddr⟩
  · rw [sampleText, blit_of_mem (Nat.zero_le _) (by omega), Nat.sub_zero,
      List.getD_eq_getElem?_getD, List.getElem?_eq_getElem ho, Option.getD_some] at hzero
    have hmem := List.getElem_mem ho
    rw [hzero] at hmem
    exact hno hmem
  · rw [sampleText, blit_of_not_mem (.inr (by omega))]

/-- A parser that takes everything. -/
def sampleCfg : Cfg Unit Unit :=
  { setSection := some fun _ _ => (some (), ()), setKey := fun _ _ _ _ => (true, ()), curSec := none,
    cookie := () }

/-- A line that begins with the equal sign, a line without one in front of another line, and a section
without a name. -/
theorem parse_line_bounds_fails :
    (TextLine (sampleText [61, 118]) 2 0 2 ∧
      ¬ Safe (fun o => 0 ≤ o ∧ o ≤ 0 + 2) (sampleCfg.parseLine 2 0 2) (sampleText [61, 118])) ∧
    (TextLine (sampleText [107, 10, 107, 61, 118]) 5 0 1 ∧
      ¬ Safe (fun o => 0 ≤ o ∧ o ≤ 0 + 1) (sampleCfg.parseLine 5 0 1)
        (sampleText [107, 10, 107, 61, 118])) ∧
    TextLine (sampleText [91, 93]) 2 0 2 ∧
      ¬ Safe (fun o => 0 ≤ o ∧ o ≤ 0 + 2) (sampleCfg.parseLine 2 0 2) (sampleText [91, 93]) := by
  have hline {octs : List Octet} {len : ℕ} (h : TextLine (sampleText octs) octs.length 0 len)
      (hpos : 0 < len)
      (hunsound : ¬ LineSound true (sampleText octs (0 + len)) (region (sampleText octs) 0 len)) :
      ¬ Safe (fun o => 0 ≤ o ∧ o ≤ 0 + len) (sampleCfg.parseLine octs.length 0 len) (sampleText octs) := by
    rw [Cfg.parseLine, safe_bind]
    rintro ⟨hsafe, -⟩
    exact hunsound ((parseLine_safe_iff true h (.inl ⟨rfl, hpos⟩)).mp hsafe)
  have hsign := @sampleText_line [61, 118] 0 2 (by decide) (by decide) (by decide)
    (.inl (by decide +kernel))
  have hnone := @sampleText_line [107, 10, 107, 61, 118] 0 1 (by decide) (by decide) (by decide)
    (.inr (.inl (by decide +kernel)))
  have hname := @sampleText_line [91, 93] 0 2 (by decide) (by decide) (by decide)
    (.inl (by decide +kernel))
  have hsign' := hline hsign (by decide) (by decide +kernel)
  have hnone' := hline hnone (by decide) (by decide +kernel)
  have hname' := hline hname (by decide) (by decide +kernel)
  exact ⟨⟨hsign, hsign'⟩, ⟨hnone, hnone'⟩, hname, hname'⟩

/-- `k = v`, in front of another line. -/
theorem parse_line_bounds_sample :
    Safe (fun o => 0 ≤ o ∧ o ≤ 0 + 5) (sampleCfg.parseLine 7 0 5)
      (sampleText [107, 32, 61, 32, 118, 10, 107]) := by
  have hline := @sampleText_line [107, 32, 61, 32, 118, 10, 107] 0 5 (by decide) (by decide)
    (by decide) (.inr (.inl (by decide +kernel)))
  exact ((parse_line_bounds sampleCfg hline (.inl ⟨rfl, by decide⟩)).mpr (by decide +kernel)).1

end Sample

end Csptp
