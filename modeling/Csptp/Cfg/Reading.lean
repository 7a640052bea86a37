import Csptp.Cfg.Bounds

/-! # What a line says

A line of the configuration file as a list of characters, and what the parser makes of it: blanks are
taken off at both ends, quotation marks around a key or a section name are too, and the first equal sign
separates the key from the value. `parseLine` reads a sound line this way, wherever the line lies. -/
namespace Csptp
open Octets Octets.Prog
set_option autoImplicit false

/-! ## Reading a list of characters -/

def strip (s : List Octet) : List Octet := (s.dropWhile isspace).rdropWhile isspace

/-- The first and the last character are the same quotation mark. -/
def InQuotes (s : List Octet) : Prop :=
  (s.head? = some doubleQuote ∧ s.getLast? = some doubleQuote) ∨
    (s.head? = some singleQuote ∧ s.getLast? = some singleQuote)

instance (s : List Octet) : Decidable (InQuotes s) := inferInstanceAs (Decidable (_ ∨ _))

/-- Two quotation marks with nothing between them stay. -/
def unquote (s : List Octet) : List Octet :=
  if 2 < s.length ∧ InQuotes s then s.tail.dropLast else s

/-- What stands behind the bracket that opens a section. -/
def readSection (sec : List Octet) : ParsedLine :=
  let s := strip sec
  if s.getLast? = some closeBracket then
    let name := unquote (s.dropLast.rdropWhile isspace)
    if name.length ≥ secKeySize then .refused none else .setSection name
  else .refused none

/-- What stands behind the equal sign of this key. -/
def readVal (key val : List Octet) : ParsedLine :=
  let val := strip val
  if val = [] ∨ val.length ≥ valSize then .refused (some key) else .setKey key val

def isKeyChar (c : Octet) : Bool := c ≠ equalSign

def readKeyVal (s : List Octet) : ParsedLine :=
  match s.dropWhile isKeyChar with
  | [] => .refused none
  | _ :: val =>
    let key := unquote ((s.takeWhile isKeyChar).rdropWhile isspace)
    if key.length ≥ secKeySize then .refused none else readVal key val

def readLine (hasSection : Bool) (line : List Octet) : ParsedLine :=
  match line.dropWhile isspace with
  | [] => .ignored
  | c :: rest =>
    if c = numberSign then .ignored
    else if c = openBracket then if hasSection then readSection rest else .refused none
    else readKeyVal (c :: rest)

/-! ## Lines put together -/

/-- Nothing but blanks. -/
def Blank (w : List Octet) : Prop := ∀ c ∈ w, isspace c = true

instance (w : List Octet) : Decidable (Blank w) := inferInstanceAs (Decidable (∀ c ∈ w, _))

/-- No blank at either end. -/
structure BareEnds (s : List Octet) : Prop where
  head : ∀ c ∈ s.head?, isspace c = false
  last : ∀ c ∈ s.getLast?, isspace c = false

theorem rdropWhile_append_of_blank {s w : List Octet} (h : Blank w) :
    (s ++ w).rdropWhile isspace = s.rdropWhile isspace := by
  rw [List.rdropWhile, List.reverse_append,
    List.dropWhile_append_of_pos fun c hc => h c (List.mem_reverse.mp hc), List.rdropWhile]

theorem rdropWhile_of_last {s : List Octet} (h : ∀ c ∈ s.getLast?, isspace c = false) :
    s.rdropWhile isspace = s := by
  rw [List.rdropWhile_eq_self_iff]
  intro hne
  simp [h (s.getLast hne) (List.getLast?_eq_some_getLast hne)]

theorem dropWhile_of_head {s : List Octet} (h : ∀ c ∈ s.head?, isspace c = false) :
    s.dropWhile isspace = s := by
  cases s with
  | nil => rfl
  | cons c s => exact List.dropWhile_cons_of_neg (by simp [h c rfl])

theorem strip_of_bareEnds {w s w' : List Octet} (hw : Blank w) (hs : BareEnds s) (hw' : Blank w') :
    strip (w ++ s ++ w') = s := by
  rw [strip, List.append_assoc, List.dropWhile_append_of_pos hw]
  cases s with
  | nil =>
    rw [List.nil_append, List.dropWhile_eq_nil_iff.mpr hw', List.rdropWhile_nil]
  | cons c s =>
    rw [dropWhile_of_head (by simpa using hs.head c rfl), rdropWhile_append_of_blank hw',
      rdropWhile_of_last hs.last]

/-! ## Quotation marks and ends -/

section Ends
variable {m : Mem}

theorem region_head? (s l : ℕ) : (region m s (l + 1)).head? = some (m s) := rfl

theorem region_getLast? (s l : ℕ) : (region m s (l + 1)).getLast? = some (m (s + l)) := by
  rw [region_succ, List.getLast?_concat]

theorem region_dropLast (s l : ℕ) : (region m s (l + 1)).dropLast = region m s l := by
  rw [region_succ, List.dropLast_concat]

theorem run_quotedBy (q : Octet) (s l : ℕ) :
    (quotedBy q s l).run m = (decide (m s = q ∧ m (s + l) = q), m) := by
  rw [quotedBy, run_bind, run_octetAt]
  by_cases h : m s = q
  · rw [if_pos h, run_bind, run_octetAt, run_pure]
    simp only [h, true_and]
  · rw [if_neg h, run_pure]
    simp only [h, false_and, decide_false]

theorem run_quoted_iff (s l : ℕ) :
    ((quoted s l).run m).1 = true ↔ InQuotes (region m s (l + 1)) := by
  rw [InQuotes, region_head?, region_getLast?, quoted, run_bind, run_quotedBy, run_ite, run_quotedBy]
  simp only [Option.some.injEq, decide_eq_true_eq]
  split
  · rename_i h
    exact iff_of_true rfl (.inl h)
  · rename_i h
    rw [decide_eq_true_eq, or_iff_right h]

/-- The string that is left without the quotation marks. -/
theorem stripQuotes_reads (s : ℕ) {l : ℕ} (hl : l < 2 ^ 64) : ∃ s' l',
    (stripQuotes s l).run m = ((s', l'), m) ∧ l' ≤ l ∧
      region m s' (l' + 1) = unquote (region m s (l + 1)) := by
  rw [unquote, region_length, stripQuotes]
  by_cases hgt : l > 1
  · rw [if_pos hgt, run_bind, run_quoted, run_ite, run_bind, run_subSize (by omega) hl]
    by_cases hin : InQuotes (region m s (l + 1))
    · rw [if_pos ((run_quoted_iff s l).mpr hin), if_pos ⟨by omega, hin⟩]
      refine ⟨s + 1, l - 2, rfl, by omega, ?_⟩
      obtain ⟨n, rfl⟩ := Nat.exists_eq_add_of_le (show 2 ≤ l by omega)
      have hlen : 2 + n + 1 = n + 1 + 1 + 1 := by omega
      rw [Nat.add_sub_cancel_left, hlen, region.eq_2 m s, List.tail_cons, region_dropLast]
    · rw [if_neg fun h => hin ((run_quoted_iff s l).mp h), if_neg fun h => hin h.2]
      exact ⟨s, l, rfl, le_rfl, rfl⟩
  · rw [if_neg hgt, if_neg fun h => hgt (by omega)]
    exact ⟨s, l, rfl, le_rfl, rfl⟩

end Ends

/-! ## The parser reads so -/

section Reads
variable {m : Mem}

theorem parseVal_reads (key : List Octet) {v len : ℕ} (hlen : len < 2 ^ 64)
    (hne : ∀ i < len, m (v + i) ≠ 0) :
    (parseVal key v len).run m = (readVal key (region m v len), m) := by
  obtain ⟨k, hk, hrun, hdrop, hstop, -⟩ := @skipWhile_spec isspace (fun _ => True) m len v
  rw [parseVal, run_bind, hrun, run_bind, run_octetAt, run_ite, readVal, strip, hdrop]
  dsimp only
  by_cases hnil : len - k = 0
  · rw [if_pos (.inr hnil), hnil, region_zero, List.rdropWhile_nil, if_pos (.inl rfl), run_pure]
  · obtain ⟨l', hl', hstrip, hname, -⟩ :=
      @stripWhile_spec isspace (fun _ => True) m (v + k) (len - k - 1)
    rw [Nat.sub_add_cancel (by omega)] at hname
    have hvalue : ¬ region m (v + k) (l' + 1) = [] := by
      rw [region]
      exact List.cons_ne_nil _ _
    rw [if_neg (not_or.mpr ⟨hne k (by omega), hnil⟩), run_bind, run_subSize (by omega) (by omega),
      run_bind, hstrip, run_ite, hname (hstop (by omega)), region_length]
    dsimp only
    rw [succSize_of_lt (by omega)]
    by_cases hge : l' + 1 ≥ valSize
    · rw [if_pos hge, if_pos (.inr hge), run_pure]
    · rw [if_neg hge, if_neg (not_or.mpr ⟨hvalue, hge⟩), run_bind, run_loadOctets, run_pure]

/-- The first equal sign splits a line. -/
theorem region_split {line len j : ℕ} (hj : j < len) : region m line len =
    region m line j ++ m (line + j) :: region m (line + j + 1) (len - j - 1) := by
  obtain ⟨n, rfl⟩ := Nat.exists_eq_add_of_lt hj
  rw [Nat.add_assoc, region_add, region, show j + (n + 1) - j - 1 = n by omega]

theorem isKeyChar_region {line j : ℕ} (h : ∀ i < j, m (line + i) ≠ equalSign) :
    ∀ c ∈ region m line j, isKeyChar c = true := by
  intro c hc
  obtain ⟨i, hi, rfl⟩ := mem_region.mp hc
  simpa [isKeyChar] using h i hi

theorem readKeyVal_split {key val : List Octet} (h : ∀ c ∈ key, isKeyChar c = true) :
    readKeyVal (key ++ equalSign :: val) =
      if (unquote (key.rdropWhile isspace)).length ≥ secKeySize then .refused none
      else readVal (unquote (key.rdropWhile isspace)) val := by
  have hsign : isKeyChar equalSign ≠ true := by decide
  rw [readKeyVal, List.dropWhile_append_of_pos h, List.dropWhile_cons_of_neg hsign,
    List.takeWhile_append_of_pos h, List.takeWhile_cons_of_neg hsign, List.append_nil]

theorem parseKeyAt_reads {line len j : ℕ} (hline : line + len < 2 ^ 64) (hj : 0 < j) (hlt : j < len)
    (hne : ∀ i < len, m (line + i) ≠ 0) (hfirst : isspace (m line) = false)
    (hkey : ∀ i < j, m (line + i) ≠ equalSign) (hsign : m (line + j) = equalSign) :
    (parseKeyAt line len (line + j)).run m = (readKeyVal (region m line len), m) := by
  obtain ⟨l, hl, hstrip, hname, -⟩ := @stripWhile_spec isspace (fun _ => True) m line (j - 1)
  obtain ⟨s', l', hquotes, hl', hread⟩ := @stripQuotes_reads m line l (by omega)
  rw [Nat.sub_add_cancel hj] at hname
  rw [parseKeyAt, run_bind, run_subSize (by omega) (by omega), Nat.add_sub_cancel_left, run_bind,
    run_subSize (by omega) (by omega), run_bind, run_subSize (by omega) (by omega), run_bind, hstrip,
    run_bind, hquotes, run_ite, region_split hlt, hsign, readKeyVal_split (isKeyChar_region hkey),
    hname hfirst, ← hread, region_length]
  dsimp only
  rw [succSize_of_lt (by omega)]
  by_cases hge : l' + 1 ≥ secKeySize
  · rw [if_pos hge, if_pos hge, run_pure]
  · rw [if_neg hge, if_neg hge, run_bind, run_loadOctets, run_bind, run_subSize (by omega) (by omega)]
    refine parseVal_reads _ (by omega) fun i hi => ?_
    rw [show line + j + 1 + i = line + (j + 1 + i) by omega]
    exact hne _ (by omega)

theorem parseKeyVal_reads {textEnd line len : ℕ} (h : TextLine m textEnd line len) (hlen : 0 < len)
    (hblank : isspace (m line) = false) (hfirst : m line ≠ equalSign)
    (hsign : (∃ i, 0 < i ∧ i < len ∧ m (line + i) = equalSign) ∨ m (line + len) = 0) :
    (parseKeyVal textEnd line len).run m = (readKeyVal (region m line len), m) := by
  have hfits := h.fits
  have haddr := h.addressable
  have hin (i : ℕ) (hi : i < len) : m (line + i) ≠ 0 := h.inText _ (by omega) (by omega)
  by_cases hex : ∃ i < len, m (line + i) = equalSign
  · obtain ⟨j, ⟨hlt, hj⟩, hmin⟩ : ∃ j, (j < len ∧ m (line + j) = equalSign) ∧
        ∀ i < j, m (line + i) ≠ equalSign :=
      ⟨Nat.find hex, Nat.find_spec hex, fun i hi hs =>
        Nat.find_min hex hi ⟨hi.trans (Nat.find_spec hex).1, hs⟩⟩
    obtain ⟨hrun, -⟩ := @strchr_spec equalSign (fun _ => True) m j (textEnd + 1 - line) line
      (fun i hi => ⟨hmin i hi, hin i (by omega)⟩) (by omega) (.inl hj)
    have hpos : 0 < j := by
      rcases Nat.eq_zero_or_pos j with rfl | hpos
      · exact absurd hj hfirst
      · exact hpos
    rw [parseKeyVal, run_bind, hrun, if_pos hj]
    exact parseKeyAt_reads (by omega) hpos hlt hin hblank hmin hj
  · have hno (i : ℕ) (hi : i < len) : m (line + i) ≠ equalSign := fun hs => hex ⟨i, hi, hs⟩
    have hnext : m (line + len) = 0 := by
      refine hsign.resolve_left ?_
      rintro ⟨i, -, hi, hs⟩
      exact hno i hi hs
    obtain ⟨hrun, -⟩ := @strchr_spec equalSign (fun _ => True) m len (textEnd + 1 - line) line
      (fun i hi => ⟨hno i hi, hin i hi⟩) (by omega) (.inr hnext)
    have hall : (region m line len).dropWhile isKeyChar = [] :=
      List.dropWhile_eq_nil_iff.mpr (isKeyChar_region hno)
    rw [parseKeyVal, run_bind, hrun, hnext, if_neg (by decide), readKeyVal, hall]
    rfl

theorem parseSection_reads {sec l : ℕ} (hl : sec + l < 2 ^ 64) (hne : ∀ i < l, m (sec + i) ≠ 0)
    (hname : ¬ EmptyName (region m sec l)) :
    (parseSection sec l).run m = (readSection (region m sec l), m) := by
  obtain ⟨k, hk, hrun, hdrop, hstop, -⟩ := @stripLeading_spec (fun _ => True) m l sec
  rw [EmptyName, hdrop] at hname
  rw [parseSection, run_bind, hrun, run_bind, run_octetAt, run_ite, readSection, strip, hdrop]
  dsimp only
  by_cases hnil : l - k = 0
  · rw [if_pos (.inr hnil), hnil, region_zero, List.rdropWhile_nil, if_neg (by decide), run_pure]
  · obtain ⟨l₁, hl₁, hstrip, hend, -⟩ :=
      @stripWhile_spec isspace (fun _ => True) m (sec + k) (l - k - 1)
    rw [Nat.sub_add_cancel (by omega)] at hend
    rw [hend (hstop (by omega)), region_eq_singleton] at hname
    rw [if_neg (not_or.mpr ⟨hne k (by omega), hnil⟩), run_bind, run_subSize (by omega) (by omega),
      run_bind, hstrip, run_bind, run_octetAt, run_ite, hend (hstop (by omega)), region_getLast?,
      region_dropLast]
    by_cases hclose : m (sec + k + l₁) = closeBracket
    · have hpos : 0 < l₁ := by
        rcases Nat.eq_zero_or_pos l₁ with rfl | hpos
        · exact absurd ⟨rfl, hclose⟩ hname
        · exact hpos
      obtain ⟨l₂, hl₂, hstrip₂, hend₂, -⟩ :=
        @stripWhile_spec isspace (fun _ => True) m (sec + k) (l₁ - 1)
      obtain ⟨s', l', hquotes, hl', hread⟩ := @stripQuotes_reads m (sec + k) l₂ (by omega)
      rw [Nat.sub_add_cancel hpos] at hend₂
      rw [if_neg (by simpa using hclose), if_pos (by rw [hclose]), run_bind,
        run_subSize (by omega) (by omega), run_bind, hstrip₂, run_bind, hquotes, run_ite,
        hend₂ (hstop (by omega)), ← hread, region_length]
      dsimp only
      rw [succSize_of_lt (by omega)]
      split
      · rw [run_pure]
      · rw [run_bind, run_loadOctets, run_pure]
    · rw [if_pos hclose, if_neg (by simpa using hclose), run_pure]

/-- On a sound line, the parser makes of the line what stands in it. -/
theorem parseLine_reads (hasSection : Bool) {textEnd line L len : ℕ}
    (h : TextLine m textEnd line L) (hlen : GivenLength m line L len)
    (hsound : LineSound hasSection (m (line + L)) (region m line L)) :
    (parseLine hasSection textEnd line len).run m = (readLine hasSection (region m line L), m) := by
  have hfits := h.fits
  have haddr := h.addressable
  obtain ⟨hrun, -⟩ := @lineLen_spec (fun _ => True) m _ _ _ _ h hlen
  obtain ⟨k, hk, hstrip, hdrop, hstop, -⟩ := @stripLeading_spec (fun _ => True) m L line
  rw [LineSound, hdrop] at hsound
  rw [parseLine, run_bind, hrun, run_bind, hstrip, run_ite, readLine, hdrop]
  dsimp only
  by_cases hnil : L - k = 0
  · rw [if_pos hnil, hnil, region_zero, run_pure]
  · obtain ⟨n, hn⟩ := Nat.exists_eq_succ_of_ne_zero hnil
    have hne (i : ℕ) (hi : i < L - k) : m (line + k + i) ≠ 0 := h.inText _ (by omega) (by omega)
    have hstripped := h.stripped hk
    rw [hn, Nat.succ_eq_add_one] at hstripped
    rw [hn, region, StrippedSound] at hsound
    have hfirst : m (line + k) ≠ 0 := hne 0 (by omega)
    rw [if_neg hnil, run_bind, run_octetAt, run_ite, hn, region]
    dsimp only
    by_cases hcomment : m (line + k) = numberSign
    · rw [if_pos (.inr hcomment), run_pure]
      simp only [hcomment, if_true]
    · rw [if_neg (not_or.mpr ⟨hfirst, hcomment⟩), run_ite]
      simp only [hcomment, if_false] at hsound ⊢
      by_cases hopen : m (line + k) = openBracket
      · simp only [hopen, if_true] at hsound ⊢
        cases hasSection with
        | false => rfl
        | true =>
          rw [if_pos rfl, if_pos rfl, run_bind, run_subSize (by omega) (by omega), Nat.succ_sub_one]
          refine parseSection_reads (by omega) (fun i hi => ?_) (hsound rfl)
          rw [Nat.add_assoc]
          exact hne _ (by omega)
      · simp only [hopen, if_false] at hsound ⊢
        have hsign : (∃ i, 0 < i ∧ i < n + 1 ∧ m (line + k + i) = equalSign) ∨
            m (line + k + (n + 1)) = 0 := by
          rcases hsound.2 with hmem | hnext
          · obtain ⟨i, hi, hs⟩ := mem_region.mp hmem
            refine .inl ⟨i + 1, by omega, by omega, ?_⟩
            rwa [show line + k + (i + 1) = line + k + 1 + i by omega]
          · rw [show line + k + (n + 1) = line + L by omega]
            exact .inr hnext
        exact parseKeyVal_reads hstripped (by omega) (hstop (by omega)) hsound.1 hsign

end Reads

end Csptp
