import Csptp.Cfg.Reading

/-! # Lines that come back

A key and a value, or the name of a section, written into a line with any blanks around them are what
the callback gets. In quotation marks, a key or a name may also begin or end with a blank, and a key with
a character that begins another kind of line. -/
namespace Csptp
open Octets Octets.Prog
set_option autoImplicit false

/-! ## Writing lines -/

def keyLine (w₁ key w₂ w₃ val w₄ : List Octet) : List Octet :=
  w₁ ++ (key ++ w₂) ++ equalSign :: (w₃ ++ val ++ w₄)

def sectionLine (w₁ name w₂ w₃ : List Octet) : List Octet :=
  openBracket :: (w₁ ++ (name ++ w₂ ++ [closeBracket]) ++ w₃)

def enclose (q : Octet) (s : List Octet) : List Octet := q :: s ++ [q]

def IsQuote (q : Octet) : Prop := q = doubleQuote ∨ q = singleQuote

/-- What `enclose` writes for some string. -/
def Enclosed (s : List Octet) : Prop := 2 ≤ s.length ∧ InQuotes s

instance (s : List Octet) : Decidable (Enclosed s) := inferInstanceAs (Decidable (_ ∧ _))

/-- What stands in front of the equal sign: it begins no other kind of line. -/
structure KeyText (s : List Octet) : Prop where
  ends : BareEnds s
  noSign : equalSign ∉ s
  head : ∀ c ∈ s.head?, c ≠ numberSign ∧ c ≠ openBracket

/-! ## Reading them -/

theorem unquote_of_not_enclosed {s : List Octet} (h : ¬ Enclosed s) : unquote s = s := by
  rw [unquote, if_neg]
  exact fun hq => h ⟨by omega, hq.2⟩

theorem unquote_enclose {q : Octet} {s : List Octet} (hq : IsQuote q) (hs : 1 ≤ s.length) :
    unquote (enclose q s) = s := by
  have hin : InQuotes (enclose q s) := by
    rw [InQuotes, enclose, List.cons_append, List.head?_cons, ← List.cons_append, List.getLast?_concat]
    exact hq.imp (fun h => ⟨by rw [h], by rw [h]⟩) fun h => ⟨by rw [h], by rw [h]⟩
  have hlen : 2 < (enclose q s).length := by
    rw [enclose, List.length_append, List.length_cons, List.length_singleton]
    omega
  rw [unquote, if_pos ⟨hlen, hin⟩, enclose, List.cons_append, List.tail_cons, List.dropLast_concat]

theorem isQuote_bare {q : Octet} (h : IsQuote q) :
    isspace q = false ∧ q ≠ equalSign ∧ q ≠ numberSign ∧ q ≠ openBracket := by
  rcases h with rfl | rfl <;> decide

theorem bareEnds_enclose {q : Octet} (h : IsQuote q) (s : List Octet) : BareEnds (enclose q s) := by
  constructor
  · intro c hc
    obtain rfl := Option.mem_some_iff.mp hc
    exact (isQuote_bare h).1
  · intro c hc
    rw [enclose, List.getLast?_concat] at hc
    obtain rfl := Option.mem_some_iff.mp hc
    exact (isQuote_bare h).1

theorem keyText_enclose {q : Octet} (h : IsQuote q) {s : List Octet} (hs : equalSign ∉ s) :
    KeyText (enclose q s) := by
  refine ⟨bareEnds_enclose h s, ?_, ?_⟩
  · rw [enclose, List.mem_append, List.mem_cons, List.mem_singleton]
    rintro ((hq | hmem) | hq)
    · exact (isQuote_bare h).2.1 hq.symm
    · exact hs hmem
    · exact (isQuote_bare h).2.1 hq.symm
  · intro c hc
    obtain rfl := Option.mem_some_iff.mp hc
    exact (isQuote_bare h).2.2

section Lines
variable {w₁ w₂ w₃ w₄ : List Octet}

/-- A line that begins with a character that is not blank. -/
theorem dropWhile_line {c : Octet} {s rest : List Octet} (hw : Blank w₁) (hc : isspace c = false) :
    (w₁ ++ (c :: s) ++ rest).dropWhile isspace = c :: (s ++ rest) := by
  rw [List.append_assoc, List.dropWhile_append_of_pos hw, List.cons_append,
    List.dropWhile_cons_of_neg (by simp [hc])]

theorem readLine_keyLine (hasSection : Bool) {text val : List Octet} (hw₁ : Blank w₁) (hw₂ : Blank w₂)
    (hw₃ : Blank w₃) (hw₄ : Blank w₄) (htext : KeyText text) (hne : text ≠ [])
    (hshort : (unquote text).length < secKeySize) (hval : BareEnds val) (hval' : val ≠ [])
    (hfits : val.length < valSize) :
    readLine hasSection (keyLine w₁ text w₂ w₃ val w₄) = .setKey (unquote text) val := by
  obtain ⟨c, s, rfl⟩ := List.exists_cons_of_ne_nil hne
  have hhead := htext.head c rfl
  have hkey : ∀ x ∈ c :: s ++ w₂, isKeyChar x = true := by
    intro x hx
    rw [isKeyChar, decide_eq_true_eq]
    rintro rfl
    rcases List.mem_append.mp hx with hx | hx
    · exact htext.noSign hx
    · exact absurd (hw₂ _ hx) (by decide)
  rw [readLine, keyLine, List.cons_append, dropWhile_line hw₁ (htext.ends.head c rfl)]
  simp only [hhead.1, hhead.2, if_false]
  rw [← List.cons_append, ← List.cons_append, readKeyVal_split hkey, rdropWhile_append_of_blank hw₂,
    rdropWhile_of_last htext.ends.last, if_neg (by omega), readVal, strip_of_bareEnds hw₃ hval hw₄,
    if_neg (not_or.mpr ⟨hval', by omega⟩)]

theorem sound_keyLine (hasSection : Bool) (next : Octet) {text val : List Octet} (hw₁ : Blank w₁)
    (htext : KeyText text) (hne : text ≠ []) :
    LineSound hasSection next (keyLine w₁ text w₂ w₃ val w₄) := by
  obtain ⟨c, s, rfl⟩ := List.exists_cons_of_ne_nil hne
  have hhead := htext.head c rfl
  have hsign : c ≠ equalSign := by
    rintro rfl
    exact htext.noSign List.mem_cons_self
  rw [LineSound, keyLine, List.cons_append, dropWhile_line hw₁ (htext.ends.head c rfl), StrippedSound,
    if_neg hhead.1, if_neg hhead.2]
  exact ⟨hsign, .inl (List.mem_append_right _ List.mem_cons_self)⟩

theorem bareEnds_section {name : List Octet} (hends : BareEnds name) (hne : name ≠ []) :
    BareEnds (name ++ w₂ ++ [closeBracket]) := by
  obtain ⟨c, s, rfl⟩ := List.exists_cons_of_ne_nil hne
  refine ⟨hends.head, fun x hx => ?_⟩
  rw [List.getLast?_concat] at hx
  obtain rfl := Option.mem_some_iff.mp hx
  decide

theorem dropWhile_sectionLine (name : List Octet) :
    (sectionLine w₁ name w₂ w₃).dropWhile isspace = sectionLine w₁ name w₂ w₃ :=
  List.dropWhile_cons_of_neg (by decide)

theorem readLine_sectionLine {text : List Octet} (hw₁ : Blank w₁) (hw₂ : Blank w₂) (hw₃ : Blank w₃)
    (hends : BareEnds text) (hne : text ≠ []) (hshort : (unquote text).length < secKeySize) :
    readLine true (sectionLine w₁ text w₂ w₃) = .setSection (unquote text) := by
  rw [readLine, dropWhile_sectionLine]
  simp only [sectionLine, show openBracket ≠ numberSign by decide, if_false, if_true]
  rw [readSection, strip_of_bareEnds hw₁ (bareEnds_section hends hne) hw₃, List.getLast?_concat,
    if_pos rfl, List.dropLast_concat, rdropWhile_append_of_blank hw₂, rdropWhile_of_last hends.last]
  exact if_neg (by omega)

theorem sound_sectionLine (next : Octet) {text : List Octet} (hw₁ : Blank w₁) (hw₃ : Blank w₃)
    (hends : BareEnds text) (hne : text ≠ []) :
    LineSound true next (sectionLine w₁ text w₂ w₃) := by
  rw [LineSound, dropWhile_sectionLine, sectionLine, StrippedSound, if_neg (by decide), if_pos rfl]
  intro _ hempty
  have hstrip := strip_of_bareEnds hw₁ (@bareEnds_section w₂ _ hends hne) hw₃
  rw [strip] at hstrip
  rw [EmptyName, hstrip] at hempty
  have hlen := congrArg List.length hempty
  rw [List.length_append, List.length_append, List.length_singleton] at hlen
  exact hne (List.eq_nil_of_length_eq_zero (by omega))

end Lines

/-! ## The callbacks get them -/

/-- Wherever a line with these characters lies, and whatever follows it, its callback is called with what
was read, and the result of the callback is returned. -/
def Cfg.Parses {σ κ : Type} (self : Cfg σ κ) (text : List Octet) (parsed : ParsedLine) : Prop :=
  ∀ (m : Mem) (textEnd line L len : ℕ), TextLine m textEnd line L → GivenLength m line L len →
    region m line L = text → (self.parseLine textEnd line len).run m = (self.call parsed, m)

theorem Cfg.parses_of_sound {σ κ : Type} {self : Cfg σ κ} {text : List Octet} {parsed : ParsedLine}
    (hsound : ∀ next, LineSound self.setSection.isSome next text)
    (hread : readLine self.setSection.isSome text = parsed) : self.Parses text parsed := by
  rintro m textEnd line L len hline hlen rfl
  rw [Cfg.parseLine, run_bind, parseLine_reads _ hline hlen (hsound _), run_pure, hread]

section Sample

end Sample

end Csptp
