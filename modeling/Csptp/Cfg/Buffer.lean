import Csptp.Cfg.Lines

/-! # Parsing a buffer

`parseBuf` parses a text line by line, unless a line begins with a character of 128 or more, which ends
the loop, or the end of the text ends a line that is not refused anyway, or the first character of the
text that is not blank is an equal sign. -/
namespace Csptp
open Octets Octets.Prog
set_option autoImplicit false

variable {m : Mem} {textEnd buf line len : ℕ} {hasSection : Bool}

/-! ## Lines in a buffer -/

/-- A line between line breaks or the ends of the text. -/
structure LineIn (m : Mem) (textEnd buf line len : ℕ) : Prop where
  low : buf ≤ line
  high : line + len ≤ textEnd
  pos : 0 < len
  stop : line + len = textEnd ∨ IsBreak (m (line + len))
  before : line = buf ∨ IsBreak (m (line - 1))

theorem IsBreak.blank {c : Octet} (h : IsBreak c) : isspace c = true ∧ c ≠ equalSign ∧ c ≠ 0 := by
  rcases h with rfl | rfl <;> decide

theorem blank_region {s n : ℕ} : Blank (region m s n) ↔ ∀ i < n, isspace (m (s + i)) = true := by
  constructor
  · exact fun h i hi => h _ (mem_region.mpr ⟨i, hi, rfl⟩)
  · intro h c hc
    obtain ⟨i, hi, rfl⟩ := mem_region.mp hc
    exact h i hi

namespace LineIn

theorem textLine (hl : LineIn m textEnd buf line len) (h : TextBuf m textEnd buf) :
    TextLine m textEnd line len := by
  have hlow := hl.low
  have hend := h.high
  refine ⟨fun o ho ho' => h.inText o (by omega) ho', h.zero, hl.high, ?_, by omega⟩
  rcases hl.stop with heq | hbreak
  · rw [heq]
    exact .inl h.zero
  · exact .inr hbreak.symm

theorem lt_of_break (hl : LineIn m textEnd buf line len) (h : TextBuf m textEnd buf)
    (hstop : IsBreak (m (line + len))) : line + len < textEnd := by
  refine Nat.lt_of_le_of_ne hl.high fun heq => hstop.blank.2.2 ?_
  rw [heq, h.zero]

/-- A line of blanks, or where its first other character is. -/
theorem split (hl : LineIn m textEnd buf line len) (h : TextBuf m textEnd buf) :
    Blank (region m line len) ∨ ∃ k < len, (∀ i < k, isspace (m (line + i)) = true) ∧
      isspace (m (line + k)) = false := by
  have hhigh := hl.high
  obtain ⟨k, -, hblank, hstop⟩ := h.exists_stop (show line ≤ textEnd by omega)
  rcases Nat.lt_or_ge k len with hlt | hge
  · exact .inr ⟨k, hlt, hblank, hstop⟩
  · exact .inl (blank_region.mpr fun i hi => hblank i (by omega))

/-- A blank, or nothing, stands in front of the first other character. -/
theorem before_start (hl : LineIn m textEnd buf line len) {k : ℕ}
    (hblank : ∀ i < k, isspace (m (line + i)) = true) :
    line + k = buf ∨ isspace (m (line + k - 1)) = true := by
  rcases Nat.eq_zero_or_pos k with rfl | hpos
  · exact hl.before.imp id fun hb => hb.blank.1
  · right
    rw [show line + k - 1 = line + (k - 1) by omega]
    exact hblank _ (by omega)

theorem blank_start (hl : LineIn m textEnd buf line len) {k : ℕ}
    (hblank : ∀ i < k, isspace (m (line + i)) = true) :
    Blank (region m buf (line + k - buf)) ↔ Blank (region m buf (line - buf)) := by
  have hlow := hl.low
  rw [blank_region, blank_region]
  refine ⟨fun h i hi => h i (by omega), fun h i hi => ?_⟩
  rcases Nat.lt_or_ge i (line - buf) with hlt | hge
  · exact h i hlt
  · rw [show buf + i = line + (i + buf - line) by omega]
    exact hblank _ (by omega)

end LineIn

theorem dropWhile_region {k : ℕ} (hk : k < len) (hblank : ∀ i < k, isspace (m (line + i)) = true)
    (hstop : isspace (m (line + k)) = false) :
    (region m line len).dropWhile isspace = m (line + k) :: region m (line + k + 1) (len - k - 1) := by
  rw [region_split hk, List.dropWhile_append_of_pos, List.dropWhile_cons_of_neg (by simp [hstop])]
  exact blank_region.mpr hblank

/-! ## Behind the leading blanks -/

def parseStripped (hasSection : Bool) (textEnd start len : ℕ) : Prog ParsedLine := do
  let c ← octetAt start
  if c = 0 ∨ c = numberSign then pure .ignored
  else if c = openBracket then
    if hasSection then do
      let len ← subSize len 1
      parseSection (start + 1) len
    else pure (.refused none)
  else parseKeyVal textEnd start len

theorem parseLine_stripped {S : ℕ → Prop} {k : ℕ} (hk : k < len)
    (hblank : ∀ i < k, isspace (m (line + i)) = true) (hstop : isspace (m (line + k)) = false)
    (hS : ∀ i ≤ k, S (line + i)) :
    (parseLine hasSection textEnd line len).run m =
        (parseStripped hasSection textEnd (line + k) (len - k)).run m ∧
      (Stays S (parseLine hasSection textEnd line len) m ↔
        Stays S (parseStripped hasSection textEnd (line + k) (len - k)) m) := by
  obtain ⟨hlead, hlead'⟩ := @stripLeading_to m S k len line hk.le hblank (fun _ => hstop) hS
  rw [parseLine, lineLen, if_neg (by omega), run_bind, run_pure, run_bind, hlead, stays_bind, run_pure,
    stays_bind, hlead, if_neg (by dsimp only; omega)]
  exact ⟨rfl, fun h => h.2.2, fun h => ⟨stays_pure _, hlead', h⟩⟩

/-- A line of blanks that is cut where it ends. -/
theorem parseLine_blank {S : ℕ → Prop} (hlen : 0 < len) (hblank : Blank (region m line len))
    (hS : ∀ i ≤ len, S (line + i)) :
    (parseLine hasSection textEnd line len).run m = (.ignored, m) ∧
      Stays S (parseLine hasSection textEnd line len) m := by
  obtain ⟨hlead, hlead'⟩ := @stripLeading_to m S len len line le_rfl (blank_region.mp hblank)
    (fun h => absurd h (by omega)) hS
  rw [parseLine, lineLen, if_neg (by omega), run_bind, run_pure, run_bind, hlead, stays_bind, run_pure,
    stays_bind, hlead, if_pos (by dsimp only; omega)]
  exact ⟨rfl, stays_pure _, hlead', stays_pure _⟩

section Stripped
variable {start : ℕ}

/-- An equal sign at the beginning of the line. -/
theorem parseKeyVal_sign (h : TextBuf m textEnd buf) (hlow : buf ≤ start) (hlt : start < textEnd)
    (hsign : m start = equalSign) (hbefore : start = buf ∨ isspace (m (start - 1)) = true) (len : ℕ) :
    (Blank (region m buf (start - buf)) →
      ¬ Stays (InBuf textEnd buf) (parseKeyVal textEnd start len) m) ∧
    (¬ Blank (region m buf (start - buf)) →
      (parseKeyVal textEnd start len).run m = (.refused none, m) ∧
        Stays (InBuf textEnd buf) (parseKeyVal textEnd start len) m) := by
  obtain ⟨hscan, hstays⟩ := h.strchr_sign hlow hlt
  have hrun : (strchr equalSign (textEnd + 1 - start) start).run m = (some start, m) := by
    rcases hscan with ⟨hno, -⟩ | ⟨j, -, -, hmin, hrun⟩
    · exact absurd hsign (hno 0 (by omega))
    · rcases Nat.eq_zero_or_pos j with rfl | hpos
      · exact hrun
      · exact absurd hsign (hmin 0 hpos)
  rw [parseKeyVal, run_bind, hrun, stays_bind, hrun]
  constructor
  · intro hblank hs
    refine parseKeyAt_sign_leaves h hlow hlt (fun x hx hx' => ?_) hs.2
    have hc := blank_region.mp hblank (x - buf) (by omega)
    rwa [Nat.add_sub_cancel' hx] at hc
  · intro hsome
    rw [blank_region] at hsome
    push Not at hsome
    obtain ⟨i, hi, hne⟩ := hsome
    let P : ℕ → Prop := fun x => buf ≤ x ∧ isspace (m x) = false
    have hP : P (buf + i) := ⟨Nat.le_add_right _ _, by simpa using hne⟩
    obtain ⟨ho, hfirst⟩ := Nat.findGreatest_spec (P := P) (show buf + i ≤ start - 1 by omega) hP
    have hle := Nat.findGreatest_le (P := P) (start - 1)
    have hblank (x : ℕ) (hx : Nat.findGreatest P (start - 1) < x) (hx' : x < start) :
        isspace (m x) = true := by
      have hno := Nat.findGreatest_is_greatest hx (by omega)
      by_contra hc
      exact hno ⟨by omega, by simpa using hc⟩
    have hlast : Nat.findGreatest P (start - 1) ≠ start - 1 := by
      intro heq
      rw [heq] at hfirst
      rcases hbefore with hbuf | hspace
      · omega
      · rw [hspace] at hfirst
        exact absurd hfirst (by simp)
    obtain ⟨hkey, hkey'⟩ := @parseKeyAt_sign m textEnd buf start len h hlt hsign _ ho (by omega)
      hblank hfirst
    exact ⟨hkey, hstays, hkey'⟩

/-- A line that a line break ends. -/
theorem parseStripped_broken (h : TextBuf m textEnd buf) (hlow : buf ≤ start)
    (hhigh : start + len < textEnd) (hlen : 0 < len) (hstop : IsBreak (m (start + len)))
    (hfirst : isspace (m start) = false) (hbefore : start = buf ∨ isspace (m (start - 1)) = true) :
    Stays (InBuf textEnd buf) (parseStripped hasSection textEnd start len) m ↔
      ¬ (Blank (region m buf (start - buf)) ∧ m start = equalSign) := by
  have hend := h.high
  have hne : m start ≠ 0 := h.inText _ hlow (by omega)
  have hline : TextLine m textEnd start len := by
    refine ⟨fun o ho ho' => h.inText o (by omega) ho', h.zero, by omega, .inr hstop.symm, by omega⟩
  have hmono {p : Prog ParsedLine} (hs : Safe (fun o => start ≤ o ∧ o ≤ start + len) p m) :
      Stays (InBuf textEnd buf) p m :=
    hs.stays.mono fun o ho => h.inBuf (by omega) (by omega)
  have hread : InBuf textEnd buf start := h.inBuf hlow (by omega)
  rw [parseStripped, stays_bind, stays_octetAt, run_octetAt, stays_ite]
  dsimp only
  by_cases hcomment : m start = numberSign
  · rw [if_pos (.inr hcomment), hcomment]
    exact iff_of_true ⟨hread, stays_pure _⟩ fun hs => absurd hs.2 (by decide)
  rw [if_neg (not_or.mpr ⟨hne, hcomment⟩), stays_ite]
  by_cases hopen : m start = openBracket
  · have hnot : ¬ (Blank (region m buf (start - buf)) ∧ m start = equalSign) := by
      rw [hopen]
      exact fun hs => absurd hs.2 (by decide)
    rw [if_pos hopen, stays_ite]
    refine iff_of_true ⟨hread, ?_⟩ hnot
    split
    · rw [stays_bind, run_subSize (by omega) (by omega)]
      refine ⟨stays_subSize _ _, ?_⟩
      by_cases hempty : EmptyName (region m (start + 1) (len - 1))
      · exact parseSection_empty h (by omega) (by omega) (by rwa [Nat.add_sub_cancel]) hempty
      · have hsafe := (@parseSection_safe_iff m start (start + 1) (len - 1) (by omega) (by omega)).mpr
          hempty
        rw [show start + 1 + (len - 1) = start + len by omega] at hsafe
        exact hmono hsafe
    · exact stays_pure _
  rw [if_neg hopen]
  by_cases hsign : m start = equalSign
  · obtain ⟨hleaves, hstays⟩ := parseKeyVal_sign h hlow (by omega) hsign hbefore len
    constructor
    · exact fun hs hb => hleaves hb.1 hs.2
    · exact fun hb => ⟨hread, (hstays fun hblank => hb ⟨hblank, hsign⟩).2⟩
  · refine iff_of_true ⟨hread, ?_⟩ fun hs => hsign hs.2
    by_cases hex : ∃ i, 0 < i ∧ i < len ∧ m (start + i) = equalSign
    · exact hmono ((parseKeyVal_safe_iff hline hlen le_rfl).mpr ⟨hsign, .inl hex⟩)
    · obtain ⟨key, -, hstays⟩ := parseKeyVal_beyond h hlow hhigh hlen hfirst fun i hi hs => by
        rcases Nat.eq_zero_or_pos i with rfl | hpos
        · exact hsign hs
        · rcases Nat.lt_or_ge i len with hlt | hge
          · exact hex ⟨i, hpos, hlt, hs⟩
          · rw [show i = len by omega] at hs
            exact hstop.blank.2.1 hs
      exact hstays

/-- The last line, with the length up to the last address: it is refused where it should be, or it is
ignored or the parser leaves the buffer. -/
theorem parseStripped_open (h : TextBuf m textEnd buf) (hlow : buf ≤ start) (hlt : start < textEnd)
    (hfirst : isspace (m start) = false) (hbefore : start = buf ∨ isspace (m (start - 1)) = true) :
    let p := parseStripped hasSection textEnd start (2 ^ 64 - start)
    let refused := ¬ (Blank (region m buf (start - buf)) ∧ m start = equalSign) ∧
      m start ≠ numberSign ∧ if m start = openBracket then
        hasSection = true → Blank (region m (start + 1) (textEnd - start - 1))
      else KeyRefused (region m start (textEnd - start))
    (refused ∧ ∃ key, p.run m = (.refused key, m) ∧ Stays (InBuf textEnd buf) p m) ∨
      (¬ refused ∧ (p.run m = (.ignored, m) ∨ ¬ Stays (InBuf textEnd buf) p m)) := by
  have hend := h.high
  have hbuf := h.low
  have hne : m start ≠ 0 := h.inText _ hlow hlt
  have hread : InBuf textEnd buf start := h.inBuf hlow (by omega)
  intro p refused
  have hp : p = parseStripped hasSection textEnd start (2 ^ 64 - start) := rfl
  have hrefused : refused = (¬ (Blank (region m buf (start - buf)) ∧ m start = equalSign) ∧
      m start ≠ numberSign ∧ if m start = openBracket then
        hasSection = true → Blank (region m (start + 1) (textEnd - start - 1))
      else KeyRefused (region m start (textEnd - start))) := rfl
  rw [hp, parseStripped, run_bind, run_octetAt, stays_bind, stays_octetAt, run_octetAt, run_ite,
    stays_ite]
  dsimp only
  by_cases hcomment : m start = numberSign
  · rw [if_pos (.inr hcomment), hrefused]
    exact .inr ⟨fun hr => hr.2.1 hcomment, .inl rfl⟩
  have hsome : ¬ (m start = 0 ∨ m start = numberSign) := not_or.mpr ⟨hne, hcomment⟩
  rw [if_neg hsome, if_neg hsome, run_ite, stays_ite]
  by_cases hopen : m start = openBracket
  · have hsign : ¬ (Blank (region m buf (start - buf)) ∧ m start = equalSign) := by
      rw [hopen]
      exact fun hs => absurd hs.2 (by decide)
    rw [if_pos hopen, if_pos hopen, hrefused, if_pos hopen]
    cases hasSection with
    | false => exact .inl ⟨⟨hsign, hcomment, fun hs => absurd hs (by simp)⟩, none, rfl, hread, stays_pure _⟩
    | true =>
      have hlen : (subSize (2 ^ 64 - start) 1).run m = (2 ^ 64 - (start + 1), m) := by
        rw [run_subSize (by omega) (by omega)]
        congr 1
      obtain ⟨hblank, hleaves⟩ := @parseSection_open m textEnd buf (start + 1) h (by omega) (by omega)
      rw [run_ite, stays_ite, if_pos rfl, if_pos rfl, run_bind, hlen, stays_bind, hlen]
      by_cases hall : Blank (region m (start + 1) (textEnd - (start + 1)))
      · obtain ⟨hrun, hstays⟩ := hblank hall
        exact .inl ⟨⟨hsign, hcomment, fun _ => hall⟩, none, hrun, hread, stays_subSize _ _, hstays⟩
      · exact .inr ⟨fun hr => hall (hr.2.2 rfl), .inr fun hs => hleaves hall hs.2.2⟩
  rw [if_neg hopen, if_neg hopen, hrefused, if_neg hopen]
  by_cases hsign : m start = equalSign
  · obtain ⟨hleaves, hstays⟩ := parseKeyVal_sign h hlow hlt hsign hbefore (2 ^ 64 - start)
    by_cases hblank : Blank (region m buf (start - buf))
    · exact .inr ⟨fun hr => hr.1 ⟨hblank, hsign⟩, .inr fun hs => hleaves hblank hs.2⟩
    · obtain ⟨hrun, hstays⟩ := hstays hblank
      refine .inl ⟨⟨fun hs => hblank hs.1, hcomment, .inl ?_⟩, none, hrun, hread, hstays⟩
      rw [show textEnd - start = textEnd - start - 1 + 1 by omega, region_head?, hsign]
  · obtain ⟨hkey, hleaves⟩ := parseKeyVal_open h hlow hlt hfirst hsign
    by_cases hr : KeyRefused (region m start (textEnd - start))
    · obtain ⟨key, hrun, hstays⟩ := hkey hr
      exact .inl ⟨⟨fun hs => hsign hs.2, hcomment, hr⟩, key, hrun, hread, hstays⟩
    · exact .inr ⟨fun hr' => hr hr'.2.2, .inr fun hs => hleaves hr hs.2⟩

end Stripped

/-! ## Lines as `parseBuf` cuts them -/

/-- The parser stays in the buffer on a line that a line break ends. -/
theorem parseLine_broken (h : TextBuf m textEnd buf) (hl : LineIn m textEnd buf line len)
    (hstop : IsBreak (m (line + len))) :
    Stays (InBuf textEnd buf) (parseLine hasSection textEnd line len) m ↔
      (Blank (region m buf (line - buf)) →
        ((region m line len).dropWhile isspace).head? ≠ some equalSign) := by
  have hlow := hl.low
  have hhigh := hl.high
  have hlt := hl.lt_of_break h hstop
  rcases hl.split h with hall | ⟨k, hk, hblank, hfirst⟩
  · have hnil : (region m line len).dropWhile isspace = [] := List.dropWhile_eq_nil_iff.mpr hall
    rw [hnil]
    refine iff_of_true (parseLine_blank hl.pos hall fun i hi => ?_).2 fun _ => by simp
    exact h.inBuf (by omega) (by omega)
  · rw [(parseLine_stripped hk hblank hfirst fun i hi => h.inBuf (by omega) (by omega)).2,
      parseStripped_broken h (by omega) (by omega) (by omega) (by rwa [Nat.add_assoc, Nat.add_sub_cancel' hk.le])
        hfirst (hl.before_start hblank), hl.blank_start hblank, dropWhile_region hk hblank hfirst,
      List.head?_cons, not_and]
    exact forall_congr' fun _ => by simp

/-- The same of the last line, which `parseBuf` cuts at the last address. -/
theorem parseLine_open (h : TextBuf m textEnd buf) (hl : LineIn m textEnd buf line len)
    (hlast : line + len = textEnd) :
    let p := parseLine hasSection textEnd line (2 ^ 64 - line)
    let refused := (Blank (region m buf (line - buf)) →
      ((region m line len).dropWhile isspace).head? ≠ some equalSign) ∧
      LineRefused hasSection (region m line len)
    (refused ∧ ∃ key, p.run m = (.refused key, m) ∧ Stays (InBuf textEnd buf) p m) ∨
      (¬ refused ∧ (p.run m = (.ignored, m) ∨ ¬ Stays (InBuf textEnd buf) p m)) := by
  have hend := h.high
  have hlow := hl.low
  intro p refused
  rcases hl.split h with hall | ⟨k, hk, hblank, hfirst⟩
  · have hnil : (region m line len).dropWhile isspace = [] := List.dropWhile_eq_nil_iff.mpr hall
    have hzero : m (line + len) = 0 := by rw [hlast, h.zero]
    refine .inr ⟨fun hr => ?_, .inl ?_⟩
    · have hr := hr.2
      rw [LineRefused, hnil] at hr
      exact hr
    · rw [(parseLine_stripped (S := fun _ => True) (by omega) (blank_region.mp hall)
        (by rw [hzero]; decide) fun _ _ => trivial).1, parseStripped, run_bind, run_octetAt,
        if_pos (.inl hzero)]
      rfl
  · obtain ⟨hrun, hstays⟩ := @parseLine_stripped m textEnd line (2 ^ 64 - line) hasSection
      (InBuf textEnd buf) k (by omega) hblank hfirst fun i hi => h.inBuf (by omega) (by omega)
    have hopen := @parseStripped_open m textEnd buf hasSection (line + k) h (by omega) (by omega) hfirst
      (hl.before_start hblank)
    have hrefused : refused = (¬ (Blank (region m buf (line + k - buf)) ∧ m (line + k) = equalSign) ∧
        m (line + k) ≠ numberSign ∧ if m (line + k) = openBracket then
          hasSection = true → Blank (region m (line + k + 1) (textEnd - (line + k) - 1))
        else KeyRefused (region m (line + k) (textEnd - (line + k)))) := by
      have hrest : region m (line + k) (textEnd - (line + k)) =
          m (line + k) :: region m (line + k + 1) (len - k - 1) := by
        rw [show textEnd - (line + k) = len - k - 1 + 1 by omega, region]
      change ((_ → _) ∧ LineRefused _ _) = _
      rw [LineRefused, hl.blank_start hblank, dropWhile_region hk hblank hfirst, List.head?_cons, not_and,
        hrest, show textEnd - (line + k) - 1 = len - k - 1 by omega]
      simp only [ne_eq, Option.some.injEq]
    rw [hrefused, hrun, hstays, Nat.sub_add_eq]
    simpa only [Nat.sub_add_eq] using hopen

/-- A line that is refused anyway, cut where it ends. -/
theorem readKeyVal_refused {s : List Octet} (hs : KeyRefused s) (hhead : s.head? ≠ some equalSign) :
    ∃ key, readKeyVal s = .refused key := by
  rw [KeyRefused, or_iff_right hhead] at hs
  rw [readKeyVal]
  split
  · exact ⟨none, rfl⟩
  · rename_i c val heq
    rcases hs with hno | hlong | hblank
    · have hnil : s.dropWhile isKeyChar = [] := by
        refine List.dropWhile_eq_nil_iff.mpr fun c hc => ?_
        rw [isKeyChar, decide_eq_true_eq]
        rintro rfl
        exact hno hc
      rw [hnil] at heq
      exact absurd heq (by simp)
    · exact ⟨none, if_pos hlong⟩
    · rw [heq, List.tail_cons] at hblank
      have hnil : strip val = [] := by
        rw [strip, List.dropWhile_eq_nil_iff.mpr hblank, List.rdropWhile_nil]
      dsimp only
      split
      · exact ⟨none, rfl⟩
      · rw [readVal, if_pos (.inl hnil)]
        exact ⟨_, rfl⟩

theorem parseLine_refused (h : TextBuf m textEnd buf) (hl : LineIn m textEnd buf line len)
    (hlast : line + len = textEnd) (hsign : Blank (region m buf (line - buf)) →
      ((region m line len).dropWhile isspace).head? ≠ some equalSign)
    (hrefused : LineRefused hasSection (region m line len)) :
    ∃ key, (parseLine hasSection textEnd line len).run m = (.refused key, m) := by
  have hlow := hl.low
  have hzero : m (line + len) = 0 := by rw [hlast, h.zero]
  rcases hl.split h with hall | ⟨k, hk, hblank, hfirst⟩
  · rw [LineRefused, List.dropWhile_eq_nil_iff.mpr hall] at hrefused
    exact hrefused.elim
  rw [LineRefused, dropWhile_region hk hblank hfirst] at hrefused
  obtain ⟨hcomment, hrefused⟩ := hrefused
  rw [dropWhile_region hk hblank hfirst, List.head?_cons, ← hl.blank_start hblank] at hsign
  by_cases heq : m (line + k) = equalSign
  · -- the key seems to be too long
    have hopen : m (line + k) ≠ openBracket := by rw [heq]; decide
    have hne : m (line + k) ≠ 0 := by rw [heq]; decide
    obtain ⟨-, hrun⟩ := parseKeyVal_sign h (by omega) (by omega) heq (hl.before_start hblank) (len - k)
    refine ⟨none, ?_⟩
    rw [(parseLine_stripped (S := fun _ => True) hk hblank hfirst fun _ _ => trivial).1, parseStripped,
      run_bind, run_octetAt, if_neg (not_or.mpr ⟨hne, hcomment⟩), if_neg hopen]
    exact (hrun fun hb => hsign hb (by rw [heq])).1
  · have hsound : LineSound hasSection (m (line + len)) (region m line len) := by
      rw [LineSound, dropWhile_region hk hblank hfirst, StrippedSound, if_neg hcomment]
      split
      · rename_i hopen
        intro hs
        rw [if_pos hopen] at hrefused
        rw [EmptyName, List.dropWhile_eq_nil_iff.mpr (hrefused hs), List.rdropWhile_nil]
        simp
      · exact ⟨heq, .inr hzero⟩
    rw [parseLine_reads _ (hl.textLine h) (.inl ⟨rfl, hl.pos⟩) hsound, readLine,
      dropWhile_region hk hblank hfirst]
    simp only [hcomment, if_false]
    split
    · rename_i hopen
      rw [if_pos hopen] at hrefused
      split
      · rename_i hs
        have hnil : strip (region m (line + k + 1) (len - k - 1)) = [] := by
          rw [strip, List.dropWhile_eq_nil_iff.mpr (hrefused hs), List.rdropWhile_nil]
        refine ⟨none, ?_⟩
        rw [readSection, hnil]
        rfl
      · exact ⟨none, rfl⟩
    · rename_i hopen
      rw [if_neg hopen] at hrefused
      obtain ⟨key, hkey⟩ := readKeyVal_refused hrefused (by simpa using heq)
      exact ⟨key, by rw [hkey]⟩

end Csptp
