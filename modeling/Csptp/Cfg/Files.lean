import Csptp.Cfg.LineWise

/-! # Files and buffers

A file gives the parser each of its lines with the line break and in front of a zero, a buffer gives it
without and in front of the other lines. The same is read from both. -/
namespace Csptp
open Octets Octets.Prog
set_option autoImplicit false

variable {σ κ : Type} {m : Mem} {textEnd buf line len : ℕ} {l w rest text : List Octet}

/-! ## With and without the line break -/

theorem strip_append (hw : Blank w) (s : List Octet) : strip (s ++ w) = strip s := by
  rw [strip, strip]
  by_cases hs : Blank s
  · have hall : Blank (s ++ w) := fun c hc => (List.mem_append.mp hc).elim (hs c) (hw c)
    rw [List.dropWhile_eq_nil_iff.mpr hs, List.dropWhile_eq_nil_iff.mpr hall]
  · have hne : s.dropWhile isspace ≠ [] := fun hnil => hs (List.dropWhile_eq_nil_iff.mp hnil)
    rw [List.dropWhile_append, if_neg (by simpa using hne), rdropWhile_append_of_blank hw]

theorem isKeyChar_of_blank (hw : Blank w) : ∀ c ∈ w, isKeyChar c = true := by
  intro c hc
  rw [isKeyChar, decide_eq_true_eq]
  rintro rfl
  exact absurd (hw _ hc) (by decide)

theorem readKeyVal_append (hw : Blank w) (s : List Octet) : readKeyVal (s ++ w) = readKeyVal s := by
  rw [readKeyVal, readKeyVal]
  by_cases hs : s.dropWhile isKeyChar = []
  · have hall : (s ++ w).dropWhile isKeyChar = [] := by
      rw [List.dropWhile_append, hs, List.isEmpty_nil, if_pos rfl]
      exact List.dropWhile_eq_nil_iff.mpr (isKeyChar_of_blank hw)
    rw [hs, hall]
  · have hdrop : (s ++ w).dropWhile isKeyChar = s.dropWhile isKeyChar ++ w := by
      rw [List.dropWhile_append, if_neg (by simpa using hs)]
    have htake : (s ++ w).takeWhile isKeyChar = s.takeWhile isKeyChar := by
      rw [List.takeWhile_append, if_neg]
      intro hlen
      have hsum := congrArg List.length (@List.takeWhile_append_dropWhile _ isKeyChar s)
      rw [List.length_append] at hsum
      exact hs (List.eq_nil_of_length_eq_zero (by omega))
    rw [hdrop, htake]
    cases hd : s.dropWhile isKeyChar with
    | nil => exact absurd hd hs
    | cons c val => simp only [List.cons_append, readVal, strip_append hw]

theorem readSection_append (hw : Blank w) (sec : List Octet) :
    readSection (sec ++ w) = readSection sec := by
  rw [readSection, readSection, strip_append hw]

theorem readLine_append (hasSection : Bool) (hw : Blank w) (l : List Octet) :
    readLine hasSection (l ++ w) = readLine hasSection l := by
  rw [readLine, readLine]
  by_cases hl : Blank l
  · have hall : Blank (l ++ w) := fun c hc => (List.mem_append.mp hc).elim (hl c) (hw c)
    rw [List.dropWhile_eq_nil_iff.mpr hl, List.dropWhile_eq_nil_iff.mpr hall]
  · have hne : l.dropWhile isspace ≠ [] := fun hnil => hl (List.dropWhile_eq_nil_iff.mp hnil)
    rw [List.dropWhile_append, if_neg (by simpa using hne)]
    cases hd : l.dropWhile isspace with
    | nil => exact absurd hd hne
    | cons c rest =>
      simp only [List.cons_append, readSection_append hw]
      rw [← List.cons_append, readKeyVal_append hw]

/-! ## Texts -/

/-- A line that does not begin with an equal sign and names the section that it opens. -/
structure PlainLine (l : List Octet) : Prop where
  inside : ∀ c ∈ l, c ≠ 0 ∧ ¬ IsBreak c
  noSign : (l.dropWhile isspace).head? ≠ some equalSign
  named : (l.dropWhile isspace).head? = some openBracket → ¬ EmptyName (l.dropWhile isspace).tail

/-- Every line ends in a line feed, or in a carriage return and a line feed. -/
inductive PlainText : List Octet → Prop
  | nil : PlainText []
  | line {l w rest : List Octet} (hl : PlainLine l) (hw : w = [lineFeed] ∨ w = [carriageReturn, lineFeed])
    (hrest : PlainText rest) : PlainText (l ++ w ++ rest)

/-- Every line begins with a character below 128, up to the first line that is refused. -/
def Cfg.StartsPositive : List (List Octet) → Cfg σ κ → Prop
  | [], _ => True
  | line :: rest, self =>
    (∀ c ∈ line.head?, c.toInt > 0) ∧
      let r := self.call (readLine self.setSection.isSome line)
      r.1 = true → StartsPositive rest r.2

/-- `getline` writes these lines to memory that has addresses. -/
def PlacedLines (place : ℕ → Mem × ℕ) (lines : List (List Octet)) : Prop :=
  ∀ i (hi : i < lines.length), (place i).2 + lines[i].length < 2 ^ 64

theorem lineEnd_blank (hw : w = [lineFeed] ∨ w = [carriageReturn, lineFeed]) : Blank w := by
  rcases hw with rfl | rfl <;> decide

theorem fileLines_append (hl : lineFeed ∉ l) (rest : List Octet) :
    Cfg.fileLines (l ++ lineFeed :: rest) = (l ++ [lineFeed]) :: Cfg.fileLines rest := by
  induction l with
  | nil => rw [List.nil_append, Cfg.fileLines, if_pos rfl, List.nil_append]
  | cons c l ih =>
    rw [List.mem_cons, not_or] at hl
    rw [List.cons_append, Cfg.fileLines, if_neg (Ne.symm hl.1), ih hl.2]
    rfl

theorem fileLines_line (hl : PlainLine l) (hw : w = [lineFeed] ∨ w = [carriageReturn, lineFeed])
    (rest : List Octet) : Cfg.fileLines (l ++ w ++ rest) = (l ++ w) :: Cfg.fileLines rest := by
  have hno : lineFeed ∉ l := fun hmem => (hl.inside _ hmem).2 (.inr rfl)
  rcases hw with rfl | rfl
  · rw [List.append_assoc, List.singleton_append, fileLines_append hno]
  · have hno' : lineFeed ∉ l ++ [carriageReturn] := by
      rw [List.mem_append, not_or]
      exact ⟨hno, by decide⟩
    have happend (s : List Octet) :
        l ++ [carriageReturn, lineFeed] ++ s = l ++ [carriageReturn] ++ lineFeed :: s := by simp
    rw [happend, fileLines_append hno']
    simp

theorem lineSpans_line (hl : PlainLine l) (hw : w = [lineFeed] ∨ w = [carriageReturn, lineFeed])
    (line : ℕ) (rest : List Octet) : lineSpans line 0 (l ++ w ++ rest) =
      (if l.length = 0 then [] else [(line, l.length)]) ++
        lineSpans (line + l.length + w.length) 0 rest := by
  rw [List.append_assoc, lineSpans_append fun c hc => (hl.inside c hc).2, Nat.zero_add]
  have hspans (c : Octet) (hc : IsBreak c) (s : List Octet) : lineSpans line l.length (c :: s) =
      (if l.length = 0 then [] else [(line, l.length)]) ++ lineSpans (line + l.length + 1) 0 s := by
    rw [lineSpans, if_pos hc]
    split
    · rename_i hzero
      rw [hzero]
      rfl
    · rfl
  rcases hw with rfl | rfl
  · exact hspans _ (.inr rfl) rest
  · have hskip (s : ℕ) : lineSpans s 0 (lineFeed :: rest) = lineSpans (s + 1) 0 rest := by
      rw [lineSpans, if_pos (.inr rfl), if_pos rfl]
    rw [List.cons_append, hspans _ (.inl rfl), List.singleton_append, hskip]
    rfl

/-! ## A line is read the same from both -/

theorem PlainLine.sound_file {hasSection : Bool} (hl : PlainLine l) (hw : Blank w) :
    LineSound hasSection 0 (l ++ w) := by
  have hsign := hl.noSign
  have hnamed := hl.named
  rw [LineSound]
  by_cases hblank : Blank l
  · have hall : Blank (l ++ w) := fun c hc => (List.mem_append.mp hc).elim (hblank c) (hw c)
    rw [List.dropWhile_eq_nil_iff.mpr hall]
    trivial
  · have hne : l.dropWhile isspace ≠ [] := fun hnil => hblank (List.dropWhile_eq_nil_iff.mp hnil)
    rw [List.dropWhile_append, if_neg (by simpa using hne)]
    cases hd : l.dropWhile isspace with
    | nil => exact absurd hd hne
    | cons c rest =>
      rw [hd, List.head?_cons] at hsign hnamed
      rw [List.cons_append, StrippedSound]
      split
      · trivial
      · split
        · rename_i hopen
          intro _ hempty
          refine hnamed (by rw [hopen]) ?_
          have hstrip : strip (rest ++ w) = [closeBracket] := hempty
          rw [strip_append hw] at hstrip
          exact hstrip
        · exact ⟨fun hc => hsign (by rw [hc]), .inr rfl⟩

/-- A line of a file. -/
theorem parseLine_file (hasSection : Bool) (m₀ : Mem) (hl : PlainLine l)
    (hw : w = [lineFeed] ∨ w = [carriageReturn, lineFeed]) (hfits : line + (l ++ w).length < 2 ^ 64) :
    ((parseLine hasSection (line + (l ++ w).length) line (l ++ w).length).run
      (blit m₀ line (l ++ w ++ [0]))).1 = readLine hasSection l := by
  have hblank := lineEnd_blank hw
  have hpos : 0 < (l ++ w).length := by
    rcases hw with rfl | rfl <;> simp
  have hne : ∀ c ∈ l ++ w, c ≠ 0 := by
    intro c hc
    rcases List.mem_append.mp hc with hc | hc
    · exact (hl.inside c hc).1
    · rintro rfl
      exact absurd (hblank _ hc) (by decide)
  have hlen : (l ++ w ++ [0]).length = (l ++ w).length + 1 := by
    rw [List.length_append, List.length_singleton]
  have hself := region_blit_self m₀ line (l ++ w ++ [0])
  rw [hlen, region_succ] at hself
  obtain ⟨hregion, hzero⟩ := List.append_inj hself (region_length _ _ _)
  have hzero := List.singleton_inj.mp hzero
  have htext : TextLine (blit m₀ line (l ++ w ++ [0])) (line + (l ++ w).length) line (l ++ w).length := by
    refine ⟨fun o ho ho' => ?_, hzero, le_rfl, .inl hzero, hfits⟩
    have hmem : blit m₀ line (l ++ w ++ [0]) o ∈ region (blit m₀ line (l ++ w ++ [0])) line
        (l ++ w).length := mem_region.mpr ⟨o - line, by omega, by rw [Nat.add_sub_cancel' ho]⟩
    rw [hregion] at hmem
    exact hne _ hmem
  rw [parseLine_reads _ htext (.inl ⟨rfl, hpos⟩) (by rw [hregion, hzero]; exact hl.sound_file hblank),
    hregion, readLine_append _ hblank]

/-- A line of a buffer. -/
theorem call_parseLine_buffer (self : Cfg σ κ) (h : TextBuf m textEnd buf)
    (hl : LineIn m textEnd buf line len) (hbreak : IsBreak (m (line + len)))
    (hplain : PlainLine (region m line len)) :
    self.call ((parseLine self.setSection.isSome textEnd line len).run m).1 =
      self.call (readLine self.setSection.isSome (region m line len)) := by
  have hlow := hl.low
  have hhigh := hl.high
  by_cases hsound : LineSound self.setSection.isSome (m (line + len)) (region m line len)
  · rw [parseLine_reads _ (hl.textLine h) (.inl ⟨rfl, hl.pos⟩) hsound]
  · -- a key line without an equal sign, which may be followed by one
    have hsign := hplain.noSign
    have hnamed := hplain.named
    rcases hl.split h with hall | ⟨k, hk, hblank, hfirst⟩
    · rw [LineSound, List.dropWhile_eq_nil_iff.mpr hall] at hsound
      exact absurd trivial hsound
    rw [dropWhile_region hk hblank hfirst, List.head?_cons] at hsign hnamed
    rw [LineSound, dropWhile_region hk hblank hfirst, StrippedSound] at hsound
    split at hsound
    · exact absurd trivial hsound
    rename_i hcomment
    split at hsound
    · rename_i hopen
      exact absurd (fun _ => hnamed (by rw [hopen])) hsound
    rename_i hopen
    have hc : m (line + k) ≠ equalSign := fun hc => hsign (by rw [hc])
    have hnone : equalSign ∉ region m (line + k + 1) (len - k - 1) :=
      fun hmem => hsound ⟨hc, .inl hmem⟩
    have hno (i : ℕ) (hi : i ≤ len - k) : m (line + k + i) ≠ equalSign := by
      intro hs
      rcases Nat.eq_zero_or_pos i with rfl | hpos
      · exact hc hs
      rcases Nat.lt_or_ge i (len - k) with hlt | hge
      · exact hnone (mem_region.mpr ⟨i - 1, by omega, by
          rw [← hs, show line + k + 1 + (i - 1) = line + k + i by omega]⟩)
      · rw [show line + k + i = line + len by omega] at hs
        exact hbreak.blank.2.1 hs
    have hne : m (line + k) ≠ 0 := h.inText _ (by omega) (by omega)
    have hlt := hl.lt_of_break h hbreak
    obtain ⟨key, hrun, -⟩ := parseKeyVal_beyond h (by omega) (by omega) (by omega) hfirst hno
    have hstripped : (parseLine self.setSection.isSome textEnd line len).run m = (.refused key, m) := by
      rw [(parseLine_stripped (S := fun _ => True) hk hblank hfirst fun _ _ => trivial).1, parseStripped,
        run_bind, run_octetAt, if_neg (not_or.mpr ⟨hne, hcomment⟩), if_neg hopen, hrun]
    have hkey : KeyRefused (m (line + k) :: region m (line + k + 1) (len - k - 1)) := by
      refine .inr (.inl ?_)
      rw [List.mem_cons, not_or]
      exact ⟨fun hs => hc hs.symm, hnone⟩
    obtain ⟨key', hread⟩ := readKeyVal_refused hkey (by simpa using hc)
    rw [hstripped, readLine, dropWhile_region hk hblank hfirst]
    simp only [hcomment, hopen, if_false, hread, Cfg.call]

/-! ## The whole text -/

theorem region_parts {n : ℕ} (h : region m line n = l ++ w ++ rest) :
    region m line l.length = l ∧ region m (line + l.length) w.length = w ∧
      region m (line + l.length + w.length) rest.length = rest ∧ n = l.length + w.length + rest.length := by
  have hn : n = l.length + w.length + rest.length := by
    have hlen := congrArg List.length h
    rwa [region_length, List.length_append, List.length_append] at hlen
  rw [hn, region_add, region_add] at h
  obtain ⟨hfront, hrest⟩ := List.append_inj h (by simp)
  obtain ⟨hl, hw⟩ := List.append_inj hfront (by simp)
  rw [Nat.add_assoc]
  exact ⟨hl, hw, hrest, hn⟩

theorem lineReadable_iff {hasSection : Bool} (hl : PlainLine (region m line len))
    (hbreak : IsBreak (m (line + len))) :
    LineReadable hasSection m buf line len ↔ (m line).toInt > 0 :=
  ⟨fun h => h.positive,
    fun h => ⟨h, fun _ => hl.noSign, fun hzero => absurd hzero hbreak.blank.2.2⟩⟩

/-- The lines of a file and the lines of a buffer. -/
theorem parseFileLoop_eq {place : ℕ → Mem × ℕ} (h : TextBuf m textEnd buf) (hplain : PlainText text) :
    ∀ {i : ℕ} {self : Cfg σ κ}, buf ≤ line → line ≤ textEnd → (line = buf ∨ IsBreak (m (line - 1))) →
      region m line (textEnd - line) = text → PlacedLines (fun j => place (i + j)) (Cfg.fileLines text) →
      Cfg.parseFileLoop place i (Cfg.fileLines text) self =
          self.parseLines textEnd m (lineSpans line 0 text) ∧
        (self.Readable textEnd buf m (lineSpans line 0 text) ↔
          self.StartsPositive (Cfg.fileLines text)) := by
  induction hplain generalizing line with
  | nil =>
    intro i self _ _ _ _ _
    exact ⟨rfl, Iff.rfl⟩
  | @line l w rest hl hw hrest ih =>
    intro i self hlow hhigh hbefore hregion hplaced
    obtain ⟨hline, hend, hnext, hlen⟩ := region_parts hregion
    have hwpos : 0 < w.length := by rcases hw with rfl | rfl <;> decide
    have hplain' : PlainLine (region m line l.length) := by rwa [hline]
    have hbreak : IsBreak (m (line + l.length)) := by
      rcases hw with rfl | rfl
      · exact .inr (List.cons.inj hend).1
      · exact .inl (List.cons.inj hend).1
    have hlast : IsBreak (m (line + l.length + w.length - 1)) := by
      rcases hw with rfl | rfl
      · exact .inr (List.cons.inj hend).1
      · exact .inr (List.cons.inj (List.cons.inj hend).2).1
    rw [fileLines_line hl hw] at hplaced ⊢
    rw [lineSpans_line hl hw]
    have hfits : (place i).2 + (l ++ w).length < 2 ^ 64 := hplaced 0 (by simp)
    have hplaced' : PlacedLines (fun j => place (i + 1 + j)) (Cfg.fileLines rest) := by
      intro j hj
      have hj' : (place (i + (j + 1))).2 + (Cfg.fileLines rest)[j].length < 2 ^ 64 :=
        hplaced (j + 1) (by simpa using hj)
      rwa [show i + (j + 1) = i + 1 + j by omega] at hj'
    have hrec (self : Cfg σ κ) := @ih (line + l.length + w.length) (i + 1) self (by omega) (by omega)
      (.inr hlast) (by rw [← hnext]; congr 1; omega) hplaced'
    rw [Cfg.parseFileLoop, Cfg.StartsPositive, run_cfg_parseLine, parseLine_file _ _ hl hw hfits,
      readLine_append _ (lineEnd_blank hw)]
    dsimp only
    rcases Nat.eq_zero_or_pos l.length with hzero | hpos
    · -- an empty line, which the buffer does not show
      rw [List.length_eq_zero_iff] at hzero
      subst hzero
      have hchar : ∀ c ∈ ([] ++ w).head?, c.toInt > 0 := by
        rcases hw with rfl | rfl <;> decide
      obtain ⟨hloop, hread⟩ := hrec self
      have hcall : self.call (readLine self.setSection.isSome []) = (true, self) := rfl
      rw [hcall, if_pos rfl, List.length_nil, if_pos rfl, List.nil_append]
      exact ⟨hloop, hread.trans ⟨fun hs => ⟨hchar, fun _ => hs⟩, fun hs => hs.2 rfl⟩⟩
    · have hl' : LineIn m textEnd buf line l.length :=
        ⟨hlow, by omega, hpos, .inr hbreak, hbefore⟩
      have hcall := call_parseLine_buffer self h hl' hbreak hplain'
      rw [hline] at hcall
      have hchar : (∀ c ∈ (l ++ w).head?, c.toInt > 0) ↔ (m line).toInt > 0 := by
        cases l with
        | nil => exact absurd hpos (lt_irrefl 0)
        | cons c l =>
          rw [(List.cons.inj hline).1]
          simp
      obtain ⟨hloop, hread⟩ := hrec (self.call (readLine self.setSection.isSome l)).2
      rw [if_neg (Nat.ne_of_gt hpos), List.singleton_append, Cfg.parseLines, Cfg.Readable, run_cfg_parseLine,
        hcall, lineReadable_iff hplain' hbreak, hchar]
      dsimp only
      refine ⟨?_, and_congr_right fun _ => imp_congr_right fun _ => hread⟩
      split
      · exact hloop
      · rfl

/-- On a text whose lines all end, name their section and do not begin with an equal sign, `parseBuf`
calls the callbacks as `parseFile` does and returns the same, exactly when every line that is reached
begins with a character below 128. -/
theorem parse_file_parse_buf (self : Cfg σ κ) {place : ℕ → Mem × ℕ} (h : TextBuf m textEnd buf)
    (hplain : PlainText (textOf m textEnd buf))
    (hplaced : PlacedLines place (Cfg.fileLines (textOf m textEnd buf))) :
    EndsIn (InBuf textEnd buf) m textEnd buf self.recording
        (self.recording.parseFile place (some (textOf m textEnd buf))) ↔
      self.recording.StartsPositive (Cfg.fileLines (textOf m textEnd buf)) := by
  obtain ⟨hloop, hread⟩ := @parseFileLoop_eq σ (κ × List (CfgCall σ)) m textEnd buf buf _ place h hplain 0
    self.recording le_rfl h.le (.inl rfl) rfl (by simpa only [Nat.zero_add] using hplaced)
  rw [Cfg.parseFile, hloop, ← hread]
  exact endsIn_iff h (records_recording self) le_rfl h.le (.inl rfl)

section Sample

def samplePlace (_ : ℕ) : Mem × ℕ := (fun _ => 0, 4096)

theorem placedLines_samplePlace {lines : List (List Octet)} (h : ∀ line ∈ lines, line.length < 100) :
    PlacedLines samplePlace lines := by
  intro i hi
  have hline := h _ (List.getElem_mem hi)
  change 4096 + _ < _
  omega

/-- A line that begins with a character of 128 or more. -/
theorem parse_file_parse_buf_fails :
    let text : List Octet := [195, 107, 61, 118, 10]
    PlainText text ∧ TextBuf (textMem 4096 text) 4101 4096 ∧ textOf (textMem 4096 text) 4101 4096 = text ∧
      PlacedLines samplePlace (Cfg.fileLines text) ∧
      ¬ EndsIn (InBuf 4101 4096) (textMem 4096 text) 4101 4096 sampleCfg.recording
        (sampleCfg.recording.parseFile samplePlace (some text)) := by
  intro text
  have hplain : PlainText text :=
    .line (l := [195, 107, 61, 118]) ⟨by decide, by decide, by decide⟩ (.inl rfl) .nil
  have hbuf : TextBuf (textMem 4096 text) 4101 4096 :=
    textBuf_textMem (by decide) (by decide) (by decide) (by decide)
  have htext : textOf (textMem 4096 text) 4101 4096 = text := @textOf_textMem 4096 text (by decide)
  have hplaced : PlacedLines samplePlace (Cfg.fileLines text) := placedLines_samplePlace (by decide)
  refine ⟨hplain, hbuf, htext, hplaced, fun hends => ?_⟩
  obtain ⟨hloop, hread⟩ := @parseFileLoop_eq Unit (Unit × List (CfgCall Unit)) _ 4101 4096 4096 _
    samplePlace hbuf hplain 0 sampleCfg.recording le_rfl hbuf.le (.inl rfl) htext
    (by simpa only [Nat.zero_add] using hplaced)
  have hiff := endsIn_iff hbuf (records_recording sampleCfg) le_rfl hbuf.le (.inl rfl)
  rw [← textOf, htext] at hiff
  rw [Cfg.parseFile, hloop] at hends
  exact absurd ((hread.mp (hiff.mp hends)).1 195 rfl) (by decide)

theorem parse_file_parse_buf_sample :
    EndsIn (InBuf 4101 4096) (textMem 4096 [107, 61, 118, 13, 10]) 4101 4096 sampleCfg.recording
      (sampleCfg.recording.parseFile samplePlace (some [107, 61, 118, 13, 10])) := by
  have hplain : PlainText [107, 61, 118, 13, 10] :=
    .line (l := [107, 61, 118]) ⟨by decide, by decide, by decide⟩ (.inr rfl) .nil
  have hbuf : TextBuf (textMem 4096 [107, 61, 118, 13, 10]) 4101 4096 :=
    textBuf_textMem (by decide) (by decide) (by decide) (by decide)
  have htext : textOf (textMem 4096 [107, 61, 118, 13, 10]) 4101 4096 = [107, 61, 118, 13, 10] :=
    @textOf_textMem 4096 [107, 61, 118, 13, 10] (by decide)
  have hplaced : PlacedLines samplePlace (Cfg.fileLines [107, 61, 118, 13, 10]) :=
    placedLines_samplePlace (by decide)
  have hiff := parse_file_parse_buf sampleCfg hbuf (by rwa [htext]) (by rwa [htext])
  rw [htext] at hiff
  exact hiff.mpr ⟨by decide, fun _ => trivial⟩

end Sample

end Csptp
