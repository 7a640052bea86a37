import Csptp.Cfg.Texts

/-! # Lines that do not end where they are cut

`parseBuf` gives the parser a line of a text that goes on behind it. In a line without an equal sign the
key reaches up to the equal sign of a later line, so that the length of the value wraps around: the
parser then finds the end of the value at the end of the line, in front of the key, and the value is too
long. The length that it gets for a line that the end of the text ends is too large instead, so that the
value or the section reaches up to the last address. -/
namespace Csptp
open Octets Octets.Prog
set_option autoImplicit false

variable {m : Mem} {textEnd buf : ℕ}

namespace TextBuf

theorem inBuf (h : TextBuf m textEnd buf) {o : ℕ} (hlow : buf ≤ o) (hhigh : o ≤ textEnd) :
    InBuf textEnd buf o := by
  have hend := h.high
  rw [InBuf, Nat.mod_eq_of_lt (by omega)]
  exact ⟨hlow, hhigh⟩

theorem inBuf_wrap (h : TextBuf m textEnd buf) {o : ℕ} (hlow : buf ≤ o) (hhigh : o ≤ textEnd) :
    InBuf textEnd buf (o + 2 ^ 64) := by
  rw [InBuf, Nat.add_mod_right]
  exact h.inBuf hlow hhigh

theorem not_inBuf_last (h : TextBuf m textEnd buf) : ¬ InBuf textEnd buf (2 ^ 64 - 1) := by
  have hend := h.high
  rw [InBuf, Nat.mod_eq_of_lt (by omega)]
  omega

/-- The octet this far in front of an address. -/
theorem behind (h : TextBuf m textEnd buf) {start d : ℕ} (hd : d ≤ start) (hd' : d ≤ 2 ^ 64) :
    m (start + (2 ^ 64 - d)) = m (start - d) := by
  rw [show start + (2 ^ 64 - d) = start - d + 2 ^ 64 by omega, h.wraps]

end TextBuf

/-! ## Leading blanks and quotation marks -/

theorem stripLeading_to {S : ℕ → Prop} {k n s : ℕ} (hk : k ≤ n)
    (hp : ∀ i < k, isspace (m (s + i)) = true) (hstop : k < n → isspace (m (s + k)) = false)
    (hS : ∀ i ≤ k, S (s + i)) :
    (stripLeading n s).run m = ((s + k, n - k), m) ∧ Stays S (stripLeading n s) m := by
  obtain ⟨hrun, hstays⟩ := @skipWhile_to isspace S m k n s hk hp hstop
  rw [stripLeading, nonzero_isspace, run_bind, hrun, stays_bind, hrun, run_ite, stays_ite]
  dsimp only
  refine ⟨?_, hstays.mpr fun i hi _ => hS i hi, ?_⟩
  · split <;> rfl
  · split
    · rw [stays_bind, stays_octetAt]
      exact ⟨hS k le_rfl, stays_pure _⟩
    · exact stays_pure _

theorem stripQuotes_of_first {s l : ℕ} (hdouble : m s ≠ doubleQuote) (hsingle : m s ≠ singleQuote)
    {S : ℕ → Prop} (hS : S s) : (stripQuotes s l).run m = ((s, l), m) ∧ Stays S (stripQuotes s l) m := by
  have hby (q : Octet) (hq : m s ≠ q) : (quotedBy q s l).run m = (false, m) ∧
      Stays S (quotedBy q s l) m := by
    rw [quotedBy, run_bind, run_octetAt, if_neg hq, stays_bind, stays_octetAt, run_octetAt, if_neg hq]
    exact ⟨rfl, hS, stays_pure _⟩
  have hquoted : (quoted s l).run m = (false, m) ∧ Stays S (quoted s l) m := by
    rw [quoted, run_bind, (hby _ hdouble).1, stays_bind, (hby _ hdouble).1]
    exact ⟨(hby _ hsingle).1, (hby _ hdouble).2, (hby _ hsingle).2⟩
  rw [stripQuotes]
  split
  · rw [run_bind, hquoted.1, stays_bind, hquoted.1]
    exact ⟨rfl, hquoted.2, stays_pure _⟩
  · exact ⟨rfl, stays_pure _⟩

/-! ## The end of the key -/

section Key
variable {S : ℕ → Prop} {line len j t : ℕ}

/-- What `parseKeyAt` does once it has the last position of the key. -/
def keyUpTo (line len v l : ℕ) : Prog ParsedLine := do
  let q ← stripQuotes line l
  if succSize q.2 ≥ secKeySize then pure (.refused none)
  else do
    let key ← loadOctets q.1 (succSize q.2)
    let len ← subSize len 1
    parseVal key (v + 1) len

theorem parseKeyAt_upTo (hj : j < 2 ^ 64)
    (hstrip : (stripWhile isspace line ((j + 2 ^ 64 - 1) % 2 ^ 64)).run m = (t, m)) :
    (parseKeyAt line len (line + j)).run m =
        (keyUpTo line ((len + 2 ^ 64 - j) % 2 ^ 64) (line + j) t).run m ∧
      (Stays S (parseKeyAt line len (line + j)) m ↔
        Stays S (stripWhile isspace line ((j + 2 ^ 64 - 1) % 2 ^ 64)) m ∧
          Stays S (keyUpTo line ((len + 2 ^ 64 - j) % 2 ^ 64) (line + j) t) m) := by
  have hpos : (line + j + 2 ^ 64 - line) % 2 ^ 64 = j := by
    rw [show line + j + 2 ^ 64 - line = j + 2 ^ 64 by omega, Nat.add_mod_right, Nat.mod_eq_of_lt hj]
  constructor
  · rw [parseKeyAt, run_bind, run_subSize_mod, hpos, run_bind, run_subSize_mod, run_bind,
      run_subSize_mod, run_bind, hstrip]
    rfl
  · rw [parseKeyAt, stays_bind, run_subSize_mod, hpos, stays_bind, run_subSize_mod, stays_bind,
      run_subSize_mod, stays_bind, hstrip]
    simp only [stays_subSize, true_and]
    rfl

end Key

/-! ## An equal sign at the beginning -/

section Sign
variable {start len : ℕ}

/-- With something in front of it in the buffer, the key seems to be too long. -/
theorem parseKeyAt_sign (h : TextBuf m textEnd buf) (hhigh : start < textEnd)
    (hsign : m start = equalSign) {o : ℕ} (ho : buf ≤ o) (ho' : o + 1 < start)
    (hblank : ∀ x, o < x → x < start → isspace (m x) = true) (hfirst : isspace (m o) = false) :
    (parseKeyAt start len start).run m = (.refused none, m) ∧
      Stays (InBuf textEnd buf) (parseKeyAt start len start) m := by
  have hend := h.high
  have hsize := h.size
  have hmem {x : ℕ} (hx : x < start) : m (start + (2 ^ 64 - (start - x))) = m x := by
    rw [h.behind (by omega) (by omega), show start - (start - x) = x by omega]
  obtain ⟨hrun, hstays⟩ := @stripWhile_to isspace (InBuf textEnd buf) m (2 ^ 64 - (start - o))
    (2 ^ 64 - 1) start (by omega)
    (fun i hi hi' => by
      have hx := hblank (start - (2 ^ 64 - i)) (by omega) (by omega)
      rwa [← hmem (by omega), show start - (start - (2 ^ 64 - i)) = 2 ^ 64 - i by omega,
        show 2 ^ 64 - (2 ^ 64 - i) = i by omega] at hx)
    (fun _ => by rwa [hmem (by omega)])
  have hin : Stays (InBuf textEnd buf) (stripWhile isspace start (2 ^ 64 - 1)) m := by
    refine hstays.mpr fun i hi hpos hi' => ?_
    have hx := h.inBuf_wrap (o := start - (2 ^ 64 - i)) (by omega) (by omega)
    rwa [show start - (2 ^ 64 - i) + 2 ^ 64 = start + i by omega] at hx
  obtain ⟨hupTo, hupTo'⟩ := @parseKeyAt_upTo m (InBuf textEnd buf) start len 0 _ (by norm_num) hrun
  obtain ⟨hquotes, hquotes'⟩ := @stripQuotes_of_first m start (2 ^ 64 - (start - o))
    (by rw [hsign]; decide) (by rw [hsign]; decide) (InBuf textEnd buf)
    (h.inBuf (by omega) (by omega))
  have hlong : succSize (2 ^ 64 - (start - o)) ≥ secKeySize := by
    rw [succSize_of_lt (by omega), secKeySize]
    omega
  rw [Nat.add_zero] at hupTo hupTo'
  rw [hupTo, hupTo', keyUpTo, run_bind, hquotes, stays_bind, hquotes, if_pos hlong]
  exact ⟨rfl, hin, hquotes', stays_pure _⟩

/-- With nothing but blanks in front of it, the key leads out of the buffer. -/
theorem parseKeyAt_sign_leaves (h : TextBuf m textEnd buf) (hlow : buf ≤ start) (hhigh : start < textEnd)
    (hblank : ∀ x, buf ≤ x → x < start → isspace (m x) = true) :
    ¬ Stays (InBuf textEnd buf) (parseKeyAt start len start) m := by
  intro hstays
  have hend := h.high
  have hbuf := h.low
  have hsize := h.size
  obtain ⟨t, -, hrun, -⟩ := @stripWhile_spec isspace (InBuf textEnd buf) m start (2 ^ 64 - 1)
  obtain ⟨-, hupTo⟩ := @parseKeyAt_upTo m (InBuf textEnd buf) start len 0 t (by norm_num) hrun
  have hreach := stripWhile_reaches (i := 2 ^ 64 - (start - buf) - 1) (by omega) (by omega)
    (fun j hj hj' => by
      have hx := hblank (start - (2 ^ 64 - j)) (by omega) (by omega)
      rwa [← h.behind (by omega) (by omega), show 2 ^ 64 - (2 ^ 64 - j) = j by omega] at hx)
    (hupTo.mp hstays).1
  rw [InBuf, show start + (2 ^ 64 - (start - buf) - 1) = buf - 1 + 2 ^ 64 by omega,
    Nat.add_mod_right, Nat.mod_eq_of_lt (by omega)] at hreach
  omega

end Sign

/-! ## The key and the value -/

section Value
variable {S : ℕ → Prop} {key : List Octet} {v n k : ℕ}

/-- The key in front of an equal sign at distance `j`. -/
def keyOf (m : Mem) (line j : ℕ) : List Octet := unquote ((region m line j).rdropWhile isspace)

theorem parseKeyAt_value {line len j : ℕ} (hj : 0 < j) (hj' : line + j < 2 ^ 64)
    (hfirst : isspace (m line) = false) (hS : ∀ o, line ≤ o → o < line + j → S o)
    (hn : (len + 2 ^ 64 - (j + 1)) % 2 ^ 64 = n) :
    (parseKeyAt line len (line + j)).run m =
        (if secKeySize ≤ (keyOf m line j).length then (.refused none, m)
          else (parseVal (keyOf m line j) (line + j + 1) n).run m) ∧
      (Stays S (parseKeyAt line len (line + j)) m ↔ secKeySize ≤ (keyOf m line j).length ∨
        Stays S (parseVal (keyOf m line j) (line + j + 1) n) m) := by
  have hlast : (j + 2 ^ 64 - 1) % 2 ^ 64 = j - 1 := by omega
  obtain ⟨l, hl, hstrip, hname, hsafe⟩ := @stripWhile_spec isspace S m line (j - 1)
  rw [Nat.sub_add_cancel hj] at hname
  obtain ⟨s', l', hquotes, hl', hread⟩ := @stripQuotes_reads m line l (by omega)
  obtain ⟨s₁, l₁, hquotes₁, hs₁, hl₁, hsafe'⟩ := @stripQuotes_spec S m line l (by omega)
  obtain ⟨rfl, rfl⟩ := Prod.mk.inj (Prod.mk.inj (hquotes.symm.trans hquotes₁)).1
  have hkey : region m s' (l' + 1) = keyOf m line j := by rw [hread, keyOf, hname hfirst]
  have hlen : (keyOf m line j).length = l' + 1 := by rw [← hkey, region_length]
  have hstrip' : Stays S (stripWhile isspace line (j - 1)) m :=
    (hsafe fun o ho ho' => hS o (by omega) (by omega)).stays
  have hquotes' : Stays S (stripQuotes line l) m :=
    (hsafe' fun o ho ho' => hS o ho (by omega)).stays
  obtain ⟨hupTo, hupTo'⟩ := @parseKeyAt_upTo m S line len j l (by omega) (by rwa [hlast])
  rw [hlast] at hupTo'
  have hbehind : ((len + 2 ^ 64 - j) % 2 ^ 64 + 2 ^ 64 - 1) % 2 ^ 64 = n := by omega
  rw [hupTo, hupTo', keyUpTo, run_bind, hquotes, stays_bind, hquotes, run_ite, stays_ite, hlen]
  dsimp only
  rw [succSize_of_lt (by omega)]
  by_cases hge : secKeySize ≤ l' + 1
  · rw [if_pos hge, if_pos hge, if_pos hge]
    exact ⟨rfl, fun _ => .inl hge, fun _ => ⟨hstrip', hquotes', stays_pure _⟩⟩
  · rw [if_neg hge, if_neg hge, if_neg hge, run_bind, run_loadOctets, hkey, run_bind, run_subSize_mod,
      stays_bind, run_loadOctets, hkey, stays_bind, run_subSize_mod, hbehind]
    refine ⟨rfl, fun h => .inr h.2.2.2.2, fun h => ⟨hstrip', hquotes', ?_, stays_subSize _ _,
      h.resolve_left hge⟩⟩
    exact stays_loadOctets fun a ha ha' => hS a (by omega) (by omega)

/-- A value of blanks only. -/
theorem parseVal_blank (hk : k < n) (hblank : ∀ i < k, isspace (m (v + i)) = true)
    (hzero : m (v + k) = 0) (hS : ∀ i ≤ k, S (v + i)) :
    (parseVal key v n).run m = (.refused (some key), m) ∧ Stays S (parseVal key v n) m := by
  obtain ⟨hrun, hstays⟩ := @skipWhile_to isspace S m k n v hk.le hblank
    (fun _ => by rw [hzero]; decide)
  rw [parseVal, run_bind, hrun, run_bind, run_octetAt, stays_bind, hrun, stays_bind, run_octetAt,
    stays_octetAt, if_pos (.inl hzero)]
  exact ⟨rfl, hstays.mpr fun i hi _ => hS i hi, hS k le_rfl, stays_pure _⟩

/-- The end of a value that is not blank is looked for from its last position on. -/
theorem parseVal_steps (hn : n < 2 ^ 64) (hk : k < n) (hblank : ∀ i < k, isspace (m (v + i)) = true)
    (hne : m (v + k) ≠ 0) (hfirst : isspace (m (v + k)) = false) (hS : ∀ i ≤ k, S (v + i)) {t : ℕ}
    (hstrip : (stripWhile isspace (v + k) (n - k - 1)).run m = (t, m)) :
    (parseVal key v n).run m = (if succSize t ≥ valSize then (.refused (some key), m)
      else (.setKey key (region m (v + k) (succSize t)), m)) ∧
    (Stays S (parseVal key v n) m ↔ Stays S (stripWhile isspace (v + k) (n - k - 1)) m ∧
      (succSize t ≥ valSize ∨ Stays S (loadOctets (v + k) (succSize t)) m)) := by
  obtain ⟨hrun, hstays⟩ := @skipWhile_to isspace S m k n v hk.le hblank (fun _ => hfirst)
  have hsome : ¬ (m (v + k) = 0 ∨ n - k = 0) := not_or.mpr ⟨hne, by omega⟩
  have hread : Stays S (skipWhile isspace n v) m := hstays.mpr fun i hi _ => hS i hi
  have hlast : (subSize (n - k) 1).run m = (n - k - 1, m) :=
    run_subSize (by omega) (by omega) m
  rw [parseVal, run_bind, hrun, run_bind, run_octetAt, stays_bind, hrun, stays_bind, run_octetAt,
    stays_octetAt, if_neg hsome, run_bind, hlast, run_bind, hstrip, stays_bind, hlast, stays_bind,
    hstrip, run_ite, stays_ite]
  dsimp only
  by_cases hge : succSize t ≥ valSize
  · rw [if_pos hge, if_pos hge, if_pos hge]
    exact ⟨rfl, fun h => ⟨h.2.2.2.1, .inl hge⟩,
      fun h => ⟨hread, hS k le_rfl, stays_subSize _ _, h.1, stays_pure _⟩⟩
  · rw [if_neg hge, if_neg hge, if_neg hge, run_bind, run_loadOctets, stays_bind]
    exact ⟨rfl, fun h => ⟨h.2.2.2.1, .inr h.2.2.2.2.1⟩, fun h =>
      ⟨hread, hS k le_rfl, stays_subSize _ _, h.1, h.2.resolve_left hge, stays_pure _⟩⟩

end Value

/-! ## Key lines -/

section KeyLines
variable {start len : ℕ}

/-- Blanks end at the end of the text at the latest. -/
theorem TextBuf.exists_stop (h : TextBuf m textEnd buf) {v : ℕ} (hv : v ≤ textEnd) :
    ∃ k, v + k ≤ textEnd ∧ (∀ i < k, isspace (m (v + i)) = true) ∧ isspace (m (v + k)) = false := by
  have hex : ∃ k, isspace (m (v + k)) = false := by
    refine ⟨textEnd - v, ?_⟩
    rw [Nat.add_sub_cancel' hv, h.zero]
    decide
  refine ⟨Nat.find hex, ?_, fun i hi => by simpa using Nat.find_min hex hi, Nat.find_spec hex⟩
  have hle := Nat.find_min' hex (m := textEnd - v) (by
    rw [Nat.add_sub_cancel' hv, h.zero]
    decide)
  omega

/-- With its leading blanks counted, a region is blank when there is nothing else. -/
theorem blank_region_iff {v k n : ℕ} (hk : k ≤ n) (hblank : ∀ i < k, isspace (m (v + i)) = true)
    (hstop : isspace (m (v + k)) = false) : Blank (region m v n) ↔ k = n := by
  constructor
  · intro hall
    by_contra hne
    have hc := hall _ (mem_region.mpr ⟨k, by omega, rfl⟩)
    rw [hstop] at hc
    exact absurd hc (by simp)
  · rintro rfl c hc
    obtain ⟨i, hi, rfl⟩ := mem_region.mp hc
    exact hblank i hi

theorem exists_last (hlen : 0 < len) (hfirst : isspace (m start) = false) :
    ∃ p < len, isspace (m (start + p)) = false ∧
      ∀ i, p < i → i < len → isspace (m (start + i)) = true := by
  refine ⟨Nat.findGreatest (fun i => isspace (m (start + i)) = false) (len - 1), ?_, ?_, ?_⟩
  · have hle := Nat.findGreatest_le (P := fun i => isspace (m (start + i)) = false) (len - 1)
    omega
  · exact Nat.findGreatest_spec (P := fun i => isspace (m (start + i)) = false) (Nat.zero_le _) hfirst
  · intro i hi hi'
    simpa using Nat.findGreatest_is_greatest hi (by omega)

/-- The scan for the equal sign stays in the text. -/
theorem TextBuf.strchr_sign (h : TextBuf m textEnd buf) (hlow : buf ≤ start) (hlt : start < textEnd) :
    ((∀ i, start + i < textEnd → m (start + i) ≠ equalSign) ∧
        (strchr equalSign (textEnd + 1 - start) start).run m = (none, m) ∨
      ∃ j, start + j < textEnd ∧ m (start + j) = equalSign ∧ (∀ i < j, m (start + i) ≠ equalSign) ∧
        (strchr equalSign (textEnd + 1 - start) start).run m = (some (start + j), m)) ∧
      Stays (InBuf textEnd buf) (strchr equalSign (textEnd + 1 - start) start) m := by
  have hin (i : ℕ) (hi : start + i < textEnd) : m (start + i) ≠ 0 := h.inText _ (by omega) hi
  by_cases hex : ∃ j, start + j < textEnd ∧ m (start + j) = equalSign
  · obtain ⟨hlt, hj⟩ := Nat.find_spec hex
    have hmin (i : ℕ) (hi : i < Nat.find hex) : m (start + i) ≠ equalSign := fun hs =>
      Nat.find_min hex hi ⟨by omega, hs⟩
    obtain ⟨hrun, hsafe⟩ := @strchr_spec equalSign (InBuf textEnd buf) m (Nat.find hex)
      (textEnd + 1 - start) start (fun i hi => ⟨hmin i hi, hin i (by omega)⟩) (by omega) (.inl hj)
    refine ⟨.inr ⟨Nat.find hex, hlt, hj, hmin, by rw [hrun, if_pos hj]⟩, ?_⟩
    exact (hsafe.mpr fun o ho ho' => h.inBuf (by omega) (by omega)).stays
  · have hno (i : ℕ) (hi : start + i < textEnd) : m (start + i) ≠ equalSign := fun hs => hex ⟨i, hi, hs⟩
    have hsum : start + (textEnd - start) = textEnd := by omega
    have hzero : m (start + (textEnd - start)) = 0 := by rw [hsum, h.zero]
    obtain ⟨hrun, hsafe⟩ := @strchr_spec equalSign (InBuf textEnd buf) m (textEnd - start)
      (textEnd + 1 - start) start (fun i hi => ⟨hno i (by omega), hin i (by omega)⟩) (by omega)
      (.inr hzero)
    refine ⟨.inl ⟨hno, by rw [hrun, hzero, if_neg (by decide)]⟩, ?_⟩
    exact (hsafe.mpr fun o ho ho' => h.inBuf (by omega) (by omega)).stays

/-- A line without an equal sign is refused, whatever equal sign comes behind it. -/
theorem parseKeyVal_beyond (h : TextBuf m textEnd buf) (hlow : buf ≤ start)
    (hhigh : start + len < textEnd) (hlen : 0 < len) (hfirst : isspace (m start) = false)
    (hno : ∀ i ≤ len, m (start + i) ≠ equalSign) :
    ∃ key, (parseKeyVal textEnd start len).run m = (.refused key, m) ∧
      Stays (InBuf textEnd buf) (parseKeyVal textEnd start len) m := by
  have hend := h.high
  have hsize := h.size
  obtain ⟨hscan, hstays⟩ := h.strchr_sign hlow (by omega)
  rw [parseKeyVal, run_bind, stays_bind]
  rcases hscan with ⟨-, hrun⟩ | ⟨j, hj, hsign, -, hrun⟩
  · rw [hrun]
    exact ⟨none, rfl, hstays, stays_pure _⟩
  have hgt : len < j := by
    by_contra hle
    exact hno j (by omega) hsign
  obtain ⟨hvalue, hvalue'⟩ := @parseKeyAt_value m (InBuf textEnd buf) (2 ^ 64 + len - (j + 1)) start
    len j (by omega) (by omega) hfirst (fun o ho ho' => h.inBuf (by omega) (by omega)) (by omega)
  rw [hrun]
  dsimp only
  rw [hvalue, hvalue']
  by_cases hlong : secKeySize ≤ (keyOf m start j).length
  · rw [if_pos hlong]
    exact ⟨none, rfl, hstays, .inl hlong⟩
  rw [if_neg hlong]
  obtain ⟨k, hk, hblank, hstop⟩ := h.exists_stop (show start + j + 1 ≤ textEnd by omega)
  have hread (i : ℕ) (hi : i ≤ k) : InBuf textEnd buf (start + j + 1 + i) :=
    h.inBuf (by omega) (by omega)
  by_cases hzero : m (start + j + 1 + k) = 0
  · obtain ⟨hval, hval'⟩ := @parseVal_blank m _ (keyOf m start j) _ (2 ^ 64 + len - (j + 1)) _
      (by omega) hblank hzero hread
    exact ⟨_, hval, hstays, .inr hval'⟩
  · -- the last position of the value is that of the line, once around
    obtain ⟨p, hp, hlast, htrailing⟩ := exists_last hlen hfirst
    have haround (i : ℕ) (hi : 2 ^ 64 + p - (j + 1 + k) ≤ i)
        (hi' : i ≤ 2 ^ 64 + len - (j + 1) - k - 1) :
        start + j + 1 + k + i = start + (i + (j + 1 + k) - 2 ^ 64) + 2 ^ 64 := by omega
    obtain ⟨hstrip, hstrip'⟩ := @stripWhile_to isspace (InBuf textEnd buf) m
      (2 ^ 64 + p - (j + 1 + k)) (2 ^ 64 + len - (j + 1) - k - 1) (start + j + 1 + k) (by omega)
      (fun i hi hi' => by
        rw [haround i hi.le hi', h.wraps]
        exact htrailing _ (by omega) (by omega))
      (fun _ => by
        rw [haround _ le_rfl (by omega), h.wraps, show 2 ^ 64 + p - (j + 1 + k) + (j + 1 + k) - 2 ^ 64 = p
          by omega]
        exact hlast)
    have hlong : succSize (2 ^ 64 + p - (j + 1 + k)) ≥ valSize := by
      rw [succSize_of_lt (by omega), valSize]
      omega
    obtain ⟨hval, hval'⟩ := @parseVal_steps m _ (keyOf m start j) _ _ _ (by omega) (by omega) hblank
      hzero hstop hread _ hstrip
    rw [hval, hval', if_pos hlong]
    refine ⟨_, rfl, hstays, .inr ⟨hstrip'.mpr fun i hi _ hi' => ?_, .inl hlong⟩⟩
    rw [haround i hi hi']
    exact h.inBuf_wrap (by omega) (by omega)

/-- A last line with the length up to the last address: it is refused without a look at its end, or the
parser leaves the buffer. -/
theorem parseKeyVal_open (h : TextBuf m textEnd buf) (hlow : buf ≤ start) (hlt : start < textEnd)
    (hfirst : isspace (m start) = false) (hsign : m start ≠ equalSign) :
    (KeyRefused (region m start (textEnd - start)) →
      ∃ key, (parseKeyVal textEnd start (2 ^ 64 - start)).run m = (.refused key, m) ∧
        Stays (InBuf textEnd buf) (parseKeyVal textEnd start (2 ^ 64 - start)) m) ∧
    (¬ KeyRefused (region m start (textEnd - start)) →
      ¬ Stays (InBuf textEnd buf) (parseKeyVal textEnd start (2 ^ 64 - start)) m) := by
  have hend := h.high
  have hhead : (region m start (textEnd - start)).head? ≠ some equalSign := by
    rw [show textEnd - start = textEnd - start - 1 + 1 by omega, region_head?]
    simpa using hsign
  obtain ⟨hscan, hstays⟩ := h.strchr_sign hlow hlt
  rw [parseKeyVal, run_bind, stays_bind, KeyRefused, or_iff_right hhead]
  rcases hscan with ⟨hno, hrun⟩ | ⟨j, hj, hjsign, hmin, hrun⟩
  · have hnone : equalSign ∉ region m start (textEnd - start) := by
      intro hmem
      obtain ⟨i, hi, hs⟩ := mem_region.mp hmem
      exact hno i (by omega) hs
    rw [hrun]
    exact ⟨fun _ => ⟨none, rfl, hstays, stays_pure _⟩, fun hr => absurd (.inl hnone) hr⟩
  have hpos : 0 < j := by
    rcases Nat.eq_zero_or_pos j with rfl | hpos
    · exact absurd hjsign hsign
    · exact hpos
  have hsplit := @region_split m start (textEnd - start) j (by omega)
  have hkeys := isKeyChar_region hmin
  have hnot : ¬ isKeyChar (m (start + j)) = true := by rw [hjsign]; decide
  have hmem : equalSign ∈ region m start (textEnd - start) := by
    rw [hsplit, hjsign]
    exact List.mem_append_right _ List.mem_cons_self
  rw [or_iff_right (not_not.mpr hmem), hsplit, List.takeWhile_append_of_pos hkeys,
    List.takeWhile_cons_of_neg hnot, List.append_nil, List.dropWhile_append_of_pos hkeys,
    List.dropWhile_cons_of_neg hnot, List.tail_cons, ← keyOf]
  obtain ⟨hvalue, hvalue'⟩ := @parseKeyAt_value m (InBuf textEnd buf) (2 ^ 64 - start - (j + 1)) start
    (2 ^ 64 - start) j hpos (by omega) hfirst (fun o ho ho' => h.inBuf (by omega) (by omega)) (by omega)
  rw [hrun]
  dsimp only
  rw [hvalue, hvalue']
  by_cases hlong : secKeySize ≤ (keyOf m start j).length
  · rw [if_pos hlong]
    exact ⟨fun _ => ⟨none, rfl, hstays, .inl hlong⟩, fun hr => absurd (.inl hlong) hr⟩
  rw [if_neg hlong, or_iff_right hlong, or_iff_right hlong]
  obtain ⟨k, hk, hblank, hstop⟩ := h.exists_stop (show start + j + 1 ≤ textEnd by omega)
  have hread (i : ℕ) (hi : i ≤ k) : InBuf textEnd buf (start + j + 1 + i) :=
    h.inBuf (by omega) (by omega)
  have hall : Blank (region m (start + j + 1) (textEnd - start - j - 1)) ↔
      start + j + 1 + k = textEnd :=
    (blank_region_iff (by omega) hblank hstop).trans (by omega)
  rw [hall]
  by_cases heq : start + j + 1 + k = textEnd
  · obtain ⟨hval, hval'⟩ := @parseVal_blank m _ (keyOf m start j) _ (2 ^ 64 - start - (j + 1)) _
      (by omega) hblank (by rw [heq, h.zero]) hread
    exact ⟨fun _ => ⟨_, hval, hstays, hval'⟩, fun hr => absurd heq hr⟩
  · have hne : m (start + j + 1 + k) ≠ 0 := h.inText _ (by omega) (by omega)
    obtain ⟨t, -, hstrip, -⟩ := @stripWhile_spec isspace (InBuf textEnd buf) m (start + j + 1 + k)
      (2 ^ 64 - start - (j + 1) - k - 1)
    obtain ⟨-, hval'⟩ := @parseVal_steps m _ (keyOf m start j) _ _ _ (by omega) (by omega) hblank
      hne hstop hread _ hstrip
    refine ⟨fun hr => absurd hr heq, fun _ hs => h.not_inBuf_last ?_⟩
    have hreach := stripWhile_reaches (i := 2 ^ 64 - start - (j + 1) - k - 1) (by omega) le_rfl
      (fun i hi hi' => absurd hi (by omega)) (hval'.mp hs.2).1
    rwa [show start + j + 1 + k + (2 ^ 64 - start - (j + 1) - k - 1) = 2 ^ 64 - 1 by omega] at hreach

end KeyLines

/-! ## Section lines -/

section SectionLines
variable {sec l : ℕ}

/-- A section without a name has blanks in front of its closing bracket, and blanks behind it. -/
theorem TextBuf.strip_empty (h : TextBuf m textEnd buf) (hlow : buf ≤ sec) (hhigh : sec + l ≤ textEnd)
    (hempty : EmptyName (region m sec l)) :
    ∃ k < l, (∀ i < k, isspace (m (sec + i)) = true) ∧ m (sec + k) = closeBracket ∧
      (stripWhile isspace (sec + k) (l - k - 1)).run m = (0, m) ∧
      Stays (InBuf textEnd buf) (stripWhile isspace (sec + k) (l - k - 1)) m := by
  obtain ⟨k, hk, hblank, hstop⟩ := h.exists_stop (show sec ≤ textEnd by omega)
  have hfirst : ¬ l ≤ k := by
    intro hle
    have hnil : (region m sec l).dropWhile isspace = [] := by
      refine List.dropWhile_eq_nil_iff.mpr fun c hc => ?_
      obtain ⟨i, hi, rfl⟩ := mem_region.mp hc
      exact hblank i (by omega)
    rw [EmptyName, hnil, List.rdropWhile_nil] at hempty
    exact absurd hempty (by simp)
  obtain ⟨l₁, hl₁, hstrip, hname, hsafe⟩ :=
    @stripWhile_spec isspace (InBuf textEnd buf) m (sec + k) (l - k - 1)
  have hdrop : (region m sec l).dropWhile isspace = region m (sec + k) (l - k) := by
    rw [show l = k + (l - k) by omega, region_add, List.dropWhile_append_of_pos, Nat.add_sub_cancel_left]
    · rw [show l - k = l - k - 1 + 1 by omega, region, List.dropWhile_cons_of_neg (by simp [hstop])]
    · intro c hc
      obtain ⟨i, hi, rfl⟩ := mem_region.mp hc
      exact hblank i hi
  rw [show l - k - 1 + 1 = l - k by omega] at hname
  rw [EmptyName, hdrop, hname hstop, region_eq_singleton] at hempty
  obtain ⟨rfl, hclose⟩ := hempty
  have hread : Stays (InBuf textEnd buf) (stripWhile isspace (sec + k) (l - k - 1)) m :=
    (hsafe fun o ho ho' => h.inBuf (by omega) (by omega)).stays
  exact ⟨k, by omega, hblank, hclose, hstrip, hread⟩

/-- Backwards over the blanks in front of the closing bracket. -/
theorem TextBuf.strip_back (h : TextBuf m textEnd buf) (hlow : buf < sec) {k : ℕ}
    (hhigh : sec + k ≤ textEnd) (hopen : m (sec - 1) = openBracket)
    (hblank : ∀ i < k, isspace (m (sec + i)) = true) :
    (stripWhile isspace (sec + k) (2 ^ 64 - 1)).run m = (2 ^ 64 - 1 - k, m) ∧
      Stays (InBuf textEnd buf) (stripWhile isspace (sec + k) (2 ^ 64 - 1)) m := by
  have hsize := h.size
  have hmem (i : ℕ) (hi : 2 ^ 64 - 1 - k ≤ i) (hi' : i ≤ 2 ^ 64 - 1) :
      sec + k + i = sec + k - (2 ^ 64 - i) + 2 ^ 64 := by omega
  obtain ⟨hback, hback'⟩ := @stripWhile_to isspace (InBuf textEnd buf) m (2 ^ 64 - 1 - k) (2 ^ 64 - 1)
    (sec + k) (by omega)
    (fun i hi hi' => by
      rw [hmem i hi.le hi', h.wraps, show sec + k - (2 ^ 64 - i) = sec + (k - (2 ^ 64 - i)) by omega]
      exact hblank _ (by omega))
    (fun _ => by
      rw [hmem _ le_rfl (by omega), h.wraps, show sec + k - (2 ^ 64 - (2 ^ 64 - 1 - k)) = sec - 1 by omega,
        hopen]
      decide)
  refine ⟨hback, hback'.mpr fun i hi _ hi' => ?_⟩
  rw [hmem i hi hi']
  exact h.inBuf_wrap (by omega) (by omega)

/-- A section without a name: the bracket in front of the closing one ends the name. -/
theorem parseSection_empty (h : TextBuf m textEnd buf) (hlow : buf < sec) (hhigh : sec + l ≤ textEnd)
    (hopen : m (sec - 1) = openBracket) (hempty : EmptyName (region m sec l)) :
    Stays (InBuf textEnd buf) (parseSection sec l) m := by
  have hend := h.high
  have hsize := h.size
  obtain ⟨k, hk, hblank, hclose, hstrip, hread⟩ := h.strip_empty hlow.le hhigh hempty
  obtain ⟨hlead, hlead'⟩ := @stripLeading_to m (InBuf textEnd buf) k l sec hk.le hblank
    (fun _ => by rw [hclose]; decide) fun i hi => h.inBuf (by omega) (by omega)
  obtain ⟨hback, hback'⟩ := h.strip_back hlow (show sec + k ≤ textEnd by omega) hopen hblank
  obtain ⟨hquotes, hquotes'⟩ := @stripQuotes_of_first m (sec + k) (2 ^ 64 - 1 - k)
    (by rw [hclose]; decide) (by rw [hclose]; decide) (InBuf textEnd buf)
    (h.inBuf (by omega) (by omega))
  have hsome : ¬ (m (sec + k) = 0 ∨ l - k = 0) := by
    rw [hclose, not_or]
    exact ⟨by decide, by omega⟩
  have hbracket : ¬ m (sec + k + 0) ≠ closeBracket := not_not.mpr hclose
  have hlast : (subSize (l - k) 1).run m = (l - k - 1, m) := run_subSize (by omega) (by omega) m
  rw [parseSection, stays_bind, hlead, stays_bind, run_octetAt, stays_octetAt, if_neg hsome, stays_bind,
    hlast, stays_bind, hstrip, stays_bind, run_octetAt, stays_octetAt]
  dsimp only
  rw [if_neg hbracket, stays_bind, run_subSize_mod, stays_bind]
  dsimp only
  rw [show (0 + 2 ^ 64 - 1) % 2 ^ 64 = 2 ^ 64 - 1 by norm_num, hback, stays_bind, hquotes, stays_ite]
  refine ⟨hlead', h.inBuf (by omega) (by omega), stays_subSize _ _, hread,
    h.inBuf (by omega) (by omega), stays_subSize _ _, hback', hquotes', ?_⟩
  split
  · exact stays_pure _
  · rename_i hshort
    rw [stays_bind]
    refine ⟨stays_loadOctets fun a ha ha' => ?_, stays_pure _⟩
    rw [succSize, secKeySize] at hshort
    rw [succSize] at ha'
    dsimp only at hshort ha ha'
    omega

/-- The section of a last line, with the length up to the last address. -/
theorem parseSection_open (h : TextBuf m textEnd buf) (hlow : buf ≤ sec) (hhigh : sec ≤ textEnd) :
    (Blank (region m sec (textEnd - sec)) →
      (parseSection sec (2 ^ 64 - sec)).run m = (.refused none, m) ∧
        Stays (InBuf textEnd buf) (parseSection sec (2 ^ 64 - sec)) m) ∧
    (¬ Blank (region m sec (textEnd - sec)) →
      ¬ Stays (InBuf textEnd buf) (parseSection sec (2 ^ 64 - sec)) m) := by
  have hend := h.high
  have hbuf := h.low
  obtain ⟨k, hk, hblank, hstop⟩ := h.exists_stop hhigh
  obtain ⟨hlead, hlead'⟩ := @stripLeading_to m (InBuf textEnd buf) k (2 ^ 64 - sec) sec (by omega) hblank
    (fun _ => hstop) fun i hi => h.inBuf (by omega) (by omega)
  have hall : Blank (region m sec (textEnd - sec)) ↔ sec + k = textEnd :=
    (blank_region_iff (by omega) hblank hstop).trans (by omega)
  rw [hall, parseSection, run_bind, hlead, run_bind, run_octetAt, stays_bind, hlead, stays_bind,
    run_octetAt, stays_octetAt]
  dsimp only
  by_cases heq : sec + k = textEnd
  · have hzero : m (sec + k) = 0 := by rw [heq, h.zero]
    rw [if_pos (.inl hzero)]
    exact ⟨fun _ => ⟨rfl, hlead', h.inBuf (by omega) (by omega), stays_pure _⟩,
      fun hr => absurd heq hr⟩
  · refine ⟨fun hr => absurd hr heq, fun _ hs => h.not_inBuf_last ?_⟩
    have hne : m (sec + k) ≠ 0 := h.inText _ (by omega) (by omega)
    have hlast : (subSize (2 ^ 64 - sec - k) 1).run m = (2 ^ 64 - sec - k - 1, m) :=
      run_subSize (by omega) (by omega) m
    have hsome : ¬ (m (sec + k) = 0 ∨ 2 ^ 64 - sec - k = 0) := not_or.mpr ⟨hne, by omega⟩
    rw [if_neg hsome, stays_bind, hlast, stays_bind] at hs
    have hreach := stripWhile_reaches (i := 2 ^ 64 - sec - k - 1) (by omega) le_rfl
      (fun i hi hi' => absurd hi (by omega)) hs.2.2.2.1
    rwa [show sec + k + (2 ^ 64 - sec - k - 1) = 2 ^ 64 - 1 by omega] at hreach

end SectionLines

/-! ## The parser only reads -/

theorem reads_parseLine (hasSection : Bool) (textEnd line len : ℕ) :
    Reads (parseLine hasSection textEnd line len) := by
  have hlead (n s : ℕ) : Reads (stripLeading n s) :=
    (reads_skipWhile _ n s).bind fun r =>
      .ite ((reads_octetAt _).bind fun _ => reads_pure _) (reads_pure _)
  have hby (q : Octet) (s l : ℕ) : Reads (quotedBy q s l) :=
    (reads_octetAt s).bind fun _ => .ite ((reads_octetAt _).bind fun _ => reads_pure _) (reads_pure _)
  have hquotes (s l : ℕ) : Reads (stripQuotes s l) :=
    .ite (((hby _ s l).bind fun _ => .ite (reads_pure _) (hby _ s l)).bind fun _ =>
      .ite ((reads_subSize l 2).bind fun _ => reads_pure _) (reads_pure _)) (reads_pure _)
  have hval (key : List Octet) (v len : ℕ) : Reads (parseVal key v len) :=
    (reads_skipWhile _ len v).bind fun _ => (reads_octetAt _).bind fun _ => .ite (reads_pure _) <|
      (reads_subSize _ 1).bind fun _ => (reads_stripWhile _ _ _).bind fun _ => .ite (reads_pure _) <|
        (reads_loadOctets _ _).bind fun _ => reads_pure _
  have hkey (line len : ℕ) : Reads (parseKeyVal textEnd line len) := by
    have hscan : Reads (strchr equalSign (textEnd + 1 - line) line) := by
      rw [strchr_eq]
      exact reads_scan _ _ _
    refine hscan.bind fun v => ?_
    cases v with
    | none => exact reads_pure _
    | some v =>
      exact (reads_subSize v line).bind fun _ => (reads_subSize _ _).bind fun _ =>
        (reads_subSize _ 1).bind fun _ => (reads_stripWhile _ _ _).bind fun _ =>
          (hquotes _ _).bind fun _ => .ite (reads_pure _) <| (reads_loadOctets _ _).bind fun _ =>
            (reads_subSize _ 1).bind fun _ => hval _ _ _
  have hsection (sec l : ℕ) : Reads (parseSection sec l) :=
    (hlead l sec).bind fun _ => (reads_octetAt _).bind fun _ => .ite (reads_pure _) <|
      (reads_subSize _ 1).bind fun _ => (reads_stripWhile _ _ _).bind fun _ =>
        (reads_octetAt _).bind fun _ => .ite (reads_pure _) <| (reads_subSize _ 1).bind fun _ =>
          (reads_stripWhile _ _ _).bind fun _ => (hquotes _ _).bind fun _ => .ite (reads_pure _) <|
            (reads_loadOctets _ _).bind fun _ => reads_pure _
  have hlen : Reads (lineLen textEnd line len) := .ite (reads_strlen _ _) (reads_pure _)
  exact hlen.bind fun len => (hlead len line).bind fun r => .ite (reads_pure _) <|
    (reads_octetAt _).bind fun c => .ite (reads_pure _) <|
      .ite (.ite ((reads_subSize _ 1).bind fun _ => hsection _ _) (reads_pure _)) (hkey _ _)

end Csptp
