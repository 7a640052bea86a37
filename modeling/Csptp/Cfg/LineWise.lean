import Csptp.Cfg.Buffer

/-! # When a buffer is parsed line by line

What the loop of `parseBuf` does at a character, and from that, by induction on the rest of the text,
the texts that it parses line by line. -/
namespace Csptp
open Octets Octets.Prog
set_option autoImplicit false

variable {σ κ : Type} {m : Mem} {textEnd buf last len : ℕ}

/-! ## One pass -/

/-- With enough passes, the loop comes to this result and all of its accesses lie in `S`. -/
def EndsIn (S : ℕ → Prop) (m : Mem) (textEnd last : ℕ) (self : Cfg σ κ) (r : Bool × Cfg σ κ) : Prop :=
  ∃ passes, (Cfg.parseBufLoop textEnd passes last self).run m = (some r, m) ∧
    Stays S (Cfg.parseBufLoop textEnd passes last self) m

section Pass
variable {S : ℕ → Prop} {self : Cfg σ κ} {r : Bool × Cfg σ κ}

theorem run_cfg_parseLine (self : Cfg σ κ) (textEnd line len : ℕ) (m : Mem) :
    (self.parseLine textEnd line len).run m =
      (self.call ((parseLine self.setSection.isSome textEnd line len).run m).1, m) := by
  rw [Cfg.parseLine, run_bind, run_pure, (reads_parseLine _ _ _ _).keeps]

theorem stays_cfg_parseLine {line : ℕ} : Stays S (self.parseLine textEnd line len) m ↔
    Stays S (parseLine self.setSection.isSome textEnd line len) m := by
  rw [Cfg.parseLine, stays_bind]
  exact and_iff_left (stays_pure _)

/-- The loop ends at a zero or a negative character. -/
theorem endsIn_stop (hS : S last) (hstop : ¬ (m last).toInt > 0) :
    EndsIn S m textEnd last self r ↔ r = (true, self) := by
  constructor
  · rintro ⟨passes, hrun, -⟩
    cases passes with
    | zero => simp [Cfg.parseBufLoop] at hrun
    | succ n =>
      rw [Cfg.parseBufLoop, run_bind, run_octetAt, if_neg hstop, run_pure] at hrun
      simpa using hrun.symm
  · rintro rfl
    refine ⟨1, ?_, ?_⟩
    · rw [Cfg.parseBufLoop, run_bind, run_octetAt, if_neg hstop, run_pure]
    · rw [Cfg.parseBufLoop, stays_bind, run_octetAt, if_neg hstop, stays_octetAt]
      exact ⟨hS, stays_pure _⟩

theorem endsIn_outside (hS : ¬ S last) : ¬ EndsIn S m textEnd last self r := by
  rintro ⟨passes, hrun, hstays⟩
  cases passes with
  | zero => simp [Cfg.parseBufLoop] at hrun
  | succ n =>
    rw [Cfg.parseBufLoop, stays_bind, stays_octetAt] at hstays
    exact hS hstays.1

/-- One more pass, when `strpbrk` finds `stop`. -/
theorem endsIn_pass {stop : Option ℕ} {l : ℕ} {s : Bool × Cfg σ κ} (hS : S last)
    (hpos : (m last).toInt > 0)
    (hscan : (strpbrk [carriageReturn, lineFeed] (textEnd + 1 - last) last).run m = (stop, m))
    (hstays : Stays S (strpbrk [carriageReturn, lineFeed] (textEnd + 1 - last) last) m)
    (hl : (stop.getD 0 + 2 ^ 64 - last) % 2 ^ 64 = l)
    (hs : self.call ((parseLine self.setSection.isSome textEnd last l).run m).1 = s) :
    EndsIn S m textEnd last self r ↔
      if l > 0 then Stays S (parseLine self.setSection.isSome textEnd last l) m ∧
        if s.1 then EndsIn S m textEnd (stop.getD 0 + 1) s.2 r else r = s
      else EndsIn S m textEnd (stop.getD 0 + 1) self r := by
  have hrun (n : ℕ) : (Cfg.parseBufLoop textEnd (n + 1) last self).run m =
      if l > 0 then
        if s.1 then (Cfg.parseBufLoop textEnd n (stop.getD 0 + 1) s.2).run m else (some s, m)
      else (Cfg.parseBufLoop textEnd n (stop.getD 0 + 1) self).run m := by
    rw [Cfg.parseBufLoop, run_bind, run_octetAt, if_pos hpos, run_bind, hscan, run_bind, run_subSize_mod,
      hl, run_ite, run_bind, run_cfg_parseLine, hs, run_ite, run_pure]
  have htouch (n : ℕ) : Stays S (Cfg.parseBufLoop textEnd (n + 1) last self) m ↔
      if l > 0 then Stays S (parseLine self.setSection.isSome textEnd last l) m ∧
        if s.1 then Stays S (Cfg.parseBufLoop textEnd n (stop.getD 0 + 1) s.2) m else True
      else Stays S (Cfg.parseBufLoop textEnd n (stop.getD 0 + 1) self) m := by
    rw [Cfg.parseBufLoop, stays_bind, run_octetAt, if_pos hpos, stays_bind, hscan, stays_bind,
      run_subSize_mod, hl, stays_ite, stays_bind, run_cfg_parseLine, stays_cfg_parseLine, hs, stays_ite,
      stays_octetAt, and_iff_right hS, and_iff_right hstays, and_iff_right (stays_subSize _ _)]
    simp only [stays_pure]
  constructor
  · rintro ⟨passes, h, h'⟩
    cases passes with
    | zero => simp [Cfg.parseBufLoop] at h
    | succ n =>
      rw [hrun] at h
      rw [htouch] at h'
      split at h
      · rename_i hl
        rw [if_pos hl] at h' ⊢
        refine ⟨h'.1, ?_⟩
        have h' := h'.2
        split at h
        · rename_i hs
          rw [if_pos hs] at h' ⊢
          exact ⟨n, h, h'⟩
        · rename_i hs
          rw [if_neg hs]
          simpa using h.symm
      · rename_i hl
        rw [if_neg hl] at h' ⊢
        exact ⟨n, h, h'⟩
  · intro h
    split at h
    · rename_i hl
      obtain ⟨hp, h⟩ := h
      split at h
      · rename_i hs
        obtain ⟨n, h, h'⟩ := h
        refine ⟨n + 1, ?_, ?_⟩
        · rw [hrun, if_pos hl, if_pos hs, h]
        · rw [htouch, if_pos hl, if_pos hs]
          exact ⟨hp, h'⟩
      · rename_i hs
        refine ⟨1, ?_, ?_⟩
        · rw [hrun, if_pos hl, if_neg hs, h]
        · rw [htouch, if_pos hl, if_neg hs]
          exact ⟨hp, trivial⟩
    · rename_i hl
      obtain ⟨n, h, h'⟩ := h
      refine ⟨n + 1, ?_, ?_⟩
      · rw [hrun, if_neg hl, h]
      · rw [htouch, if_neg hl]
        exact h'

end Pass

/-! ## Lines in the loop -/

/-- From `line` on, `len` characters are no line breaks, and then the line ends. -/
structure Stretch (m : Mem) (textEnd line len : ℕ) : Prop where
  inside : ∀ i < len, ¬ IsBreak (m (line + i))
  high : line + len ≤ textEnd
  stop : line + len = textEnd ∨ IsBreak (m (line + len))

theorem exists_stretch (h : last ≤ textEnd) : ∃ len, Stretch m textEnd last len := by
  have hex : ∃ l, last + l = textEnd ∨ IsBreak (m (last + l)) :=
    ⟨textEnd - last, .inl (by omega)⟩
  have hle : Nat.find hex ≤ textEnd - last := Nat.find_min' hex (.inl (by omega))
  exact ⟨Nat.find hex, fun i hi hb => Nat.find_min hex hi (.inr hb), by omega, Nat.find_spec hex⟩

namespace Stretch

theorem lineIn (hs : Stretch m textEnd last len) (hlow : buf ≤ last) (hpos : 0 < len)
    (hbefore : last = buf ∨ IsBreak (m (last - 1))) : LineIn m textEnd buf last len :=
  ⟨hlow, hs.high, hpos, hs.stop, hbefore⟩

theorem scan (hs : Stretch m textEnd last len) (h : TextBuf m textEnd buf) (hlow : buf ≤ last) :
    (strpbrk [carriageReturn, lineFeed] (textEnd + 1 - last) last).run m =
        (if IsBreak (m (last + len)) then some (last + len) else none, m) ∧
      Stays (InBuf textEnd buf) (strpbrk [carriageReturn, lineFeed] (textEnd + 1 - last) last) m := by
  have hhigh := hs.high
  have hbreak (c : Octet) : c ∈ [carriageReturn, lineFeed] ↔ IsBreak c := by
    rw [List.mem_pair, IsBreak]
  have hscan := @scan_spec (InBuf textEnd buf) m (fun v => v ∈ [carriageReturn, lineFeed]) len
    (textEnd + 1 - last) last (fun i hi => ⟨decide_eq_false fun hb => hs.inside i hi ((hbreak _).mp hb),
      h.inText _ (by omega) (by omega)⟩) (by omega)
    (hs.stop.symm.imp (fun hb => decide_eq_true ((hbreak _).mpr hb)) fun heq => by rw [heq, h.zero])
  obtain ⟨hrun, hsafe⟩ := hscan
  refine ⟨?_, (hsafe.mpr fun o ho ho' => h.inBuf (by omega) (by omega)).stays⟩
  rw [strpbrk, hrun]
  simp only [decide_eq_true_eq, hbreak]

theorem spans (hs : Stretch m textEnd last len) (hpos : 0 < len) :
    lineSpans last 0 (region m last (textEnd - last)) = (last, len) ::
      lineSpans (last + len + 1) 0 (region m (last + len + 1) (textEnd - (last + len + 1))) := by
  have hhigh := hs.high
  rw [show textEnd - last = len + (textEnd - (last + len)) by omega, region_add, lineSpans_append
    (fun c hc => by obtain ⟨i, hi, rfl⟩ := mem_region.mp hc; exact hs.inside i hi), region_length,
    Nat.zero_add]
  rcases Nat.eq_or_lt_of_le hhigh with heq | hlt
  · rw [show textEnd - (last + len) = 0 by omega, show textEnd - (last + len + 1) = 0 by omega]
    simp [region, lineSpans, Nat.ne_of_gt hpos]
  · rw [show textEnd - (last + len) = textEnd - (last + len + 1) + 1 by omega, region, lineSpans,
      if_pos (hs.stop.resolve_left (by omega)), if_neg (by omega)]

/-- A line break ends the line. -/
theorem endsIn_broken {self : Cfg σ κ} {r s : Bool × Cfg σ κ} (hs : Stretch m textEnd last len)
    (h : TextBuf m textEnd buf) (hlow : buf ≤ last) (hchar : (m last).toInt > 0)
    (hbreak : IsBreak (m (last + len)))
    (hcall : self.call ((parseLine self.setSection.isSome textEnd last len).run m).1 = s) :
    EndsIn (InBuf textEnd buf) m textEnd last self r ↔
      if len > 0 then Stays (InBuf textEnd buf) (parseLine self.setSection.isSome textEnd last len) m ∧
        if s.1 then EndsIn (InBuf textEnd buf) m textEnd (last + len + 1) s.2 r else r = s
      else EndsIn (InBuf textEnd buf) m textEnd (last + len + 1) self r := by
  have hend := h.high
  have hhigh := hs.high
  obtain ⟨hscan, hscan'⟩ := hs.scan h hlow
  have hlen : ((some (last + len)).getD 0 + 2 ^ 64 - last) % 2 ^ 64 = len := by
    rw [Option.getD_some, show last + len + 2 ^ 64 - last = len + 2 ^ 64 by omega, Nat.add_mod_right,
      Nat.mod_eq_of_lt (by omega)]
  rw [if_pos hbreak] at hscan
  exact endsIn_pass (h.inBuf hlow (by omega)) hchar hscan hscan' hlen hcall

/-- Nothing ends the last line: the loop ends with it when it is refused, and otherwise leaves the buffer,
in the line or behind it, at the first address. -/
theorem endsIn_open {self : Cfg σ κ} {r : Bool × Cfg σ κ} (hs : Stretch m textEnd last len)
    (h : TextBuf m textEnd buf) (hl : LineIn m textEnd buf last len) (hchar : (m last).toInt > 0)
    (hlast : last + len = textEnd) : EndsIn (InBuf textEnd buf) m textEnd last self r ↔
      LineReadable self.setSection.isSome m buf last len ∧ r = (false, self) := by
  have hbuf := h.low
  have hend := h.high
  have hlow := hl.low
  have hpos := hl.pos
  have hzero : m (last + len) = 0 := by rw [hlast, h.zero]
  have hbreak : ¬ IsBreak (m (last + len)) := by rw [hzero]; decide
  obtain ⟨hscan, hscan'⟩ := hs.scan h hlow
  have hopen : ((none : Option ℕ).getD 0 + 2 ^ 64 - last) % 2 ^ 64 = 2 ^ 64 - last := by
    rw [Option.getD_none, Nat.zero_add, Nat.mod_eq_of_lt (by omega)]
  rw [if_neg hbreak] at hscan
  rw [endsIn_pass (h.inBuf hlow (by omega)) hchar hscan hscan' hopen rfl, if_pos (by omega)]
  rcases parseLine_open h hl hlast with ⟨⟨hsign, href⟩, key, hrun, hstays⟩ | ⟨hno, hrun⟩
  · rw [hrun]
    exact ⟨fun hends => ⟨⟨hchar, hsign, fun _ => href⟩, hends.2⟩, fun hread => ⟨hstays, hread.2⟩⟩
  · refine iff_of_false (fun hends => ?_) fun hread => hno ⟨hread.1.noSign, hread.1.ended hzero⟩
    rcases hrun with hrun | hleaves
    · rw [hrun] at hends
      refine endsIn_outside ?_ hends.2
      rintro ⟨hlow', -⟩
      have hone : (none : Option ℕ).getD 0 + 1 = 1 := rfl
      rw [hone, Nat.mod_eq_of_lt (by omega)] at hlow'
      omega
    · exact hleaves hends.1

end Stretch

/-! ## Lines that are not ignored -/

theorem parseKeyVal_not_ignored (textEnd line len : ℕ) (m : Mem) :
    ((parseKeyVal textEnd line len).run m).1 ≠ .ignored := by
  have hval (key : List Octet) (v len : ℕ) : Gives (· ≠ .ignored) (parseVal key v len) :=
    .bind fun _ => .bind fun _ => .ite (gives_pure (by simp)) <| .bind fun _ => .bind fun _ =>
      .ite (gives_pure (by simp)) <| .bind fun _ => gives_pure (by simp)
  have hkey : Gives (· ≠ .ignored) (parseKeyVal textEnd line len) := by
    refine .bind fun v => ?_
    cases v with
    | none => exact gives_pure (by simp)
    | some v =>
      exact .bind fun _ => .bind fun _ => .bind fun _ => .bind fun _ => .bind fun _ =>
        .ite (gives_pure (by simp)) <| .bind fun _ => .bind fun _ => hval _ _ _
  exact hkey m

/-- The loop ends here, but the line would be parsed. -/
theorem parseLine_negative {hasSection : Bool} (hlen : 0 < len) (hne : m last ≠ 0)
    (hneg : ¬ (m last).toInt > 0) : ((parseLine hasSection textEnd last len).run m).1 ≠ .ignored := by
  have hfirst : isspace (m last) = false ∧ m last ≠ numberSign ∧ m last ≠ openBracket := by
    have hlarge : 128 ≤ (m last).toNat := by
      by_contra hlt
      rw [BitVec.toInt_eq_toNat_of_lt (by omega)] at hneg
      exact hne (BitVec.eq_of_toNat_eq (by change _ = 0; omega))
    refine ⟨?_, fun heq => ?_, fun heq => ?_⟩
    · simp only [isspace, Bool.or_eq_false_iff, decide_eq_false_iff_not, Bool.and_eq_false_iff]
      refine ⟨fun heq => ?_, .inr (by omega)⟩
      rw [heq] at hlarge
      exact absurd hlarge (by decide)
    · rw [heq] at hlarge
      exact absurd hlarge (by decide)
    · rw [heq] at hlarge
      exact absurd hlarge (by decide)
  have hk : (parseLine hasSection textEnd last len).run m =
      (parseStripped hasSection textEnd (last + 0) (len - 0)).run m :=
    (parseLine_stripped (S := fun _ => True) hlen (fun i hi => absurd hi (by omega)) hfirst.1
      fun _ _ => trivial).1
  rw [hk, parseStripped, run_bind, run_octetAt, Nat.add_zero, if_neg (not_or.mpr ⟨hne, hfirst.2.1⟩),
    if_neg hfirst.2.2]
  exact parseKeyVal_not_ignored _ _ _ _

section Recording
variable {self : Cfg σ (κ × List (CfgCall σ))}

/-- Every call of a callback is written down. -/
structure Records (parser : Cfg σ (κ × List (CfgCall σ))) : Prop where
  setSection : ∀ f ∈ parser.setSection, ∀ name ck, (f name ck).2.2.length = ck.2.length + 1
  setKey : ∀ sec key val ck, (parser.setKey sec key val ck).2.2.length = ck.2.length + 1

theorem records_recording (self : Cfg σ κ) : Records self.recording := by
  constructor
  · intro f hf name ck
    simp only [Cfg.recording, Option.mem_def, Option.map_eq_some_iff] at hf
    obtain ⟨g, -, rfl⟩ := hf
    simp
  · intro sec key val ck
    simp [Cfg.recording]

namespace Records

/-- A line keeps the callbacks, and writes down a call unless it is ignored or refused. -/
theorem call (h : Records self) (line : ParsedLine) : Records (self.call line).2 ∧
    self.cookie.2.length ≤ (self.call line).2.cookie.2.length ∧
    (line ≠ .ignored → (self.call line).1 = true →
      self.cookie.2.length < (self.call line).2.cookie.2.length) := by
  cases line with
  | ignored => exact ⟨h, le_rfl, fun hne => absurd rfl hne⟩
  | refused key => exact ⟨h, le_rfl, fun _ hr => absurd hr (by simp [Cfg.call])⟩
  | setSection name =>
    cases hf : self.setSection with
    | none =>
      have hcall : self.call (.setSection name) = (false, self) := by rw [Cfg.call, hf]
      rw [hcall]
      exact ⟨h, le_rfl, fun _ hr => absurd hr (by simp)⟩
    | some f =>
      have hlt : self.cookie.2.length < (f name self.cookie).2.2.length := by
        rw [h.setSection f hf]
        exact Nat.lt_succ_self _
      rcases hr : f name self.cookie with ⟨_ | sec, cookie⟩
      · have hcall : self.call (.setSection name) = (false, { self with cookie := cookie }) := by
          simp only [Cfg.call, hf, hr]
        rw [hr] at hlt
        rw [hcall]
        exact ⟨⟨h.setSection, h.setKey⟩, hlt.le, fun _ _ => hlt⟩
      · have hcall : self.call (.setSection name) =
            (true, { self with curSec := some sec, cookie := cookie }) := by
          simp only [Cfg.call, hf, hr]
        rw [hr] at hlt
        rw [hcall]
        exact ⟨⟨h.setSection, h.setKey⟩, hlt.le, fun _ _ => hlt⟩
  | setKey key val =>
    have hlt : self.cookie.2.length < (self.setKey self.curSec key val self.cookie).2.2.length := by
      rw [h.setKey]
      exact Nat.lt_succ_self _
    exact ⟨⟨h.setSection, h.setKey⟩, hlt.le, fun _ _ => hlt⟩

theorem parseLines (h : Records self) (lines : List (ℕ × ℕ)) :
    self.cookie.2.length ≤ (self.parseLines textEnd m lines).2.cookie.2.length := by
  induction lines generalizing self with
  | nil => exact le_rfl
  | cons line rest ih =>
    obtain ⟨line, len⟩ := line
    rw [Cfg.parseLines, run_cfg_parseLine]
    dsimp only
    obtain ⟨hkeep, hle, -⟩ := h.call ((parseLine self.setSection.isSome textEnd line len).run m).1
    split
    · exact hle.trans (ih hkeep)
    · exact hle

theorem parseLines_ne (h : Records self) {line : ℕ} {rest : List (ℕ × ℕ)}
    (hline : ((parseLine self.setSection.isSome textEnd line len).run m).1 ≠ .ignored) :
    self.parseLines textEnd m ((line, len) :: rest) ≠ (true, self) := by
  rw [Cfg.parseLines, run_cfg_parseLine]
  dsimp only
  obtain ⟨hkeep, -, hlt⟩ := h.call ((parseLine self.setSection.isSome textEnd line len).run m).1
  split
  · rename_i hr
    intro heq
    have hle := @Records.parseLines _ _ m textEnd _ hkeep rest
    rw [heq] at hle
    exact absurd (hlt hline hr) (not_lt_of_ge hle)
  · rename_i hr
    intro heq
    rw [heq] at hr
    exact hr rfl

end Records
end Recording

/-! ## The whole loop -/

section Whole
variable {self : Cfg σ (κ × List (CfgCall σ))}

theorem endsIn_iff (h : TextBuf m textEnd buf) (hr : Records self) (hlow : buf ≤ last)
    (hhigh : last ≤ textEnd) (hbefore : last = buf ∨ IsBreak (m (last - 1))) :
    let lines := lineSpans last 0 (region m last (textEnd - last))
    EndsIn (InBuf textEnd buf) m textEnd last self (self.parseLines textEnd m lines) ↔
      self.Readable textEnd buf m lines := by
  induction hn : textEnd - last using Nat.strong_induction_on generalizing last self with
  | _ n ih =>
  subst hn
  intro lines
  have hS : InBuf textEnd buf last := h.inBuf hlow hhigh
  rcases Nat.eq_or_lt_of_le hhigh with heq | hlt
  · have hlines : lines = [] := by
      change lineSpans _ _ (region _ _ (textEnd - last)) = []
      rw [heq, Nat.sub_self]
      rfl
    rw [hlines, endsIn_stop hS (by rw [heq, h.zero]; decide)]
    exact iff_of_true rfl trivial
  obtain ⟨len, hs⟩ := @exists_stretch m textEnd last hhigh
  have hstop := hs.high
  rcases Nat.eq_zero_or_pos len with rfl | hpos
  · -- an empty line
    have hbreak : IsBreak (m last) := hs.stop.resolve_left (by omega)
    have hlines : lines = lineSpans (last + 1) 0 (region m (last + 1) (textEnd - (last + 1))) := by
      change lineSpans _ _ (region _ _ (textEnd - last)) = _
      rw [show textEnd - last = textEnd - (last + 1) + 1 by omega, region, lineSpans, if_pos hbreak,
        if_pos rfl]
    have hchar : (m last).toInt > 0 := by rcases hbreak with heq | heq <;> rw [heq] <;> decide
    rw [hs.endsIn_broken h hlow hchar hbreak rfl, if_neg (lt_irrefl 0), hlines]
    exact ih _ (by omega) hr (by omega) (by omega) (.inr hbreak) rfl
  have hl : LineIn m textEnd buf last len := hs.lineIn hlow hpos hbefore
  have hlines := hs.spans hpos
  change lines = _ at hlines
  by_cases hchar : (m last).toInt > 0
  · rw [hlines, Cfg.parseLines, Cfg.Readable, run_cfg_parseLine]
    dsimp only
    by_cases hbreak : IsBreak (m (last + len))
    · -- a line break ends the line
      have hnext_le : last + len + 1 ≤ textEnd := by
        refine Nat.lt_of_le_of_ne hs.high fun heq => hbreak.blank.2.2 ?_
        rw [heq, h.zero]
      have hkeep := (hr.call ((parseLine self.setSection.isSome textEnd last len).run m).1).1
      have hnext := ih (textEnd - (last + len + 1)) (by omega) hkeep (by omega)
        hnext_le (.inr hbreak) rfl
      have hread : LineReadable self.setSection.isSome m buf last len ↔
          Stays (InBuf textEnd buf) (parseLine self.setSection.isSome textEnd last len) m := by
        rw [parseLine_broken h hl hbreak]
        exact ⟨fun hline => hline.noSign, fun hsign =>
          ⟨hchar, hsign, fun hzero => absurd hzero hbreak.blank.2.2⟩⟩
      rw [hs.endsIn_broken h hlow hchar hbreak rfl, if_pos hpos, hread]
      split
      · rename_i hs
        simpa only [hs, true_imp_iff] using and_congr_right fun _ => hnext
      · rename_i hs
        exact and_congr_right fun _ => iff_of_true rfl fun hs' => absurd hs' hs
    · -- nothing ends it
      have hlast : last + len = textEnd := hs.stop.resolve_right hbreak
      rw [hs.endsIn_open h hl hchar hlast]
      refine and_congr_right fun hread => ?_
      obtain ⟨key, hrun⟩ := parseLine_refused h hl hlast hread.noSign
        (hread.ended (by rw [hlast, h.zero]))
      rw [hrun]
      exact iff_of_true rfl fun hs => absurd hs (by simp [Cfg.call])
  · have hline := @parseLine_negative m textEnd last len self.setSection.isSome hpos
      (h.inText _ hlow hlt) hchar
    rw [endsIn_stop hS hchar, hlines]
    exact iff_of_false (hr.parseLines_ne hline) fun hread => hchar hread.1.positive

end Whole

theorem LineWise.first {self : Cfg σ κ} (h : LineWise self m textEnd buf) (hbuf : TextBuf m textEnd buf)
    {line : ℕ} {rest : List (ℕ × ℕ)}
    (hspans : lineSpans buf 0 (textOf m textEnd buf) = (line, len) :: rest) :
    LineReadable self.setSection.isSome m buf line len := by
  have hread := (endsIn_iff hbuf (records_recording self) le_rfl hbuf.le (.inl rfl)).mp h
  rw [← textOf, hspans, Cfg.Readable, Cfg.recording, Option.isSome_map] at hread
  exact hread.1

/-- `parseBuf` parses a text line by line exactly when all of its lines, up to the first one that is
refused, begin with a character below 128, none of them is unfinished unless it is refused anyway, and
none begins with an equal sign unless there is more in front of it. -/
theorem parse_buf_lines (self : Cfg σ κ) (h : TextBuf m textEnd buf) :
    LineWise self m textEnd buf ↔
      self.recording.Readable textEnd buf m (lineSpans buf 0 (textOf m textEnd buf)) :=
  endsIn_iff h (records_recording self) le_rfl h.le (.inl rfl)

/-! ## Texts at an address -/

/-- A memory that holds nothing but this text, at `buf`. -/
def textMem (buf : ℕ) (text : List Octet) : Mem := fun o =>
  if buf ≤ o % 2 ^ 64 then text.getD (o % 2 ^ 64 - buf) 0 else 0

section TextMem
variable {text : List Octet}

theorem textMem_get {i : ℕ} (hi : i < text.length) (hfits : buf + text.length < 2 ^ 64) :
    textMem buf text (buf + i) = text[i] := by
  rw [textMem, Nat.mod_eq_of_lt (by omega), if_pos (by omega), Nat.add_sub_cancel_left,
    List.getD_eq_getElem?_getD, List.getElem?_eq_getElem hi, Option.getD_some]

theorem textMem_end (hfits : buf + text.length < 2 ^ 64) : textMem buf text (buf + text.length) = 0 := by
  rw [textMem, Nat.mod_eq_of_lt hfits, if_pos (by omega), Nat.add_sub_cancel_left,
    List.getD_eq_getElem?_getD, List.getElem?_eq_none le_rfl, Option.getD_none]

theorem textBuf_textMem (htext : 0 ∉ text) (hlow : 1 < buf) (hhigh : buf + text.length + 1 < 2 ^ 64)
    (hsize : text.length < 2 ^ 63) : TextBuf (textMem buf text) (buf + text.length) buf where
  wraps o := by rw [textMem, textMem, Nat.add_mod_right]
  inText o ho ho' := by
    obtain ⟨i, rfl⟩ := Nat.exists_eq_add_of_le ho
    rw [textMem_get (by omega) (by omega)]
    exact fun hzero => htext (hzero ▸ List.getElem_mem _)
  zero := textMem_end (by omega)
  le := Nat.le_add_right _ _
  low := hlow
  high := hhigh
  size := by omega

theorem textOf_textMem (hfits : buf + text.length < 2 ^ 64) :
    textOf (textMem buf text) (buf + text.length) buf = text := by
  rw [textOf, Nat.add_sub_cancel_left]
  refine List.ext_getElem (region_length _ _ _) fun i _ hi => ?_
  rw [region_getElem, textMem_get hi hfits]

end TextMem

/-- The parser does not do what the lines of this text say. -/
def Misread (text : List Octet) : Prop :=
  TextBuf (textMem 4096 text) (4096 + text.length) 4096 ∧
    ¬ LineWise sampleCfg (textMem 4096 text) (4096 + text.length) 4096

theorem misread_of_first {text : List Octet} {len : ℕ} {rest : List (ℕ × ℕ)} (htext : 0 ∉ text)
    (hlen : text.length ≤ 5) (hspans : lineSpans 4096 0 text = (4096, len) :: rest)
    (hfirst : ¬ LineReadable true (textMem 4096 text) 4096 4096 len) : Misread text := by
  have hbuf : TextBuf (textMem 4096 text) (4096 + text.length) 4096 :=
    textBuf_textMem htext (by omega) (by omega) (by omega)
  refine ⟨hbuf, fun hlines => hfirst ?_⟩
  refine hlines.first hbuf (?_ : _ = (_, len) :: rest)
  rw [textOf_textMem (by omega), hspans]

/-- The text `k=v` without a line break, a line that begins with a character of 128 or more, and an equal
sign at the beginning of the text. -/
theorem parse_buf_lines_fails :
    Misread [107, 61, 118] ∧ Misread [195, 107, 61, 118, 10] ∧ Misread [61, 118, 10] := by
  refine ⟨misread_of_first (by decide) (by decide) rfl fun hread => ?_,
    misread_of_first (by decide) (by decide) rfl fun hread => ?_,
    misread_of_first (by decide) (by decide) rfl fun hread => ?_⟩
  · exact absurd (hread.ended (by decide)).2 (by decide)
  · exact absurd hread.positive (by decide)
  · exact hread.noSign (by decide) (by decide)

theorem parse_buf_lines_sample : LineWise sampleCfg (textMem 4096 [107, 61, 118, 10]) 4100 4096 := by
  have hbuf : TextBuf (textMem 4096 [107, 61, 118, 10]) 4100 4096 :=
    textBuf_textMem (by decide) (by decide) (by decide) (by decide)
  refine (parse_buf_lines sampleCfg hbuf).mpr ?_
  have htext : textOf (textMem 4096 [107, 61, 118, 10]) 4100 4096 = [107, 61, 118, 10] :=
    @textOf_textMem 4096 [107, 61, 118, 10] (by decide)
  rw [htext]
  exact ⟨⟨by decide, by decide, fun hzero => absurd hzero (by decide)⟩, fun _ => trivial⟩

end Csptp
