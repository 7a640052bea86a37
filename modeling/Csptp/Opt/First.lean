import Csptp.Opt.Owning

/-! # First settings

Without the flag to replace values, an option keeps the value of the first call that is made for it. -/
namespace Csptp
open Octets
set_option autoImplicit false

variable {φ : Type} [LongDouble φ] {self self' fresh : Opt φ} {c : ParseCall} {cur : ℕ × ℕ} {v : OptSet φ}

/-! ## Runs of calls that succeed -/

/-- These calls return true, one after the other. -/
def Opt.runTrue : Opt φ → List ParseCall → Option (Opt φ)
  | self, [] => some self
  | self, c :: rest => do
    let r ← self.call c
    if r.1 then runTrue r.2 rest else none

theorem runTrue_cons {rest : List ParseCall} (h : self.runTrue (c :: rest) = some self') :
    ∃ self₁, self.call c = some (true, self₁) ∧ self₁.runTrue rest = some self' := by
  simp only [Opt.runTrue, Option.bind_eq_bind, Option.bind_eq_some_iff] at h
  obtain ⟨⟨b, self₁⟩, hcall, h⟩ := h
  cases b with
  | false => exact absurd h (by simp)
  | true => exact ⟨self₁, hcall, h⟩

theorem runTrue_append {calls rest : List ParseCall} :
    self.runTrue (calls ++ rest) = (self.runTrue calls).bind fun self => self.runTrue rest := by
  induction calls generalizing self with
  | nil => rfl
  | cons c calls ih =>
    rw [List.cons_append, Opt.runTrue, Opt.runTrue]
    cases self.call c with
    | none => rfl
    | some r =>
      simp only [Option.bind_eq_bind, Option.bind_some]
      split
      · exact ih
      · rfl

/-! ## Records stay as they are -/

/-- The objects have the same records. -/
def SameRecords (self fresh : Opt φ) : Prop := entries 0 self.rcs = entries 0 fresh.rcs

omit [LongDouble φ] in
theorem SameRecords.target (h : SameRecords self fresh) (key : OptKey) :
    self.target key = fresh.target key := by
  cases key with
  | short o =>
    rw [Opt.target, Opt.target, h]
  | name k =>
    rw [Opt.target, Opt.target, h]

theorem called_same {b : Bool} (h : Called self c b self') : SameRecords self' self := by
  cases h with
  | missing => rfl
  | parsed => exact entries_store _ _

theorem called_formed {b : Bool} (hf : Formed self.rcs) (h : Called self c b self') : Formed self'.rcs := by
  cases h with
  | missing => exact hf
  | parsed => exact formed_store hf _

theorem run_same {calls : List ParseCall} (hf : Formed self.rcs) (h : self.runTrue calls = some self') :
    SameRecords self' self ∧ Formed self'.rcs := by
  induction calls generalizing self with
  | nil =>
    cases h
    exact ⟨rfl, hf⟩
  | cons c calls ih =>
    obtain ⟨self₁, hcall, hrun⟩ := runTrue_cons h
    have hcalled := call_called hf hcall
    obtain ⟨hsame, hf'⟩ := ih (called_formed hf hcalled) hrun
    exact ⟨hsame.trans (called_same hcalled), hf'⟩

/-! ## The first call for a record -/

/-- The first of these calls that is made for the record in this place. -/
def firstSetting (fresh : Opt φ) (cur : ℕ × ℕ) (calls : List ParseCall) : Option ParseCall :=
  calls.find? fun c => (fresh.target c.key).any fun e => e.1 = cur

/-- What a call that returns true did for a record: it stored the first value, or nothing. -/
inductive Settled (opt : Opt φ) (c : ParseCall) (cur : ℕ × ℕ) (v : OptSet φ) : OptSet φ → Prop
  | other (hother : (opt.target c.key).any (fun e => e.1 = cur) = false) : Settled opt c cur v v
  | kept (hset : v.isSet = true) : Settled opt c cur v v
  | stored {a : OptRec φ} {v' : OptSet φ} {h' : Memory} (htarget : opt.target c.key = some (cur, a))
      (hunset : v.isSet = false) (hparsed : Parsed a v c.s c.fl c.ok opt.heap true v' h') :
      Settled opt c cur v v'

omit [LongDouble φ] in
theorem setStr_isSet {t : CStr} {fl : OptFlags} {ok : Bool} {h h' : Memory} {v' : OptSet φ}
    (hset : setStr v t fl ok h = some (v', h')) : v'.isSet = true := by
  simp only [setStr, Option.bind_eq_bind, Option.bind_eq_some_iff] at hset
  obtain ⟨h₁, -, hset⟩ := hset
  split at hset
  · cases hset
    rfl
  · split at hset
    · simp only [Option.bind_eq_some_iff] at hset
      obtain ⟨d, -, hset⟩ := hset
      cases hset
      rfl
    · split at hset
      · cases hset
        rfl
      · cases hset
        rfl

/-- What a call that returns true stores in an option that was not set. -/
theorem parsed_isSet {a : OptRec φ} {v' : OptSet φ} {h h' : Memory} (hunset : v.isSet = false)
    (hparsed : Parsed a v c.s c.fl c.ok h true v' h') : v'.isSet = true := by
  cases hparsed with
  | kept hclosed => exact absurd (.inr hunset) hclosed
  | int => rfl
  | float => rfl
  | str _ _ _ _ _ hset => exact setStr_isSet hset

theorem called_settled (hfl : c.fl &&& optReplace = 0) (h : Called self c true self')
    (hslot : Opt.slotAt self.rcs cur = some v) :
    ∃ v', Opt.slotAt self'.rcs cur = some v' ∧ Settled self c cur v v' := by
  cases h with
  | @parsed cur₀ a v₀ v' b h' htarget hslot₀ hparsed =>
    rw [slotAt_store hslot₀]
    by_cases hcur : cur = cur₀
    · subst hcur
      rw [hslot] at hslot₀
      cases hslot₀
      rw [if_pos rfl]
      refine ⟨v', rfl, ?_⟩
      cases hset : v.isSet with
      | false => exact .stored htarget hset hparsed
      | true =>
        have hclosed : ¬ v.Open c.fl := OptSet.open_iff.not_left.mpr ⟨hfl, hset⟩
        cases hparsed with
        | kept => exact .kept hset
        | int hopen => exact absurd hopen hclosed
        | float hopen => exact absurd hopen hclosed
        | str hopen => exact absurd hopen hclosed
    · rw [if_neg hcur]
      refine ⟨v, hslot, .other ?_⟩
      rw [htarget]
      simpa using Ne.symm hcur

/-- What is in a place after calls that return true: what was set before, or what the first call for it
stored, or nothing. -/
inductive FirstStored (fresh : Opt φ) (calls : List ParseCall) (cur : ℕ × ℕ) (v : OptSet φ) : OptSet φ → Prop
  | kept (hset : v.isSet = true) : FirstStored fresh calls cur v v
  | nothing (hunset : v.isSet = false) (hnone : firstSetting fresh cur calls = none) :
      FirstStored fresh calls cur v v
  | first {c : ParseCall} {a : OptRec φ} {v' : OptSet φ} {h h' : Memory} (hunset : v.isSet = false)
      (hfirst : firstSetting fresh cur calls = some c) (htarget : fresh.target c.key = some (cur, a))
      (hparsed : Parsed a v c.s c.fl c.ok h true v' h') : FirstStored fresh calls cur v v'

/-- Every option ends up with its first setting. -/
theorem run_first {calls : List ParseCall} (hf : Formed self.rcs) (hsame : SameRecords self fresh)
    (hfl : ∀ c ∈ calls, c.fl &&& optReplace = 0) (hslot : Opt.slotAt self.rcs cur = some v)
    (h : self.runTrue calls = some self') :
    ∃ v', Opt.slotAt self'.rcs cur = some v' ∧ FirstStored fresh calls cur v v' := by
  induction calls generalizing self v with
  | nil =>
    cases h
    refine ⟨v, hslot, ?_⟩
    cases hset : v.isSet with
    | false => exact .nothing hset rfl
    | true => exact .kept hset
  | cons c calls ih =>
    obtain ⟨self₁, hcall, hrun⟩ := runTrue_cons h
    have hcalled := call_called hf hcall
    have hfl' : ∀ d ∈ calls, d.fl &&& optReplace = 0 := fun d hd => hfl d (List.mem_cons_of_mem _ hd)
    obtain ⟨v₁, hslot₁, hsettled⟩ := called_settled (hfl c List.mem_cons_self) hcalled hslot
    have hsame₁ : SameRecords self₁ fresh := (called_same hcalled).trans hsame
    obtain ⟨v', hslot', hfirst⟩ := ih (called_formed hf hcalled) hsame₁ hfl' hslot₁ hrun
    refine ⟨v', hslot', ?_⟩
    cases hsettled with
    | other hother =>
      rw [hsame.target] at hother
      have hskip : firstSetting fresh cur (c :: calls) = firstSetting fresh cur calls :=
        List.find?_cons_of_neg (by rw [hother]; simp)
      cases hfirst with
      | kept hset => exact .kept hset
      | nothing hunset hnone => exact .nothing hunset (hskip.trans hnone)
      | first hunset hfirst htarget hparsed => exact .first hunset (hskip.trans hfirst) htarget hparsed
    | kept hset =>
      cases hfirst with
      | kept => exact .kept hset
      | nothing hunset => exact absurd (hset.symm.trans hunset) (by simp)
      | first hunset => exact absurd (hset.symm.trans hunset) (by simp)
    | @stored a _ h₁ htarget hunset hparsed =>
      have hset := parsed_isSet hunset hparsed
      rw [hsame.target] at htarget
      have hhit : firstSetting fresh cur (c :: calls) = some c :=
        List.find?_cons_of_pos (by rw [htarget]; simp)
      cases hfirst with
      | kept => exact .first hunset hhit htarget hparsed
      | nothing hunset' => exact absurd (hset.symm.trans hunset') (by simp)
      | first hunset' => exact absurd (hset.symm.trans hunset') (by simp)

/-- Calls change nothing that was set before. -/
theorem run_keeps {calls : List ParseCall} (hf : Formed self.rcs)
    (hfl : ∀ c ∈ calls, c.fl &&& optReplace = 0) (hslot : Opt.slotAt self.rcs cur = some v)
    (hset : v.isSet = true) (h : self.runTrue calls = some self') :
    Opt.slotAt self'.rcs cur = some v := by
  obtain ⟨v', hslot', hfirst⟩ := run_first hf rfl hfl hslot h
  cases hfirst with
  | kept => exact hslot'
  | nothing hunset => exact absurd (hset.symm.trans hunset) (by simp)
  | first hunset => exact absurd (hset.symm.trans hunset) (by simp)

/-! ## What a setting says -/

/-- A setting gives this value to an option with this record. -/
inductive Given (a : OptRec φ) (c : ParseCall) (w : OptRecVal φ) : Prop
  | number (hi : Numeric a c.s c.fl w.i)
  | float {t : CStr} (hfloat : a.type = .float) (hs : c.s = some t) (hf : toFloat t.text = some w.f)
      (hmin : LongDouble.lt w.f a.min.f = false) (hmax : LongDouble.lt a.max.f w.f = false)
  | str {t u : CStr} (hstr : a.type = .str) (hs : c.s = some t) (hne : t.text ≠ []) (hw : w.s = some u)
      (htext : u.text = t.text)

/-- A string is to be duplicated, and there is no memory for it. -/
def Short (a : OptRec φ) (c : ParseCall) : Prop :=
  a.type = .str ∧ c.fl &&& optStrMask = optStrDup ∧ c.ok = false

/-- What is stored in a string option that was not set. -/
theorem parsed_str {a : OptRec φ} {v' : OptSet φ} {h h' : Memory} (hstr : a.type = .str)
    (hunset : v.isSet = false) (halloc : v.isAlloc = false) (hmask : c.fl &&& optStrMask ≠ optStrMask)
    (hparsed : Parsed a v c.s c.fl c.ok h true v' h') :
    ∃ t, c.s = some t ∧ t.text ≠ [] ∧ StrStored v t c.fl c.ok h v' h' := by
  cases hparsed with
  | kept hclosed => exact absurd (.inr hunset) hclosed
  | int _ hi => exact absurd hi (not_numeric_of_str hstr)
  | float _ hfloat => exact absurd (hfloat.symm.trans hstr) (by simp)
  | @str t _ _ _ _ hs hlive hne hset =>
    have howned : v.owned = [] := by rw [OptSet.owned, halloc]; rfl
    obtain ⟨v₁, h₁, hset₁, hstored⟩ := @setStr_stored φ v t h c.fl c.ok (by simp [howned]) hmask hlive
      (by simp [howned])
    rw [hset] at hset₁
    cases hset₁
    exact ⟨t, hs, hne, hstored⟩

/-- What is stored in an option that was not set is what the setting says, if there is memory. -/
theorem given_iff {a : OptRec φ} {v' : OptSet φ} {h h' : Memory} (hunset : v.isSet = false)
    (halloc : v.isAlloc = false) (hmask : c.fl &&& optStrMask ≠ optStrMask)
    (hparsed : Parsed a v c.s c.fl c.ok h true v' h') : Given a c v'.val ↔ ¬ Short a c := by
  by_cases hstr : a.type = .str
  · obtain ⟨t, hs, hne, hstored⟩ := parsed_str hstr hunset halloc hmask hparsed
    cases hstored with
    | static hst =>
      exact iff_of_true (.str hstr hs hne rfl rfl) fun hshort =>
        absurd (hst.symm.trans hshort.2.1) (by decide)
    | dup _ hok =>
      exact iff_of_true (.str hstr hs hne rfl rfl) fun hshort =>
        absurd (hok.symm.trans hshort.2.2) (by decide)
    | short hdup hok =>
      refine iff_of_false (fun hgiven => ?_) (not_not.mpr ⟨hstr, hdup, hok⟩)
      cases hgiven with
      | number hi => exact not_numeric_of_str hstr hi
      | float hfloat => exact absurd (hfloat.symm.trans hstr) (by simp)
      | str _ _ _ hw => exact absurd hw (by simp)
    | pass hpass =>
      exact iff_of_true (.str hstr hs hne rfl rfl) fun hshort =>
        absurd (hpass.symm.trans hshort.2.1) (by decide)
  · refine iff_of_true ?_ fun hshort => hstr hshort.1
    cases hparsed with
    | kept hclosed => exact absurd (.inr hunset) hclosed
    | int _ hi => exact .number hi
    | float _ hfloat hs hf hmin hmax => exact .float hfloat hs hf hmin hmax
    | str _ hstr' => exact absurd hstr' hstr

/-! ## The order of settings -/

/-- Every option has the value of its first setting, or its default. -/
def KeepsOrder (fresh : Opt φ) (calls : List ParseCall) (self : Opt φ) : Prop :=
  ∀ cur a, Opt.recAt fresh.rcs cur = some a → ∃ w, self.valueAt (cur, a) = some w ∧
    match firstSetting fresh cur calls with
    | none => w = a.defVal
    | some c => Given a c w

section New
variable {arrays : List (List (OptRec φ))} {calls : List ParseCall}

/-- What an option of a new object holds after calls that return true: nothing, or what its first setting
stored. -/
theorem new_first (harrays : ∀ r ∈ arrays, r ≠ []) (hfl : ∀ c ∈ calls, c.fl &&& optReplace = 0)
    (h : (Opt.withRecords arrays).runTrue calls = some self) {a : OptRec φ}
    (ha : Opt.recAt (Opt.withRecords arrays).rcs cur = some a) : ∃ v, Opt.slotAt self.rcs cur = some v ∧
      self.valueAt (cur, a) = some (if v.isSet then v.val else a.defVal) ∧
      (firstSetting (Opt.withRecords arrays) cur calls = none ∧ v = OptSet.zero ∨
        ∃ c h₁ h₂, firstSetting (Opt.withRecords arrays) cur calls = some c ∧ v.isSet = true ∧
          Parsed a OptSet.zero c.s c.fl c.ok h₁ true v h₂) := by
  have hformed := formed_withRecords harrays
  obtain ⟨v, hslot⟩ := exists_slotAt hformed ha
  have hzero : v = OptSet.zero := slots_withRecords (mem_slots_of_slotAt hslot)
  subst hzero
  obtain ⟨v', hslot', hfirst⟩ := run_first hformed rfl hfl hslot h
  refine ⟨v', hslot', ?_, ?_⟩
  · rw [Opt.valueAt, hslot']
    rfl
  · cases hfirst with
    | kept hset => exact absurd hset (by simp [OptSet.zero])
    | nothing _ hnone => exact .inl ⟨hnone, rfl⟩
    | @first c a' v' h₁ h₂ hunset hsetting htarget hparsed =>
      have hrec := Opt.recAt_of_target htarget
      rw [ha] at hrec
      cases hrec
      exact .inr ⟨c, h₁, h₂, hsetting, parsed_isSet hunset hparsed, hparsed⟩

/-- The value of an option in the end. -/
theorem first_value (harrays : ∀ r ∈ arrays, r ≠ [])
    (hfl : ∀ c ∈ calls, c.fl &&& optReplace = 0 ∧ c.fl &&& optStrMask ≠ optStrMask)
    (h : (Opt.withRecords arrays).runTrue calls = some self) {a : OptRec φ}
    (ha : Opt.recAt (Opt.withRecords arrays).rcs cur = some a) : ∃ w, self.valueAt (cur, a) = some w ∧
      match firstSetting (Opt.withRecords arrays) cur calls with
      | none => w = a.defVal
      | some c => Given a c w ↔ ¬ Short a c := by
  obtain ⟨v, -, hvalue, hfirst⟩ := new_first harrays (fun c hc => (hfl c hc).1) h ha
  refine ⟨_, hvalue, ?_⟩
  obtain ⟨hnone, rfl⟩ | ⟨c, h₁, h₂, hsetting, hset, hparsed⟩ := hfirst
  · rw [hnone]
    rfl
  · rw [hsetting, if_pos hset]
    exact given_iff rfl rfl (hfl c (List.mem_of_find?_eq_some hsetting)).2 hparsed

/-- Options keep the order of their settings, unless a string falls short. -/
theorem keepsOrder_iff (harrays : ∀ r ∈ arrays, r ≠ [])
    (hfl : ∀ c ∈ calls, c.fl &&& optReplace = 0 ∧ c.fl &&& optStrMask ≠ optStrMask)
    (h : (Opt.withRecords arrays).runTrue calls = some self) :
    KeepsOrder (Opt.withRecords arrays) calls self ↔
      ∀ cur a c, Opt.recAt (Opt.withRecords arrays).rcs cur = some a →
        firstSetting (Opt.withRecords arrays) cur calls = some c → ¬ Short a c := by
  constructor
  · intro hkeeps cur a c ha hc
    obtain ⟨w, hw, hgiven⟩ := hkeeps cur a ha
    obtain ⟨w', hw', hiff⟩ := first_value harrays hfl h ha
    rw [hw] at hw'
    cases hw'
    rw [hc] at hgiven hiff
    exact hiff.mp hgiven
  · intro hlong cur a ha
    obtain ⟨w, hw, hiff⟩ := first_value harrays hfl h ha
    refine ⟨w, hw, ?_⟩
    cases hc : firstSetting (Opt.withRecords arrays) cur calls with
    | none =>
      rw [hc] at hiff
      exact hiff
    | some c =>
      rw [hc] at hiff
      exact hiff.mpr (hlong cur a c ha hc)

end New

end Csptp
