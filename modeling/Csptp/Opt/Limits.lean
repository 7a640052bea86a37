import Csptp.Opt.Owning

/-! # Stored values and their records

Numbers are stored within the limits of their records. A string keeps to its record when it is not too
long, there is memory for its duplicate, and the flags do not contradict each other. -/
namespace Csptp
open Octets
set_option autoImplicit false

variable {φ : Type} {self self' : Opt φ} {c : ParseCall}

/-! ## The records and their values -/

/-- What a record says about its values. -/
structure Respects (r : OptRec φ) (v : OptRecVal φ) : Prop where
  number : InLimits r v.i
  string : r.type = .str →
    ∃ s, v.s = some s ∧ s.text ≠ [] ∧ (r.maxLen ≠ 0 → s.text.length ≤ r.maxLen)

def Respected (self : Opt φ) : Prop := ∀ cur a v, Opt.recAt self.rcs cur = some a →
  Opt.slotAt self.rcs cur = some v → v.isSet = true → Respects a v.val

/-- A string that is stored is no longer than its record allows, and there is memory if it has to be
duplicated; and a search for a name ends. -/
structure Fits (opt : Opt φ) (c : ParseCall) : Prop where
  clean : Clean opt c
  memory : ∀ cur v t, Storing opt c cur v t → c.fl &&& optStrMask = optStrDup → c.ok = true
  length : ∀ cur a v t, opt.target c.key = some (cur, a) → Storing opt c cur v t → a.maxLen ≠ 0 →
    t.text.length ≤ a.maxLen
  ends : ∀ cur a v t, opt.target c.key = some (cur, a) → Opt.slotAt opt.rcs cur = some v →
    v.Open c.fl → c.s = some t → NameSearchEnds a t.text c.fl

/-! ## Storing keeps to the records -/

/-- Storing a value that the record admits. -/
theorem respected_store {cur : ℕ × ℕ} {a : OptRec φ} {v v' : OptSet φ} {h : Memory} (H : Respected self)
    (ha : Opt.recAt self.rcs cur = some a) (hs : Opt.slotAt self.rcs cur = some v)
    (hv' : v'.isSet = true → Respects a v'.val) : Respected (self.store cur v' h) := by
  intro cur' a' w hrec hslot hset
  rw [recAt_store] at hrec
  rw [slotAt_store hs] at hslot
  split at hslot
  · rename_i heq
    cases hslot
    rw [heq, ha] at hrec
    cases hrec
    exact hv' hset
  · exact H cur' a' w hrec hslot hset

theorem string_of_type {r : OptRec φ} {v : OptRecVal φ} (h : r.type ≠ .str) (hi : InLimits r v.i) :
    Respects r v :=
  ⟨hi, fun hstr => absurd hstr h⟩

theorem respected_called [LongDouble φ] {b : Bool} (hown : Owning self) (hp : Proper self c) (hc : Fits self c)
    (H : Respected self) (h : Called self c b self') : Respected self' := by
  cases h with
  | missing => exact H
  | @parsed cur a v v' b h' htarget hslot hparsed =>
    have ha := Opt.recAt_of_target htarget
    cases hparsed with
    | kept => exact respected_store H ha hslot (H cur a v ha hslot)
    | refused => exact respected_store H ha hslot (H cur a v ha hslot)
    | @int i hopen hi =>
      exact respected_store H ha hslot fun _ =>
        string_of_type (fun hstr => not_numeric_of_str hstr hi) (inLimits_of_numeric hi)
    | float hopen hfloat =>
      refine respected_store H ha hslot fun _ => string_of_type ?_ ?_
      · rw [hfloat]
        simp
      · rw [InLimits, hfloat]
        trivial
    | @str t v' h' hopen hstr hs _ hne hset =>
      have hstoring : Storing self c cur v t := ⟨⟨a, htarget, hstr⟩, hslot, hopen, hs, hne⟩
      have hlimits (i : ℤ) : InLimits a i := by
        rw [InLimits, hstr]
        trivial
      have hlength := hc.length cur a v t htarget hstoring
      obtain ⟨v₁, h₁, hset₁, hstored, -⟩ := hown.storing hstoring hp hc.clean
      rw [hset] at hset₁
      cases hset₁
      refine respected_store H ha hslot fun _ => ⟨hlimits _, fun _ => ?_⟩
      cases hstored with
      | static => exact ⟨t, rfl, hne, hlength⟩
      | dup => exact ⟨_, rfl, hne, hlength⟩
      | short hmask hok => exact absurd (hc.memory cur v t hstoring hmask) (by simp [hok])
      | pass => exact ⟨t, rfl, hne, hlength⟩

/-- Whatever the calls are, the values that are set keep to their records, when the strings are not too
long and the flags say one thing; and a call that fails changes nothing. -/
theorem stored_values_respect_records [LongDouble φ] {arrays : List (List (OptRec φ))} (harrays : GoodRecords arrays)
    {calls : List ParseCall}
    (h : (Opt.withRecords arrays).Steps (fun opt c => Proper opt c ∧ Fits opt c) calls) :
    ∃ rs self', (Opt.withRecords arrays).run calls = some (rs, self') ∧ Respected self' ∧
      ∀ c self'', self'.call c = some (false, self'') → self'' = self' := by
  have hnew : Respected (Opt.withRecords arrays) := by
    intro cur a v _ hslot hset
    rw [slots_withRecords (mem_slots_of_slotAt hslot)] at hset
    exact absurd hset (by simp [OptSet.zero])
  obtain ⟨rs, self', hrun, hown, hself'⟩ := @Opt.run_of_steps φ _ _
    (fun _ self => Owning self ∧ Respected self) (fun past self c hI hP => by
      obtain ⟨b, self', hcall⟩ := hI.1.call_defined hP.1 hP.2.clean hP.2.ends
      have hcalled := call_called hI.1.formed hcall
      exact ⟨b, self', hcall, hI.1.called hP.1 hP.2.clean hcalled,
        respected_called hI.1 hP.1 hP.2 hI.2 hcalled⟩)
    [] _ _ ⟨owning_withRecords harrays, hnew⟩ h
  exact ⟨rs, self', hrun, hself', fun c self'' hcall =>
    called_false (call_called hown.formed hcall)⟩

section Sample

/-- A string of ten characters at most. -/
def sampleStr : OptRec Unit :=
  ⟨[107], 0x6d, .str, none, 10, ⟨some ⟨.caller 0, [118]⟩, 0, ()⟩, ⟨none, 0, ()⟩, ⟨none, 0, ()⟩⟩

def sampleObject : Opt Unit := Opt.withRecords [[sampleStr]]

def sampleCall (fl : OptFlags) (ok : Bool) (len : ℕ) : ParseCall :=
  ⟨.name [107], some ⟨.caller 1, List.replicate len 120⟩, fl, ok⟩

theorem proper_sampleCall (fl : OptFlags) (ok : Bool) (len : ℕ) : Proper sampleObject (sampleCall fl ok len) := by
  refine proper_withRecords (fun t ht => ?_) fun t ht r hr a ha s hs => ?_
  · cases ht
    exact ⟨1, rfl⟩
  · cases ht
    rw [List.mem_singleton.mp hr, List.mem_singleton] at ha
    rw [ha] at hs
    cases hs
    exact fun heq => by cases heq

/-- The call returns true, and the value that it stores does not respect the record. -/
def Spoils (c : ParseCall) : Prop :=
  Proper sampleObject c ∧ ∃ self', sampleObject.call c = some (true, self') ∧ ¬ Respected self'

/-- A string that is too long, a string with two flags, and a duplicate that there is no memory for. -/
theorem stored_values_respect_records_fails :
    Spoils (sampleCall optStrSt true 11) ∧ Spoils (sampleCall optStrMask true 1) ∧
      Spoils (sampleCall optStrDup false 1) := by
  refine ⟨⟨proper_sampleCall _ _ _, _, rfl, fun h => ?_⟩, ⟨proper_sampleCall _ _ _, _, rfl, fun h => ?_⟩,
    ⟨proper_sampleCall _ _ _, _, rfl, fun h => ?_⟩⟩
  · obtain ⟨s, hs, -, hlen⟩ := (h (0, 0) sampleStr _ rfl rfl rfl).string rfl
    cases hs
    exact absurd (hlen (by decide)) (by decide)
  · obtain ⟨s, hs, -⟩ := (h (0, 0) sampleStr _ rfl rfl rfl).string rfl
    cases hs
  · obtain ⟨s, hs, -⟩ := (h (0, 0) sampleStr _ rfl rfl rfl).string rfl
    cases hs

theorem goodRecords_sample : GoodRecords [[sampleStr]] := by
  refine ⟨by simp, fun r hr a ha s hs => ?_⟩
  rw [List.mem_singleton.mp hr, List.mem_singleton] at ha
  rw [ha] at hs
  cases hs
  exact ⟨0, rfl⟩

/-- A new object takes a duplicate of a string. -/
theorem clean_sampleCall {ok : Bool} {len : ℕ} : Clean sampleObject (sampleCall optStrDup ok len) := by
  have hmask : optStrDup &&& optStrMask ≠ optStrMask := by decide
  refine ⟨fun cur v t _ => hmask, fun cur v t hs _ => ?_⟩
  rw [slots_withRecords (mem_slots_of_slotAt hs.slot)]
  exact List.not_mem_nil

theorem stored_values_respect_records_sample :
    ∃ rs self', sampleObject.run [sampleCall optStrDup true 10] = some (rs, self') ∧ Respected self' ∧
      ∀ c self'', self'.call c = some (false, self'') → self'' = self' := by
  refine stored_values_respect_records goodRecords_sample
    ⟨⟨proper_sampleCall _ _ _, clean_sampleCall, fun _ _ _ _ _ => rfl, ?_, ?_⟩, fun _ _ _ => trivial⟩
  · intro cur a v t htarget hs _
    cases htarget
    cases hs.str
    decide
  · intro cur a v t htarget _ _ _ henum
    cases htarget
    exact absurd henum (by decide)

end Sample

end Csptp
