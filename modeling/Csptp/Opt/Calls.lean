import Csptp.Opt.Records

/-! # Calls that set an option

A call of `parseSkey` or `parseKey` parses its string for the first record with the key. It stores at
most one value, and none when it fails. -/
namespace Csptp
open Octets
set_option autoImplicit false

variable {φ : Type}

/-! ## Calls -/

inductive OptKey
  | short (o : ℤ)
  | name (k : List Octet)
deriving DecidableEq

/-- A call of `parseSkey` or `parseKey`; `ok` tells whether there is memory for `strdup`. -/
structure ParseCall where
  key : OptKey
  s : Option CStr
  fl : OptFlags
  ok : Bool
deriving DecidableEq

namespace Opt

def call [LongDouble φ] (self : Opt φ) (c : ParseCall) : Option (Bool × Opt φ) :=
  match c.key with
  | .short o => self.parseSkey o c.s c.fl c.ok
  | .name k => self.parseKey k c.s c.fl c.ok

/-- The record that a key selects, and where it is. -/
def target (self : Opt φ) : OptKey → Option ((ℕ × ℕ) × OptRec φ)
  | .short o => if o = 0 then none else (entries 0 self.rcs).find? fun e => bySkey o e.2
  | .name k => if k = [] then none else (entries 0 self.rcs).find? fun e => byKey k e.2

variable {self : Opt φ}

theorem call_eq [LongDouble φ] (h : Formed self.rcs) (c : ParseCall) : self.call c =
    match self.target c.key with
    | none => some (false, self)
    | some found => self.parseAt found c.s c.fl c.ok := by
  obtain ⟨key, s, fl, ok⟩ := c
  cases key with
  | short o => exact select_guarded h (o = 0) (bySkey o) rfl
  | name k => exact select_guarded h (k = []) (byKey k) rfl

/-- `getValSkey` and `getValKey`. -/
def getVal (self : Opt φ) : OptKey → Option (Option (OptRecVal φ))
  | .short o => self.getValSkey o
  | .name k => self.getValKey k

theorem getVal_eq (h : Formed self.rcs) (key : OptKey) : self.getVal key =
    match self.target key with
    | none => some none
    | some found => (self.valueAt found).map some := by
  have hvalue (found : Option ((ℕ × ℕ) × OptRec φ)) :
      (match found with
        | none => some none
        | some found => (self.valueAt found).bind fun v => some (some v)) =
      match found with
        | none => some none
        | some found => (self.valueAt found).map some := by
    cases found with
    | none => rfl
    | some found =>
      dsimp only
      cases self.valueAt found <;> rfl
  cases key with
  | short o => exact (select_guarded h (o = 0) (bySkey o) rfl).trans (hvalue _)
  | name k => exact (select_guarded h (k = []) (byKey k) rfl).trans (hvalue _)

theorem target_store (cur : ℕ × ℕ) (v : OptSet φ) (h : Memory) (key : OptKey) :
    (self.store cur v h).target key = self.target key := by
  cases key <;> simp only [target, entries_store]

theorem mem_of_target {key : OptKey} {found : (ℕ × ℕ) × OptRec φ} (h : self.target key = some found) :
    found ∈ entries 0 self.rcs := by
  cases key with
  | short o =>
    rw [target] at h
    split at h
    · exact absurd h (by simp)
    · exact List.mem_of_find?_eq_some h
  | name k =>
    rw [target] at h
    split at h
    · exact absurd h (by simp)
    · exact List.mem_of_find?_eq_some h

theorem recAt_of_target {key : OptKey} {cur : ℕ × ℕ} {a : OptRec φ}
    (h : self.target key = some (cur, a)) : recAt self.rcs cur = some a := by
  simpa using (recAt_of_mem (mem_of_target h)).2

end Opt

/-! ## What a call can do -/

section Parsed
variable {r : OptRec φ} {v v' : OptSet φ} {s : Option CStr} {t : CStr} {fl : OptFlags} {ok b : Bool}
  {h h' : Memory}

/-- With these flags, the option takes a value. -/
def OptSet.Open (v : OptSet φ) (fl : OptFlags) : Prop := fl &&& optReplace ≠ 0 ∨ v.isSet = false

theorem OptSet.open_iff : v.Open fl ↔ ¬ (fl &&& optReplace = 0 ∧ v.isSet = true) := by
  rw [OptSet.Open, not_and_or, Bool.not_eq_true]

/-- The flags ask for the inverse of the default. -/
def Inverse (r : OptRec φ) (fl : OptFlags) : Prop := r.type = .bool ∧ fl &&& optBoolDef ≠ 0

/-- The inverse of the default, or else the string, is a number that the option takes. -/
inductive Numeric [LongDouble φ] (r : OptRec φ) (s : Option CStr) (fl : OptFlags) : ℤ → Prop
  | inverse (hdef : Inverse r fl) : Numeric r s fl (if r.defVal.i = 0 then 1 else 0)
  | text {t : CStr} {i : ℤ} (hdef : ¬ Inverse r fl) (hs : s = some t) (hne : t.text ≠ [])
      (hi : parseInt r t.text fl = some (some i)) : Numeric r s fl i

/-- What `parse_val` can return and store. -/
inductive Parsed [LongDouble φ] (r : OptRec φ) (v : OptSet φ) (s : Option CStr) (fl : OptFlags)
    (ok : Bool) (h : Memory) : Bool → OptSet φ → Memory → Prop
  | kept (hclosed : ¬ v.Open fl) : Parsed r v s fl ok h true v h
  | refused (hopen : v.Open fl) : Parsed r v s fl ok h false v h
  | int {i : ℤ} (hopen : v.Open fl) (hi : Numeric r s fl i) :
      Parsed r v s fl ok h true (v.setInt i) h
  | float {t : CStr} {f : φ} (hopen : v.Open fl) (hfloat : r.type = .float) (hs : s = some t)
      (hf : toFloat t.text = some f) (hmin : LongDouble.lt f r.min.f = false)
      (hmax : LongDouble.lt r.max.f f = false) : Parsed r v s fl ok h true (v.setFloat f) h
  | str {t : CStr} {v' : OptSet φ} {h' : Memory} (hopen : v.Open fl) (hstr : r.type = .str)
      (hs : s = some t) (hlive : t.block ∉ h.released) (hne : t.text ≠ [])
      (hset : setStr v t fl ok h = some (v', h')) : Parsed r v s fl ok h true v' h'

theorem parseVal_parsed [LongDouble φ] (hp : Opt.parseVal r v s fl ok h = some (b, v', h')) :
    Parsed r v s fl ok h b v' h' := by
  unfold Opt.parseVal at hp
  split at hp
  · rename_i hkept
    cases hp
    exact .kept fun hopen => OptSet.open_iff.mp hopen hkept
  rename_i hopen
  rw [← OptSet.open_iff] at hopen
  split at hp
  · rename_i hdef
    cases hp
    exact .int hopen (.inverse hdef)
  rename_i hdef
  cases s with
  | none =>
    cases hp
    exact .refused hopen
  | some t =>
    dsimp only at hp
    split at hp
    · exact absurd hp (by simp)
    rename_i hlive
    split at hp
    · cases hp
      exact .refused hopen
    rename_i hne
    split at hp
    · rename_i hstr
      simp only [Option.bind_eq_bind, Option.bind_eq_some_iff] at hp
      obtain ⟨⟨v₁, h₁⟩, hset, hp⟩ := hp
      cases hp
      exact .str hopen hstr rfl hlive hne hset
    · rename_i hfloat
      split at hp
      · cases hp
        exact .refused hopen
      · rename_i f hf
        split at hp
        · cases hp
          exact .refused hopen
        · rename_i hrange
          cases hp
          rw [not_or, Bool.not_eq_true, Bool.not_eq_true] at hrange
          exact .float hopen hfloat rfl hf hrange.1 hrange.2
    · simp only [Option.bind_eq_bind, Option.bind_eq_some_iff] at hp
      obtain ⟨i, hi, hp⟩ := hp
      cases i with
      | none =>
        cases hp
        exact .refused hopen
      | some i =>
        cases hp
        exact .int hopen (.text hdef rfl hne hi)

/-- `parse_val` returns, if it can store the string and if the search for a name ends. -/
theorem parseVal_defined [LongDouble φ]
    (hlive : ∀ t ∈ s, t.block ∉ h.released)
    (hstr : ∀ t ∈ s, v.Open fl → r.type = .str → t.text ≠ [] → ∃ x, setStr v t fl ok h = some x)
    (hint : ∀ t ∈ s, v.Open fl → ∃ i, parseInt r t.text fl = some i) :
    ∃ x, Opt.parseVal r v s fl ok h = some x := by
  unfold Opt.parseVal
  split
  · exact ⟨_, rfl⟩
  rename_i hopen
  rw [← OptSet.open_iff] at hopen
  split
  · exact ⟨_, rfl⟩
  cases s with
  | none => exact ⟨_, rfl⟩
  | some t =>
    dsimp only
    rw [if_neg (hlive t rfl)]
    split
    · exact ⟨_, rfl⟩
    rename_i hne
    split
    · rename_i htype
      obtain ⟨x, hx⟩ := hstr t rfl hopen htype hne
      exact ⟨_, by rw [hx]; rfl⟩
    · split
      · exact ⟨_, rfl⟩
      · split <;> exact ⟨_, rfl⟩
    · obtain ⟨i, hi⟩ := hint t rfl hopen
      rw [hi]
      cases i <;> exact ⟨_, rfl⟩

end Parsed

/-! ## What it does to the object -/

section Called
variable [LongDouble φ] {self self' : Opt φ} {c : ParseCall} {b : Bool}

/-- What a call can return, and the object then. -/
inductive Called (opt : Opt φ) (c : ParseCall) : Bool → Opt φ → Prop
  | missing (htarget : opt.target c.key = none) : Called opt c false opt
  | parsed {cur : ℕ × ℕ} {a : OptRec φ} {v v' : OptSet φ} {b : Bool} {h' : Memory}
      (htarget : opt.target c.key = some (cur, a)) (hslot : Opt.slotAt opt.rcs cur = some v)
      (hparsed : Parsed a v c.s c.fl c.ok opt.heap b v' h') : Called opt c b (opt.store cur v' h')

theorem call_called (hf : Formed self.rcs) (h : self.call c = some (b, self')) :
    Called self c b self' := by
  rw [Opt.call_eq hf] at h
  cases htarget : self.target c.key with
  | none =>
    rw [htarget] at h
    cases h
    exact .missing htarget
  | some found =>
    obtain ⟨cur, a⟩ := found
    rw [htarget] at h
    simp only [Opt.parseAt, Option.bind_eq_bind, Option.bind_eq_some_iff] at h
    obtain ⟨v, hslot, ⟨b', v', h'⟩, hparse, h⟩ := h
    cases h
    exact .parsed htarget hslot (parseVal_parsed hparse)

/-- A call that fails changes nothing. -/
theorem called_false (h : Called self c false self') : self' = self := by
  cases h with
  | missing => rfl
  | parsed _ hslot hparsed =>
    cases hparsed with
    | refused => exact store_self hslot

end Called

end Csptp
