import Csptp.Opt.Owning

/-! # Where the loop over the records goes

The loop enters each array of records without looking at its first entry. So it visits the records of all
arrays, one after the other, as long as no array is empty, and otherwise it visits the entry that ends the
empty array and reads behind it. -/
namespace Csptp
set_option autoImplicit false

variable {φ : Type}

/-! ## Adding arrays -/

/-- A call of `addRecords`, with an array or a null pointer; `ok` tells whether there is memory. -/
structure AddCall (φ : Type) where
  r : Option (List (OptRec φ))
  ok : Bool

/-- The arrays that these calls add. -/
def added (calls : List (AddCall φ)) : List (List (OptRec φ)) :=
  calls.filterMap fun c => if c.ok then c.r else none

section Adding
variable [LongDouble φ]

def Opt.add (self : Opt φ) (c : AddCall φ) : Bool × Opt φ :=
  match c.r with
  | none => (false, self)
  | some r => self.addRecords r c.ok

/-- A new object after these calls. -/
def Opt.addAll (calls : List (AddCall φ)) : Opt φ :=
  calls.foldl (fun self c => (self.add c).2) (optAlloc Memory.init)

theorem addAll_eq (calls : List (AddCall φ)) : Opt.addAll calls = Opt.withRecords (added calls) := by
  have hfold (self : Opt φ) : calls.foldl (fun self c => (self.add c).2) self =
      (added calls).foldl (fun self r => (self.addRecords r true).2) self := by
    induction calls generalizing self with
    | nil => rfl
    | cons c calls ih =>
      rw [List.foldl_cons, ih]
      obtain ⟨r, ok⟩ := c
      cases r with
      | none => cases ok <;> rfl
      | some r => cases ok <;> rfl
  exact hfold _

end Adding

/-! ## The places of the loop -/

namespace Opt

/-- The places where the loop stands, in this many passes at most, and whether it has ended; `none` if it
reads behind the entry that ends an array. -/
def visits (rcs : List (OptRecList φ)) : ℕ → ℕ × ℕ → Option (List (ℕ × ℕ) × Bool)
  | 0, _ => some ([], false)
  | n + 1, cur => do
    match ← nextRec rcs cur with
    | none => some ([cur], true)
    | some next => do
      let r ← visits rcs n next
      some (cur :: r.1, r.2)

/-- An object without arrays does not enter the loop. -/
def visited (self : Opt φ) (passes : ℕ) : Option (List (ℕ × ℕ) × Bool) :=
  if self.rcs = [] then some ([], true) else visits self.rcs passes (0, 0)

end Opt

/-- The loop visits these places, and they are those of all records of the arrays, in their order and each
with a value. A loop over the records does the same, whatever its body is. -/
structure VisitsAll (arrays : List (List (OptRec φ))) (opt : Opt φ) (places : List (ℕ × ℕ)) : Prop where
  ends : ∃ passes, opt.visited passes = some (places, true)
  once : places.Nodup
  records : places.map (Opt.recAt opt.rcs) = arrays.flatten.map some
  values : places.map (Opt.slotAt opt.rcs) = (slots opt.rcs).map some
  loop : ∀ {β σ : Type} (body : ℕ × ℕ → OptRec φ → σ → β ⊕ σ) (s : σ), opt.rcs ≠ [] →
    opt.forRec body s = some (foldEntries body (places.zip arrays.flatten) s)

section Visits
variable {rcs : List (OptRecList φ)} {n : ℕ} {cur next : ℕ × ℕ} {l : List (ℕ × ℕ)}

theorem nextRec_none (h : Opt.nextRec rcs cur = some none) : rcs.length ≤ cur.1 + 1 := by
  simp only [Opt.nextRec, Option.bind_eq_bind, Option.bind_eq_some_iff] at h
  obtain ⟨c, -, h⟩ := h
  split at h
  · exact absurd h (by simp)
  · split at h
    · split at h
      · exact absurd h (by simp)
      · omega
    · exact absurd h (by simp)

theorem nextRec_some (h : Opt.nextRec rcs cur = some (some next)) :
    next = (cur.1, cur.2 + 1) ∨ next = (cur.1 + 1, 0) := by
  simp only [Opt.nextRec, Option.bind_eq_bind, Option.bind_eq_some_iff] at h
  obtain ⟨c, -, h⟩ := h
  split at h
  · cases h
    exact .inl rfl
  · split at h
    · split at h
      · cases h
        exact .inr rfl
      · exact absurd h (by simp)
    · exact absurd h (by simp)

/-- A loop that ends visits where it begins, and the first entry of each array behind. -/
theorem visits_first (h : Opt.visits rcs n cur = some (l, true)) :
    cur ∈ l ∧ ∀ k, cur.1 < k → k < rcs.length → (k, 0) ∈ l := by
  induction n generalizing cur l with
  | zero => exact absurd h (by simp [Opt.visits])
  | succ n ih =>
    simp only [Opt.visits, Option.bind_eq_bind, Option.bind_eq_some_iff] at h
    obtain ⟨next, hnext, h⟩ := h
    cases next with
    | none =>
      cases h
      exact ⟨List.mem_cons_self, fun k hk hlt => absurd (nextRec_none hnext) (by omega)⟩
    | some next =>
      simp only [Option.bind_eq_some_iff] at h
      obtain ⟨⟨rest, ended⟩, hrest, h⟩ := h
      cases h
      obtain ⟨hmem, hall⟩ := ih hrest
      refine ⟨List.mem_cons_self, fun k hk hlt => List.mem_cons_of_mem _ ?_⟩
      rcases nextRec_some hnext with rfl | rfl
      · exact hall k hk hlt
      · rcases Nat.eq_or_lt_of_le hk with rfl | hk
        · exact hmem
        · exact hall k hk hlt

/-- The body of a loop that notes where it is. -/
def notePlace (cur : ℕ × ℕ) (_ : OptRec φ) (s : List (ℕ × ℕ)) : Unit ⊕ List (ℕ × ℕ) := .inr (s ++ [cur])

theorem visits_of_loopRec {s t : List (ℕ × ℕ)} (h : Opt.loopRec rcs notePlace n cur s = some (.inr t)) :
    ∃ l, t = s ++ l ∧ Opt.visits rcs n cur = some (l, true) := by
  induction n generalizing cur s with
  | zero => exact absurd h (by simp [Opt.loopRec])
  | succ n ih =>
    simp only [Opt.loopRec, notePlace, Option.bind_eq_bind, Option.bind_eq_some_iff] at h
    obtain ⟨a, -, next, hnext, h⟩ := h
    cases next with
    | none =>
      cases h
      refine ⟨[cur], rfl, ?_⟩
      rw [Opt.visits, hnext]
      rfl
    | some next =>
      obtain ⟨l, rfl, hl⟩ := ih h
      refine ⟨cur :: l, List.append_assoc .., ?_⟩
      rw [Opt.visits, hnext, Option.bind_eq_bind, Option.bind_some]
      dsimp only
      rw [hl]
      rfl

theorem foldEntries_notePlace (l : List ((ℕ × ℕ) × OptRec φ)) (s : List (ℕ × ℕ)) :
    foldEntries notePlace l s = .inr (s ++ l.map Prod.fst) := by
  induction l generalizing s with
  | nil => rw [List.map_nil, List.append_nil, foldEntries]
  | cons e l ih =>
    rw [foldEntries, notePlace]
    dsimp only
    rw [ih, List.map_cons, List.append_assoc, List.singleton_append]

end Visits

/-! ## The places of all records -/

section Entries
variable {rcs : List (OptRecList φ)}

theorem nodup_entries (n : ℕ) (rcs : List (OptRecList φ)) : ((entries n rcs).map Prod.fst).Nodup := by
  induction rcs generalizing n with
  | nil => exact List.nodup_nil
  | cons c rcs ih =>
    have hhead : (c.rcs.zipIdx.map fun a => ((n, a.2), a.1)).map Prod.fst =
        (List.range c.rcs.length).map (Prod.mk n) := by
      rw [List.range_eq_range', ← List.zipIdx_map_snd, List.map_map, List.map_map]
      rfl
    rw [entries, List.map_append, hhead]
    refine (List.nodup_range.map (Prod.mk_right_injective n)).append (ih (n + 1)) ?_
    intro cur hcur hcur'
    obtain ⟨i, -, rfl⟩ := List.mem_map.mp hcur
    obtain ⟨⟨cur, a⟩, hmem, rfl⟩ := List.mem_map.mp hcur'
    exact absurd (recAt_of_mem hmem).1 (by simp)

theorem values_entries (hsized : ∀ c ∈ rcs, c.vals.length = c.rcs.length) :
    ∀ n, (entries n rcs).map (fun e => Opt.slotAt rcs (e.1.1 - n, e.1.2)) = (slots rcs).map some := by
  induction rcs with
  | nil => exact fun _ => rfl
  | cons c rcs ih =>
    intro n
    obtain ⟨hc, hrest⟩ := List.forall_mem_cons.mp hsized
    rw [entries, slots, List.flatMap_cons, List.map_append, List.map_append, ← slots, ← ih hrest (n + 1)]
    congr 1
    · rw [List.map_map]
      refine List.ext_getElem (by simp [hc]) fun i hi hi' => ?_
      have hlen : i < c.vals.length := by simpa using hi'
      simp [Opt.slotAt, hlen]
    · refine List.map_congr_left fun e he => ?_
      have hle := (recAt_of_mem he).1
      rw [show e.1.1 - n = e.1.1 - (n + 1) + 1 by omega]
      rfl

end Entries

/-! ## All records -/

section All
variable {self : Opt φ}

/-- When no array is empty, the loop visits the places of all records. -/
theorem visitsAll_entries (h : Formed self.rcs) :
    VisitsAll (self.rcs.map fun c => c.rcs) self ((entries 0 self.rcs).map Prod.fst) := by
  have hflatten : (self.rcs.map fun c => c.rcs).flatten = (entries 0 self.rcs).map Prod.snd := by
    rw [map_entries, List.flatMap]
  refine ⟨?_, nodup_entries 0 self.rcs, ?_, ?_, fun body s hne => ?_⟩
  · by_cases hne : self.rcs = []
    · refine ⟨0, ?_⟩
      rw [Opt.visited, if_pos hne, hne]
      rfl
    · have hloop := forRec_eq h hne notePlace []
      rw [foldEntries_notePlace, List.nil_append] at hloop
      obtain ⟨l, hl, hvisits⟩ := visits_of_loopRec hloop
      rw [List.nil_append] at hl
      refine ⟨Opt.numRecords self.rcs, ?_⟩
      rw [Opt.visited, if_neg hne, hvisits, hl]
  · rw [hflatten, List.map_map, List.map_map]
    exact List.map_congr_left fun e he => (recAt_of_mem he).2
  · rw [← values_entries h.sized 0, List.map_map]
    rfl
  · rw [forRec_eq h hne, hflatten, List.zip_map']
    simp

/-- A loop that visits all records meets no empty array. -/
theorem nonempty_of_visitsAll {arrays : List (List (OptRec φ))} {places : List (ℕ × ℕ)}
    (h : VisitsAll arrays self places) : ∀ c ∈ self.rcs, c.rcs ≠ [] := by
  intro c hc hempty
  obtain ⟨k, hk, rfl⟩ := List.mem_iff_getElem.mp hc
  obtain ⟨passes, hends⟩ := h.ends
  rw [Opt.visited, if_neg (List.ne_nil_of_mem hc)] at hends
  obtain ⟨hfirst, hall⟩ := visits_first hends
  have hmem : (k, 0) ∈ places := by
    rcases Nat.eq_zero_or_pos k with rfl | hpos
    · exact hfirst
    · exact hall k hpos hk
  have hrec : Opt.recAt self.rcs (k, 0) ∈ places.map (Opt.recAt self.rcs) := List.mem_map_of_mem hmem
  rw [h.records] at hrec
  obtain ⟨a, -, ha⟩ := List.mem_map.mp hrec
  rw [Opt.recAt, List.getElem?_eq_getElem hk, Option.bind_eq_bind, Option.bind_some, hempty] at ha
  exact absurd ha (by simp)

end All

/-- After any calls of `addRecords`, the loop over the records visits exactly the records of the arrays that
were added, in their order, each once and with its own value, no other entry, and then ends, if and only if
none of these arrays is empty. -/
theorem records_visited_iff [LongDouble φ] (calls : List (AddCall φ)) :
    (∃ places, VisitsAll (added calls) (Opt.addAll calls) places) ↔ ∀ r ∈ added calls, r ≠ [] := by
  have harrays : (Opt.addAll calls).rcs.map (fun c => c.rcs) = added calls := by
    rw [addAll_eq, withRecords_eq, List.map_map]
    exact List.map_id _
  rw [← harrays]
  constructor
  · rintro ⟨places, h⟩ r hr
    obtain ⟨c, hc, rfl⟩ := List.mem_map.mp hr
    exact nonempty_of_visitsAll h c hc
  · intro hne
    refine ⟨_, visitsAll_entries ?_⟩
    rw [harrays] at hne
    rw [addAll_eq]
    exact formed_withRecords hne

section Sample

/-- An array with one record, and an empty one. -/
def sampleAdds : List (AddCall Unit) :=
  [⟨some [⟨[107], 107, .int, none, 0, ⟨none, 0, ()⟩, ⟨none, 0, ()⟩, ⟨none, 9, ()⟩⟩], true⟩, ⟨some [], true⟩]

/-- From the record, the loop goes to the entry that ends the empty array, and from there it reads behind
this entry. -/
theorem records_visited_fails :
    (¬ ∃ places, VisitsAll (added sampleAdds) (Opt.addAll sampleAdds) places) ∧
      Opt.nextRec (Opt.addAll sampleAdds).rcs (0, 0) = some (some (1, 0)) ∧
      Opt.recAt (Opt.addAll sampleAdds).rcs (1, 0) = none ∧
      Opt.nextRec (Opt.addAll sampleAdds).rcs (1, 0) = none := by
  refine ⟨?_, rfl, rfl, rfl⟩
  rintro ⟨places, h⟩
  exact nonempty_of_visitsAll h ⟨[], []⟩ (List.mem_of_getElem? (i := 1) rfl) rfl

end Sample

end Csptp
