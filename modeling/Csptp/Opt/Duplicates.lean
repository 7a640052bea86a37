import Csptp.List.Freeing
import Csptp.Opt.Numbers
import Mathlib.Data.List.Lex
import Mathlib.Data.Set.Finite.Basic
import Mathlib.Order.Lex

/-! # Duplicate keys (`opt_check.c`)

`opt_duplicates` looks for characters and names that occur twice. It keeps the characters in an array of
bits and the names in a sorted list. -/
namespace Csptp
open Octets Linked
set_option autoImplicit false

/-! ## Characters -/

/-- In the C locale: printable and not blank. -/
def isgraph (c : ℤ) : Bool := 0x21 ≤ c ∧ c ≤ 0x7e

/-- `isValid`: a minus, a colon, a semicolon, a plus and a `W` are no options. -/
def isValid (c : ℤ) : Bool :=
  if c = 0x2d ∨ c = 0x3a ∨ c = 0x3b ∨ c = 0x2b ∨ c = 0x57 then false else isgraph c

/-- `uint8_t x[32]`. -/
abbrev CharBits := Fin 32 → BitVec 8

namespace CharBits

/-- `lldiv(c, 8).quot`; an octet stands for the character with this number. -/
def quot (c : Octet) : Fin 32 := ⟨c.toNat / 8, by have := c.isLt; omega⟩

def mask (c : Octet) : BitVec 8 := 1 <<< (c.toNat % 8)

def has (x : CharBits) (c : Octet) : Bool := x (quot c) &&& mask c ≠ 0

def add (x : CharBits) (c : Octet) : CharBits := Function.update x (quot c) (x (quot c) ||| mask c)

end CharBits

/-- The loop over the options before those of the records; `none` is `return false`. -/
def preOptions : List Octet → CharBits → Option CharBits
  | [], x => some x
  | c :: ps, x =>
    if isgraph c.toInt = false then none
    else if isValid c.toInt then
      if x.has c then none else preOptions ps (x.add c)
    else preOptions ps x

/-! ## Names -/

/-- `cmp` and `set`; the data of a node are the name that it points to. -/
def nameCallbacks : ListMgr.Callbacks (List Octet) (List Octet) where
  cmp data cookie := strcmp data cookie
  set _ cookie := cookie
  cleanup := none
  release := none

abbrev NameMgr := ListMgr Unit (List Octet)

/-- Looks a name up and adds it; false means that it has been there. What `malloc` returns for a node is
told by `fresh`. -/
def addName (fresh : NameMgr → Option Ptr) (k : List Octet) (ml : NameMgr) : Option (Bool × NameMgr) := do
  let (n, ml) ← ml.fetchNode nameCallbacks () k
  match n with
  | some _ => some (false, ml)
  | none => do
    let (_, ml) ← ml.updateNode nameCallbacks [] () k (fresh ml)
    some (true, ml)

/-- The loop over the additional options. -/
def addNames (fresh : NameMgr → Option Ptr) : List (List Octet) → NameMgr → Option (Bool × NameMgr)
  | [], ml => some (true, ml)
  | k :: p, ml =>
    if k = [] then addNames fresh p ml
    else do
      match ← addName fresh k ml with
      | (false, ml) => some (false, ml)
      | (true, ml) => addNames fresh p ml

/-- From `err` on: the list and its manager are freed. -/
def freeNames (ml : NameMgr) : Option Unit := do
  let ml ← ml.freeAll nameCallbacks () false
  let _ ← ListMgr.freeList0 nameCallbacks false (ml.count + ml.freeCount) ml.freeList ml
  some ()

namespace Opt
variable {φ : Type}

/-- The loop over the short keys. -/
def shortKeys (self : Opt φ) (x : CharBits) : Option (Unit ⊕ CharBits) :=
  self.forRec (fun _ a x =>
    if a.sKey.toInt > 0 then
      if isValid a.sKey.toInt = false then .inl ()
      else if x.has a.sKey then .inl () else .inr (x.add a.sKey)
    else .inr x) x

/-- The loop over the keys. -/
def keyNames (self : Opt φ) (fresh : NameMgr → Option Ptr) (ml : NameMgr) :
    Option (Option (Bool × NameMgr) ⊕ NameMgr) :=
  self.forRec (fun _ a ml =>
    if a.key = [] then .inr ml
    else
      match addName fresh a.key ml with
      | none => .inl none
      | some (false, ml) => .inl (some (false, ml))
      | some (true, ml) => .inr ml) ml

end Opt

/-- `opt_duplicates`; `ok` tells whether there is memory for the manager of the list. -/
def optDuplicates {φ : Type} (self : Opt φ) (ps : Option (List Octet)) (lo : Option (List (List Octet))) (ok : Bool)
    (fresh : NameMgr → Option Ptr) : Option Bool :=
  if self.rcs = [] then some false
  else
    match preOptions (ps.getD []) fun _ => 0 with
    | none => some false
    | some x => do
      match ← self.shortKeys x with
      | .inl _ => some false
      | .inr _ =>
        if ok then do
          match ← addNames fresh (lo.getD []) .alloc with
          | (false, ml) => do
            freeNames ml
            some false
          | (true, ml) => do
            match ← self.keyNames fresh ml with
            | .inl r => do
              let r ← r
              freeNames r.2
              some false
            | .inr ml => do
              freeNames ml
              some true
        else some false

/-! ## The array of bits is a set -/

namespace CharBits

theorem has_iff (x : CharBits) (c : Octet) : x.has c = (x (quot c)).getLsbD (c.toNat % 8) := by
  have hbit : ∀ (b : BitVec 8) (i : Fin 8), decide (b &&& 1 <<< i.val ≠ 0) = b.getLsbD i.val := by
    decide +kernel
  exact hbit (x (quot c)) ⟨c.toNat % 8, Nat.mod_lt _ (by decide)⟩

theorem has_add (x : CharBits) (c d : Octet) : (x.add c).has d = true ↔ x.has d = true ∨ d = c := by
  have hmask : ∀ i j : Fin 8, (1 <<< i.val : BitVec 8).getLsbD j.val = decide (j = i) := by
    decide +kernel
  have hmask := hmask ⟨c.toNat % 8, Nat.mod_lt _ (by decide)⟩ ⟨d.toNat % 8, Nat.mod_lt _ (by decide)⟩
  rw [has_iff, has_iff, add]
  by_cases hq : quot d = quot c
  · rw [hq, Function.update_self, BitVec.getLsbD_or, mask, Bool.or_eq_true, hmask, decide_eq_true_eq,
      Fin.mk.injEq]
    refine or_congr_right ⟨fun hr => BitVec.eq_of_toNat_eq ?_, fun h => by rw [h]⟩
    have hq : d.toNat / 8 = c.toNat / 8 := congrArg Fin.val hq
    omega
  · rw [Function.update_of_ne hq, iff_self_or]
    rintro rfl
    exact absurd rfl hq

end CharBits

/-- Takes these characters in turn, as both loops do; `none` means that one has been there. -/
def takeChars : List Octet → CharBits → Option CharBits
  | [], x => some x
  | c :: cs, x => if x.has c then none else takeChars cs (x.add c)

/-- The characters that were taken. -/
def Taking (x : CharBits) (cs : List Octet) : Prop := ∀ c, x.has c = true ↔ c ∈ cs

theorem taking_empty : Taking (fun _ => 0) [] := by
  intro c
  rw [CharBits.has_iff]
  simp

/-- All characters are taken if and only if none occurs twice. -/
theorem takeChars_spec {x : CharBits} {cs : List Octet} (h : Taking x cs) (hcs : cs.Nodup)
    (l : List Octet) : (∃ x', takeChars l x = some x' ∧ Taking x' (cs ++ l) ∧ (cs ++ l).Nodup) ∨
      takeChars l x = none ∧ ¬ (cs ++ l).Nodup := by
  induction l generalizing x cs with
  | nil =>
    rw [List.append_nil]
    exact .inl ⟨x, rfl, h, hcs⟩
  | cons c l ih =>
    rw [takeChars]
    by_cases hc : c ∈ cs
    · rw [if_pos ((h c).mpr hc)]
      refine .inr ⟨rfl, fun hnodup => ?_⟩
      exact (List.nodup_append.mp hnodup).2.2 c hc c List.mem_cons_self rfl
    · rw [if_neg fun hhas => hc ((h c).mp hhas), List.append_cons]
      refine ih (fun d => ?_) ?_
      · rw [CharBits.has_add, h d, List.mem_append, List.mem_singleton]
      · exact List.nodup_append.mpr ⟨hcs, List.nodup_singleton c, fun a ha b hb => by
          rw [List.mem_singleton.mp hb]
          rintro rfl
          exact hc ha⟩

/-- The loop over printable characters takes the valid ones. -/
theorem preOptions_eq {ps : List Octet} (h : ∀ c ∈ ps, isgraph c.toInt = true) (x : CharBits) :
    preOptions ps x = takeChars (ps.filter fun c => isValid c.toInt) x := by
  induction ps generalizing x with
  | nil => rfl
  | cons c ps ih =>
    have ih := ih fun d hd => h d (List.mem_cons_of_mem _ hd)
    rw [preOptions, if_neg (by rw [h c List.mem_cons_self]; simp)]
    by_cases hv : isValid c.toInt = true
    · rw [if_pos hv, List.filter_cons, if_pos hv, takeChars, ih]
    · rw [if_neg hv, List.filter_cons, if_neg hv, ih]

theorem preOptions_bad {ps : List Octet} {c : Octet} (hc : c ∈ ps) (h : isgraph c.toInt = false)
    (x : CharBits) : preOptions ps x = none := by
  induction ps generalizing x with
  | nil => exact absurd hc List.not_mem_nil
  | cons d ps ih =>
    rw [preOptions]
    rcases List.mem_cons.mp hc with rfl | hc
    · rw [if_pos h]
    · have ih := ih hc
      split
      · rfl
      · split
        · split
          · rfl
          · exact ih _
        · exact ih x

section Records
variable {φ : Type} {self : Opt φ}

/-- All records, in the order of their arrays. -/
def Opt.records (self : Opt φ) : List (OptRec φ) := self.rcs.flatMap fun c => c.rcs

/-- The positive short keys. -/
def Opt.shortChars (self : Opt φ) : List Octet :=
  (self.records.map fun a => a.sKey).filter fun c => c.toInt > 0

/-- The body of the loop over the short keys. -/
def shortKeyBody (_ : ℕ × ℕ) (a : OptRec φ) (x : CharBits) : Unit ⊕ CharBits :=
  if a.sKey.toInt > 0 then
    if isValid a.sKey.toInt = false then .inl ()
    else if x.has a.sKey then .inl () else .inr (x.add a.sKey)
  else .inr x

theorem shortKeys_eq {l : List ((ℕ × ℕ) × OptRec φ)}
    (h : ∀ e ∈ l, e.2.sKey.toInt > 0 → isValid e.2.sKey.toInt = true) (x : CharBits) :
    foldEntries shortKeyBody l x =
      match takeChars (((l.map Prod.snd).map fun a => a.sKey).filter fun c => c.toInt > 0) x with
      | none => .inl ()
      | some x => .inr x := by
  induction l generalizing x with
  | nil => rfl
  | cons e l ih =>
    have ih := ih fun d hd => h d (List.mem_cons_of_mem _ hd)
    have he := h e List.mem_cons_self
    rw [foldEntries, shortKeyBody, List.map_cons, List.map_cons]
    by_cases hpos : e.2.sKey.toInt > 0
    · rw [if_pos hpos, if_neg (by rw [he hpos]; simp), List.filter_cons_of_pos (by simpa using hpos),
        takeChars]
      by_cases hhas : x.has e.2.sKey
      · rw [if_pos hhas, if_pos hhas]
      · rw [if_neg hhas, if_neg hhas]
        exact ih _
    · rw [if_neg hpos, List.filter_cons_of_neg (by simpa using hpos)]
      exact ih x

theorem shortKeys_bad {l : List ((ℕ × ℕ) × OptRec φ)} {e : (ℕ × ℕ) × OptRec φ} (he : e ∈ l)
    (hpos : e.2.sKey.toInt > 0) (h : isValid e.2.sKey.toInt = false) (x : CharBits) :
    foldEntries shortKeyBody l x = .inl () := by
  induction l generalizing x with
  | nil => exact absurd he List.not_mem_nil
  | cons d l ih =>
    rw [foldEntries]
    rcases List.mem_cons.mp he with rfl | he
    · rw [shortKeyBody, if_pos hpos, if_pos h]
    · cases hbody : shortKeyBody d.1 d.2 x with
      | inl _ => rfl
      | inr x => exact ih he x

end Records

/-! ## The list of names is a set -/

theorem strcmp_neg {s t : List Octet} : strcmp s t < 0 ↔ s.map BitVec.toNat < t.map BitVec.toNat := by
  induction s generalizing t with
  | nil => cases t <;> simp [strcmp]
  | cons a s ih =>
    cases t with
    | nil => simp [strcmp]
    | cons b t =>
      rw [strcmp, List.map_cons, List.map_cons, List.cons_lt_cons_iff]
      split
      · rename_i hab
        rw [ih, hab]
        simp
      · rename_i hab
        have hne : a.toNat ≠ b.toNat := fun h => hab (BitVec.eq_of_toNat_eq h)
        split
        · rename_i hlt
          simp [hlt]
        · rename_i hlt
          simp [hlt, hne]

theorem map_toNat_inj {s t : List Octet} : s.map BitVec.toNat = t.map BitVec.toNat ↔ s = t :=
  (List.map_injective_iff.mpr fun _ _ h => BitVec.eq_of_toNat_eq h).eq_iff

/-- What a name is sorted by: the list begins with the largest name. -/
def nameKey (k : List Octet) : (List ℕ)ᵒᵈ := OrderDual.toDual (k.map BitVec.toNat)

theorem nameKey_inj {s t : List Octet} : nameKey s = nameKey t ↔ s = t := map_toNat_inj

/-- `cmp` is the order of `strcmp` backwards. -/
def nameContract : ListMgr.Contract nameCallbacks (List ℕ)ᵒᵈ (List Octet) where
  key := nameKey
  val := id
  cookieKey := nameKey
  cookieVal := id
  cmp_neg _ _ := strcmp_neg
  cmp_zero _ _ := strcmp_eq_zero.trans (eq_comm.trans nameKey_inj.symm)
  key_set _ _ := rfl
  val_set _ _ := rfl

section Names
variable {fresh : NameMgr → Option Ptr} {ml : NameMgr} {ks : List (List Octet)} {k : List Octet}

/-- There is memory for every node, and it is not in use. -/
def Allocates (fresh : NameMgr → Option Ptr) : Prop :=
  ∀ ml : NameMgr, {a | ml.heap a ≠ none}.Finite → ∃ a, fresh ml = some a ∧ ml.heap a = none

/-- The manager has these names on its list, and no other node. -/
structure Naming (ml : NameMgr) (ks : List (List Octet)) : Prop where
  sound : nameContract.Sound ml
  names : ∀ k, (nameContract.contents ml () (nameKey k)).isSome ↔ k ∈ ks
  spare : ml.nodes none = []
  finite : {a | ml.heap a ≠ none}.Finite

theorem naming_alloc : Naming .alloc [] := by
  refine ⟨nameContract.sound_alloc, fun k => ?_, rfl, ?_⟩
  · rw [ListMgr.Contract.contents, ListMgr.shape_alloc.nodes_eq]
    simp [ListMgr.Contract.get, Keyed.get]
  · have hempty : {a | (ListMgr.alloc : NameMgr).heap a ≠ none} = ∅ :=
      Set.eq_empty_of_forall_notMem fun a ha => ha rfl
    rw [hempty]
    exact Set.finite_empty

/-- A name that has been there is found, and any other one is added. -/
theorem addName_spec (hfresh : Allocates fresh) (H : Naming ml ks) (k : List Octet) :
    (k ∈ ks ∧ addName fresh k ml = some (false, ml)) ∨
      k ∉ ks ∧ ∃ ml', addName fresh k ml = some (true, ml') ∧ Naming ml' (ks ++ [k]) := by
  obtain ⟨node, hfetch, hfound⟩ := nameContract.fetchNode_does H.sound () k
  have hpresent : node.isSome ↔ k ∈ ks := hfound.present.trans (H.names k)
  rw [addName, hfetch, Option.bind_eq_bind, Option.bind_some]
  cases node with
  | some node => exact .inl ⟨hpresent.mp rfl, rfl⟩
  | none =>
    have hk : k ∉ ks := fun hk => absurd (hpresent.mpr hk) (by simp)
    obtain ⟨a, ha, hnone⟩ := hfresh ml H.finite
    have hunused : ∀ b, fresh ml = some b → ml.heap b = none := by
      intro b hb
      rw [ha] at hb
      cases hb
      exact hnone
    obtain ⟨done, ml', L', hcall, hshape, hmtx, hupdated, -⟩ :=
      ListMgr.updateNode_updates nameCallbacks [] () k H.sound.shape H.sound.released hunused
    have habsent : nameContract.get (ml.nodes (some ())) (nameKey k) = none := by
      rw [← Option.not_isSome_iff_eq_none]
      exact fun h => hk ((H.names k).mp h)
    have hspare : done = true ∧ L' none = [] := by
      rcases nameContract.updated_spare hupdated H.sound.sorted with ⟨hsome, -⟩ | ⟨-, ⟨-, c, hc⟩ | h⟩
      · exact absurd hsome (by rw [show nameContract.cookieKey k = nameKey k from rfl, habsent]; simp)
      · exact absurd (H.spare.symm.trans hc) (by simp)
      · exact ⟨by rw [h.2.2, ha]; rfl, h.2.1⟩
    obtain ⟨rfl, hspare⟩ := hspare
    have hnodes := hshape.nodes_eq
    have hstored : nameContract.Stored ml () (nameKey k) k ml' :=
      nameContract.updated_stored hupdated rfl hnodes
    dsimp only
    rw [hcall, Option.bind_eq_bind, Option.bind_some]
    refine .inr ⟨hk, ml', rfl, ?_, fun j => ?_, ?_, ?_⟩
    · exact nameContract.sound hshape (nameContract.updated_sorted hupdated H.sound.sorted) hmtx
    · rw [List.mem_append, List.mem_singleton]
      by_cases hj : j = k
      · subst hj
        rw [hstored.contents]
        simp
      · have hne : nameKey j ≠ nameKey k := fun h => hj (nameKey_inj.mp h)
        have hsame : nameContract.contents ml' () (nameKey j) = nameContract.contents ml () (nameKey j) :=
          (congrFun hstored.contents _).trans (dif_neg hne)
        rw [hsame, H.names j]
        simp [hj]
    · rw [hnodes, hspare]
    · refine (H.finite.insert a).subset fun b hb => ?_
      by_contra hout
      rw [Set.mem_insert_iff, not_or] at hout
      refine hb (ListMgr.updateNode_takes hcall b (fun h => ?_) (not_not.mp hout.2))
      rw [ha] at h
      exact hout.1 (Option.some.inj h).symm

/-- All names are added if and only if none occurs twice; empty ones are passed over. -/
theorem addNames_spec (hfresh : Allocates fresh) (H : Naming ml ks) (hks : ks.Nodup)
    (p : List (List Octet)) : ∃ b ml' ks', addNames fresh p ml = some (b, ml') ∧ Naming ml' ks' ∧
      (b = true ↔ (ks ++ p.filter (· ≠ [])).Nodup) ∧ (b = true → ks' = ks ++ p.filter (· ≠ [])) := by
  induction p generalizing ml ks with
  | nil => exact ⟨true, ml, ks, rfl, H, by simpa using hks, by simp⟩
  | cons k p ih =>
    rw [addNames]
    by_cases hk : k = []
    · rw [if_pos hk, List.filter_cons_of_neg (by simpa using hk)]
      exact ih H hks
    · rw [if_neg hk, List.filter_cons_of_pos (by simpa using hk)]
      rcases addName_spec hfresh H k with ⟨hmem, hadd⟩ | ⟨hmem, ml', hadd, H'⟩
      · rw [hadd]
        refine ⟨false, ml, ks, rfl, H, iff_of_false (by simp) fun hnodup => ?_, by simp⟩
        exact (List.nodup_append.mp hnodup).2.2 k hmem k List.mem_cons_self rfl
      · rw [hadd, List.append_cons]
        refine ih H' (List.nodup_append.mpr ⟨hks, List.nodup_singleton k, fun a ha b hb => ?_⟩)
        rw [List.mem_singleton.mp hb]
        rintro rfl
        exact hmem ha

/-- No node goes to the free list. -/
theorem freeList0_spare {n : ℕ} {cur : Option Ptr} {ml' : NameMgr}
    (h : ListMgr.freeList0 nameCallbacks false n cur ml = some ml') : ml'.freeList = ml.freeList := by
  induction n generalizing ml cur with
  | zero =>
    cases cur with
    | none =>
      cases h
      rfl
    | some cur => cases h
  | succ n ih =>
    cases cur with
    | none =>
      cases h
      rfl
    | some cur =>
      simp only [ListMgr.freeList0, Option.bind_eq_bind, Option.bind_eq_some_iff] at h
      obtain ⟨cell, -, ml₁, hfree, h⟩ := h
      simp only [ListMgr.freeNode, nameCallbacks, Option.bind_eq_bind, Option.bind_eq_some_iff] at hfree
      obtain ⟨cell', -, hfree⟩ := hfree
      rw [ih h]
      cases hfree
      rfl

theorem freeNames_spec (H : Naming ml ks) : freeNames ml = some () := by
  have hspare : ml.freeList = none := by
    have hhead := H.sound.shape.chains.head none
    rwa [H.spare] at hhead
  obtain ⟨ml', L', hfree, -⟩ := ListMgr.freeAll_forgets H.sound.shape H.sound.released nameCallbacks () false
  have hspare' : ml'.freeList = none := by
    have hfree' := hfree
    simp only [ListMgr.freeAll, ListMgr.mlock, H.sound.released, Option.bind_eq_bind,
      Option.bind_eq_some_iff] at hfree'
    obtain ⟨ml₁, hlock, ml₂, hloop, hunlock⟩ := hfree'
    cases hlock
    have hloop := freeList0_spare hloop
    rw [ListMgr.munlock] at hunlock
    split at hunlock
    · cases hunlock
      exact hloop.trans hspare
    · cases hunlock
  rw [freeNames, hfree, Option.bind_eq_bind, Option.bind_some, hspare']
  cases ml'.count + ml'.freeCount <;> rfl

end Names

/-- The body of the loop over the keys. -/
def keyNameBody {φ : Type} (fresh : NameMgr → Option Ptr) (_ : ℕ × ℕ) (a : OptRec φ) (ml : NameMgr) :
    Option (Bool × NameMgr) ⊕ NameMgr :=
  if a.key = [] then .inr ml
  else
    match addName fresh a.key ml with
    | none => .inl none
    | some (false, ml) => .inl (some (false, ml))
    | some (true, ml) => .inr ml

/-- The keys of the records are added like the names of the additional options. -/
theorem keyNames_eq {φ : Type} (fresh : NameMgr → Option Ptr) (l : List ((ℕ × ℕ) × OptRec φ))
    (ml : NameMgr) : foldEntries (keyNameBody fresh) l ml =
      match addNames fresh ((l.map Prod.snd).map fun a => a.key) ml with
      | none => .inl none
      | some (false, ml) => .inl (some (false, ml))
      | some (true, ml) => .inr ml := by
  induction l generalizing ml with
  | nil => rfl
  | cons e l ih =>
    rw [foldEntries, keyNameBody, List.map_cons, List.map_cons, addNames]
    by_cases hk : e.2.key = []
    · rw [if_pos hk, if_pos hk]
      exact ih ml
    · rw [if_neg hk, if_neg hk]
      cases hadd : addName fresh e.2.key ml with
      | none => rfl
      | some r =>
        obtain ⟨b, ml'⟩ := r
        cases b with
        | false => rfl
        | true => exact ih ml'

/-! ## Unique keys -/

/-- Printable and not blank. -/
def Printable (c : Octet) : Prop := 0x21 ≤ c.toNat ∧ c.toNat ≤ 0x7e

/-- A character that may be an option. -/
def ValidOption (c : Octet) : Prop := Printable c ∧ c ∉ chars "-:;+W"

/-- No character occurs twice as an option, and all of them may be options. -/
structure UniqueChars {φ : Type} (opt : Opt φ) (ps : List Octet) : Prop where
  printable : ∀ c ∈ ps, Printable c
  valid : ∀ a ∈ opt.records, 0 < a.sKey.toInt → ValidOption a.sKey
  characters : ∀ c, ValidOption c → (ps ++ opt.shortChars).count c ≤ 1

/-- Nor does a name. -/
structure UniqueKeys {φ : Type} (opt : Opt φ) (ps : List Octet) (lo : List (List Octet)) : Prop
    extends UniqueChars opt ps where
  names : ∀ k, k ≠ [] → (lo ++ opt.records.map fun a => a.key).count k ≤ 1

theorem toInt_eq (c : Octet) : c.toInt = if c.toNat < 128 then (c.toNat : ℤ) else c.toNat - 256 := by
  rw [BitVec.toInt_eq_toNat_cond]
  split <;> split <;> omega

theorem isgraph_iff (c : Octet) : isgraph c.toInt = true ↔ Printable c := by
  rw [isgraph, Printable, decide_eq_true_eq, toInt_eq]
  split <;> omega

theorem isValid_iff (c : Octet) : isValid c.toInt = true ↔ ValidOption c := by
  have hchars : chars "-:;+W" = [0x2d, 0x3a, 0x3b, 0x2b, 0x57] := by decide
  have hone (n : ℕ) (hn : n < 128) : c.toInt = n ↔ c = BitVec.ofNat 8 n := by
    have hc := c.isLt
    have heq := BitVec.toNat_eq (x := c) (y := BitVec.ofNat 8 n)
    rw [heq, BitVec.toNat_ofNat, toInt_eq]
    split <;> omega
  have hspecial : (c.toInt = 0x2d ∨ c.toInt = 0x3a ∨ c.toInt = 0x3b ∨ c.toInt = 0x2b ∨ c.toInt = 0x57) ↔
      c ∈ chars "-:;+W" := by
    simp only [hchars, List.mem_cons, List.not_mem_nil, or_false]
    exact or_congr (hone 0x2d (by decide)) (or_congr (hone 0x3a (by decide)) (or_congr (hone 0x3b (by decide))
      (or_congr (hone 0x2b (by decide)) (hone 0x57 (by decide)))))
  rw [isValid, ValidOption, ← hspecial, ← isgraph_iff]
  split
  · rename_i hbad
    simp [hbad]
  · rename_i hgood
    simp [hgood]

theorem nodup_filter_iff {α : Type} [BEq α] [LawfulBEq α] (p : α → Bool) (l : List α) :
    (l.filter p).Nodup ↔ ∀ a, p a = true → l.count a ≤ 1 := by
  rw [List.nodup_iff_count_le_one]
  refine forall_congr' fun a => ?_
  by_cases ha : p a = true
  · rw [List.count_filter ha]
    simp [ha]
  · have hnot : a ∉ l.filter p := fun hmem => ha (List.mem_filter.mp hmem).2
    rw [List.count_eq_zero_of_not_mem hnot]
    simp [ha]

section Unique
variable {φ : Type} {self : Opt φ} {fresh : NameMgr → Option Ptr}

theorem records_entries : (entries 0 self.rcs).map Prod.snd = self.records := map_entries 0 self.rcs

/-- When the short keys are valid, both loops take the valid characters. -/
theorem filter_valid (hvalid : ∀ a ∈ self.records, 0 < a.sKey.toInt → ValidOption a.sKey) (ps : List Octet) :
    (ps.filter fun c => isValid c.toInt) ++ self.shortChars =
      (ps ++ self.shortChars).filter fun c => isValid c.toInt := by
  have hshort : self.shortChars.filter (fun c => isValid c.toInt) = self.shortChars := by
    refine List.filter_eq_self.mpr fun c hc => ?_
    obtain ⟨hmem, hpos⟩ := List.mem_filter.mp hc
    obtain ⟨a, ha, rfl⟩ := List.mem_map.mp hmem
    exact (isValid_iff _).mpr (hvalid a ha (by simpa using hpos))
  rw [List.filter_append, hshort]

theorem count_valid_iff (l : List Octet) : (l.filter fun c => isValid c.toInt).Nodup ↔
    ∀ c, ValidOption c → l.count c ≤ 1 := by
  rw [nodup_filter_iff]
  exact forall_congr' fun c => by rw [isValid_iff]

/-- Both loops over characters go through if and only if these are unique. -/
theorem chars_unique (hf : Formed self.rcs) (hne : self.rcs ≠ []) (ps : List Octet) :
    (∃ x x', preOptions ps (fun _ => 0) = some x ∧ self.shortKeys x = some (.inr x') ∧
      UniqueChars self ps) ∨
    (preOptions ps (fun _ => 0) = none ∨
      ∃ x, preOptions ps (fun _ => 0) = some x ∧ self.shortKeys x = some (.inl ())) ∧
        ¬ UniqueChars self ps := by
  have hloop (x : CharBits) : self.shortKeys x = some (foldEntries shortKeyBody (entries 0 self.rcs) x) :=
    forRec_eq hf hne shortKeyBody x
  have hstop (hbad : ∀ x, self.shortKeys x = some (.inl ())) : preOptions ps (fun _ => 0) = none ∨
      ∃ x, preOptions ps (fun _ => 0) = some x ∧ self.shortKeys x = some (.inl ()) := by
    cases hpre : preOptions ps fun _ => 0 with
    | none => exact .inl rfl
    | some x => exact .inr ⟨x, rfl, hbad x⟩
  by_cases hprint : ∀ c ∈ ps, isgraph c.toInt = true
  swap
  · obtain ⟨c, hc, hbad⟩ := not_forall₂.mp hprint
    refine .inr ⟨.inl (preOptions_bad hc (Bool.not_eq_true _ ▸ hbad) _), fun h => hbad ?_⟩
    exact (isgraph_iff c).mpr (h.printable c hc)
  by_cases hvalid : ∀ e ∈ entries 0 self.rcs, e.2.sKey.toInt > 0 → isValid e.2.sKey.toInt = true
  swap
  · simp only [not_forall] at hvalid
    obtain ⟨e, he, hpos, hbad⟩ := hvalid
    refine .inr ⟨hstop fun x => ?_, fun h => hbad ?_⟩
    · rw [hloop, shortKeys_bad he hpos (Bool.not_eq_true _ ▸ hbad)]
    · have hmem : e.2 ∈ self.records := records_entries ▸ List.mem_map_of_mem he
      exact (isValid_iff _).mpr (h.valid e.2 hmem hpos)
  have hvalid' : ∀ a ∈ self.records, 0 < a.sKey.toInt → ValidOption a.sKey := by
    intro a ha hpos
    rw [← records_entries] at ha
    obtain ⟨e, he, rfl⟩ := List.mem_map.mp ha
    exact (isValid_iff _).mp (hvalid e he hpos)
  have hchars : UniqueChars self ps ↔ ((ps.filter fun c => isValid c.toInt) ++ self.shortChars).Nodup := by
    rw [filter_valid hvalid', count_valid_iff]
    exact ⟨fun h => h.characters, fun h => ⟨fun c hc => (isgraph_iff c).mp (hprint c hc), hvalid', h⟩⟩
  rw [hchars, preOptions_eq hprint]
  rcases takeChars_spec taking_empty List.nodup_nil (ps.filter fun c => isValid c.toInt) with
    ⟨x, hx, htaking, hnodup⟩ | ⟨hx, hnodup⟩
  · rw [List.nil_append] at htaking hnodup
    have hshort := shortKeys_eq hvalid x
    rw [records_entries] at hshort
    rcases takeChars_spec htaking hnodup self.shortChars with ⟨x', hx', -, hboth⟩ | ⟨hx', hboth⟩
    · refine .inl ⟨x, x', hx, ?_, hboth⟩
      rw [hloop, hshort]
      exact congrArg some (by rw [show List.filter _ _ = self.shortChars from rfl, hx'])
    · refine .inr ⟨.inr ⟨x, hx, ?_⟩, hboth⟩
      rw [hloop, hshort]
      exact congrArg some (by rw [show List.filter _ _ = self.shortChars from rfl, hx'])
  · exact .inr ⟨.inl hx, fun h => hnodup (List.nodup_append.mp h).1⟩

/-- `opt_duplicates` returns true if and only if the keys are unique. -/
theorem opt_duplicates_iff (hf : Formed self.rcs) (hne : self.rcs ≠ []) (ps : Option (List Octet))
    (lo : Option (List (List Octet))) (hfresh : Allocates fresh) :
    ∃ b, optDuplicates self ps lo true fresh = some b ∧
      (b = true ↔ UniqueKeys self (ps.getD []) (lo.getD [])) := by
  rw [optDuplicates, if_neg hne]
  rcases chars_unique hf hne (ps.getD []) with ⟨x, x', hpre, hshort, hchars⟩ | ⟨hstop, hchars⟩
  swap
  · refine ⟨false, ?_, iff_of_false (by simp) fun h => hchars h.toUniqueChars⟩
    rcases hstop with hpre | ⟨x, hpre, hshort⟩
    · rw [hpre]
    · rw [hpre]
      dsimp only
      rw [hshort]
      rfl
  rw [hpre]
  dsimp only
  rw [hshort, Option.bind_eq_bind, Option.bind_some]
  dsimp only
  rw [if_pos rfl]
  have hnames : UniqueKeys self (ps.getD []) (lo.getD []) ↔
      ((lo.getD []).filter (· ≠ []) ++ (self.records.map fun a => a.key).filter (· ≠ [])).Nodup := by
    rw [← List.filter_append, nodup_filter_iff]
    simp only [decide_eq_true_eq]
    exact ⟨fun h => h.names, fun h => ⟨hchars, h⟩⟩
  rw [hnames]
  obtain ⟨b, ml, ks, hadd, H, hnodup, hks⟩ := addNames_spec hfresh naming_alloc List.nodup_nil (lo.getD [])
  rw [hadd]
  cases b with
  | false =>
    refine ⟨false, ?_, iff_of_false (by simp) fun h => ?_⟩
    · simp [freeNames_spec H]
    · exact absurd (hnodup.mpr (List.nodup_append.mp h).1) (by simp)
  | true =>
    have hks := hks rfl
    rw [List.nil_append] at hks
    have hnodup := hnodup.mp rfl
    rw [List.nil_append] at hnodup
    have hkeys : self.keyNames fresh ml = some (foldEntries (keyNameBody fresh) (entries 0 self.rcs) ml) :=
      forRec_eq hf hne (keyNameBody fresh) ml
    rw [keyNames_eq, records_entries] at hkeys
    obtain ⟨b, ml', ks', hadd', H', hnodup', -⟩ :=
      addNames_spec hfresh H (hks ▸ hnodup) (self.records.map fun a => a.key)
    rw [hadd'] at hkeys
    rw [← hks, ← hnodup']
    cases b with
    | false => exact ⟨false, by simp [hkeys, freeNames_spec H'], Iff.rfl⟩
    | true => exact ⟨true, by simp [hkeys, freeNames_spec H'], Iff.rfl⟩

end Unique

section Sample

open Classical in
/-- The least address that is not in use. -/
noncomputable def leastUnused (ml : NameMgr) : Option Ptr :=
  if h : ∃ a, ml.heap a = none then some (Nat.find h) else none

theorem allocates_leastUnused : Allocates leastUnused := by
  intro ml hfinite
  have hroom : ∃ a, ml.heap a = none := by
    obtain ⟨a, ha⟩ := hfinite.infinite_compl.nonempty
    exact ⟨a, not_not.mp ha⟩
  classical
  exact ⟨Nat.find hroom, by rw [leastUnused, dif_pos hroom], Nat.find_spec hroom⟩

/-- A number with the key `key2` and the short key `k`. -/
def sampleKey : OptRec Unit :=
  ⟨chars "key2", 0x6b, .int, none, 0, ⟨none, 0, ()⟩, ⟨none, 0, ()⟩, ⟨none, 9, ()⟩⟩

def sampleKeys : Opt Unit := ((optAlloc .init).addRecords [sampleKey] true).2

theorem opt_duplicates_iff_sample :
    optDuplicates sampleKeys (some (chars ":hv")) (some [chars "key1"]) true leastUnused = some true := by
  have hkeys : Formed sampleKeys.rcs := ⟨by decide, by decide⟩
  obtain ⟨b, hb, hunique⟩ := opt_duplicates_iff hkeys (by decide)
    (some (chars ":hv")) (some [chars "key1"]) allocates_leastUnused
  refine hb.trans (congrArg some (hunique.mpr ⟨⟨?_, ?_, fun c _ => ?_⟩, fun k _ => ?_⟩))
  · unfold Printable
    decide
  · unfold ValidOption Printable
    decide
  · exact List.nodup_iff_count_le_one.mp (by decide) c
  · exact List.nodup_iff_count_le_one.mp (by decide) k

end Sample

end Csptp
