import Csptp.Opt.Duplicates

/-! # Tables for `getopt`

From its records an option object makes the string of short options and the array of long options that
the C library asks for. It makes each of them once, in a block that it allocates, and returns the same
block from then on. -/
namespace Csptp
open Octets
set_option autoImplicit false

/-! ## Blocks that are written from the front -/

section Blocks
variable {τ : Type}

/-- `r[i] = x`, which has to be in the block. -/
def put (r : List τ) (i : ℕ) (x : τ) : Option (List τ) := if i < r.length then some (r.set i x) else none

def puts : List τ → ℕ → List τ → Option (List τ)
  | r, _, [] => some r
  | r, i, x :: xs => (put r i x).bind fun r => puts r (i + 1) xs

theorem puts_append {r : List τ} {i : ℕ} {xs ys : List τ} :
    puts r i (xs ++ ys) = (puts r i xs).bind fun r => puts r (i + xs.length) ys := by
  induction xs generalizing r i with
  | nil => rfl
  | cons x xs ih =>
    rw [List.cons_append, puts, puts]
    cases put r i x with
    | none => rfl
    | some r =>
      rw [Option.bind_some, Option.bind_some, ih, List.length_cons, Nat.add_assoc, Nat.add_comm 1]

/-- What is written takes the place of as much of the block. -/
theorem puts_eq {pre mid post xs : List τ} (h : mid.length = xs.length) :
    puts (pre ++ mid ++ post) pre.length xs = some (pre ++ xs ++ post) := by
  induction xs generalizing pre mid with
  | nil =>
    obtain rfl := List.length_eq_zero_iff.mp h
    rfl
  | cons x xs ih =>
    obtain ⟨y, mid, rfl⟩ := List.exists_cons_of_length_eq_add_one h
    have hset : (pre ++ y :: mid ++ post).set pre.length x = pre ++ [x] ++ mid ++ post := by simp
    have hput : put (pre ++ y :: mid ++ post) pre.length x = some (pre ++ [x] ++ mid ++ post) := by
      rw [put, hset, if_pos (by simp)]
    have hrest := @ih (pre ++ [x]) mid (Nat.succ.inj h)
    rw [List.length_append, List.length_singleton] at hrest
    rw [puts, hput, Option.bind_some, hrest]
    simp

/-- Behind what is written already, in a block with room for more. -/
theorem puts_behind {xs rest ys : List τ} (h : ys.length ≤ rest.length) :
    puts (xs ++ rest) xs.length ys = some (xs ++ ys ++ rest.drop ys.length) := by
  have hput := @puts_eq _ xs (rest.take ys.length) (rest.drop ys.length) ys (by simpa using h)
  rwa [List.append_assoc, List.take_append_drop] at hput

end Blocks

/-! ## The tables -/

/-- `struct option` -/
structure LongOption where
  name : Option (List Octet)
  hasArg : Bool
  flag : Option ℕ
  val : ℤ

/-- `struct opt_t`, with what it keeps for `getopt`. -/
structure OptTable (φ : Type) extends Opt φ where
  numRecords : ℕ
  getoptBuff : Option (List Octet)
  longOptions : Option (List LongOption)

def colon : Octet := 0x3a

/-- The string at the front of a block. -/
def stringIn (r : List Octet) : List Octet := r.takeWhile (· ≠ 0)

/-- The long options at the front of a block. -/
def optionsIn (r : List LongOption) : List LongOption := r.takeWhile fun o => o.name.isSome

/-- The loop that counts additional long options; it has to find the end of the array. -/
def countAdditional : List LongOption → Option ℕ
  | [] => none
  | o :: rest => if o.name.isSome ∧ o.val > 0 then (countAdditional rest).map (· + 1) else some 0

namespace OptTable
variable {φ : Type}

def alloc : OptTable φ := ⟨optAlloc Memory.init, 0, none, none⟩

/-- The body of the loop in `_getopt`: the block, and how much of it is written. -/
def shortBody (_ : ℕ × ℕ) (a : OptRec φ) (s : List Octet × ℕ) : Unit ⊕ List Octet × ℕ :=
  if a.sKey.toInt > 0 then
    if a.type ≠ .bool then
      match puts s.1 s.2 [a.sKey, colon] with
      | none => .inl ()
      | some r => .inr (r, s.2 + 2)
    else
      match put s.1 s.2 a.sKey with
      | none => .inl ()
      | some r => .inr (r, s.2 + 1)
  else .inr s

/-- Writes the entry that ends a table, behind a loop that stayed in its block. -/
def terminate {τ : Type} (z : τ) : Unit ⊕ List τ × ℕ → Option (List τ)
  | .inl () => none
  | .inr (r, s) => put r s z

/-- What `_getopt` writes to its block. -/
def fillShort (self : OptTable φ) (p r : List Octet) : Option (List Octet) :=
  (if p ≠ [] then puts r 0 (p ++ [0]) else some r).bind fun r =>
    (self.toOpt.forRec shortBody (r, p.length)).bind (terminate 0)

/-- `_getopt`; `contents` is what an allocated block holds. -/
def getopt (self : OptTable φ) (p : Option (List Octet)) (ok : Bool) (contents : ℕ → Octet) :
    Option (Option (List Octet) × OptTable φ) :=
  if self.rcs = [] then some (none, self)
  else match self.getoptBuff with
    | some r => some (some (stringIn r), self)
    | none =>
      let s := (p.getD []).length
      if ok then
        (self.fillShort (p.getD []) ((List.range (self.numRecords * 2 + 1 + s)).map contents)).map fun r =>
          (some (stringIn r), { self with getoptBuff := some r })
      else some (none, self)

theorem getopt_toOpt {self self' : OptTable φ} {p s : Option (List Octet)} {ok : Bool} {contents : ℕ → Octet}
    (h : self.getopt p ok contents = some (s, self')) : self'.toOpt = self.toOpt := by
  rw [getopt] at h
  split at h
  · cases h
    rfl
  split at h
  · cases h
    rfl
  dsimp only at h
  split at h
  · obtain ⟨r, -, heq⟩ := Option.map_eq_some_iff.mp h
    rw [← (Prod.mk.inj heq).2]
  · cases h
    rfl

/-- The body of the loop in `_getoptLong`. -/
def longBody (_ : ℕ × ℕ) (a : OptRec φ) (s : List LongOption × ℕ) : Unit ⊕ List LongOption × ℕ :=
  if a.sKey.toInt > 0 then
    match put s.1 s.2 ⟨some a.key, a.type ≠ .bool, none, a.sKey.toInt⟩ with
    | none => .inl ()
    | some r => .inr (r, s.2 + 1)
  else .inr s

/-- What `_getoptLong` writes to its block. -/
def fillLong (self : OptTable φ) (ad : List LongOption) (r : List LongOption) : Option (List LongOption) :=
  (puts r 0 ad).bind fun r =>
    (self.toOpt.forRec longBody (r, ad.length)).bind (terminate ⟨none, false, none, 0⟩)

/-- `_getoptLong` -/
def getoptLong (self : OptTable φ) (ad : Option (List LongOption)) (ok : Bool) (contents : ℕ → LongOption) :
    Option (Option (List LongOption) × OptTable φ) :=
  if self.rcs = [] then some (none, self)
  else match self.longOptions with
    | some r => some (some (optionsIn r), self)
    | none => do
      let l ← ad.elim (some 0) countAdditional
      if ok then
        (self.fillLong ((ad.getD []).take l) ((List.range (self.numRecords + l + 1)).map contents)).map fun r =>
          (some (optionsIn r), { self with longOptions := some r })
      else some (none, self)

variable [LongDouble φ]

/-- `_addRecords` -/
def addRecords (self : OptTable φ) (r : List (OptRec φ)) (ok : Bool) : Bool × OptTable φ :=
  let added := self.toOpt.addRecords r ok
  (added.1, { self with
    toOpt := added.2, numRecords := if ok then self.numRecords + r.length else self.numRecords })

end OptTable

/-! ## What they are for -/

/-- What `getopt` is told about a record. -/
def shortOption {φ : Type} (a : OptRec φ) : List Octet :=
  if a.sKey.toInt > 0 then (if a.type ≠ .bool then [a.sKey, colon] else [a.sKey]) else []

def longOption {φ : Type} (a : OptRec φ) : List LongOption :=
  if a.sKey.toInt > 0 then [⟨some a.key, a.type ≠ .bool, none, a.sKey.toInt⟩] else []

/-- The additional long options, up to the end of their array. -/
def additional (ad : List LongOption) : List LongOption :=
  ad.takeWhile fun o => o.name.isSome ∧ o.val > 0

/-- The records of an object, and the tables that were made of them. -/
structure GetoptTables (φ : Type) where
  records : List (OptRec φ)
  string : Option (List Octet)
  long : Option (List LongOption)

inductive TableCall (φ : Type)
  | addRecords (r : List (OptRec φ)) (ok : Bool)
  | getopt (p : Option (List Octet)) (ok : Bool) (contents : ℕ → Octet)
  | getoptLong (ad : Option (List LongOption)) (ok : Bool) (contents : ℕ → LongOption)

inductive TableResult
  | added (b : Bool)
  | string (s : Option (List Octet))
  | long (o : Option (List LongOption))

/-- A table is made once, if there are records and memory for it. -/
def GetoptTables.made {φ τ : Type} (t : GetoptTables φ) (old : Option (List τ)) (ok : Bool)
    (additional : List τ) (f : OptRec φ → List τ) : Option (List τ) :=
  match old with
  | some r => some r
  | none => if t.records ≠ [] ∧ ok then some (additional ++ t.records.flatMap f) else none

def GetoptTables.call {φ : Type} (t : GetoptTables φ) : TableCall φ → TableResult × GetoptTables φ
  | .addRecords r ok => (.added ok, if ok then { t with records := t.records ++ r } else t)
  | .getopt p ok _ =>
    let string := t.made t.string ok (p.getD []) shortOption
    (.string string, { t with string := string })
  | .getoptLong ad ok _ =>
    let long := t.made t.long ok (additional (ad.getD [])) longOption
    (.long long, { t with long := long })

/-- No array of records is empty, strings have no zeros, and arrays of long options have an end. -/
def TableCall.Proper {φ : Type} : TableCall φ → Prop
  | .addRecords r _ => r ≠ []
  | .getopt p _ _ => 0 ∉ p.getD []
  | .getoptLong ad _ _ => ∀ l ∈ ad, ∃ o ∈ l, ¬ (o.name.isSome ∧ o.val > 0)

section Short
variable {φ : Type}

/-- A loop that writes something for each record. -/
def writeBody {τ : Type} (f : OptRec φ → List τ) (_ : ℕ × ℕ) (a : OptRec φ) (s : List τ × ℕ) :
    Unit ⊕ List τ × ℕ :=
  match puts s.1 s.2 (f a) with
  | none => .inl ()
  | some r => .inr (r, s.2 + (f a).length)

theorem foldEntries_write {τ : Type} (f : OptRec φ → List τ) (l : List ((ℕ × ℕ) × OptRec φ)) (r : List τ)
    (s : ℕ) : foldEntries (writeBody f) l (r, s) =
      match puts r s ((l.map Prod.snd).flatMap f) with
      | none => .inl ()
      | some r => .inr (r, s + ((l.map Prod.snd).flatMap f).length) := by
  induction l generalizing r s with
  | nil => rfl
  | cons e l ih =>
    rw [foldEntries, writeBody, List.map_cons, List.flatMap_cons, puts_append]
    dsimp only
    cases puts r s (f e.2) with
    | none => rfl
    | some r =>
      dsimp only
      rw [ih, Option.bind_some, List.length_append, ← Nat.add_assoc]

theorem puts_single {τ : Type} (r : List τ) (i : ℕ) (x : τ) : puts r i [x] = put r i x := by
  rw [puts]
  cases put r i x <;> rfl

theorem shortBody_eq : @OptTable.shortBody φ = writeBody shortOption := by
  funext cur a s
  rw [OptTable.shortBody, writeBody, shortOption]
  split
  · split
    · cases puts s.1 s.2 [a.sKey, colon] <;> rfl
    · rw [puts_single]
      cases put s.1 s.2 a.sKey <;> rfl
  · rfl

theorem longBody_eq : @OptTable.longBody φ = writeBody longOption := by
  funext cur a s
  rw [OptTable.longBody, writeBody, longOption]
  split
  · rw [puts_single]
    cases put s.1 s.2 _ <;> rfl
  · rfl

theorem length_shortOptions (l : List (OptRec φ)) : (l.flatMap shortOption).length ≤ l.length * 2 := by
  induction l with
  | nil => exact Nat.le_refl 0
  | cons a l ih =>
    have ha : (shortOption a).length ≤ 2 := by
      rw [shortOption]
      split
      · split <;> simp
      · simp
    rw [List.flatMap_cons, List.length_append, List.length_cons]
    omega

theorem length_longOptions (l : List (OptRec φ)) : (l.flatMap longOption).length ≤ l.length := by
  induction l with
  | nil => exact Nat.le_refl 0
  | cons a l ih =>
    have ha : (longOption a).length ≤ 1 := by
      rw [longOption]
      split <;> simp
    rw [List.flatMap_cons, List.length_append, List.length_cons]
    omega

end Short

/-! ## The code makes them -/

section Made
variable {φ : Type} {self : OptTable φ} {t : GetoptTables φ}

/-- The object has these records, and its blocks hold these tables. -/
structure Holding (opt : OptTable φ) (t : GetoptTables φ) : Prop where
  formed : Formed opt.rcs
  same : opt.records = t.records
  number : opt.numRecords = t.records.length
  string : opt.getoptBuff.map stringIn = t.string
  long : opt.longOptions.map optionsIn = t.long
  nothing : t.records = [] → t.string = none ∧ t.long = none

theorem Holding.empty_iff (h : Holding self t) : self.rcs = [] ↔ t.records = [] := by
  rw [← h.same, Opt.records, List.flatMap_eq_nil_iff, List.eq_nil_iff_forall_not_mem]
  exact ⟨fun hnone c hc => absurd hc (hnone c), fun hnil c hc => h.formed.nonempty c hc (hnil c hc)⟩

/-- What the loops write behind `xs`, in a block with room for it. -/
theorem Holding.filled (h : Holding self t) (hne : self.rcs ≠ []) {τ : Type} {f : OptRec φ → List τ}
    {xs rest : List τ} (z : τ) (hroom : (t.records.flatMap f).length < rest.length) :
    ∃ rest', (self.toOpt.forRec (writeBody f) (xs ++ rest, xs.length)).bind (OptTable.terminate z) =
      some (xs ++ t.records.flatMap f ++ z :: rest') := by
  obtain ⟨y, rest', hrest⟩ := List.exists_cons_of_length_pos
    (show 0 < (rest.drop (t.records.flatMap f).length).length by
      rw [List.length_drop]
      omega)
  refine ⟨rest', ?_⟩
  rw [forRec_eq h.formed hne, foldEntries_write, records_entries, h.same, puts_behind hroom.le,
    Option.bind_some, OptTable.terminate, ← List.length_append, hrest, ← puts_single]
  have hput := @puts_eq _ (xs ++ t.records.flatMap f) [y] rest' [z] rfl
  rw [List.append_assoc _ [y], List.append_assoc _ [z]] at hput
  exact hput

theorem stringIn_eq {xs rest : List Octet} (h : 0 ∉ xs) : stringIn (xs ++ 0 :: rest) = xs := by
  rw [stringIn, List.takeWhile_append_of_pos fun c hc => ?_]
  · simp
  · simpa using fun hzero : c = 0 => h (hzero ▸ hc)

theorem zero_not_mem_short (l : List (OptRec φ)) : 0 ∉ l.flatMap shortOption := by
  intro h
  obtain ⟨a, -, ha⟩ := List.mem_flatMap.mp h
  rw [shortOption] at ha
  split at ha
  · rename_i hpos
    have hkey : (0 : Octet) ≠ a.sKey := by
      rintro hzero
      rw [← hzero] at hpos
      exact absurd hpos (by decide)
    split at ha
    · rcases List.mem_cons.mp ha with hzero | ha
      · exact hkey hzero
      · exact absurd (List.mem_singleton.mp ha) (by decide)
    · exact hkey (List.mem_singleton.mp ha)
  · exact absurd ha List.not_mem_nil

/-- The block that `_getopt` allocates has room for what is written to it. -/
theorem Holding.fillShort (h : Holding self t) (hne : self.rcs ≠ []) {p r : List Octet}
    (hr : r.length = t.records.length * 2 + 1 + p.length) :
    ∃ rest, self.fillShort p r = some (p ++ t.records.flatMap shortOption ++ 0 :: rest) := by
  have hroom := length_shortOptions t.records
  obtain ⟨rest, hrest, hcopy⟩ : ∃ rest, rest.length = t.records.length * 2 + 1 ∧
      (if p ≠ [] then puts r 0 (p ++ [0]) else some r) = some (p ++ rest) := by
    by_cases hp : p = []
    · exact ⟨r, by rw [hr, hp]; rfl, by rw [if_neg (not_not.mpr hp), hp]; rfl⟩
    · have hput := @puts_behind _ [] r (p ++ [0]) (by
        rw [List.length_append, List.length_singleton, hr]
        omega)
      refine ⟨0 :: r.drop (p ++ [0]).length, ?_, ?_⟩
      · rw [List.length_cons, List.length_drop, List.length_append, List.length_singleton, hr]
        omega
      · rw [List.nil_append, List.nil_append, List.append_assoc] at hput
        rw [if_pos hp]
        exact hput
  rw [OptTable.fillShort, hcopy, Option.bind_some, shortBody_eq]
  exact h.filled hne 0 (by omega)

theorem Holding.getopt (h : Holding self t) {p : Option (List Octet)} (hp : 0 ∉ p.getD []) (ok : Bool)
    (contents : ℕ → Octet) : ∃ self',
      self.getopt p ok contents = some (t.made t.string ok (p.getD []) shortOption, self') ∧
        Holding self' { t with string := t.made t.string ok (p.getD []) shortOption } := by
  rw [OptTable.getopt]
  by_cases hne : self.rcs = []
  · have hnil := h.empty_iff.mp hne
    have hmade : t.made t.string ok (p.getD []) shortOption = none := by
      rw [(h.nothing hnil).1, GetoptTables.made, if_neg (by simp [hnil])]
    rw [if_pos hne, hmade]
    refine ⟨self, rfl, { h with string := ?_, nothing := fun hnil => ⟨rfl, (h.nothing hnil).2⟩ }⟩
    rw [h.string, (h.nothing hnil).1]
  rw [if_neg hne]
  have hsome : t.records ≠ [] := fun hnil => hne (h.empty_iff.mpr hnil)
  have hstring := h.string
  cases hbuff : self.getoptBuff with
  | some r =>
    rw [hbuff, Option.map_some] at hstring
    rw [← hstring]
    exact ⟨self, rfl, { h with string := by rw [hbuff]; rfl, nothing := fun hnil => absurd hnil hsome }⟩
  | none =>
    rw [hbuff, Option.map_none] at hstring
    rw [← hstring, GetoptTables.made]
    dsimp only
    cases ok with
    | false =>
      rw [if_neg (by simp), if_neg (by simp)]
      exact ⟨self, rfl, { h with string := by rw [hbuff]; rfl, nothing := fun hnil => absurd hnil hsome }⟩
    | true =>
      rw [if_pos rfl, if_pos ⟨hsome, rfl⟩]
      obtain ⟨rest, hfill⟩ := @Holding.fillShort _ _ _ h hne (p.getD [])
        ((List.range (self.numRecords * 2 + 1 + (p.getD []).length)).map contents)
        (by rw [List.length_map, List.length_range, h.number])
      have hzero : 0 ∉ p.getD [] ++ t.records.flatMap shortOption := fun hmem =>
        (List.mem_append.mp hmem).elim hp (zero_not_mem_short _)
      rw [hfill, Option.map_some, stringIn_eq hzero]
      refine ⟨_, rfl, { h with string := ?_, nothing := fun hnil => absurd hnil hsome }⟩
      exact congrArg some (stringIn_eq hzero)

theorem countAdditional_eq {l : List LongOption} (h : ∃ o ∈ l, ¬ (o.name.isSome ∧ o.val > 0)) :
    countAdditional l = some (additional l).length ∧ l.take (additional l).length = additional l := by
  induction l with
  | nil =>
    obtain ⟨o, ho, -⟩ := h
    exact absurd ho List.not_mem_nil
  | cons o l ih =>
    rw [countAdditional, additional, List.takeWhile_cons]
    by_cases ho : o.name.isSome ∧ o.val > 0
    · obtain ⟨o', ho', hend⟩ := h
      have hl : ∃ o ∈ l, ¬ (o.name.isSome ∧ o.val > 0) := by
        rcases List.mem_cons.mp ho' with rfl | hmem
        · exact absurd ho hend
        · exact ⟨o', hmem, hend⟩
      obtain ⟨hcount, htake⟩ := ih hl
      rw [if_pos ho, if_pos (decide_eq_true ho), hcount]
      exact ⟨rfl, congrArg (o :: ·) htake⟩
    · rw [if_neg ho, if_neg (by simpa using ho)]
      exact ⟨rfl, rfl⟩

theorem optionsIn_eq {xs rest : List LongOption} {z : LongOption} (h : ∀ o ∈ xs, o.name.isSome = true)
    (hz : z.name = none) : optionsIn (xs ++ z :: rest) = xs := by
  rw [optionsIn, List.takeWhile_append_of_pos h, List.takeWhile_cons_of_neg (by simp [hz]), List.append_nil]

theorem named_long (ad : List LongOption) (l : List (OptRec φ)) :
    ∀ o ∈ additional ad ++ l.flatMap longOption, o.name.isSome = true := by
  intro o ho
  rcases List.mem_append.mp ho with ho | ho
  · rw [additional] at ho
    have hcounted := List.mem_takeWhile_imp ho
    exact (of_decide_eq_true hcounted).1
  · obtain ⟨a, -, ha⟩ := List.mem_flatMap.mp ho
    rw [longOption] at ha
    split at ha
    · rw [List.mem_singleton.mp ha]
      rfl
    · exact absurd ha List.not_mem_nil

/-- So has that of `_getoptLong`. -/
theorem Holding.fillLong (h : Holding self t) (hne : self.rcs ≠ []) {ad r : List LongOption}
    (hr : r.length = t.records.length + ad.length + 1) :
    ∃ rest, self.fillLong ad r = some (ad ++ t.records.flatMap longOption ++ ⟨none, false, none, 0⟩ :: rest) := by
  have hroom := length_longOptions t.records
  have hcopy := @puts_behind _ [] r ad (by omega)
  rw [List.length_nil, List.nil_append, List.nil_append] at hcopy
  rw [OptTable.fillLong, hcopy, Option.bind_some, longBody_eq]
  exact h.filled hne _ (by rw [List.length_drop]; omega)

theorem Holding.getoptLong (h : Holding self t) {ad : Option (List LongOption)}
    (had : ∀ l ∈ ad, ∃ o ∈ l, ¬ (o.name.isSome ∧ o.val > 0)) (ok : Bool) (contents : ℕ → LongOption) :
    ∃ self', self.getoptLong ad ok contents =
      some (t.made t.long ok (additional (ad.getD [])) longOption, self') ∧
        Holding self' { t with long := t.made t.long ok (additional (ad.getD [])) longOption } := by
  rw [OptTable.getoptLong]
  by_cases hne : self.rcs = []
  · have hnil := h.empty_iff.mp hne
    have hmade : t.made t.long ok (additional (ad.getD [])) longOption = none := by
      rw [(h.nothing hnil).2, GetoptTables.made, if_neg (by simp [hnil])]
    rw [if_pos hne, hmade]
    refine ⟨self, rfl, { h with long := ?_, nothing := fun hnil => ⟨(h.nothing hnil).1, rfl⟩ }⟩
    rw [h.long, (h.nothing hnil).2]
  rw [if_neg hne]
  have hsome : t.records ≠ [] := fun hnil => hne (h.empty_iff.mpr hnil)
  have hlong := h.long
  cases hbuff : self.longOptions with
  | some r =>
    rw [hbuff, Option.map_some] at hlong
    rw [← hlong]
    exact ⟨self, rfl, { h with long := by rw [hbuff]; rfl, nothing := fun hnil => absurd hnil hsome }⟩
  | none =>
    rw [hbuff, Option.map_none] at hlong
    obtain ⟨hcount, htake⟩ : ad.elim (some 0) countAdditional = some (additional (ad.getD [])).length ∧
        (ad.getD []).take (additional (ad.getD [])).length = additional (ad.getD []) := by
      cases ad with
      | none => exact ⟨rfl, rfl⟩
      | some l => exact countAdditional_eq (had l rfl)
    rw [← hlong, GetoptTables.made]
    dsimp only
    rw [hcount, Option.bind_eq_bind, Option.bind_some, htake]
    cases ok with
    | false =>
      rw [if_neg (by simp), if_neg (by simp)]
      exact ⟨self, rfl, { h with long := by rw [hbuff]; rfl, nothing := fun hnil => absurd hnil hsome }⟩
    | true =>
      rw [if_pos rfl, if_pos ⟨hsome, rfl⟩]
      obtain ⟨rest, hfill⟩ := @Holding.fillLong _ _ _ h hne (additional (ad.getD []))
        ((List.range (self.numRecords + (additional (ad.getD [])).length + 1)).map contents)
        (by rw [List.length_map, List.length_range, h.number])
      have hnamed := named_long (ad.getD []) t.records
      rw [hfill, Option.map_some, optionsIn_eq hnamed rfl]
      refine ⟨_, rfl, { h with long := ?_, nothing := fun hnil => absurd hnil hsome }⟩
      exact congrArg some (optionsIn_eq hnamed rfl)

variable [LongDouble φ]

theorem Holding.addRecords (h : Holding self t) {r : List (OptRec φ)} (hr : r ≠ []) (ok : Bool) :
    (self.addRecords r ok).1 = ok ∧
      Holding (self.addRecords r ok).2 (if ok then { t with records := t.records ++ r } else t) := by
  cases ok with
  | false => exact ⟨rfl, h⟩
  | true =>
    refine ⟨rfl, ⟨⟨?_, ?_⟩, ?_, ?_, h.string, h.long, fun hnil => absurd (List.append_eq_nil_iff.mp hnil).2 hr⟩⟩
    · intro c hc
      rcases List.mem_append.mp hc with hc | hc
      · exact h.formed.nonempty c hc
      · rw [List.mem_singleton.mp hc]
        exact hr
    · intro c hc
      rcases List.mem_append.mp hc with hc | hc
      · exact h.formed.sized c hc
      · rw [List.mem_singleton.mp hc]
        exact List.length_replicate
    · rw [if_pos rfl, ← h.same]
      exact (List.flatMap_append).trans (by simp [Opt.records])
    · rw [if_pos rfl, List.length_append, ← h.number]
      rfl

end Made

/-! ## All calls -/

namespace OptTable
variable {φ : Type} [LongDouble φ]

def call (self : OptTable φ) : TableCall φ → Option (TableResult × OptTable φ)
  | .addRecords r ok => some (.added (self.addRecords r ok).1, (self.addRecords r ok).2)
  | .getopt p ok contents => (self.getopt p ok contents).map fun r => (.string r.1, r.2)
  | .getoptLong ad ok contents => (self.getoptLong ad ok contents).map fun r => (.long r.1, r.2)

/-- These calls, one after the other. -/
def calls : List (TableCall φ) → OptTable φ → Option (List TableResult × OptTable φ)
  | [], self => some ([], self)
  | c :: rest, self => do
    let r ← self.call c
    let rs ← calls rest r.2
    some (r.1 :: rs.1, rs.2)

end OptTable

def GetoptTables.calls {φ : Type} : List (TableCall φ) → GetoptTables φ → List TableResult
  | [], _ => []
  | c :: rest, t => (t.call c).1 :: calls rest (t.call c).2

section Calls
variable {φ : Type} [LongDouble φ]

theorem Holding.call {self : OptTable φ} {t : GetoptTables φ} (h : Holding self t) {c : TableCall φ}
    (hc : c.Proper) : ∃ self', self.call c = some ((t.call c).1, self') ∧ Holding self' (t.call c).2 := by
  cases c with
  | addRecords r ok =>
    obtain ⟨hret, hadded⟩ := h.addRecords hc ok
    exact ⟨_, by rw [OptTable.call, hret]; rfl, hadded⟩
  | getopt p ok contents =>
    obtain ⟨self', hret, hself'⟩ := h.getopt hc ok contents
    exact ⟨self', by rw [OptTable.call, hret]; rfl, hself'⟩
  | getoptLong ad ok contents =>
    obtain ⟨self', hret, hself'⟩ := h.getoptLong hc ok contents
    exact ⟨self', by rw [OptTable.call, hret]; rfl, hself'⟩

theorem Holding.calls {self : OptTable φ} {t : GetoptTables φ} (h : Holding self t) {cs : List (TableCall φ)}
    (hcs : ∀ c ∈ cs, c.Proper) : ∃ self', self.calls cs = some (t.calls cs, self') := by
  induction cs generalizing self t with
  | nil => exact ⟨self, rfl⟩
  | cons c cs ih =>
    obtain ⟨self₁, hret, hself₁⟩ := h.call (hcs c List.mem_cons_self)
    obtain ⟨self', hrest⟩ := ih hself₁ fun c hc => hcs c (List.mem_cons_of_mem _ hc)
    exact ⟨self', by rw [OptTable.calls, hret, Option.bind_eq_bind, Option.bind_some, hrest]; rfl⟩

omit [LongDouble φ] in
theorem holding_alloc : Holding (OptTable.alloc : OptTable φ) ⟨[], none, none⟩ where
  formed := ⟨fun _ hc => absurd hc List.not_mem_nil, fun _ hc => absurd hc List.not_mem_nil⟩
  same := rfl
  number := rfl
  string := rfl
  long := rfl
  nothing _ := ⟨rfl, rfl⟩

/-- Whatever calls are made, nothing is written outside the allocated blocks, and the tables are made of
the records that are there when they are asked for first. -/
theorem tables_made {cs : List (TableCall φ)} (hcs : ∀ c ∈ cs, c.Proper) :
    ∃ self', (OptTable.alloc : OptTable φ).calls cs = some (GetoptTables.calls cs ⟨[], none, none⟩, self') :=
  holding_alloc.calls hcs

/-- A record that comes after the option string is in the long options only. -/
def sampleTableCalls : List (TableCall Unit) :=
  [.addRecords [sampleKey] true, .getopt (some (chars ":h")) true fun _ => 0xaa, .addRecords [sampleKey] true,
    .getopt none true fun _ => 0, .getoptLong none true fun _ => ⟨none, false, none, 0⟩]

theorem tables_made_sample : ∃ self', (OptTable.alloc : OptTable Unit).calls sampleTableCalls =
    some ([.added true, .string (some (chars ":hk:")), .added true, .string (some (chars ":hk:")),
      .long (some [⟨some (chars "key2"), true, none, 0x6b⟩, ⟨some (chars "key2"), true, none, 0x6b⟩])],
      self') := by
  have hproper : ∀ c ∈ sampleTableCalls, c.Proper := by
    simp [sampleTableCalls, TableCall.Proper]
    decide
  exact tables_made hproper

end Calls

end Csptp
