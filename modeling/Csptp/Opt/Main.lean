import Csptp.Cfg.Main

/-! # Options (`opt.c`)

An option object has a list of arrays of records, and a value for every record. Strings know the block of
memory they lie in, and the memory knows which blocks were released. `none` stands for undefined
behaviour: a released string is read or released again, an array is left, or a counter overflows. -/
namespace Csptp
open Octets
set_option autoImplicit false

/-! ## The C library -/

/-- In the C locale, as `isspace`. -/
def tolower (c : Octet) : Octet := if 0x41 ≤ c.toNat ∧ c.toNat ≤ 0x5a then c + 0x20 else c

/-- Characters are compared as unsigned ones. -/
def strcmp : List Octet → List Octet → ℤ
  | [], [] => 0
  | [], _ :: _ => -1
  | _ :: _, [] => 1
  | a :: s, b :: t => if a = b then strcmp s t else if a.toNat < b.toNat then -1 else 1

def strcasecmp (s t : List Octet) : ℤ := strcmp (s.map tolower) (t.map tolower)

/-- A character that is no digit in any base has the value 36. -/
def digitVal (c : Octet) : ℕ :=
  if 0x30 ≤ c.toNat ∧ c.toNat ≤ 0x39 then c.toNat - 0x30
  else if 0x61 ≤ c.toNat ∧ c.toNat ≤ 0x7a then c.toNat - 0x61 + 10
  else if 0x41 ≤ c.toNat ∧ c.toNat ≤ 0x5a then c.toNat - 0x41 + 10
  else 36

/-- Reads digits in a base, and returns the value and the rest of the string. -/
def readDigits (base : ℕ) : ℕ → List Octet → ℕ × List Octet
  | n, [] => (n, [])
  | n, c :: s => if digitVal c < base then readDigits base (n * base + digitVal c) s else (n, c :: s)

def readSign : List Octet → Bool × List Octet
  | [] => (false, [])
  | c :: s => if c = 0x2d then (true, s) else if c = 0x2b then (false, s) else (false, c :: s)

/-- The base of a number, and its digits. -/
def readBase : List Octet → ℕ × List Octet
  | [] => (10, [])
  | [c] => if c = 0x30 then (8, [c]) else (10, [c])
  | c :: x :: s =>
    if c = 0x30 then
      if tolower x = 0x78 ∧ digitVal (s.headD 0) < 16 then (16, s) else (8, c :: x :: s)
    else (10, c :: x :: s)

def int64Min : ℤ := -2 ^ 63
def int64Max : ℤ := 2 ^ 63 - 1

/-- `strtoll` with base 0: the number, or `none` with `ERANGE`, and the rest of the string. -/
def strtoll (s : List Octet) : Option ℤ × List Octet :=
  let sign := readSign (s.dropWhile isspace)
  let b := readBase sign.2
  if digitVal (b.2.headD 0) < b.1 then
    let r := readDigits b.1 0 b.2
    let n : ℤ := if sign.1 then -r.1 else r.1
    (if int64Min ≤ n ∧ n ≤ int64Max then some n else none, r.2)
  else (some 0, s)

/-- What the code uses of `long double` and of the library for it. -/
class LongDouble (φ : Type) where
  zero : φ
  hugeVal : φ
  strtold : List Octet → φ × List Octet
  eq : φ → φ → Bool
  lt : φ → φ → Bool

/-- Programs without such options need none of it. -/
instance : LongDouble Unit where
  zero := ()
  hugeVal := ()
  strtold s := ((), s)
  eq _ _ := true
  lt _ _ := false

/-! ## Memory -/

/-- Memory of the caller, which may be static or allocated, or what the n-th `strdup` allocated. -/
inductive Block
  | caller (n : ℕ)
  | dup (n : ℕ)
deriving DecidableEq, Repr

/-- A string in a block, without its terminating zero. -/
structure CStr where
  block : Block
  text : List Octet
deriving DecidableEq, Repr

structure Memory where
  released : List Block
  dups : ℕ
deriving DecidableEq, Repr

namespace Memory

def init : Memory := ⟨[], 0⟩

def free (h : Memory) : Option CStr → Option Memory
  | none => some h
  | some s => if s.block ∈ h.released then none else some { h with released := h.released ++ [s.block] }

/-- `ok` tells whether there is memory left. -/
def strdup (h : Memory) (s : CStr) (ok : Bool) : Option (Option CStr × Memory) :=
  if s.block ∈ h.released then none
  else if ok then some (some ⟨.dup h.dups, s.text⟩, { h with dups := h.dups + 1 })
  else some (none, h)

end Memory

/-! ## Records and values -/

inductive OptType
  | bool
  | str
  | int
  | float
  | enum
  | inv
deriving DecidableEq, Repr

abbrev OptFlags := BitVec 8

def optStrSt : OptFlags := 0
def optStrDup : OptFlags := 1
def optStrPass : OptFlags := 2
def optStrMask : OptFlags := 3
def optReplace : OptFlags := 4
def optBoolDef : OptFlags := 8
def optCaseCmp : OptFlags := 16

/-- `optRecVal`, a union: an option uses the member of its type only. -/
structure OptRecVal (φ : Type) where
  s : Option CStr
  i : ℤ
  f : φ

/-- `struct opt_rec_t`. -/
structure OptRec (φ : Type) where
  key : List Octet
  /-- A signed character, or 0. -/
  sKey : Octet
  type : OptType
  func : Option (ℤ → Option (List Octet))
  maxLen : ℕ
  defVal : OptRecVal φ
  min : OptRecVal φ
  max : OptRecVal φ

/-- `struct opt_rec_set_t`. -/
structure OptSet (φ : Type) where
  val : OptRecVal φ
  isAlloc : Bool
  isSet : Bool

/-- `struct opt_rec_list_t`; the entry that ends the array of records is not in the list. -/
structure OptRecList (φ : Type) where
  rcs : List (OptRec φ)
  vals : List (OptSet φ)

/-- `struct opt_t`, and the memory. -/
structure Opt (φ : Type) where
  rcs : List (OptRecList φ)
  heap : Memory

/-! ## Values from strings -/

def toInt64 (s : List Octet) : Option ℤ :=
  let r := strtoll s
  if r.2 = [] then r.1 else none

def falseNames : List String := ["flase", "no", "off", "none", "null"]
def trueNames : List String := ["true", "on", "yes"]

/-- The characters of a literal. -/
def chars (s : String) : List Octet := s.toList.map fun c => BitVec.ofNat 8 c.toNat

section Values
variable {φ : Type} [LongDouble φ]

def toFloat (s : List Octet) : Option φ :=
  let r : φ × List Octet := LongDouble.strtold s
  if r.2 = [] ∧ LongDouble.eq r.1 LongDouble.hugeVal = false then some r.1 else none

def OptSet.setInt (v : OptSet φ) (i : ℤ) : OptSet φ :=
  { v with val := { v.val with i := i }, isSet := true }

def OptSet.setFloat (v : OptSet φ) (f : φ) : OptSet φ :=
  { v with val := { v.val with f := f }, isSet := true }

/-- `if(v->isAlloc) free(v->val.s)`. -/
def OptSet.release (v : OptSet φ) (h : Memory) : Option Memory :=
  if v.isAlloc then h.free v.val.s else some h

/-- `case CFG_STR`. -/
def setStr (v : OptSet φ) (s : CStr) (fl : OptFlags) (ok : Bool) (h : Memory) :
    Option (OptSet φ × Memory) := do
  let h ← v.release h
  if fl &&& optStrMask = optStrSt then
    some ({ val := { v.val with s := some s }, isAlloc := false, isSet := true }, h)
  else if fl &&& optStrMask = optStrDup then do
    let d ← h.strdup s ok
    some ({ val := { v.val with s := d.1 }, isAlloc := d.1.isSome, isSet := true }, d.2)
  else if fl &&& optStrMask = optStrPass then
    some ({ val := { v.val with s := some s }, isAlloc := true, isSet := true }, h)
  else some ({ v with isSet := true }, h)

/-- The loop over the names of an enumerator, for this many numbers from `i` on. -/
def findEnum (func : ℤ → Option (List Octet)) (scmp : List Octet → List Octet → ℤ) (s : List Octet)
    (max : ℤ) : ℕ → ℤ → Option (Option ℤ)
  | 0, _ => if max < int64Max then some none else none
  | n + 1, i =>
    if (func i).any (fun a => scmp s a = 0) then some (some i) else findEnum func scmp s max n (i + 1)

def parseBool (s : List Octet) : Option ℤ :=
  match toInt64 s with
  | some i => some (if i = 0 then 0 else 1)
  | none =>
    if falseNames.any (fun a => strcasecmp s (chars a) = 0) then some 0
    else if trueNames.any (fun a => strcasecmp s (chars a) = 0) then some 1
    else none

/-- The number that a string stands for, in an integer, enumerator or boolean option. -/
def parseInt (r : OptRec φ) (s : List Octet) (fl : OptFlags) : Option (Option ℤ) :=
  match r.type with
  | .int =>
    match toInt64 s with
    | none => some none
    | some i => some (if i < r.min.i ∨ i > r.max.i then none else some i)
  | .enum =>
    match toInt64 s with
    | some i => some (if i < r.min.i ∨ i > r.max.i then none else some i)
    | none =>
      match r.func with
      | none => some none
      | some func =>
        let scmp := if fl &&& optCaseCmp ≠ 0 then strcmp else strcasecmp
        findEnum func scmp s r.max.i (r.max.i - r.min.i + 1).toNat r.min.i
  | .bool => some (parseBool s)
  | _ => some none

namespace Opt

/-- `parse_val`; `ok` tells whether `strdup` gets memory. -/
def parseVal (r : OptRec φ) (v : OptSet φ) (s : Option CStr) (fl : OptFlags) (ok : Bool) (h : Memory) :
    Option (Bool × OptSet φ × Memory) :=
  if fl &&& optReplace = 0 ∧ v.isSet then some (true, v, h)
  else if r.type = .bool ∧ fl &&& optBoolDef ≠ 0 then
    some (true, v.setInt (if r.defVal.i = 0 then 1 else 0), h)
  else match s with
    | none => some (false, v, h)
    | some s =>
      if s.block ∈ h.released then none
      else if s.text = [] then some (false, v, h)
      else match r.type with
        | .str => do
          let r ← setStr v s fl ok h
          some (true, r.1, r.2)
        | .float =>
          match toFloat s.text with
          | none => some (false, v, h)
          | some f =>
            if LongDouble.lt f r.min.f ∨ LongDouble.lt r.max.f f then some (false, v, h)
            else some (true, v.setFloat f, h)
        | _ => do
          match ← parseInt r s.text fl with
          | none => some (false, v, h)
          | some i => some (true, v.setInt i, h)

/-! ## The loop over the records -/

variable {β σ : Type}

def recAt (rcs : List (OptRecList φ)) (cur : ℕ × ℕ) : Option (OptRec φ) := do
  let c ← rcs[cur.1]?
  c.rcs[cur.2]?

def slotAt (rcs : List (OptRecList φ)) (cur : ℕ × ℕ) : Option (OptSet φ) := do
  let c ← rcs[cur.1]?
  c.vals[cur.2]?

/-- `nextRec`, with the number of the array and that of the record in it. -/
def nextRec (rcs : List (OptRecList φ)) (cur : ℕ × ℕ) : Option (Option (ℕ × ℕ)) := do
  let c ← rcs[cur.1]?
  if cur.2 + 1 < c.rcs.length then some (some (cur.1, cur.2 + 1))
  else if cur.2 + 1 = c.rcs.length then
    -- the entry that ends the array
    if cur.1 + 1 < rcs.length then some (some (cur.1 + 1, 0)) else some none
  else none

/-- The loop of the macros `LOOP_REC_START` and `LOOP_REC_END`, for this many passes. The body returns
from the function or goes on. -/
def loopRec (rcs : List (OptRecList φ)) (body : ℕ × ℕ → OptRec φ → σ → β ⊕ σ) :
    ℕ → ℕ × ℕ → σ → Option (β ⊕ σ)
  | 0, _, _ => none
  | n + 1, cur, s => do
    let a ← recAt rcs cur
    match body cur a s with
    | .inl b => some (.inl b)
    | .inr s => do
      match ← nextRec rcs cur with
      | none => some (.inr s)
      | some cur => loopRec rcs body n cur s

def numRecords (rcs : List (OptRecList φ)) : ℕ := (rcs.map fun c => c.rcs.length).sum

/-- The loop over all records of an object that has a first array. -/
def forRec (self : Opt φ) (body : ℕ × ℕ → OptRec φ → σ → β ⊕ σ) (s : σ) : Option (β ⊕ σ) :=
  loopRec self.rcs body (numRecords self.rcs) (0, 0) s

/-- The first record of this kind, by which all lookups return. -/
def select (self : Opt φ) (p : OptRec φ → Bool) : Option (Option ((ℕ × ℕ) × OptRec φ)) := do
  match ← self.forRec (fun cur a (_ : Unit) => if p a then .inl (cur, a) else .inr ()) () with
  | .inl found => some (some found)
  | .inr _ => some none

/-! ## The methods -/

def addRecords (self : Opt φ) (r : List (OptRec φ)) (ok : Bool) : Bool × Opt φ :=
  if ok then
    let zero : OptSet φ := ⟨⟨none, 0, LongDouble.zero⟩, false, false⟩
    (true, { self with rcs := self.rcs ++ [⟨r, List.replicate r.length zero⟩] })
  else (false, self)

def bySkey (o : ℤ) (a : OptRec φ) : Bool := a.sKey.toInt = o

/-- The first character of the key is positive, and the key is this one. -/
def byKey (k : List Octet) (a : OptRec φ) : Bool := (a.key.headD 0).toInt > 0 ∧ strcmp k a.key = 0

def store (self : Opt φ) (cur : ℕ × ℕ) (v : OptSet φ) (h : Memory) : Opt φ where
  rcs := self.rcs.modify cur.1 fun c => { c with vals := c.vals.set cur.2 v }
  heap := h

/-- `return parse_val(a, c->vals + i, s, fl)`. -/
def parseAt (self : Opt φ) (found : (ℕ × ℕ) × OptRec φ) (s : Option CStr) (fl : OptFlags) (ok : Bool) :
    Option (Bool × Opt φ) := do
  let v ← slotAt self.rcs found.1
  let r ← parseVal found.2 v s fl ok self.heap
  some (r.1, self.store found.1 r.2.1 r.2.2)

def parseSkey (self : Opt φ) (o : ℤ) (s : Option CStr) (fl : OptFlags) (ok : Bool) :
    Option (Bool × Opt φ) :=
  if self.rcs = [] ∨ o = 0 then some (false, self)
  else do
    match ← self.select (bySkey o) with
    | none => some (false, self)
    | some found => self.parseAt found s fl ok

/-- A key is a string that is not null. -/
def parseKey (self : Opt φ) (k : List Octet) (s : Option CStr) (fl : OptFlags) (ok : Bool) :
    Option (Bool × Opt φ) :=
  if self.rcs = [] ∨ k = [] then some (false, self)
  else do
    match ← self.select (byKey k) with
    | none => some (false, self)
    | some found => self.parseAt found s fl ok

def valueAt (self : Opt φ) (found : (ℕ × ℕ) × OptRec φ) : Option (OptRecVal φ) := do
  let v ← slotAt self.rcs found.1
  some (if v.isSet then v.val else found.2.defVal)

def getValSkey (self : Opt φ) (o : ℤ) : Option (Option (OptRecVal φ)) :=
  if self.rcs = [] ∨ o = 0 then some none
  else do
    match ← self.select (bySkey o) with
    | none => some none
    | some found => do
      let v ← self.valueAt found
      some (some v)

def getValKey (self : Opt φ) (k : List Octet) : Option (Option (OptRecVal φ)) :=
  if self.rcs = [] ∨ k = [] then some none
  else do
    match ← self.select (byKey k) with
    | none => some none
    | some found => do
      let v ← self.valueAt found
      some (some v)

def isSkey (self : Opt φ) (o : ℤ) : Option Bool :=
  if self.rcs = [] ∨ o = 0 then some false
  else do
    let found ← self.select (bySkey o)
    some found.isSome

def keyType (self : Opt φ) (k : List Octet) : Option OptType :=
  if self.rcs = [] ∨ k = [] then some .inv
  else do
    let found ← self.select (byKey k)
    some (found.elim .inv fun a => a.2.type)

/-- `free` releases the strings that the object owns. -/
def free (self : Opt φ) : Option Memory :=
  (self.rcs.flatMap fun c => c.rcs.zip c.vals).foldlM (fun h a => a.2.release h) self.heap

end Opt

end Values

/-- `opt_alloc`, in a memory. -/
def optAlloc {φ : Type} (h : Memory) : Opt φ where
  rcs := []
  heap := h

end Csptp
