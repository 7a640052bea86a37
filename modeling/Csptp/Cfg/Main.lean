import Csptp.Octets.Text

/-! # The configuration file parser (`cfg.c`)

A line lies in a text in memory, whose terminating zero is at `textEnd`: the scans of the C library end
there at the latest. Lengths and last positions are of type `size_t`. -/
namespace Csptp
open Octets Octets.Prog
set_option autoImplicit false

def secKeySize : ℕ := 64
def valSize : ℕ := 1024

/-! ## Characters -/

def equalSign : Octet := 0x3d
def openBracket : Octet := 0x5b
def closeBracket : Octet := 0x5d
def numberSign : Octet := 0x23
def doubleQuote : Octet := 0x22
def singleQuote : Octet := 0x27
def lineFeed : Octet := 0x0a
def carriageReturn : Octet := 0x0d

/-- In the C locale, which the program does not leave. -/
def isspace (c : Octet) : Bool := c = 0x20 || (9 ≤ c.toNat && c.toNat ≤ 13)

/-! ## Parts of a line -/

/-- What a line comes to: the strings that were copied from it, and the callback that gets them. -/
inductive ParsedLine
  | ignored
  | refused (key : Option (List Octet))
  | setSection (name : List Octet)
  | setKey (key val : List Octet)
deriving DecidableEq, Repr

/-- `while(*line != 0 && len > 0 && isspace(*line))`: the octet is tested before the length. -/
def stripLeading (len line : ℕ) : Prog (ℕ × ℕ) := do
  let r ← skipWhile (fun c => c ≠ 0 && isspace c) len line
  if r.2 = 0 then do
    let _ ← octetAt r.1
    pure r
  else pure r

/-- A string with last position `l` begins and ends with this character. -/
def quotedBy (q : Octet) (s l : ℕ) : Prog Bool := do
  let first ← octetAt s
  if first = q then do
    let last ← octetAt (s + l)
    pure (last = q)
  else pure false

def quoted (s l : ℕ) : Prog Bool := do
  let double ← quotedBy doubleQuote s l
  if double then pure true else quotedBy singleQuote s l

/-- Strips quotation marks from the string with last position `l`. -/
def stripQuotes (s l : ℕ) : Prog (ℕ × ℕ) :=
  if l > 1 then do
    let q ← quoted s l
    if q then do
      let l ← subSize l 2
      pure (s + 1, l)
    else pure (s, l)
  else pure (s, l)

def parseSection (sec l : ℕ) : Prog ParsedLine := do
  let r ← stripLeading l sec
  let c ← octetAt r.1
  if c = 0 ∨ r.2 = 0 then pure (.refused none)
  else do
    let l ← subSize r.2 1
    let l ← stripWhile isspace r.1 l
    let c ← octetAt (r.1 + l)
    if c ≠ closeBracket then pure (.refused none)
    else do
      let l ← subSize l 1
      let l ← stripWhile isspace r.1 l
      let q ← stripQuotes r.1 l
      if succSize q.2 ≥ secKeySize then pure (.refused none)
      else do
        let b ← loadOctets q.1 (succSize q.2)
        pure (.setSection b)

/-- The value in the `len` octets behind the equal sign of this key. -/
def parseVal (key : List Octet) (v len : ℕ) : Prog ParsedLine := do
  let r ← skipWhile isspace len v
  let c ← octetAt r.1
  if c = 0 ∨ r.2 = 0 then pure (.refused (some key))
  else do
    let l ← subSize r.2 1
    let l ← stripWhile isspace r.1 l
    if succSize l ≥ valSize then pure (.refused (some key))
    else do
      let val ← loadOctets r.1 (succSize l)
      pure (.setKey key val)

/-- The key in front of the equal sign at `v`, and the value. -/
def parseKeyAt (line len v : ℕ) : Prog ParsedLine := do
  let l ← subSize v line
  let len ← subSize len l
  let l ← subSize l 1
  let l ← stripWhile isspace line l
  let q ← stripQuotes line l
  if succSize q.2 ≥ secKeySize then pure (.refused none)
  else do
    let key ← loadOctets q.1 (succSize q.2)
    let len ← subSize len 1
    parseVal key (v + 1) len

def parseKeyVal (textEnd line len : ℕ) : Prog ParsedLine := do
  let v ← strchr equalSign (textEnd + 1 - line) line
  match v with
  | none => pure (.refused none)
  | some v => parseKeyAt line len v

/-! ## Lines -/

/-- A length of zero stands for the length of the string. -/
def lineLen (textEnd line len : ℕ) : Prog ℕ :=
  if len = 0 then strlen (textEnd + 1 - line) line else pure len

/-- `hasSection` tells whether there is a callback for sections. -/
def parseLine (hasSection : Bool) (textEnd line len : ℕ) : Prog ParsedLine := do
  let len ← lineLen textEnd line len
  let r ← stripLeading len line
  if r.2 = 0 then pure .ignored
  else do
    let c ← octetAt r.1
    if c = 0 ∨ c = numberSign then pure .ignored
    else if c = openBracket then
      if hasSection then do
        let len ← subSize r.2 1
        parseSection (r.1 + 1) len
      else pure (.refused none)
    else parseKeyVal textEnd r.1 r.2

/-- `struct cfg_t`: sections are of type `σ` and the cookie, which the callbacks may change, is of type
`κ`. -/
structure Cfg (σ κ : Type) where
  setSection : Option (List Octet → κ → Option σ × κ)
  setKey : Option σ → List Octet → List Octet → κ → Bool × κ
  curSec : Option σ
  cookie : κ

namespace Cfg
variable {σ κ : Type}

/-- The call of a callback, and what the line returns. -/
def call (self : Cfg σ κ) : ParsedLine → Bool × Cfg σ κ
  | .ignored => (true, self)
  | .refused _ => (false, self)
  | .setSection name =>
    match self.setSection with
    | none => (false, self)
    | some f =>
      match f name self.cookie with
      | (none, cookie) => (false, { self with cookie := cookie })
      | (some sec, cookie) => (true, { self with curSec := some sec, cookie := cookie })
  | .setKey key val =>
    let r := self.setKey self.curSec key val self.cookie
    (r.1, { self with cookie := r.2 })

def parseLine (self : Cfg σ κ) (textEnd line len : ℕ) : Prog (Bool × Cfg σ κ) := do
  let r ← Csptp.parseLine self.setSection.isSome textEnd line len
  pure (self.call r)

/-! ## Texts -/

/-- The loop of `parseBuf`, for this many passes. Characters are signed, and a null pointer is 0. -/
def parseBufLoop (textEnd : ℕ) : ℕ → ℕ → Cfg σ κ → Prog (Option (Bool × Cfg σ κ))
  | 0, _, _ => pure none
  | n + 1, last, self => do
    let c ← octetAt last
    if c.toInt > 0 then do
      let stop ← strpbrk [carriageReturn, lineFeed] (textEnd + 1 - last) last
      let stop := stop.getD 0
      let l ← subSize stop last
      if l > 0 then do
        let r ← self.parseLine textEnd last l
        if r.1 then parseBufLoop textEnd n (stop + 1) r.2 else pure (some r)
      else parseBufLoop textEnd n (stop + 1) self
    else pure (some (true, self))

def parseBuf (self : Cfg σ κ) (textEnd passes buf : ℕ) : Prog (Option (Bool × Cfg σ κ)) :=
  parseBufLoop textEnd passes buf self

/-- What the calls of `getline` return for a file: its lines, with their line feeds. -/
def fileLines : List Octet → List (List Octet)
  | [] => []
  | c :: text =>
    if c = lineFeed then [c] :: fileLines text
    else match fileLines text with
      | [] => [[c]]
      | line :: rest => (c :: line) :: rest

/-- The loop of `parseFile`: `getline` writes a line, with a zero behind it, to an address and into a
memory that are given for each of its calls. -/
def parseFileLoop (place : ℕ → Mem × ℕ) : ℕ → List (List Octet) → Cfg σ κ → Bool × Cfg σ κ
  | _, [], self => (true, self)
  | i, text :: rest, self =>
    let line := (place i).2
    let m := blit (place i).1 line (text ++ [0])
    let r := ((self.parseLine (line + text.length) line text.length).run m).1
    if r.1 then parseFileLoop place (i + 1) rest r.2 else r

/-- The contents of the file, or `none` if it cannot be opened. -/
def parseFile (self : Cfg σ κ) (place : ℕ → Mem × ℕ) : Option (List Octet) → Bool × Cfg σ κ
  | none => (false, self)
  | some text => parseFileLoop place 0 (fileLines text) self

end Cfg
end Csptp
