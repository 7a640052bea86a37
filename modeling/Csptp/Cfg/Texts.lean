import Csptp.Cfg.Reading
import Csptp.Octets.Touched

/-! # Texts of several lines

The lines of a text are what stands between its line breaks. To parse a text line by line is to call
`parseLine` for each line that is not empty, up to the first that is refused. -/
namespace Csptp
open Octets Octets.Prog
set_option autoImplicit false

/-! ## The lines of a text -/

def IsBreak (c : Octet) : Prop := c = carriageReturn ∨ c = lineFeed

instance (c : Octet) : Decidable (IsBreak c) := inferInstanceAs (Decidable (_ ∨ _))

/-- Where the lines of a text are and how long, when `len` characters of the first one, which begins at
`line`, come in front of this text. -/
def lineSpans : ℕ → ℕ → List Octet → List (ℕ × ℕ)
  | line, len, [] => if len = 0 then [] else [(line, len)]
  | line, len, c :: text =>
    if IsBreak c then
      if len = 0 then lineSpans (line + 1) 0 text else (line, len) :: lineSpans (line + len + 1) 0 text
    else lineSpans line (len + 1) text

theorem lineSpans_append {s rest : List Octet} (h : ∀ c ∈ s, ¬ IsBreak c) (line len : ℕ) :
    lineSpans line len (s ++ rest) = lineSpans line (len + s.length) rest := by
  induction s generalizing len with
  | nil => rfl
  | cons c s ih =>
    rw [List.cons_append, lineSpans, if_neg (h c List.mem_cons_self),
      ih (fun x hx => h x (List.mem_cons_of_mem _ hx)), List.length_cons]
    congr 1
    omega

/-! ## Parsing them -/

/-- A call of a callback with its arguments. -/
inductive CfgCall (σ : Type)
  | setSection (name : List Octet)
  | setKey (sec : Option σ) (key val : List Octet)
deriving DecidableEq

namespace Cfg
variable {σ κ : Type}

/-- The same parser, whose callbacks also write down how they were called. -/
def recording (self : Cfg σ κ) : Cfg σ (κ × List (CfgCall σ)) where
  setSection := self.setSection.map fun f name ck =>
    ((f name ck.1).1, (f name ck.1).2, ck.2 ++ [.setSection name])
  setKey sec key val ck :=
    ((self.setKey sec key val ck.1).1, (self.setKey sec key val ck.1).2, ck.2 ++ [.setKey sec key val])
  curSec := self.curSec
  cookie := (self.cookie, [])

/-- `parseLine` for each of these lines, up to the first that is refused. -/
def parseLines (textEnd : ℕ) (m : Mem) : List (ℕ × ℕ) → Cfg σ κ → Bool × Cfg σ κ
  | [], self => (true, self)
  | (line, len) :: rest, self =>
    let r := ((self.parseLine textEnd line len).run m).1
    if r.1 then parseLines textEnd m rest r.2 else r

end Cfg

/-- A text in a buffer at `buf`, which ends with a zero at `textEnd`. Addresses have 64 bits, neither the
first two nor the last one belong to the buffer, and it is no larger than a difference of pointers. -/
structure TextBuf (m : Mem) (textEnd buf : ℕ) : Prop where
  wraps : ∀ o, m (o + 2 ^ 64) = m o
  inText : ∀ o, buf ≤ o → o < textEnd → m o ≠ 0
  zero : m textEnd = 0
  le : buf ≤ textEnd
  low : 1 < buf
  high : textEnd + 1 < 2 ^ 64
  size : textEnd < buf + 2 ^ 63

/-- The characters of a text. -/
def textOf (m : Mem) (textEnd buf : ℕ) : List Octet := region m buf (textEnd - buf)

/-- An access inside the buffer. -/
def InBuf (textEnd buf o : ℕ) : Prop := buf ≤ o % 2 ^ 64 ∧ o % 2 ^ 64 ≤ textEnd

/-! ## Lines whose end does not matter -/

/-- This key line is refused before the parser looks for the end of its value. -/
def KeyRefused (s : List Octet) : Prop :=
  s.head? = some equalSign ∨ equalSign ∉ s ∨
    secKeySize ≤ (unquote ((s.takeWhile isKeyChar).rdropWhile isspace)).length ∨
    Blank (s.dropWhile isKeyChar).tail

instance (s : List Octet) : Decidable (KeyRefused s) :=
  inferInstanceAs (Decidable (_ ∨ _ ∨ _ ∨ _))

/-- This line is refused before the parser looks for its end. -/
def LineRefused (hasSection : Bool) (line : List Octet) : Prop :=
  match line.dropWhile isspace with
  | [] => False
  | c :: rest =>
    c ≠ numberSign ∧ if c = openBracket then hasSection = true → Blank rest else KeyRefused (c :: rest)

/-! ## Texts that are parsed by lines -/

/-- `parseBuf` comes to its end, stays inside the buffer, and does what calling `parseLine` for each line
does: the same calls of the callbacks with the same arguments, and the same result. -/
def LineWise {σ κ : Type} (self : Cfg σ κ) (m : Mem) (textEnd buf : ℕ) : Prop :=
  ∃ passes,
    (self.recording.parseBuf textEnd passes buf).run m =
      (some (self.recording.parseLines textEnd m (lineSpans buf 0 (textOf m textEnd buf))), m) ∧
    Stays (InBuf textEnd buf) (self.recording.parseBuf textEnd passes buf) m

/-- A line at which `parseBuf` does what it should: the first character is no negative number; a line that
begins with the equal sign has more than blanks in front of it in the text; and a line that no line break
ends is refused anyway. -/
structure LineReadable (hasSection : Bool) (m : Mem) (buf line len : ℕ) : Prop where
  positive : (m line).toInt > 0
  noSign : Blank (region m buf (line - buf)) →
    ((region m line len).dropWhile isspace).head? ≠ some equalSign
  ended : m (line + len) = 0 → LineRefused hasSection (region m line len)

/-- All lines are so, up to the first one that is refused. -/
def Cfg.Readable {σ κ : Type} (textEnd buf : ℕ) (m : Mem) : List (ℕ × ℕ) → Cfg σ κ → Prop
  | [], _ => True
  | (line, len) :: rest, self =>
    LineReadable self.setSection.isSome m buf line len ∧
      let r := ((self.parseLine textEnd line len).run m).1
      r.1 = true → Cfg.Readable textEnd buf m rest r.2

end Csptp
