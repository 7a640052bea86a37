import Csptp.Opt.Main

/-! # The command line (`cmdl.c`)

`cmd_base` sets options from the command line, and then from a configuration file that one of these
options names. What `getopt` finds, files, and memory are given from outside. As in the options, `none`
stands for undefined behaviour. -/
namespace Csptp
open Octets
set_option autoImplicit false

/-! ## Tables -/

def character (c : Char) : Octet := BitVec.ofNat 8 c.toNat

section Keys
variable {φ : Type} [LongDouble φ]

def OptRecVal.zero : OptRecVal φ := ⟨none, 0, LongDouble.zero⟩

/-- A string of the program. -/
def programStr (n : ℕ) (s : String) : CStr := ⟨.caller n, chars s⟩

def keyStr (key : String) (sKey : Char) (d : CStr) (maxLen : ℕ) : OptRec φ :=
  ⟨chars key, character sKey, .str, none, maxLen, { OptRecVal.zero with s := some d }, .zero, .zero⟩

def keyInt (key : String) (sKey : Char) (d min max : ℤ) : OptRec φ :=
  ⟨chars key, character sKey, .int, none, 0, { OptRecVal.zero with i := d }, { OptRecVal.zero with i := min },
    { OptRecVal.zero with i := max }⟩

def keyBool (key : String) (sKey : Char) (d : Bool) : OptRec φ :=
  ⟨chars key, character sKey, .bool, none, 0, { OptRecVal.zero with i := if d then 1 else 0 }, .zero, .zero⟩

def keyEnum (key : String) (sKey : Char) (d : ℤ) (func : ℤ → Option (List Octet)) (maxLen : ℕ) (min max : ℤ) :
    OptRec φ :=
  ⟨chars key, character sKey, .enum, some func, maxLen, { OptRecVal.zero with i := d },
    { OptRecVal.zero with i := min }, { OptRecVal.zero with i := max }⟩

def logEmerg : ℤ := 0
def logAlert : ℤ := 1
def logCrit : ℤ := 2
def logErr : ℤ := 3
def logWarning : ℤ := 4
def logNotice : ℤ := 5
def logInfo : ℤ := 6
def logDebug : ℤ := 7

def log2str (value : ℤ) : Option (List Octet) :=
  if value = logEmerg then some (chars "LOG_EMERG")
  else if value = logAlert then some (chars "LOG_ALERT")
  else if value = logCrit then some (chars "LOG_CRIT")
  else if value = logErr then some (chars "LOG_ERR")
  else if value = logWarning then some (chars "LOG_WARNING")
  else if value = logNotice then some (chars "LOG_NOTICE")
  else if value = logInfo then some (chars "LOG_INFO")
  else if value = logDebug then some (chars "LOG_DEBUG")
  else none

def baseOptions : List (OptRec φ) :=
  [keyBool "skip_syslog" 'y' false, keyBool "term_echo" 'e' false,
    keyStr "ifName" 'i' (programStr 0 "eth0") 0,
    keyEnum "log_level" 'l' logWarning log2str 12 logEmerg logDebug,
    keyStr "" 'f' (programStr 1 "") 0]

end Keys

/-! ## Reading options -/

section Options
variable {φ : Type} [LongDouble φ]

namespace Opt

/-- `GET_OPT_TRUE` -/
def getOptTrue (opt : Opt φ) (sk : Char) : Option Bool := do
  match ← opt.getValSkey sk.toNat with
  | some v => some (decide (v.i = 0))
  | none => some true

/-- `GET_OPT_FALSE` -/
def getOptFalse (opt : Opt φ) (sk : Char) : Option Bool := do
  match ← opt.getValSkey sk.toNat with
  | some v => some (decide (v.i ≠ 0))
  | none => some false

/-- `GET_OPT_INT` -/
def getOptInt (opt : Opt φ) (sk : Char) (d : ℤ) : Option ℤ := do
  match ← opt.getValSkey sk.toNat with
  | some v => some v.i
  | none => some d

/-- `GET_OPT_STR` -/
def getOptStr (opt : Opt φ) (sk : Char) : Option (Option CStr) := do
  match ← opt.getValSkey sk.toNat with
  | some v => some v.s
  | none => some none

end Opt

structure LogOptions where
  /-- An `int`. -/
  logLevel : BitVec 32
  useSysLog : Bool
  useEcho : Bool

/-- `setLog` returns whether the level is one. -/
def setLog (opt : LogOptions) : Bool :=
  ¬ (opt.logLevel.toInt > logDebug ∨ opt.logLevel.toInt < logEmerg)

/-- `_setLog` -/
def setLogFrom (opt : Opt φ) : Option Bool := do
  let useSysLog ← opt.getOptTrue 'y'
  let useEcho ← opt.getOptFalse 'e'
  let level ← opt.getOptInt 'l' logWarning
  some (setLog ⟨BitVec.ofInt 32 level, useSysLog, useEcho⟩)

/-! ## The callback for the file -/

/-- `cfg_rmStrQuote`; the value is a string without its terminating zero. -/
def rmStrQuote (v : List Octet) : Option (List Octet) :=
  if v.length ≥ valSize then none
  else if v.length > 2 ∧ (v.head? = some doubleQuote ∧ v.getLast? = some doubleQuote ∨
      v.head? = some singleQuote ∧ v.getLast? = some singleQuote) then some v.tail.dropLast
  else some v

/-- The string that a function of the library finds in these octets. -/
def untilZero (l : List Octet) : List Octet := l.takeWhile (· ≠ 0)

/-- A string in the memory that the parser uses for its keys and values. -/
def parserStr (text : List Octet) : CStr := ⟨.caller 2, text⟩

/-- What `key_f` passes on for a key of this type. -/
def keyVal (type : OptType) (val : List Octet) : Option CStr :=
  if type = .str then (rmStrQuote val).map parserStr else some (parserStr val)

/-- `key_f`, for an object; `ok` tells whether `strdup` gets memory. -/
def keyF (opt : Opt φ) (key val : List Octet) (ok : Bool) : Option (Bool × Opt φ) := do
  let type ← opt.keyType key
  if type = .inv then some (false, opt)
  else opt.parseKey key (keyVal type val) optStrDup ok

/-- The callback of the parser: its cookie is the object, or `none` after undefined behaviour, and the
number of calls so far. -/
def setKey (strdup : ℕ → Bool) (_ : Option Unit) (key val : List Octet) (ck : Option (Opt φ) × ℕ) :
    Bool × Option (Opt φ) × ℕ :=
  match ck.1.bind fun opt => keyF opt (untilZero key) (untilZero val) (strdup ck.2) with
  | none => (false, none, ck.2 + 1)
  | some (b, opt) => (b, some opt, ck.2 + 1)

/-! ## The base command line -/

/-- What a call of `getopt` gives: the option, its argument, which is a string of the caller's, and whether
the second character of the word is a question mark. -/
structure GetoptStep where
  o : ℤ
  optarg : Option (ℕ × List Octet)
  question : Bool

def GetoptStep.arg (g : GetoptStep) : Option CStr := g.optarg.map fun s => ⟨.caller s.1, s.2⟩

inductive CmdRet
  | err
  | ok
  | msg
deriving DecidableEq, Repr

/-- What the system does: whether there is memory, for the n-th `strdup` of the file too; the contents of
files; and where `getline` puts a line. -/
structure CmdSystem where
  opt : Bool
  base : Bool
  records : Bool
  getopt : Bool
  cfg : Bool
  strdup : ℕ → Bool
  file : List Octet → Option (List Octet)
  place : ℕ → Mem × ℕ

/-- The loop over the options of the command line. -/
def cmdLoop : List GetoptStep → Opt φ → Option (CmdRet × Opt φ)
  | [], opt => some (.ok, opt)
  | g :: args, opt =>
    if g.o = ':'.toNat then some (.err, opt)
    else if g.o = '?'.toNat ∧ g.question = false then some (.err, opt)
    else if g.o = '?'.toNat ∨ g.o = 'h'.toNat then some (.msg, opt)
    else if g.o = 'v'.toNat then some (.msg, opt)
    else do
      let known ← opt.isSkey g.o
      if known then do
        let r ← opt.parseSkey g.o g.arg optBoolDef true
        if r.1 then cmdLoop args r.2 else some (.err, r.2)
      else some (.err, opt)

/-- Parses the configuration file with this name. -/
def cmdFile (sys : CmdSystem) (cname : List Octet) (opt : Opt φ) : Option (CmdRet × Opt φ) :=
  if sys.cfg then do
    let c : Cfg Unit (Option (Opt φ) × ℕ) := ⟨none, setKey sys.strdup, none, (some opt, 0)⟩
    let r := c.parseFile sys.place (sys.file cname)
    let opt ← r.2.cookie.1
    if r.1 then do
      let logs ← setLogFrom opt
      some (if logs then .ok else .err, opt)
    else some (.err, opt)
  else none

/-- What is done after the command line. -/
def cmdConfig (sys : CmdSystem) (opt : Opt φ) : Option (CmdRet × Opt φ) := do
  let logs ← setLogFrom opt
  if logs then do
    match ← opt.getOptStr 'f' with
    | none => some (.ok, opt)
    | some cname =>
      if cname.block ∈ opt.heap.released then none
      else if cname.text = [] then some (.ok, opt)
      else cmdFile sys cname.text opt
  else some (.err, opt)

/-- What is done with a new object. -/
def cmdOptions (sys : CmdSystem) (rcs : List (OptRec φ)) (args : List GetoptStep) (opt : Opt φ) :
    Option (CmdRet × Opt φ) :=
  let r := opt.addRecords baseOptions sys.base
  if r.1 = false then some (.err, r.2)
  else
    let r := r.2.addRecords rcs sys.records
    if r.1 = false then some (.err, r.2)
    else if sys.getopt = false then some (.err, r.2)
    else do
      let r ← cmdLoop args r.2
      if r.1 = .ok then cmdConfig sys r.2 else some r

/-- `cmd_base`: the object is returned when all went well, and freed otherwise. -/
def cmdBase (sys : CmdSystem) (rcs : List (OptRec φ)) (args : List GetoptStep) :
    Option (CmdRet × Option (Opt φ)) :=
  if sys.opt then do
    let r ← cmdOptions sys rcs args (optAlloc Memory.init)
    if r.1 = .ok then some (.ok, some r.2)
    else do
      let _ ← r.2.free
      some (r.1, none)
  else some (.err, none)

end Options

end Csptp
