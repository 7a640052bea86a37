import Csptp.Cfg.Files
import Csptp.Cmdl.Main
import Csptp.Opt.First

/-! # Settings from the command line and the file

`cmd_base` makes one call for each option of the command line, from left to right, and then one for each
line of the file that sets a key. So each option keeps what the first of them says. -/
namespace Csptp
open Octets
set_option autoImplicit false

/-! ## The lines of a file -/

namespace Cfg
variable {σ κ : Type}

/-- What the parser makes of these lines, the first of which is the `i`-th of the file. -/
def parsedLines (hasSection : Bool) (place : ℕ → Mem × ℕ) : ℕ → List (List Octet) → List ParsedLine
  | _, [] => []
  | i, text :: rest =>
    let line := (place i).2
    let m := blit (place i).1 line (text ++ [0])
    ((Csptp.parseLine hasSection (line + text.length) line text.length).run m).1 ::
      parsedLines hasSection place (i + 1) rest

/-- The callbacks for these lines, up to the first that fails. -/
def callAll : List ParsedLine → Cfg σ κ → Bool × Cfg σ κ
  | [], self => (true, self)
  | line :: rest, self =>
    let r := self.call line
    if r.1 then callAll rest r.2 else r

theorem call_setSection (self : Cfg σ κ) (line : ParsedLine) :
    (self.call line).2.setSection = self.setSection := by
  cases line with
  | ignored => rfl
  | refused => rfl
  | setKey => rfl
  | setSection name =>
    rw [call]
    split
    · rfl
    · split <;> rfl

theorem parseFileLoop_callAll {place : ℕ → Mem × ℕ} {i : ℕ} {lines : List (List Octet)}
    {self : Cfg σ κ} : parseFileLoop place i lines self =
      callAll (parsedLines self.setSection.isSome place i lines) self := by
  induction lines generalizing i self with
  | nil => rfl
  | cons text rest ih =>
    rw [parseFileLoop, parsedLines, callAll, run_cfg_parseLine]
    dsimp only
    rw [ih, call_setSection]

end Cfg

section Settings
variable {φ : Type} {opt opt' fresh : Opt φ}

/-! ## The settings -/

/-- The call for an option of the command line. -/
def cmdCall (g : GetoptStep) : ParseCall := ⟨.short g.o, g.arg, optBoolDef, true⟩

/-- The type of a key, or `CFG_INV`. -/
def typeOf (opt : Opt φ) (key : List Octet) : OptType :=
  (opt.target (.name key)).elim .inv fun e => e.2.type

/-- The calls for the lines of a file, of which the first that sets a key is the `n`-th to do so. -/
def fileCalls (fresh : Opt φ) (strdup : ℕ → Bool) : ℕ → List ParsedLine → List ParseCall
  | _, [] => []
  | n, .setKey key val :: rest =>
    ⟨.name (untilZero key), keyVal (typeOf fresh (untilZero key)) (untilZero val), optStrDup, strdup n⟩ ::
      fileCalls fresh strdup (n + 1) rest
  | n, _ :: rest => fileCalls fresh strdup n rest

/-- The name of the file: the first on the command line, if there is one. -/
def cfgName (args : List GetoptStep) : List Octet :=
  ((args.find? fun g => g.o = ('f'.toNat : ℤ)).bind fun g => g.optarg).elim [] fun s => s.2

/-- The calls for the file. -/
def configCalls (sys : CmdSystem) (fresh : Opt φ) (cname : List Octet) : List ParseCall :=
  if cname = [] then []
  else (sys.file cname).elim [] fun text =>
    fileCalls fresh sys.strdup 0 (Cfg.parsedLines false sys.place 0 (Cfg.fileLines text))

/-- All calls, in their order. -/
def settings (sys : CmdSystem) (fresh : Opt φ) (args : List GetoptStep) : List ParseCall :=
  args.map cmdCall ++ configCalls sys fresh (cfgName args)

theorem flags_fileCalls {strdup : ℕ → Bool} {lines : List ParsedLine} {n : ℕ} :
    ∀ c ∈ fileCalls fresh strdup n lines, c.fl = optStrDup := by
  induction lines generalizing n with
  | nil => exact fun c hc => absurd hc List.not_mem_nil
  | cons line rest ih =>
    cases line with
    | ignored => exact ih
    | refused => exact ih
    | setSection => exact ih
    | setKey key val => exact List.forall_mem_cons.mpr ⟨rfl, ih⟩

theorem flags_configCalls {sys : CmdSystem} {cname : List Octet} :
    ∀ c ∈ configCalls sys fresh cname, c.fl = optStrDup := by
  rw [configCalls]
  split
  · exact fun c hc => absurd hc List.not_mem_nil
  · cases sys.file cname with
    | none => exact fun c hc => absurd hc List.not_mem_nil
    | some text => exact flags_fileCalls

theorem flags_settings {sys : CmdSystem} {args : List GetoptStep} :
    ∀ c ∈ settings sys fresh args, c.fl = optBoolDef ∨ c.fl = optStrDup := by
  intro c hc
  rcases List.mem_append.mp hc with hc | hc
  · obtain ⟨g, -, rfl⟩ := List.mem_map.mp hc
    exact .inl rfl
  · exact .inr (flags_configCalls c hc)

/-- No setting replaces another, and none has two flags for strings. -/
theorem flags_plain {c : ParseCall} (h : c.fl = optBoolDef ∨ c.fl = optStrDup) :
    c.fl &&& optReplace = 0 ∧ c.fl &&& optStrMask ≠ optStrMask := by
  rcases h with h | h
  · rw [h]
    decide
  · rw [h]
    decide

/-- No option of the command line is duplicated. -/
theorem not_short_cmdCall (a : OptRec φ) (g : GetoptStep) : ¬ Short a (cmdCall g) := by
  intro hshort
  have hmask : optBoolDef &&& optStrMask = optStrDup := hshort.2.1
  exact absurd hmask (by decide)

/-! ## Keys -/

theorem keyType_eq (hf : Formed opt.rcs) (key : List Octet) : opt.keyType key = some (typeOf opt key) :=
  select_guarded hf (key = []) (Opt.byKey key) rfl

/-- Only one character selects a record by its short key. -/
theorem target_short_inj {o o' : ℤ} {cur : ℕ × ℕ} {a a' : OptRec φ}
    (h : opt.target (.short o) = some (cur, a)) (h' : opt.target (.short o') = some (cur, a')) : o = o' := by
  have hrec := Opt.recAt_of_target h
  rw [Opt.recAt_of_target h'] at hrec
  cases hrec
  rw [Opt.target] at h h'
  split at h
  · exact absurd h (by simp)
  split at h'
  · exact absurd h' (by simp)
  have hkey := List.find?_some h
  have hkey' := List.find?_some h'
  simp only [Opt.bySkey, decide_eq_true_eq] at hkey hkey'
  exact hkey.symm.trans hkey'

/-! ## The command line -/

variable [LongDouble φ]

/-- What the loop over the command line sets. -/
theorem runTrue_cmdLoop {args : List GetoptStep} (h : cmdLoop args opt = some (.ok, opt')) :
    opt.runTrue (args.map cmdCall) = some opt' := by
  induction args generalizing opt with
  | nil =>
    cases h
    rfl
  | cons g args ih =>
    rw [cmdLoop] at h
    split at h
    · exact absurd h (by simp)
    split at h
    · exact absurd h (by simp)
    split at h
    · exact absurd h (by simp)
    split at h
    · exact absurd h (by simp)
    simp only [Option.bind_eq_bind, Option.bind_eq_some_iff] at h
    obtain ⟨known, -, h⟩ := h
    split at h
    · simp only [Option.bind_eq_some_iff] at h
      obtain ⟨⟨b, opt₁⟩, hcall, h⟩ := h
      split at h
      · rename_i hb
        rw [List.map_cons, Opt.runTrue]
        have hcall : opt.call (cmdCall g) = some (b, opt₁) := hcall
        rw [hcall, Option.bind_eq_bind, Option.bind_some, if_pos hb]
        exact ih h
      · exact absurd h (by simp)
    · exact absurd h (by simp)

/-! ## The file -/

/-- A line of the file that sets a key. -/
theorem call_setKey {strdup : ℕ → Bool} {sec : Option Unit} {key val : List Octet} {n : ℕ}
    {ck : Option (Opt φ) × ℕ} (hf : Formed opt.rcs)
    (h : setKey strdup sec key val (some opt, n) = (true, ck)) : ∃ opt₁, ck = (some opt₁, n + 1) ∧
      opt.call ⟨.name (untilZero key), keyVal (typeOf opt (untilZero key)) (untilZero val), optStrDup,
        strdup n⟩ = some (true, opt₁) := by
  rw [setKey, Option.bind_some, keyF, keyType_eq hf, Option.bind_eq_bind, Option.bind_some] at h
  split at h
  · exact absurd h (by simp)
  · rename_i b opt₁ hkey
    obtain ⟨rfl, rfl⟩ := Prod.mk.inj h
    refine ⟨opt₁, rfl, ?_⟩
    split at hkey
    · exact absurd hkey (by simp)
    · exact hkey

/-- What the lines of the file set. -/
theorem runTrue_callAll {strdup : ℕ → Bool} {lines : List ParsedLine}
    {c c' : Cfg Unit (Option (Opt φ) × ℕ)} {n : ℕ} (h : Cfg.callAll lines c = (true, c'))
    (hsec : c.setSection = none) (hkey : c.setKey = setKey strdup) (hcookie : c.cookie = (some opt, n))
    (hf : Formed opt.rcs) (hsame : SameRecords opt fresh) :
    ∃ opt', c'.cookie.1 = some opt' ∧ opt.runTrue (fileCalls fresh strdup n lines) = some opt' := by
  induction lines generalizing c opt n with
  | nil =>
    cases h
    exact ⟨opt, by rw [hcookie], rfl⟩
  | cons line rest ih =>
    rw [Cfg.callAll] at h
    cases line with
    | ignored => exact ih h hsec hkey hcookie hf hsame
    | refused => exact absurd h (by simp [Cfg.call])
    | setSection =>
      rw [Cfg.call, hsec] at h
      exact absurd h (by simp)
    | setKey key val =>
      rw [Cfg.call, hkey, hcookie] at h
      dsimp only at h
      split at h
      · rename_i htrue
        obtain ⟨opt₁, hck, hcall⟩ := call_setKey hf (Prod.ext htrue rfl)
        have hcalled := call_called hf hcall
        obtain ⟨opt', hopt', hrun⟩ := ih h hsec rfl hck (called_formed hf hcalled)
          ((called_same hcalled).trans hsame)
        refine ⟨opt', hopt', ?_⟩
        have htype : typeOf fresh = typeOf opt := by
          funext k
          rw [typeOf, typeOf, hsame.target]
        rw [fileCalls, Opt.runTrue, htype, hcall]
        exact hrun
      · rename_i hfalse
        exact absurd (congrArg Prod.fst h) hfalse

/-! ## The name of the file -/

variable {rcs : List (OptRec φ)} {args : List GetoptStep}

theorem target_file : (Opt.withRecords [baseOptions, rcs]).target (.short 'f'.toNat) =
    some ((0, 4), keyStr "" 'f' (programStr 1 "") 0) := by
  rfl

omit [LongDouble φ] in
theorem getOptStr_eq (hf : Formed opt.rcs) {sk : Char} {cur : ℕ × ℕ} {a : OptRec φ} {w : OptRecVal φ}
    (htarget : opt.target (.short sk.toNat) = some (cur, a)) (hw : opt.valueAt (cur, a) = some w) :
    opt.getOptStr sk = some w.s := by
  have hval : opt.getValSkey sk.toNat = opt.getVal (.short sk.toNat) := rfl
  rw [Opt.getOptStr, hval, Opt.getVal_eq hf, htarget]
  dsimp only
  rw [hw]
  rfl

/-- On the command line, the first file is the one that counts. -/
theorem firstSetting_file :
    firstSetting (Opt.withRecords [baseOptions, rcs]) (0, 4) (args.map cmdCall) =
      (args.find? fun g => g.o = ('f'.toNat : ℤ)).map cmdCall := by
  rw [firstSetting, List.find?_map]
  congr 2
  funext g
  rw [Bool.eq_iff_iff, Function.comp_apply, decide_eq_true_eq, Option.any_eq_true]
  constructor
  · rintro ⟨⟨cur, a⟩, hg, hcur⟩
    have hcur : cur = (0, 4) := of_decide_eq_true hcur
    subst hcur
    have hrec := Opt.recAt_of_target hg
    rw [Opt.recAt_of_target target_file] at hrec
    cases hrec
    exact target_short_inj hg target_file
  · intro ho
    refine ⟨((0, 4), keyStr "" 'f' (programStr 1 "") 0), ?_, decide_eq_true rfl⟩
    rw [cmdCall, ho]
    exact target_file

/-- The name that is read after the command line. -/
theorem getOptStr_file (hrcs : rcs ≠ [])
    (h : (Opt.withRecords [baseOptions, rcs]).runTrue (args.map cmdCall) = some opt) :
    ∃ b, opt.getOptStr 'f' = some (some ⟨b, cfgName args⟩) := by
  have harrays : ∀ r ∈ [baseOptions, rcs], r ≠ [] := by simpa [baseOptions] using hrcs
  have hfl : ∀ c ∈ args.map cmdCall, c.fl &&& optReplace = 0 ∧ c.fl &&& optStrMask ≠ optStrMask := by
    intro c hc
    obtain ⟨g, -, rfl⟩ := List.mem_map.mp hc
    exact flags_plain (.inl rfl)
  obtain ⟨hsame, hformed⟩ := run_same (formed_withRecords harrays) h
  obtain ⟨w, hw, hfirst⟩ := first_value harrays hfl h (Opt.recAt_of_target target_file)
  rw [getOptStr_eq hformed ((hsame.target _).trans target_file) hw]
  rw [firstSetting_file] at hfirst
  rw [cfgName]
  cases hfind : args.find? fun g => g.o = ('f'.toNat : ℤ) with
  | none =>
    rw [hfind] at hfirst
    rw [hfirst]
    exact ⟨_, rfl⟩
  | some g =>
    rw [hfind] at hfirst
    cases hfirst.mpr (not_short_cmdCall _ g) with
    | number hi => exact absurd hi (not_numeric_of_str rfl)
    | float hfloat => exact absurd hfloat (by simp [keyStr])
    | @str t u _ hs _ hw htext =>
      obtain ⟨s, harg, rfl⟩ := Option.map_eq_some_iff.mp hs
      have htext : u.text = s.2 := htext
      rw [hw]
      refine ⟨u.block, ?_⟩
      rw [Option.bind_some, harg, Option.elim_some, ← htext]

/-! ## The whole -/

variable {sys : CmdSystem}

theorem cmdOptions_ok (h : cmdOptions sys rcs args (optAlloc Memory.init) = some (.ok, opt')) :
    ∃ opt, cmdLoop args (Opt.withRecords [baseOptions, rcs]) = some (.ok, opt) ∧
      cmdConfig sys opt = some (.ok, opt') := by
  rw [cmdOptions] at h
  dsimp only at h
  split at h
  · exact absurd h (by simp)
  rename_i hbase
  split at h
  · exact absurd h (by simp)
  rename_i hrecords
  split at h
  · exact absurd h (by simp)
  simp only [Option.bind_eq_bind, Option.bind_eq_some_iff] at h
  obtain ⟨⟨ret, opt⟩, hloop, h⟩ := h
  -- the memory for both arrays was there
  cases hb : sys.base with
  | false =>
    rw [hb] at hbase
    exact absurd rfl hbase
  | true =>
    cases hr : sys.records with
    | false =>
      rw [hr] at hrecords
      exact absurd rfl hrecords
    | true =>
      rw [hb, hr] at hloop
      split at h
      · rename_i hret
        have hret : ret = .ok := hret
        subst hret
        exact ⟨opt, hloop, h⟩
      · rename_i hret
        cases h
        exact absurd rfl hret

theorem cmdBase_ok (h : cmdBase sys rcs args = some (.ok, some opt')) :
    ∃ opt, cmdLoop args (Opt.withRecords [baseOptions, rcs]) = some (.ok, opt) ∧
      cmdConfig sys opt = some (.ok, opt') := by
  rw [cmdBase] at h
  split at h
  · simp only [Option.bind_eq_bind, Option.bind_eq_some_iff] at h
    obtain ⟨⟨ret, opt₁⟩, hoptions, h⟩ := h
    split at h
    · rename_i hret
      have hret : ret = .ok := hret
      subst hret
      cases h
      exact cmdOptions_ok hoptions
    · simp only [Option.bind_eq_some_iff] at h
      obtain ⟨_, -, h⟩ := h
      exact absurd h (by simp)
  · exact absurd h (by simp)

theorem runTrue_cmdFile (hf : Formed opt.rcs) (hsame : SameRecords opt fresh) {cname : List Octet}
    (h : cmdFile sys cname opt = some (.ok, opt')) : ∃ text, sys.file cname = some text ∧
      opt.runTrue (fileCalls fresh sys.strdup 0 (Cfg.parsedLines false sys.place 0 (Cfg.fileLines text))) =
        some opt' := by
  rw [cmdFile] at h
  split at h
  · simp only [Option.bind_eq_bind, Option.bind_eq_some_iff] at h
    obtain ⟨opt₁, hcookie, h⟩ := h
    split at h
    · rename_i htrue
      simp only [Option.bind_eq_some_iff] at h
      obtain ⟨logs, -, h⟩ := h
      obtain ⟨-, rfl⟩ := Prod.mk.inj (Option.some.inj h)
      cases hfile : sys.file cname with
      | none =>
        rw [hfile] at htrue
        exact absurd htrue (by simp [Cfg.parseFile])
      | some text =>
        rw [hfile, Cfg.parseFile, Cfg.parseFileLoop_callAll] at htrue hcookie
        obtain ⟨opt₂, hopt₂, hrun⟩ := runTrue_callAll (Prod.ext htrue rfl) rfl rfl rfl hf hsame
        rw [hcookie] at hopt₂
        cases hopt₂
        exact ⟨text, rfl, hrun⟩
    · exact absurd h (by simp)
  · exact absurd h (by simp)

/-- What the file sets, if there is one. -/
theorem runTrue_cmdConfig (hf : Formed opt.rcs) (hsame : SameRecords opt fresh) {b : Block}
    {cname : List Octet} (hname : opt.getOptStr 'f' = some (some ⟨b, cname⟩))
    (h : cmdConfig sys opt = some (.ok, opt')) :
    opt.runTrue (configCalls sys fresh cname) = some opt' := by
  simp only [cmdConfig, Option.bind_eq_bind, Option.bind_eq_some_iff] at h
  obtain ⟨logs, -, h⟩ := h
  split at h
  · rw [hname, Option.bind_some] at h
    dsimp only at h
    split at h
    · exact absurd h (by simp)
    rw [configCalls]
    split at h
    · rename_i hempty
      cases h
      rw [if_pos hempty]
      rfl
    · rename_i hempty
      obtain ⟨text, hfile, hrun⟩ := runTrue_cmdFile hf hsame h
      rw [if_neg hempty, hfile]
      exact hrun
  · exact absurd h (by simp)

/-- What the command line sets, and then the file. -/
theorem runTrue_parts (hrcs : rcs ≠ []) (h : cmdBase sys rcs args = some (.ok, some opt')) :
    ∃ opt, cmdLoop args (Opt.withRecords [baseOptions, rcs]) = some (.ok, opt) ∧
      (Opt.withRecords [baseOptions, rcs]).runTrue (args.map cmdCall) = some opt ∧
      opt.runTrue (configCalls sys (Opt.withRecords [baseOptions, rcs]) (cfgName args)) = some opt' := by
  obtain ⟨opt, hloop, hconfig⟩ := cmdBase_ok h
  have hrun := runTrue_cmdLoop hloop
  have hformed : Formed (Opt.withRecords [baseOptions, rcs]).rcs :=
    formed_withRecords (by simpa [baseOptions] using hrcs)
  obtain ⟨hsame, hformed'⟩ := run_same hformed hrun
  obtain ⟨b, hname⟩ := getOptStr_file hrcs hrun
  exact ⟨opt, hloop, hrun, runTrue_cmdConfig hformed' hsame hname hconfig⟩

/-- All settings of a command line that is accepted. -/
theorem runTrue_settings (hrcs : rcs ≠ []) (h : cmdBase sys rcs args = some (.ok, some opt')) :
    (Opt.withRecords [baseOptions, rcs]).runTrue
      (settings sys (Opt.withRecords [baseOptions, rcs]) args) = some opt' := by
  obtain ⟨opt, -, hcmd, hconfig⟩ := runTrue_parts hrcs h
  rw [settings, runTrue_append, hcmd, Option.bind_some]
  exact hconfig

/-- Each option has the value of its first setting, from the command line and then from the file, or its
default, exactly when no first setting is a string of the file that falls short of memory. What is set on
the command line, the file does not change. -/
theorem options_first_setting (hrcs : rcs ≠ []) (h : cmdBase sys rcs args = some (.ok, some opt')) :
    let fresh := Opt.withRecords [baseOptions, rcs]
    (KeepsOrder fresh (settings sys fresh args) opt' ↔
      ∀ cur a c, Opt.recAt fresh.rcs cur = some a →
        firstSetting fresh cur (settings sys fresh args) = some c → ¬ Short a c) ∧
    SameRecords opt' fresh ∧
    ∃ opt, cmdLoop args fresh = some (.ok, opt) ∧ ∀ cur v, Opt.slotAt opt.rcs cur = some v →
      v.isSet = true → Opt.slotAt opt'.rcs cur = some v := by
  intro fresh
  have harrays : ∀ r ∈ [baseOptions, rcs], r ≠ [] := by simpa [baseOptions] using hrcs
  have hrun := runTrue_settings hrcs h
  obtain ⟨opt, hloop, hcmd, hconfig⟩ := runTrue_parts hrcs h
  refine ⟨keepsOrder_iff harrays (fun c hc => flags_plain (flags_settings c hc)) hrun,
    (run_same (formed_withRecords harrays) hrun).1, opt, hloop, fun cur v hslot hset => ?_⟩
  refine run_keeps (run_same (formed_withRecords harrays) hcmd).2 (fun c hc => ?_) hslot hset hconfig
  rw [flags_configCalls c hc]
  decide

end Settings

section Sample

def sampleFile : List Octet := chars "ifName=x\n"

/-- The file sets the name of the interface, and `strdup` may fail. -/
def sampleSystem (strdup : Bool) : CmdSystem :=
  ⟨true, true, true, true, true, fun _ => strdup, fun _ => some sampleFile, samplePlace⟩

def sampleRecords : List (OptRec Unit) := [keyBool "oneStep" 't' false]

/-- `-f c` -/
def sampleArg : GetoptStep := ⟨'f'.toNat, some (3, chars "c"), false⟩

/-- The calls for the command line and the file. -/
abbrev sampleSettings (strdup : Bool) : List ParseCall :=
  settings (sampleSystem strdup) (Opt.withRecords [baseOptions, sampleRecords]) [sampleArg]

theorem sample_accepted (strdup : Bool) : ∃ opt,
    cmdBase (sampleSystem strdup) sampleRecords [sampleArg] = some (.ok, some opt) ∧
      opt.getOptStr 'i' = some (if strdup then some ⟨.dup 0, chars "x"⟩ else none) := by
  have h : (cmdBase (sampleSystem strdup) sampleRecords [sampleArg]).map
      (fun r => (r.1, r.2.map fun opt => opt.getOptStr 'i')) =
        some (.ok, some (some (if strdup then some ⟨.dup 0, chars "x"⟩ else none))) := by
    cases strdup <;> decide +kernel
  obtain ⟨⟨ret, opt⟩, hbase, h⟩ := Option.map_eq_some_iff.mp h
  obtain ⟨hret, hopt⟩ := Prod.mk.inj h
  obtain ⟨opt, hsome, hname⟩ := Option.map_eq_some_iff.mp hopt
  dsimp only at hret hsome
  rw [hret, hsome] at hbase
  exact ⟨opt, hbase, hname⟩

/-- Without memory, the name that the file sets is lost. -/
theorem options_first_setting_fails : ∃ opt,
    cmdBase (sampleSystem false) sampleRecords [sampleArg] = some (.ok, some opt) ∧
      opt.getOptStr 'i' = some none ∧
      ¬ KeepsOrder (Opt.withRecords [baseOptions, sampleRecords]) (sampleSettings false) opt := by
  obtain ⟨opt, hbase, hname⟩ := sample_accepted false
  refine ⟨opt, hbase, hname, fun hkeeps => ?_⟩
  have hrun := runTrue_settings (by simp [sampleRecords]) hbase
  have hlong := (keepsOrder_iff (by simp [baseOptions, sampleRecords])
    (fun c hc => flags_plain (flags_settings c hc)) hrun).mp hkeeps (0, 2)
      (keyStr "ifName" 'i' (programStr 0 "eth0") 0)
      ⟨.name (chars "ifName"), some (parserStr (chars "x")), optStrDup, false⟩ rfl (by decide +kernel)
  exact hlong ⟨rfl, by decide, rfl⟩

theorem options_first_setting_sample : ∃ opt,
    cmdBase (sampleSystem true) sampleRecords [sampleArg] = some (.ok, some opt) ∧
      KeepsOrder (Opt.withRecords [baseOptions, sampleRecords]) (sampleSettings true) opt := by
  obtain ⟨opt, hbase, -⟩ := sample_accepted true
  refine ⟨opt, hbase, (options_first_setting (by simp [sampleRecords]) hbase).1.mpr ?_⟩
  intro cur a c _ hfirst hshort
  have hok : ∀ c ∈ sampleSettings true, c.ok = true := by decide +kernel
  exact absurd ((hok c (List.mem_of_find?_eq_some hfirst)).symm.trans hshort.2.2) (by simp)

end Sample

end Csptp
