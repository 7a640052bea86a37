import Csptp.Cmdl.Settings
import Csptp.Getopt
import Csptp.Opt.Tables

/-! # The words of a command line

`getopt` reads the words by the option string that the object made of its records. So `cmd_base` takes the
lines that are written with the short keys of these records, and makes one call for each option. -/
namespace Csptp
open Octets
set_option autoImplicit false

variable {φ : Type}

/-! ## The option string -/

def semicolon : Octet := 0x3b
def dash : Octet := 0x2d

/-- What an option string says about a character. -/
def hasArgIn (s : List Octet) (c : Octet) : Option Getopt.HasArg :=
  if c = colon ∨ c = semicolon then none
  else match s.dropWhile fun d => d ≠ c with
    | [] => none
    | _ :: rest =>
      if rest.head? = some colon then (if rest.tail.head? = some colon then some .optional else some .required)
      else some .no

/-- The options that `cmd_base` adds. -/
def cmdOptionChars : List Octet := chars ":hv?"

/-- The string that `cmd_base` passes to `getopt`. -/
def optionString (records : List (OptRec φ)) : List Octet := cmdOptionChars ++ records.flatMap shortOption

/-- The option of a record, if it has one. -/
def recordHasArg (a : OptRec φ) : Getopt.HasArg := if a.type = .bool then .no else .required

/-- The options of `cmd_base` are `-h`, `-v`, `-?`, and the short keys of the records. -/
def lineRules (posixly : Bool) (records : List (OptRec φ)) : Getopt.Rules Octet where
  dash := dash
  hasArg c := if (chars "hv?").contains c then some .no
    else (records.find? fun a => a.sKey.toInt > 0 ∧ a.sKey = c).map recordHasArg
  posixly := posixly

/-- All short keys may be options. -/
def ValidKeys (records : List (OptRec φ)) : Prop := ∀ a ∈ records, 0 < a.sKey.toInt → ValidOption a.sKey

theorem not_special {c : Octet} (h : ValidOption c) : c ≠ colon ∧ c ≠ semicolon := by
  constructor
  · rintro rfl
    exact h.2 (by decide)
  · rintro rfl
    exact h.2 (by decide)

theorem head_shortOptions {records : List (OptRec φ)} (h : ValidKeys records) :
    (records.flatMap shortOption).head? ≠ some colon := by
  induction records with
  | nil => simp
  | cons a records ih =>
    rw [List.flatMap_cons, shortOption]
    split
    · rename_i hpos
      have hcolon := (not_special (h a List.mem_cons_self hpos)).1
      split <;> simpa using hcolon
    · exact ih fun b hb => h b (List.mem_cons_of_mem _ hb)

theorem hasArgIn_skip {s : List Octet} {c d : Octet} (h : d ≠ c) : hasArgIn (d :: s) c = hasArgIn s c := by
  rw [hasArgIn, hasArgIn, List.dropWhile_cons_of_pos (by simpa using h)]

theorem hasArgIn_here {s : List Octet} {c : Octet} (hc : c ≠ colon ∧ c ≠ semicolon) :
    hasArgIn (c :: s) c = if s.head? = some colon then
      (if s.tail.head? = some colon then some .optional else some .required) else some .no := by
  rw [hasArgIn, if_neg (not_or.mpr hc), List.dropWhile_cons_of_neg (by simp)]

/-- An option of a record, in the part of the string that is made of the records. -/
theorem hasArgIn_shortOptions {records : List (OptRec φ)} (h : ValidKeys records) {c : Octet}
    (hc : c ≠ colon ∧ c ≠ semicolon) : hasArgIn (records.flatMap shortOption) c =
      (records.find? fun a => a.sKey.toInt > 0 ∧ a.sKey = c).map recordHasArg := by
  induction records with
  | nil => rw [hasArgIn, if_neg (not_or.mpr hc)]; rfl
  | cons a records ih =>
    have hrest : ValidKeys records := fun b hb => h b (List.mem_cons_of_mem _ hb)
    have hhead := head_shortOptions hrest
    rw [List.flatMap_cons, shortOption, List.find?_cons]
    by_cases hpos : a.sKey.toInt > 0
    · rw [if_pos hpos]
      by_cases hac : a.sKey = c
      · subst hac
        rw [decide_eq_true ⟨hpos, rfl⟩, Option.map_some, recordHasArg]
        by_cases hbool : a.type = .bool
        · rw [if_neg (not_not.mpr hbool), if_pos hbool, List.cons_append, hasArgIn_here hc, List.nil_append,
            if_neg hhead]
        · rw [if_pos hbool, if_neg hbool, List.cons_append, hasArgIn_here hc, List.cons_append, List.nil_append,
            List.head?_cons, if_pos rfl, List.tail_cons, if_neg hhead]
      · rw [decide_eq_false (fun hboth => hac hboth.2), ← ih hrest]
        split
        · rw [List.cons_append, List.cons_append, hasArgIn_skip hac, hasArgIn_skip (Ne.symm hc.1)]
          rfl
        · rw [List.cons_append, hasArgIn_skip hac]
          rfl
    · rw [if_neg hpos, decide_eq_false (fun hboth => hpos hboth.1), List.nil_append]
      exact ih hrest

theorem find_special {records : List (OptRec φ)} (h : ValidKeys records) {c : Octet}
    (hc : c = colon ∨ c = semicolon) : (records.find? fun a => a.sKey.toInt > 0 ∧ a.sKey = c) = none := by
  rw [List.find?_eq_none]
  intro a ha hboth
  obtain ⟨hpos, rfl⟩ := of_decide_eq_true hboth
  obtain ⟨hcolon, hsemicolon⟩ := not_special (h a ha hpos)
  exact hc.elim hcolon hsemicolon

/-- `getopt` reads the option string as it was meant. -/
theorem hasArgIn_optionString {records : List (OptRec φ)} (h : ValidKeys records) (posixly : Bool) :
    hasArgIn (optionString records) = (lineRules posixly records).hasArg := by
  have hchars : cmdOptionChars = [colon, 0x68, 0x76, 0x3f] := by decide
  have hletters : chars "hv?" = [0x68, 0x76, 0x3f] := by decide
  funext c
  rw [optionString, hchars, lineRules]
  dsimp only
  rw [hletters]
  by_cases hc : c = colon ∨ c = semicolon
  · rw [hasArgIn, if_pos hc, find_special h hc, if_neg]
    · rfl
    · rcases hc with rfl | rfl <;> decide
  have hc' := not_or.mp hc
  rw [List.cons_append, hasArgIn_skip (Ne.symm hc'.1)]
  by_cases hh : c = 0x68
  · rw [hh, List.cons_append, hasArgIn_here (by decide), if_neg (by rw [List.cons_append]; simp [colon])]
    exact (if_pos (by decide)).symm
  rw [List.cons_append, hasArgIn_skip (Ne.symm hh)]
  by_cases hv : c = 0x76
  · rw [hv, List.cons_append, hasArgIn_here (by decide), if_neg (by rw [List.cons_append]; simp [colon])]
    exact (if_pos (by decide)).symm
  rw [List.cons_append, hasArgIn_skip (Ne.symm hv)]
  by_cases hq : c = 0x3f
  · rw [hq, List.cons_append, hasArgIn_here (by decide), List.nil_append, if_neg (head_shortOptions h)]
    exact (if_pos (by decide)).symm
  rw [List.cons_append, hasArgIn_skip (Ne.symm hq), List.nil_append, hasArgIn_shortOptions h hc', if_neg]
  simp only [List.contains_iff_mem, List.mem_cons, List.not_mem_nil, or_false, not_or]
  exact ⟨hh, hv, hq⟩

/-! ## The loop over the words -/

/-- The value that `getopt` returns, by this option string. -/
def foundValue (s : List Octet) : Getopt.Found Octet → ℤ
  | .use u => u.1.toInt
  | .unknown _ => '?'.toNat
  | .missing _ => if s.head? = some colon then ':'.toNat else '?'.toNat

def foundArg : Getopt.Found Octet → Option (List Octet)
  | .use u => u.2
  | _ => none

/-- The number of the strings of `argv`. -/
def argvStr : ℕ := 3

/-- What a call gives, when this word is the last in front of `optind`. Its second character is read when
the value is a question mark, and has to be there. -/
def getoptStep (s : List Octet) (f : Getopt.Found Octet) (last : List Octet) : Option GetoptStep :=
  let arg := (foundArg f).map fun t => (argvStr, t)
  if foundValue s f = '?'.toNat then
    if last = [] then none else some ⟨foundValue s f, arg, last.tail.head? = some (character '?')⟩
  else some ⟨foundValue s f, arg, false⟩

section Loop
variable [LongDouble φ]

/-- The steps of the loop in `cmd_base`, which ends with the last option or leaves with the last of the
steps. -/
def argSteps (R : Getopt.Rules Octet) (s : List Octet) :
    ℕ → Getopt.Cursor Octet → Opt φ → Option (List GetoptStep)
  | 0, _, _ => none
  | n + 1, cur, opt =>
    match Getopt.next R cur with
    | none => some []
    | some (f, cur') => do
      let g ← getoptStep s f cur'.last
      let r ← cmdLoop [g] opt
      if r.1 = .ok then (argSteps R s n cur' r.2).map (g :: ·) else some [g]

/-- The object of `cmd_base`. -/
def cmdTable (rcs : List (OptRec φ)) : OptTable φ :=
  ((OptTable.alloc.addRecords baseOptions true).2.addRecords rcs true).2

/-- The steps for these words, by the option string that the object makes; `contents` is what the block for
it holds. -/
def wordSteps (posixly : Bool) (program : List Octet) (words : List (List Octet)) (rcs : List (OptRec φ))
    (contents : ℕ → Octet) : Option (List GetoptStep) := do
  let r ← (cmdTable rcs).getopt (some cmdOptionChars) true contents
  match r.1 with
  | none => some []
  | some s =>
    let start := Getopt.start program words
    argSteps ⟨dash, hasArgIn s, posixly⟩ s (start.size + 1) start r.2.toOpt

/-! ## Lines that are taken -/

/-- What `getopt` gives for an option of a record. -/
def useStep (u : Getopt.Use Octet) : GetoptStep := ⟨u.1.toInt, u.2.map fun t => (argvStr, t), false⟩

/-- The call for an option. -/
def useCall (u : Getopt.Use Octet) : ParseCall := cmdCall (useStep u)

omit [LongDouble φ] in
theorem toInt_character {c : Octet} {k : Char} (hk : k.toNat < 128) :
    c.toInt = k.toNat ↔ c = character k := by
  have hc := c.isLt
  rw [BitVec.toNat_eq (x := c), character, BitVec.toNat_ofNat, toInt_eq]
  split <;> omega

omit [LongDouble φ] in
/-- With these values the loop makes no call. -/
theorem not_mem_cmdOptionChars {c : Octet} : c ∉ cmdOptionChars ↔ c.toInt ≠ ':'.toNat ∧ c.toInt ≠ '?'.toNat ∧
    c.toInt ≠ 'h'.toNat ∧ c.toInt ≠ 'v'.toNat := by
  have hchars : cmdOptionChars = [character ':', character 'h', character 'v', character '?'] := by decide
  rw [hchars, ne_eq, ne_eq, ne_eq, ne_eq, toInt_character (by decide), toInt_character (by decide),
    toInt_character (by decide), toInt_character (by decide)]
  simp only [List.mem_cons, List.not_mem_nil, or_false, not_or]
  tauto

theorem cmdLoop_cons {g : GetoptStep} {args : List GetoptStep} {opt : Opt φ} : cmdLoop (g :: args) opt =
    (cmdLoop [g] opt).bind fun r => if r.1 = .ok then cmdLoop args r.2 else some r := by
  rw [cmdLoop, cmdLoop]
  split
  · rfl
  split
  · rfl
  split
  · rfl
  split
  · rfl
  simp only [Option.bind_eq_bind, Option.bind_assoc]
  refine congrArg _ (funext fun known => ?_)
  cases known with
  | false => rfl
  | true =>
    rw [if_pos rfl, if_pos rfl, Option.bind_assoc]
    refine congrArg _ (funext fun r => ?_)
    by_cases hr : r.1 = true
    · rw [if_pos hr, if_pos hr]
      rfl
    · rw [if_neg hr, if_neg hr]
      rfl

/-- A step of an option that is set. -/
theorem cmdLoop_call {g : GetoptStep} {opt opt' : Opt φ} (hf : Formed opt.rcs) (hcolon : g.o ≠ ':'.toNat)
    (hquestion : g.o ≠ '?'.toNat) (hhelp : g.o ≠ 'h'.toNat) (hversion : g.o ≠ 'v'.toNat)
    (hcall : opt.call (cmdCall g) = some (true, opt')) : cmdLoop [g] opt = some (.ok, opt') := by
  have hknown : opt.isSkey g.o = some true := by
    cases call_called hf hcall with
    | parsed htarget =>
      have hselect : opt.isSkey g.o = some (opt.target (.short g.o)).isSome :=
        select_guarded hf (g.o = 0) (Opt.bySkey g.o) rfl
      rw [hselect, show opt.target (.short g.o) = some _ from htarget]
      rfl
  have hparse : opt.parseSkey g.o g.arg optBoolDef true = some (true, opt') := hcall
  rw [cmdLoop, if_neg hcolon, if_neg (fun h => hquestion h.1), if_neg (not_or.mpr ⟨hquestion, hhelp⟩),
    if_neg hversion, hknown, Option.bind_eq_bind, Option.bind_some, if_pos rfl, hparse, Option.bind_eq_bind,
    Option.bind_some, if_pos rfl]
  rfl

variable {R : Getopt.Rules Octet} {s : List Octet} {opt opt' : Opt φ}

omit [LongDouble φ] in
theorem getoptStep_use {u : Getopt.Use Octet} (hu : u.1 ∉ cmdOptionChars) (last : List Octet) :
    getoptStep s (.use u) last = some (useStep u) := by
  rw [getoptStep]
  exact if_neg (not_mem_cmdOptionChars.mp hu).2.1

/-- A step that goes on is that of an option. -/
theorem cmdLoop_single {g : GetoptStep} (h : cmdLoop [g] opt = some (.ok, opt')) :
    g.o ≠ ':'.toNat ∧ g.o ≠ '?'.toNat ∧ g.o ≠ 'h'.toNat ∧ g.o ≠ 'v'.toNat := by
  rw [cmdLoop] at h
  split at h
  · exact absurd h (by simp)
  rename_i hcolon
  split at h
  · exact absurd h (by simp)
  split at h
  · exact absurd h (by simp)
  rename_i hmsg
  split at h
  · exact absurd h (by simp)
  rename_i hversion
  exact ⟨hcolon, (not_or.mp hmsg).1, (not_or.mp hmsg).2, hversion⟩

omit [LongDouble φ] in
theorem use_of_getoptStep {f : Getopt.Found Octet} {last : List Octet} {g : GetoptStep}
    (h : getoptStep s f last = some g) (hg : g.o ≠ ':'.toNat ∧ g.o ≠ '?'.toNat ∧ g.o ≠ 'h'.toNat ∧
      g.o ≠ 'v'.toNat) : ∃ u : Getopt.Use Octet, f = .use u ∧ g = useStep u ∧ u.1 ∉ cmdOptionChars := by
  rw [getoptStep] at h
  split at h
  · rename_i hvalue
    split at h
    · exact absurd h (by simp)
    · cases h
      exact absurd hvalue hg.2.1
  · rename_i hvalue
    cases h
    cases f with
    | use u => exact ⟨u, rfl, rfl, not_mem_cmdOptionChars.mpr hg⟩
    | unknown c => exact absurd rfl hvalue
    | missing c =>
      dsimp only [foundValue] at hvalue hg
      split at hvalue
      · rename_i hhead
        rw [if_pos hhead] at hg
        exact absurd rfl hg.1
      · exact absurd rfl hvalue

/-- What `getopt` finds is set by the loop. -/
theorem argSteps_of_finds {us : List (Getopt.Use Octet)} {cur : Getopt.Cursor Octet} {n : ℕ}
    (hfinds : Getopt.Finds R cur (us.map .use)) (hn : us.length < n) (hf : Formed opt.rcs)
    (hus : ∀ u ∈ us, u.1 ∉ cmdOptionChars) (hrun : opt.runTrue (us.map useCall) = some opt') :
    argSteps R s n cur opt = some (us.map useStep) ∧ cmdLoop (us.map useStep) opt = some (.ok, opt') := by
  induction us generalizing cur n opt with
  | nil =>
    obtain ⟨n, rfl⟩ := Nat.exists_eq_add_one_of_ne_zero (Nat.ne_of_gt hn)
    cases hfinds with
    | done hnext =>
      cases hrun
      exact ⟨by rw [argSteps, hnext]; rfl, rfl⟩
  | cons u us ih =>
    obtain ⟨n, rfl⟩ := Nat.exists_eq_add_one_of_ne_zero (Nat.ne_of_gt (Nat.zero_lt_of_lt hn))
    obtain ⟨hu, hus⟩ := List.forall_mem_cons.mp hus
    obtain ⟨opt₁, hcall, hrun⟩ := runTrue_cons hrun
    obtain ⟨hcolon, hquestion, hhelp, hversion⟩ := not_mem_cmdOptionChars.mp hu
    have hstep : cmdLoop [useStep u] opt = some (.ok, opt₁) :=
      cmdLoop_call hf hcolon hquestion hhelp hversion hcall
    cases hfinds with
    | @call _ cur' _ _ hnext hrest =>
      obtain ⟨hargs, hloop⟩ := ih hrest (Nat.lt_of_succ_lt_succ hn) (called_formed hf (call_called hf hcall))
        hus hrun
      refine ⟨?_, ?_⟩
      · rw [argSteps, hnext]
        dsimp only
        rw [getoptStep_use hu, Option.bind_eq_bind, Option.bind_some, hstep, Option.bind_eq_bind,
          Option.bind_some, if_pos rfl, hargs]
        rfl
      · rw [List.map_cons, cmdLoop_cons, hstep, Option.bind_some, if_pos rfl, hloop]

/-- What the loop sets, if it comes to the end of the words, was found by `getopt`. -/
theorem finds_of_argSteps {n : ℕ} {cur : Getopt.Cursor Octet} {args : List GetoptStep}
    (h : argSteps R s n cur opt = some args) (hloop : cmdLoop args opt = some (.ok, opt')) :
    ∃ us : List (Getopt.Use Octet), Getopt.Finds R cur (us.map .use) ∧ args = us.map useStep ∧
      (∀ u ∈ us, u.1 ∉ cmdOptionChars) ∧ opt.runTrue (us.map useCall) = some opt' := by
  induction n generalizing cur opt args with
  | zero => exact absurd h (by simp [argSteps])
  | succ n ih =>
    rw [argSteps] at h
    split at h
    · rename_i hnext
      cases h
      cases hloop
      exact ⟨[], .done hnext, rfl, fun u hu => absurd hu List.not_mem_nil, rfl⟩
    · rename_i f cur' hnext
      simp only [Option.bind_eq_bind, Option.bind_eq_some_iff] at h
      obtain ⟨g, hg, ⟨ret, opt₁⟩, hstep, h⟩ := h
      split at h
      · rename_i hret
        have hret : ret = .ok := hret
        subst hret
        obtain ⟨rest, hrest, rfl⟩ := Option.map_eq_some_iff.mp h
        rw [cmdLoop_cons, hstep, Option.bind_some, if_pos rfl] at hloop
        obtain ⟨us, hfinds, rfl, hus, hrun⟩ := ih hrest hloop
        obtain ⟨u, rfl, rfl, hu⟩ := use_of_getoptStep hg (cmdLoop_single hstep)
        have hcall := runTrue_cmdLoop hstep
        refine ⟨u :: us, .call hnext hfinds, rfl, List.forall_mem_cons.mpr ⟨hu, hus⟩, ?_⟩
        rw [show (u :: us).map useCall = [useStep u].map cmdCall ++ us.map useCall from rfl, runTrue_append,
          hcall, Option.bind_some]
        exact hrun
      · rename_i hret
        cases h
        rw [hstep] at hloop
        cases hloop
        exact absurd rfl hret

omit [LongDouble φ] in
theorem rules_eq {records : List (OptRec φ)} (h : ValidKeys records) (posixly : Bool) :
    (⟨dash, hasArgIn (optionString records), posixly⟩ : Getopt.Rules Octet) = lineRules posixly records := by
  rw [hasArgIn_optionString h posixly]
  rfl

/-- The object after the records are added. -/
def cmdFresh (rcs : List (OptRec φ)) : Opt φ := Opt.withRecords [baseOptions, rcs]

/-- The option string that the object makes. -/
theorem getopt_cmdTable {rcs : List (OptRec φ)} (hrcs : rcs ≠ []) (contents : ℕ → Octet) :
    ∃ t, (cmdTable rcs).getopt (some cmdOptionChars) true contents =
      some (some (optionString (baseOptions ++ rcs)), t) ∧ t.toOpt = cmdFresh rcs := by
  obtain ⟨-, hbase⟩ := @Holding.addRecords φ _ _ _ holding_alloc baseOptions (by simp [baseOptions]) true
  obtain ⟨-, hboth⟩ := hbase.addRecords hrcs true
  obtain ⟨t, ht, -⟩ := @Holding.getopt φ _ _ hboth (some cmdOptionChars) (by decide) true contents
  refine ⟨t, ht.trans ?_, OptTable.getopt_toOpt ht⟩
  rfl

end Loop

end Csptp
