import Csptp.Cmdl.Lines

/-! # What the client gets from its command line

When a line without a file is taken, `cmd_client` returns what its options say: each flag whether it occurs,
each value as its first occurrence has it. Every setting that the client can have is returned for some
line. -/
namespace Csptp
open Octets
set_option autoImplicit false

section Values
variable {φ : Type} [LongDouble φ] {rcs : List (OptRec φ)} {us : List (Getopt.Use Octet)} {opt : Opt φ}
  {sk : Char} {cur : ℕ × ℕ} {a : OptRec φ}

/-! ## Values of a line -/

/-- The first use of an option. -/
def firstUse (us : List (Getopt.Use Octet)) (sk : Char) : Option (Getopt.Use Octet) :=
  us.find? fun u => u.1 = character sk

theorem firstSetting_line (hsk : sk.toNat < 128)
    (htarget : (cmdFresh rcs).target (.short sk.toNat) = some (cur, a)) :
    firstSetting (cmdFresh rcs) cur (us.map useCall) = (firstUse us sk).map useCall := by
  rw [firstSetting, firstUse, List.find?_map]
  congr 2
  funext u
  rw [Bool.eq_iff_iff, Function.comp_apply, decide_eq_true_eq, Option.any_eq_true]
  constructor
  · rintro ⟨⟨cur', a'⟩, hu, hcur⟩
    obtain rfl : cur' = cur := of_decide_eq_true hcur
    have hu : (cmdFresh rcs).target (.short u.1.toInt) = some (cur', a') := hu
    have hrec := Opt.recAt_of_target hu
    rw [Opt.recAt_of_target htarget] at hrec
    cases hrec
    exact (toInt_character hsk).mp (target_short_inj hu htarget)
  · intro hu
    refine ⟨(cur, a), ?_, decide_eq_true rfl⟩
    show (cmdFresh rcs).target (.short u.1.toInt) = _
    rw [(toInt_character hsk).mpr hu]
    exact htarget

/-- The value of an option with a short key. -/
theorem getVal_line (hrcs : rcs ≠ []) (hrun : (cmdFresh rcs).runTrue (us.map useCall) = some opt)
    (hsk : sk.toNat < 128) (htarget : (cmdFresh rcs).target (.short sk.toNat) = some (cur, a)) :
    ∃ w, opt.getValSkey sk.toNat = some (some w) ∧
      match firstUse us sk with
      | none => w = a.defVal
      | some u => Given a (useCall u) w := by
  obtain ⟨hsame, hformed⟩ := run_same (formed_cmdFresh hrcs) hrun
  obtain ⟨w, hw, hgiven⟩ := keepsOrder_run hrcs hrun cur a (Opt.recAt_of_target htarget)
  refine ⟨w, ?_, ?_⟩
  · rw [show opt.getValSkey sk.toNat = opt.getVal (.short sk.toNat) from rfl, Opt.getVal_eq hformed,
      hsame.target, htarget]
    dsimp only
    rw [hw]
    rfl
  · rw [firstSetting_line hsk htarget] at hgiven
    cases hfirst : firstUse us sk with
    | none =>
      rw [hfirst] at hgiven
      exact hgiven
    | some u =>
      rw [hfirst] at hgiven
      exact hgiven

/-! ## What options say -/

theorem given_bool {u : Getopt.Use Octet} {w : OptRecVal φ} (htype : a.type = .bool)
    (h : Given a (useCall u) w) : w.i = if a.defVal.i = 0 then 1 else 0 := by
  have hdef : Inverse a optBoolDef := ⟨htype, by decide⟩
  cases h with
  | number hi =>
    generalize w.i = i at hi
    cases hi with
    | inverse => rfl
    | text hnot => exact absurd hdef hnot
  | float hfloat => exact absurd (hfloat.symm.trans htype) (by simp)
  | str hstr => exact absurd (hstr.symm.trans htype) (by simp)

theorem given_number {u : Getopt.Use Octet} {w : OptRecVal φ} (htype : a.type = .int ∨ a.type = .enum)
    (h : Given a (useCall u) w) : ∃ t, u.2 = some t ∧ parseInt a t optBoolDef = some (some w.i) := by
  cases h with
  | number hi =>
    generalize w.i = i at hi
    cases hi with
    | inverse hdef => rcases htype with htype | htype <;> exact absurd (hdef.1.symm.trans htype) (by simp)
    | text _ hs _ hi =>
      rw [show (useCall u).s = (useStep u).arg from rfl, GetoptStep.arg, useStep, Option.map_map,
        Option.map_eq_some_iff] at hs
      obtain ⟨t, hu, rfl⟩ := hs
      exact ⟨t, hu, hi⟩
  | float hfloat => rcases htype with htype | htype <;> exact absurd (hfloat.symm.trans htype) (by simp)
  | str hstr => rcases htype with htype | htype <;> exact absurd (hstr.symm.trans htype) (by simp)

theorem given_str {u : Getopt.Use Octet} {w : OptRecVal φ} (htype : a.type = .str)
    (h : Given a (useCall u) w) : ∃ t s, u.2 = some t ∧ w.s = some s ∧ s.text = t := by
  cases h with
  | number hi => exact absurd hi (not_numeric_of_str htype)
  | float hfloat => exact absurd (hfloat.symm.trans htype) (by simp)
  | str _ hs _ hw htext =>
    rw [show (useCall u).s = (useStep u).arg from rfl, GetoptStep.arg, useStep, Option.map_map,
      Option.map_eq_some_iff] at hs
    obtain ⟨t, hu, rfl⟩ := hs
    exact ⟨t, _, hu, hw, htext⟩

section Getting
variable (hrcs : rcs ≠ []) (hrun : (cmdFresh rcs).runTrue (us.map useCall) = some opt)
  (hsk : sk.toNat < 128) (htarget : (cmdFresh rcs).target (.short sk.toNat) = some (cur, a))
include hrcs hrun hsk htarget

/-- A flag that is off by default. -/
theorem flag_line (htype : a.type = .bool) (hdef : a.defVal.i = 0) : ∃ w,
    opt.getValSkey sk.toNat = some (some w) ∧ w.i = if (firstUse us sk).isSome then 1 else 0 := by
  obtain ⟨w, hw, hgiven⟩ := getVal_line hrcs hrun hsk htarget
  refine ⟨w, hw, ?_⟩
  cases hfirst : firstUse us sk with
  | none =>
    rw [hfirst] at hgiven
    rw [hgiven, hdef]
    rfl
  | some u =>
    rw [hfirst] at hgiven
    rw [given_bool htype hgiven, hdef]
    rfl

theorem getOptTrue_line (htype : a.type = .bool) (hdef : a.defVal.i = 0) :
    opt.getOptTrue sk = some (firstUse us sk).isNone := by
  obtain ⟨w, hw, hi⟩ := flag_line hrcs hrun hsk htarget htype hdef
  rw [Opt.getOptTrue, hw, Option.bind_eq_bind, Option.bind_some]
  dsimp only
  rw [hi]
  cases firstUse us sk <;> rfl

theorem getOptFalse_line (htype : a.type = .bool) (hdef : a.defVal.i = 0) :
    opt.getOptFalse sk = some (firstUse us sk).isSome := by
  obtain ⟨w, hw, hi⟩ := flag_line hrcs hrun hsk htarget htype hdef
  rw [Opt.getOptFalse, hw, Option.bind_eq_bind, Option.bind_some]
  dsimp only
  rw [hi]
  cases firstUse us sk <;> rfl

theorem getOptInt_line (htype : a.type = .int ∨ a.type = .enum) (d : ℤ) : ∃ i, opt.getOptInt sk d = some i ∧
    match firstUse us sk with
    | none => i = a.defVal.i
    | some u => ∃ t, u.2 = some t ∧ parseInt a t optBoolDef = some (some i) := by
  obtain ⟨w, hw, hgiven⟩ := getVal_line hrcs hrun hsk htarget
  refine ⟨w.i, ?_, ?_⟩
  · rw [Opt.getOptInt, hw, Option.bind_eq_bind, Option.bind_some]
  · cases hfirst : firstUse us sk with
    | none =>
      rw [hfirst] at hgiven
      exact congrArg OptRecVal.i hgiven
    | some u =>
      rw [hfirst] at hgiven
      exact given_number htype hgiven

theorem getOptStr_line (htype : a.type = .str) : ∃ s, opt.getOptStr sk = some s ∧
    match firstUse us sk with
    | none => s = a.defVal.s
    | some u => ∃ t s', u.2 = some t ∧ s = some s' ∧ s'.text = t := by
  obtain ⟨w, hw, hgiven⟩ := getVal_line hrcs hrun hsk htarget
  refine ⟨w.s, ?_, ?_⟩
  · rw [Opt.getOptStr, hw, Option.bind_eq_bind, Option.bind_some]
  · cases hfirst : firstUse us sk with
    | none =>
      rw [hfirst] at hgiven
      exact congrArg OptRecVal.s hgiven
    | some u =>
      rw [hfirst] at hgiven
      exact given_str htype hgiven

end Getting

end Values

/-! ## The end of `cmd_base` -/

/-- The system has memory for the object. -/
structure HasMemory (sys : CmdSystem) : Prop where
  opt : sys.opt = true
  base : sys.base = true
  records : sys.records = true
  getopt : sys.getopt = true

section Base
variable {φ : Type} [LongDouble φ] {rcs : List (OptRec φ)} {us : List (Getopt.Use Octet)} {opt : Opt φ}
  {sys : CmdSystem}

/-- A level that `log_level` takes is one for `setLog`. -/
theorem setLog_level {i : ℤ} (h : 0 ≤ i ∧ i ≤ 7) (y e : Bool) : setLog ⟨BitVec.ofInt 32 i, y, e⟩ = true := by
  have hcases : i = 0 ∨ i = 1 ∨ i = 2 ∨ i = 3 ∨ i = 4 ∨ i = 5 ∨ i = 6 ∨ i = 7 := by omega
  rw [setLog, decide_eq_true_eq]
  dsimp only
  rcases hcases with rfl | rfl | rfl | rfl | rfl | rfl | rfl | rfl <;> decide

theorem setLogFrom_line (hrcs : rcs ≠ []) (hrun : (cmdFresh rcs).runTrue (us.map useCall) = some opt) :
    setLogFrom opt = some true := by
  have hy : opt.getOptTrue 'y' = _ := getOptTrue_line hrcs hrun (by decide) rfl rfl rfl
  have he : opt.getOptFalse 'e' = _ := getOptFalse_line hrcs hrun (by decide) rfl rfl rfl
  obtain ⟨i, hi, hfirst⟩ := @getOptInt_line φ _ _ _ _ 'l' _ _ hrcs hrun (by decide) rfl (.inr rfl) logWarning
  have hlevel : 0 ≤ i ∧ i ≤ 7 := by
    cases hl : firstUse us 'l' with
    | none =>
      rw [hl] at hfirst
      rw [show i = 4 from hfirst]
      decide
    | some u =>
      rw [hl] at hfirst
      obtain ⟨t, -, hparse⟩ := hfirst
      exact inLimits_of_parseInt hparse
  rw [setLogFrom, hy, Option.bind_eq_bind, Option.bind_some, he, Option.bind_eq_bind, Option.bind_some, hi,
    Option.bind_some, setLog_level hlevel]

/-- Without a file nothing else is set. -/
theorem cmdConfig_line (hrcs : rcs ≠ []) (hrun : (cmdFresh rcs).runTrue (us.map useCall) = some opt)
    (hfile : firstUse us 'f' = none) : cmdConfig sys opt = some (.ok, opt) := by
  obtain ⟨s, hs, hfirst⟩ := @getOptStr_line φ _ _ _ _ 'f' _ _ hrcs hrun (by decide) target_file rfl
  rw [hfile] at hfirst
  have hs : opt.getOptStr 'f' = some (some (programStr 1 "")) := hs.trans (congrArg some hfirst)
  have hheap := ((idle_cmdFresh hrcs).run hrun).heap
  rw [cmdConfig, setLogFrom_line hrcs hrun, Option.bind_eq_bind, Option.bind_some, if_pos rfl, hs,
    Option.bind_eq_bind, Option.bind_some]
  dsimp only
  rw [hheap, if_neg (by simp [Memory.init]), if_pos (by decide)]

theorem cmdBase_line (hsys : HasMemory sys) {args : List GetoptStep}
    (hloop : cmdLoop args (cmdFresh rcs) = some (.ok, opt))
    (hconfig : cmdConfig sys opt = some (.ok, opt)) : cmdBase sys rcs args = some (.ok, some opt) := by
  have hoptions : cmdOptions sys rcs args (optAlloc Memory.init) = some (.ok, opt) := by
    rw [cmdOptions, hsys.base, hsys.records, hsys.getopt]
    show (cmdLoop args (cmdFresh rcs)).bind _ = _
    rw [hloop, Option.bind_some, if_pos rfl, hconfig]
  rw [cmdBase, if_pos hsys.opt, hoptions]
  rfl

end Base

/-! ## The client -/

/-- The structure of the client has what the options say. -/
structure ClientSays (us : List (Getopt.Use Octet)) (o : ParsedClient) : Prop where
  useTwoSteps : o.useTwoSteps = (firstUse us 't').isNone
  useCSPTPstatus : o.useCSPTPstatus = (firstUse us 's').isSome
  useAltTimeScale : o.useAltTimeScale = (firstUse us 'a').isSome
  type : o.type = if (firstUse us '4').isSome then .udpIPv4 else if (firstUse us '6').isSome then .udpIPv6
    else .invalidProto
  domainNumber : ∃ i : ℤ, o.domainNumber = BitVec.ofInt 8 i ∧ 128 ≤ i ∧ i ≤ 239 ∧
    (firstUse us 'n').elim (i = 128) fun u => toInt64 (u.2.getD []) = some i
  ifName : ∃ s, o.ifName = some s ∧ s.text = (firstUse us 'i').elim (chars "eth0") fun u => u.2.getD []
  ip : ∃ s, o.ip = some s ∧ s.text = (firstUse us 'd').elim [] fun u => u.2.getD []

section Client
variable {us : List (Getopt.Use Octet)} {opt : Opt Unit} {sys : CmdSystem}

theorem name_line {sk : Char} {cur : ℕ × ℕ} {a : OptRec Unit} {d : CStr}
    (hrun : (cmdFresh clientOptions).runTrue (us.map useCall) = some opt) (hsk : sk.toNat < 128)
    (htarget : (cmdFresh clientOptions).target (.short sk.toNat) = some (cur, a)) (htype : a.type = .str)
    (hdef : a.defVal.s = some d) : ∃ s, opt.getOptStr sk = some (some s) ∧
      s.text = (firstUse us sk).elim d.text fun u => u.2.getD [] := by
  obtain ⟨s, hs, hfirst⟩ := getOptStr_line (by simp [clientOptions]) hrun hsk htarget htype
  cases hu : firstUse us sk with
  | none =>
    rw [hu] at hfirst
    exact ⟨d, hs.trans (congrArg some (hfirst.trans hdef)), rfl⟩
  | some u =>
    rw [hu] at hfirst
    obtain ⟨t, s', ht, rfl, htext⟩ := hfirst
    exact ⟨s', hs, by rw [htext, Option.elim_some, ht]; rfl⟩

theorem toInt64_of_parseInt {a : OptRec Unit} {t : List Octet} {fl : OptFlags} {i : ℤ} (htype : a.type = .int)
    (h : parseInt a t fl = some (some i)) : toInt64 t = some i := by
  rw [parseInt, htype] at h
  dsimp only at h
  cases ht : toInt64 t with
  | none => simp [ht] at h
  | some j =>
    rw [ht] at h
    dsimp only at h
    split at h
    · simp at h
    · exact Option.some.inj h

theorem domain_line (hrun : (cmdFresh clientOptions).runTrue (us.map useCall) = some opt) :
    ∃ i : ℤ, opt.getOptInt 'n' 128 = some i ∧ 128 ≤ i ∧ i ≤ 239 ∧
      (firstUse us 'n').elim (i = 128) fun u => toInt64 (u.2.getD []) = some i := by
  obtain ⟨i, hi, hfirst⟩ := @getOptInt_line Unit _ _ _ _ 'n' _ _ (by simp [clientOptions]) hrun (by decide) rfl
    (.inl rfl) 128
  cases hu : firstUse us 'n' with
  | none =>
    rw [hu] at hfirst
    have hi' : i = 128 := hfirst
    exact ⟨i, hi, by omega, by omega, hi'⟩
  | some u =>
    rw [hu] at hfirst
    obtain ⟨t, ht, hparse⟩ := hfirst
    obtain ⟨hlow, hhigh⟩ : 128 ≤ i ∧ i ≤ 239 := inLimits_of_parseInt hparse
    refine ⟨i, hi, hlow, hhigh, ?_⟩
    rw [Option.elim_some, ht]
    exact toInt64_of_parseInt rfl hparse

/-- The structure that is filled from an object of a line. -/
theorem clientOpt_line (hrun : (cmdFresh clientOptions).runTrue (us.map useCall) = some opt) :
    opt.getOptFalse '4' = some (firstUse us '4').isSome ∧ opt.getOptFalse '6' = some (firstUse us '6').isSome ∧
      ∃ o, clientOpt opt (firstUse us '4').isSome (firstUse us '6').isSome = some (o, Memory.init) ∧
        ClientSays us o := by
  have hrcs : clientOptions ≠ [] := by simp [clientOptions]
  have h4 : opt.getOptFalse '4' = _ := getOptFalse_line hrcs hrun (by decide) rfl rfl rfl
  have h6 : opt.getOptFalse '6' = _ := getOptFalse_line hrcs hrun (by decide) rfl rfl rfl
  have ht : opt.getOptTrue 't' = _ := getOptTrue_line hrcs hrun (by decide) rfl rfl rfl
  have hs : opt.getOptFalse 's' = _ := getOptFalse_line hrcs hrun (by decide) rfl rfl rfl
  have ha : opt.getOptFalse 'a' = _ := getOptFalse_line hrcs hrun (by decide) rfl rfl rfl
  obtain ⟨name, hname, htext⟩ := @name_line _ _ 'i' _ _ _ hrun (by decide) rfl rfl rfl
  obtain ⟨ip, hip, hiptext⟩ := @name_line _ _ 'd' _ _ _ hrun (by decide) rfl rfl rfl
  obtain ⟨i, hi, hdomain⟩ := domain_line hrun
  have hfree := ((idle_cmdFresh hrcs).run hrun).free
  refine ⟨h4, h6, ⟨(firstUse us 't').isNone, (firstUse us 's').isSome, (firstUse us 'a').isSome,
    BitVec.ofInt 8 i, if (firstUse us '4').isSome then .udpIPv4 else if (firstUse us '6').isSome then .udpIPv6
    else .invalidProto, some name, some ip⟩, ?_, ⟨rfl, rfl, rfl, rfl, ⟨i, rfl, hdomain⟩, ⟨name, rfl, htext⟩,
    ⟨ip, rfl, hiptext⟩⟩⟩
  rw [clientOpt, hname, Option.bind_eq_bind, Option.bind_some, ht, Option.bind_eq_bind, Option.bind_some, hs,
    Option.bind_eq_bind, Option.bind_some, ha, Option.bind_eq_bind, Option.bind_some, hip, Option.bind_some, hi,
    Option.bind_some, hfree]
  rfl

/-- What `cmd_client` does when the line is without a file. -/
theorem cmdClient_line (hsys : HasMemory sys) (hrun : (cmdFresh clientOptions).runTrue (us.map useCall) = some opt)
    (hloop : cmdLoop (us.map useStep) (cmdFresh clientOptions) = some (.ok, opt))
    (hfile : firstUse us 'f' = none) :
    if (firstUse us '4').isSome ∧ (firstUse us '6').isSome then
      cmdClient sys (us.map useStep) = some (.err, none)
    else ∃ o, cmdClient sys (us.map useStep) = some (.ok, some (o, Memory.init)) ∧ ClientSays us o := by
  have hrcs : clientOptions ≠ [] := by simp [clientOptions]
  obtain ⟨h4, h6, o, ho, hsays⟩ := clientOpt_line hrun
  have hfree := ((idle_cmdFresh hrcs).run hrun).free
  rw [cmdClient, cmdBase_line hsys hloop (cmdConfig_line hrcs hrun hfile), Option.bind_eq_bind, Option.bind_some]
  dsimp only
  rw [h4, Option.bind_eq_bind, Option.bind_some, h6, Option.bind_some]
  split
  · rename_i hboth
    rw [hboth.1, hboth.2, Bool.and_self, if_pos rfl, hfree]
    rfl
  · rename_i hnot
    rw [if_neg (by rwa [Bool.and_eq_true]), ho]
    exact ⟨o, rfl, hsays⟩

/-- A line without a file is taken by the client, unless it forces both protocols. -/
theorem cmd_client_line {posixly : Bool} {program : List Octet} {words : List (List Octet)} {contents : ℕ → Octet}
    (hsys : HasMemory sys) (htaken : Taken posixly (baseOptions ++ clientOptions) words us)
    (hfile : firstUse us 'f' = none) :
    wordSteps posixly program words clientOptions contents = some (us.map useStep) ∧
      if (firstUse us '4').isSome ∧ (firstUse us '6').isSome then
        cmdClient sys (us.map useStep) = some (.err, none)
      else ∃ o, cmdClient sys (us.map useStep) = some (.ok, some (o, Memory.init)) ∧ ClientSays us o := by
  have hrcs : clientOptions ≠ [] := by simp [clientOptions]
  obtain ⟨hline, hus, opt, hrun⟩ := (taken_iff hrcs validKeys_client).mp htaken
  obtain ⟨hsteps, hloop⟩ := wordSteps_of_line hrcs validKeys_client hline hus hrun
  exact ⟨hsteps, cmdClient_line hsys hrun hloop hfile⟩

/-- The interface is the one that is given first. -/
theorem cmd_client_line_sample : ∃ o,
    cmdClient (sampleSystem true) (sampleUses.map useStep) = some (.ok, some (o, Memory.init)) ∧
      o.useTwoSteps = false ∧ o.domainNumber = 200 ∧ o.ifName.map CStr.text = some (chars "eth1") := by
  have hsys : HasMemory (sampleSystem true) := ⟨rfl, rfl, rfl, rfl⟩
  have hreturn := (@cmd_client_line sampleUses (sampleSystem true) true [] sampleWords (fun _ => 0) hsys
    (taken_sample true) rfl).2
  rw [if_neg (by decide)] at hreturn
  obtain ⟨o, ho, hsays⟩ := hreturn
  obtain ⟨i, hdomain, -, -, hi⟩ := hsays.domainNumber
  obtain ⟨name, hname, htext⟩ := hsays.ifName
  have hi : toInt64 (chars "200") = some i := hi
  rw [show toInt64 (chars "200") = some 200 by decide, Option.some_inj] at hi
  subst hi
  exact ⟨o, ho, hsays.useTwoSteps, hdomain, by rw [hname, Option.map_some, htext]; rfl⟩

end Client

end Csptp
