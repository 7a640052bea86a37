import Csptp.Cmdl.Strings
import Csptp.Cmdl.Words

/-! # Command lines that are taken

`cmd_base` comes to the end of a command line if and only if this is written with the short keys of its
records and the first argument of each key is one that its record takes. What the command line says is then
what the programs get. -/
namespace Csptp
open Octets
set_option autoImplicit false

section Run
variable {φ : Type} [LongDouble φ] {self opt : Opt φ} {u : Getopt.Use Octet} {us : List (Getopt.Use Octet)}
  {cur : ℕ × ℕ} {a : OptRec φ} {v : OptSet φ}

/-! ## One option -/

/-- No string was allocated or released. -/
structure Idle (opt : Opt φ) : Prop where
  formed : Formed opt.rcs
  heap : opt.heap = Memory.init
  alloc : ∀ v ∈ slots opt.rcs, v.isAlloc = false

/-- A record takes the argument of an option. -/
structure Takes (a : OptRec φ) (u : Getopt.Use Octet) : Prop where
  value : ∃ w, Given a (useCall u) w
  nonempty : a.type = .float → u.2 ≠ some []

theorem takes_flag {c : Octet} (htype : a.type = .bool) : Takes a (c, none) where
  value :=
    have hdef : Inverse a optBoolDef := ⟨htype, by decide⟩
    ⟨{ OptRecVal.zero with i := if a.defVal.i = 0 then 1 else 0 }, .number (.inverse hdef)⟩
  nonempty hfloat := absurd (hfloat.symm.trans htype) (by simp)

theorem takes_number {c : Octet} {t : List Octet} {i : ℤ} (htype : a.type = .int) (hne : t ≠ [])
    (ht : toInt64 t = some i) (hmin : a.min.i ≤ i) (hmax : i ≤ a.max.i) : Takes a (c, some t) where
  value := by
    have hdef : ¬ Inverse a optBoolDef := fun h => absurd (h.1.symm.trans htype) (by simp)
    have hparse : parseInt a t optBoolDef = some (some i) := by
      rw [parseInt, htype]
      dsimp only
      rw [ht]
      dsimp only
      rw [if_neg (by omega)]
    exact ⟨{ OptRecVal.zero with i := i }, .number (.text hdef rfl hne hparse)⟩
  nonempty hfloat := absurd (hfloat.symm.trans htype) (by simp)

theorem takes_str {c : Octet} {t : List Octet} (htype : a.type = .str) (hne : t ≠ []) :
    Takes a (c, some t) where
  value := ⟨{ OptRecVal.zero with s := some ⟨.caller argvStr, t⟩ }, .str htype rfl hne rfl rfl⟩
  nonempty hfloat := absurd (hfloat.symm.trans htype) (by simp)

theorem parseVal_takes (hunset : v.isSet = false) (halloc : v.isAlloc = false) (h : Takes a u) :
    ∃ v', Opt.parseVal a v (useStep u).arg optBoolDef true Memory.init = some (true, v', Memory.init) ∧
      v'.isSet = true ∧ v'.isAlloc = false := by
  have hlive (t : CStr) : t.block ∉ Memory.init.released := List.not_mem_nil
  have hopen : ¬ (optBoolDef &&& optReplace = 0 ∧ v.isSet = true) := by simp [hunset]
  obtain ⟨w, hw⟩ := h.value
  unfold Opt.parseVal
  rw [if_neg hopen]
  cases hw with
  | number hi =>
    generalize w.i = i at hi
    cases hi with
    | inverse hdef =>
      have hdef : a.type = .bool ∧ optBoolDef &&& optBoolDef ≠ 0 := hdef
      rw [if_pos hdef]
      exact ⟨_, rfl, rfl, halloc⟩
    | @text t _ hdef hs hne hi =>
      have hdef : ¬ (a.type = .bool ∧ optBoolDef &&& optBoolDef ≠ 0) := hdef
      have hs : (useStep u).arg = some t := hs
      have hi : parseInt a t.text optBoolDef = some (some i) := hi
      rw [if_neg hdef, hs]
      dsimp only
      rw [if_neg (hlive t), if_neg hne]
      split
      · rename_i htype
        simp [parseInt, htype] at hi
      · rename_i htype
        simp [parseInt, htype] at hi
      · rw [hi]
        exact ⟨_, rfl, rfl, halloc⟩
  | @float t hfloat hs hf hmin hmax =>
    have hs : (useStep u).arg = some t := hs
    have hne : t.text ≠ [] := by
      rintro hnil
      rw [GetoptStep.arg, useStep, Option.map_map, Option.map_eq_some_iff] at hs
      obtain ⟨text, hu, rfl⟩ := hs
      exact h.nonempty hfloat (hu.trans (congrArg some hnil))
    rw [if_neg (by simp [hfloat]), hs]
    dsimp only
    rw [if_neg (hlive t), if_neg hne, hfloat, hf]
    dsimp only
    rw [if_neg (by simp [hmin, hmax])]
    exact ⟨_, rfl, rfl, halloc⟩
  | @str t u' hstr hs hne =>
    have hs : (useStep u).arg = some t := hs
    rw [if_neg (by simp [hstr]), hs]
    dsimp only
    rw [if_neg (hlive t), if_neg hne, hstr]
    refine ⟨{ val := { v.val with s := some t }, isAlloc := false, isSet := true }, ?_, rfl, rfl⟩
    simp only [setStr, OptSet.release, halloc]
    rfl

theorem takes_of_parseVal (hunset : v.isSet = false) (halloc : v.isAlloc = false) {v' : OptSet φ}
    {h' : Memory} (h : Opt.parseVal a v (useStep u).arg optBoolDef true Memory.init = some (true, v', h')) :
    Takes a u where
  value :=
    have hparsed : Parsed a v (useCall u).s (useCall u).fl (useCall u).ok Memory.init true v' h' :=
      parseVal_parsed h
    have hmask : optBoolDef &&& optStrMask ≠ optStrMask := by decide
    ⟨v'.val, (given_iff hunset halloc hmask hparsed).mpr (not_short_cmdCall a (useStep u))⟩
  nonempty hfloat hu := by
    have harg : (useStep u).arg = some ⟨.caller argvStr, []⟩ := by
      rw [GetoptStep.arg, useStep, hu]
      rfl
    unfold Opt.parseVal at h
    rw [if_neg (by simp [hunset]), if_neg (by simp [hfloat]), harg] at h
    simp [Memory.init] at h

/-- A call for an option either finds its value set, or sets it to what it says. -/
theorem Idle.call (H : Idle self) (htarget : self.target (.short u.1.toInt) = some (cur, a))
    (hslot : Opt.slotAt self.rcs cur = some v) (h : v.isSet = true ∨ Takes a u) :
    ∃ self' v', self.call (useCall u) = some (true, self') ∧ Idle self' ∧ SameRecords self' self ∧
      Opt.slotAt self'.rcs cur = some v' ∧ v'.isSet = true ∧
      ∀ cur', cur' ≠ cur → Opt.slotAt self'.rcs cur' = Opt.slotAt self.rcs cur' := by
  have hparse : ∃ v', Opt.parseVal a v (useStep u).arg optBoolDef true self.heap =
      some (true, v', Memory.init) ∧ v'.isSet = true ∧ v'.isAlloc = false := by
    have halloc := H.alloc v (mem_slots_of_slotAt hslot)
    rw [H.heap]
    cases hset : v.isSet with
    | true => exact ⟨v, by unfold Opt.parseVal; rw [if_pos ⟨by decide, hset⟩], hset, halloc⟩
    | false =>
      rcases h with h | h
      · exact absurd (hset.symm.trans h) (by simp)
      · exact parseVal_takes hset halloc h
  obtain ⟨v', hv', hset, halloc⟩ := hparse
  have hcall : self.call (useCall u) = some (true, self.store cur v' Memory.init) := by
    rw [Opt.call_eq H.formed]
    have htarget : self.target (useCall u).key = some (cur, a) := htarget
    rw [htarget]
    dsimp only
    rw [Opt.parseAt, hslot, Option.bind_eq_bind, Option.bind_some, show (useCall u).s = (useStep u).arg from rfl,
      show (useCall u).fl = optBoolDef from rfl, show (useCall u).ok = true from rfl, hv']
    rfl
  refine ⟨_, v', hcall, ⟨formed_store H.formed v', rfl, fun x hx => ?_⟩, entries_store _ _, ?_, hset, ?_⟩
  · rcases mem_slots_store hslot hx with rfl | hx
    · exact halloc
    · exact H.alloc x hx
  · rw [slotAt_store hslot, if_pos rfl]
  · intro cur' hne
    rw [slotAt_store hslot, if_neg hne]

/-- Such a call returns true in no other case. -/
theorem Idle.call_true (H : Idle self) {self' : Opt φ} (h : self.call (useCall u) = some (true, self')) :
    ∃ cur a v, self.target (.short u.1.toInt) = some (cur, a) ∧ Opt.slotAt self.rcs cur = some v ∧
      (v.isSet = true ∨ Takes a u) := by
  rw [Opt.call_eq H.formed] at h
  cases htarget : self.target (.short u.1.toInt) with
  | none =>
    rw [show self.target (useCall u).key = none from htarget] at h
    exact absurd h (by simp)
  | some found =>
    obtain ⟨cur, a⟩ := found
    rw [show self.target (useCall u).key = some (cur, a) from htarget] at h
    simp only [Opt.parseAt, Option.bind_eq_bind, Option.bind_eq_some_iff] at h
    obtain ⟨v, hslot, ⟨b, v', h'⟩, hparse, h⟩ := h
    refine ⟨cur, a, v, rfl, hslot, ?_⟩
    cases hset : v.isSet with
    | true => exact .inl rfl
    | false =>
      obtain ⟨rfl, -⟩ := Prod.mk.inj (Option.some.inj h)
      rw [H.heap] at hparse
      exact .inr (takes_of_parseVal hset (H.alloc v (mem_slots_of_slotAt hslot)) hparse)

/-! ## A line of options -/

/-- The first use of its option. -/
def FirstUse (us : List (Getopt.Use Octet)) (u : Getopt.Use Octet) : Prop :=
  us.find? (fun v => v.1 = u.1) = some u

/-- The option has a record, whose value is set or takes the argument. -/
def Settable (opt : Opt φ) (u : Getopt.Use Octet) : Prop := ∃ cur a v,
  opt.target (.short u.1.toInt) = some (cur, a) ∧ Opt.slotAt opt.rcs cur = some v ∧
    (v.isSet = true ∨ Takes a u)

theorem firstUse_cons {u' : Getopt.Use Octet} :
    FirstUse (u :: us) u' ↔ u' = u ∨ u'.1 ≠ u.1 ∧ FirstUse us u' := by
  rw [FirstUse, List.find?_cons]
  by_cases hu : u.1 = u'.1
  · rw [decide_eq_true hu]
    simp [hu, eq_comm]
  · rw [decide_eq_false hu]
    constructor
    · exact fun h => .inr ⟨Ne.symm hu, h⟩
    · rintro (rfl | ⟨-, h⟩)
      · exact absurd rfl hu
      · exact h

/-- A call that returns true leaves its option set and the others as they were. -/
theorem Idle.settable (H : Idle self) {self₁ : Opt φ} (h : self.call (useCall u) = some (true, self₁)) :
    Idle self₁ ∧ (∀ u' : Getopt.Use Octet, u'.1 = u.1 → Settable self₁ u') ∧
      ∀ u' : Getopt.Use Octet, u'.1 ≠ u.1 → (Settable self₁ u' ↔ Settable self u') := by
  obtain ⟨cur, a, v, htarget, hslot, hset⟩ := H.call_true h
  obtain ⟨self', v', hcall, hidle, hsame, hslot', hset', hother⟩ := H.call htarget hslot hset
  obtain rfl := (Prod.mk.inj (Option.some.inj (h.symm.trans hcall))).2
  refine ⟨hidle, fun u' hu' => ?_, fun u' hu' => ?_⟩
  · rw [← hu', ← hsame.target] at htarget
    exact ⟨cur, a, v', htarget, hslot', .inl hset'⟩
  · refine exists_congr fun cur' => exists_congr fun a' => exists_congr fun v' => ?_
    rw [hsame.target]
    refine and_congr_right fun htarget' => ?_
    rw [hother cur']
    rintro rfl
    exact hu' (BitVec.toInt_inj.mp (target_short_inj htarget' htarget))

/-- All calls return true if and only if the first use of each option can be set. -/
theorem Idle.run_iff (H : Idle self) : (∃ self', self.runTrue (us.map useCall) = some self') ↔
    ∀ u, FirstUse us u → Settable self u := by
  induction us generalizing self with
  | nil => exact ⟨fun _ u hu => absurd hu (by simp [FirstUse]), fun _ => ⟨self, rfl⟩⟩
  | cons u us ih =>
    constructor
    · rintro ⟨self', hrun⟩
      obtain ⟨self₁, hcall, hrun⟩ := runTrue_cons hrun
      obtain ⟨hidle, hhead, htail⟩ := H.settable hcall
      intro u' hu'
      rcases firstUse_cons.mp hu' with rfl | ⟨hne, hu'⟩
      · exact H.call_true hcall
      · exact (htail u' hne).mp ((ih hidle).mp ⟨self', hrun⟩ u' hu')
    · intro hall
      obtain ⟨cur, a, v, htarget, hslot, hset⟩ := hall u (firstUse_cons.mpr (.inl rfl))
      obtain ⟨self₁, v', hcall, -⟩ := H.call htarget hslot hset
      obtain ⟨hidle, hhead, htail⟩ := H.settable hcall
      obtain ⟨self', hrun⟩ := (ih hidle).mpr fun u' hu' => by
        by_cases hne : u'.1 = u.1
        · exact hhead u' hne
        · exact (htail u' hne).mpr (hall u' (firstUse_cons.mpr (.inr ⟨hne, hu'⟩)))
      refine ⟨self', ?_⟩
      rw [List.map_cons, Opt.runTrue, hcall, Option.bind_eq_bind, Option.bind_some, if_pos rfl]
      exact hrun

theorem Idle.run (H : Idle self) (h : self.runTrue (us.map useCall) = some opt) : Idle opt := by
  induction us generalizing self with
  | nil =>
    cases h
    exact H
  | cons u us ih =>
    obtain ⟨self₁, hcall, hrun⟩ := runTrue_cons h
    exact ih (H.settable hcall).1 hrun

omit [LongDouble φ] in
/-- There is nothing to release. -/
theorem Idle.free (H : Idle self) : self.free = some Memory.init := by
  have hnone (l : List (OptRec φ × OptSet φ)) (hl : ∀ e ∈ l, e.2.isAlloc = false) :
      l.foldlM (fun h e => e.2.release h) Memory.init = some Memory.init := by
    induction l with
    | nil => rfl
    | cons e l ih =>
      rw [List.foldlM_cons, OptSet.release, hl e List.mem_cons_self]
      exact ih fun e he => hl e (List.mem_cons_of_mem _ he)
  rw [Opt.free, H.heap]
  refine hnone _ fun e he => H.alloc e.2 ?_
  obtain ⟨c, hc, he⟩ := List.mem_flatMap.mp he
  exact List.mem_flatMap.mpr ⟨c, hc, (List.of_mem_zip he).2⟩

end Run

/-! ## The whole line -/

section Whole
variable {φ : Type} [LongDouble φ] {rcs : List (OptRec φ)} {words : List (List Octet)}
  {posixly : Bool} {program : List Octet} {contents : ℕ → Octet} {opt : Opt φ}

theorem formed_cmdFresh (hrcs : rcs ≠ []) : Formed (cmdFresh rcs).rcs :=
  formed_withRecords (by simpa [baseOptions] using hrcs)

theorem idle_cmdFresh (hrcs : rcs ≠ []) : Idle (cmdFresh rcs) where
  formed := formed_cmdFresh hrcs
  heap := by rw [cmdFresh, withRecords_eq]
  alloc v hv := by rw [slots_withRecords hv]; rfl

/-- The first record with this short key. -/
def keyRecord (records : List (OptRec φ)) (c : Octet) : Option (OptRec φ) :=
  records.find? fun a => a.sKey.toInt > 0 ∧ a.sKey = c

/-- A line of options, each of which has a record that takes its first argument. -/
structure Taken (posixly : Bool) (records : List (OptRec φ)) (words : List (List Octet))
    (us : List (Getopt.Use Octet)) : Prop where
  line : Getopt.Line (lineRules posixly records) words us
  plain : ∀ u ∈ us, u.1 ∉ chars "hv?"
  first : ∀ u, FirstUse us u → ∃ a, keyRecord records u.1 = some a ∧ Takes a u

/-- The words give these options, and the loop of `cmd_base` sets them. -/
theorem wordSteps_of_line (hrcs : rcs ≠ []) (hvalid : ValidKeys (baseOptions ++ rcs))
    {us : List (Getopt.Use Octet)} (hline : Getopt.Line (lineRules posixly (baseOptions ++ rcs)) words us)
    (hus : ∀ u ∈ us, u.1 ∉ cmdOptionChars) (hrun : (cmdFresh rcs).runTrue (us.map useCall) = some opt) :
    wordSteps posixly program words rcs contents = some (us.map useStep) ∧
      cmdLoop (us.map useStep) (cmdFresh rcs) = some (.ok, opt) := by
  obtain ⟨t, ht, htable⟩ := getopt_cmdTable hrcs contents
  have hfinds := (Getopt.finds_line program).mpr hline
  have hn := Getopt.finds_length hfinds
  rw [List.length_map] at hn
  rw [wordSteps, ht, Option.bind_eq_bind, Option.bind_some]
  dsimp only
  rw [htable, rules_eq hvalid posixly]
  exact argSteps_of_finds hfinds (Nat.lt_succ_of_le hn) (formed_cmdFresh hrcs) hus hrun

theorem line_of_wordSteps (hrcs : rcs ≠ []) (hvalid : ValidKeys (baseOptions ++ rcs)) {args : List GetoptStep}
    (h : wordSteps posixly program words rcs contents = some args)
    (hloop : cmdLoop args (cmdFresh rcs) = some (.ok, opt)) :
    ∃ us, Getopt.Line (lineRules posixly (baseOptions ++ rcs)) words us ∧ args = us.map useStep ∧
      (∀ u ∈ us, u.1 ∉ cmdOptionChars) ∧ (cmdFresh rcs).runTrue (us.map useCall) = some opt := by
  obtain ⟨t, ht, htable⟩ := getopt_cmdTable hrcs contents
  rw [wordSteps, ht, Option.bind_eq_bind, Option.bind_some] at h
  dsimp only at h
  rw [htable, rules_eq hvalid posixly] at h
  obtain ⟨us, hfinds, hargs, hus, hrun⟩ := finds_of_argSteps h hloop
  exact ⟨us, (Getopt.finds_line program).mp hfinds, hargs, hus, hrun⟩

omit [LongDouble φ] in
/-- An option of a line that is not one of `cmd_base` has a record. -/
theorem keyRecord_of_line {records : List (OptRec φ)} {us : List (Getopt.Use Octet)}
    (h : Getopt.Line (lineRules posixly records) words us) {u : Getopt.Use Octet} (hu : u ∈ us)
    (hplain : u.1 ∉ chars "hv?") : ∃ a, keyRecord records u.1 = some a := by
  have hknown := Getopt.line_known h u hu
  rw [lineRules] at hknown
  dsimp only at hknown
  rw [if_neg (by rwa [List.contains_iff_mem]), ne_eq, Option.map_eq_none_iff, ← ne_eq, Option.ne_none_iff_exists'] at hknown
  exact hknown

omit [LongDouble φ] in
theorem keyRecord_some {records : List (OptRec φ)} {c : Octet} {a : OptRec φ}
    (h : keyRecord records c = some a) : a ∈ records ∧ a.sKey.toInt > 0 ∧ a.sKey = c := by
  have hkey := List.find?_some h
  exact ⟨List.mem_of_find?_eq_some h, of_decide_eq_true hkey⟩

theorem target_keyRecord {c : Octet} (hc : 0 < c.toInt) :
    ((cmdFresh rcs).target (.short c.toInt)).map Prod.snd = keyRecord (baseOptions ++ rcs) c := by
  have hrecords : (entries 0 (cmdFresh rcs).rcs).map Prod.snd = baseOptions ++ rcs := by
    rw [map_entries, cmdFresh, withRecords_eq]
    simp
  rw [Opt.target, if_neg (by omega), keyRecord, ← hrecords, List.find?_map]
  congr 2
  funext e
  rw [Function.comp_apply, Opt.bySkey, decide_eq_decide]
  constructor
  · intro h
    exact ⟨by omega, BitVec.toInt_inj.mp h⟩
  · rintro ⟨-, rfl⟩
    rfl

theorem settable_cmdFresh (hrcs : rcs ≠ []) {u : Getopt.Use Octet} (hu : 0 < u.1.toInt) :
    Settable (cmdFresh rcs) u ↔ ∃ a, keyRecord (baseOptions ++ rcs) u.1 = some a ∧ Takes a u := by
  rw [← target_keyRecord hu]
  constructor
  · rintro ⟨cur, a, v, htarget, hslot, hset⟩
    have hzero : v = OptSet.zero := slots_withRecords (mem_slots_of_slotAt hslot)
    refine ⟨a, by rw [htarget]; rfl, hset.resolve_left ?_⟩
    rw [hzero]
    exact Bool.false_ne_true
  · rintro ⟨a, ha, htakes⟩
    obtain ⟨⟨cur, a⟩, htarget, rfl⟩ := Option.map_eq_some_iff.mp ha
    obtain ⟨v, hslot⟩ := exists_slotAt (formed_cmdFresh hrcs) (Opt.recAt_of_target htarget)
    exact ⟨cur, a, v, htarget, hslot, .inr htakes⟩

/-- Each option has what its first use says. -/
theorem keepsOrder_run (hrcs : rcs ≠ []) {us : List (Getopt.Use Octet)}
    (hrun : (cmdFresh rcs).runTrue (us.map useCall) = some opt) :
    KeepsOrder (cmdFresh rcs) (us.map useCall) opt := by
  have harrays : ∀ r ∈ [baseOptions, rcs], r ≠ [] := by simpa [baseOptions] using hrcs
  have hfl : ∀ c ∈ us.map useCall, c.fl &&& optReplace = 0 ∧ c.fl &&& optStrMask ≠ optStrMask := by
    intro c hc
    obtain ⟨u, -, rfl⟩ := List.mem_map.mp hc
    exact flags_plain (.inl rfl)
  refine (keepsOrder_iff harrays hfl hrun).mpr fun cur a c _ hc => ?_
  obtain ⟨u, -, rfl⟩ := List.mem_map.mp (List.mem_of_find?_eq_some hc)
  exact not_short_cmdCall a (useStep u)

/-- A line is taken if all calls for it return true, and it has no other options. -/
theorem taken_iff (hrcs : rcs ≠ []) (hvalid : ValidKeys (baseOptions ++ rcs)) {us : List (Getopt.Use Octet)} :
    Taken posixly (baseOptions ++ rcs) words us ↔
      Getopt.Line (lineRules posixly (baseOptions ++ rcs)) words us ∧ (∀ u ∈ us, u.1 ∉ cmdOptionChars) ∧
        ∃ opt, (cmdFresh rcs).runTrue (us.map useCall) = some opt := by
  have hchars (c : Octet) : c ∈ cmdOptionChars ↔ c = colon ∨ c ∈ chars "hv?" := by
    rw [show cmdOptionChars = colon :: chars "hv?" by decide, List.mem_cons]
  have hpos (hline : Getopt.Line (lineRules posixly (baseOptions ++ rcs)) words us)
      (hplain : ∀ u ∈ us, u.1 ∉ chars "hv?") : ∀ u ∈ us, 0 < u.1.toInt ∧ u.1 ≠ colon := by
    intro u hu
    obtain ⟨a, ha⟩ := keyRecord_of_line hline hu (hplain u hu)
    obtain ⟨hmem, hpos, hkey⟩ := keyRecord_some ha
    rw [← hkey]
    exact ⟨hpos, (not_special (hvalid a hmem hpos)).1⟩
  have hfirst {u : Getopt.Use Octet} (hu : FirstUse us u) : u ∈ us := List.mem_of_find?_eq_some hu
  constructor
  · rintro ⟨hline, hplain, hall⟩
    have hkeys := hpos hline hplain
    refine ⟨hline, fun u hu => ?_, (idle_cmdFresh hrcs).run_iff.mpr fun u hu => ?_⟩
    · rw [hchars, not_or]
      exact ⟨(hkeys u hu).2, hplain u hu⟩
    · exact (settable_cmdFresh hrcs (hkeys u (hfirst hu)).1).mpr (hall u hu)
  · rintro ⟨hline, hplain, hrun⟩
    have hplain' : ∀ u ∈ us, u.1 ∉ chars "hv?" := fun u hu hmem => hplain u hu ((hchars u.1).mpr (.inr hmem))
    refine ⟨hline, hplain', fun u hu => ?_⟩
    exact (settable_cmdFresh hrcs (hpos hline hplain' u (hfirst hu)).1).mp
      ((idle_cmdFresh hrcs).run_iff.mp hrun u hu)

/-- `cmd_base` comes to the end of a command line if and only if it is taken, and then each option has
what its first use says, or its default. -/
theorem cmd_words_taken (hrcs : rcs ≠ []) (hvalid : ValidKeys (baseOptions ++ rcs)) :
    ((∃ args opt, wordSteps posixly program words rcs contents = some args ∧
        cmdLoop args (cmdFresh rcs) = some (.ok, opt)) ↔
      ∃ us, Taken posixly (baseOptions ++ rcs) words us) ∧
    ∀ us, Taken posixly (baseOptions ++ rcs) words us →
      ∃ opt, wordSteps posixly program words rcs contents = some (us.map useStep) ∧
        cmdLoop (us.map useStep) (cmdFresh rcs) = some (.ok, opt) ∧
        KeepsOrder (cmdFresh rcs) (us.map useCall) opt := by
  constructor
  · constructor
    · rintro ⟨args, opt, h, hloop⟩
      obtain ⟨us, hline, -, hus, hrun⟩ := line_of_wordSteps hrcs hvalid h hloop
      exact ⟨us, (taken_iff hrcs hvalid).mpr ⟨hline, hus, opt, hrun⟩⟩
    · rintro ⟨us, h⟩
      obtain ⟨hline, hus, opt, hrun⟩ := (taken_iff hrcs hvalid).mp h
      obtain ⟨hsteps, hloop⟩ := wordSteps_of_line hrcs hvalid hline hus hrun
      exact ⟨_, opt, hsteps, hloop⟩
  · intro us htaken
    obtain ⟨hline, hus, opt, hrun⟩ := (taken_iff hrcs hvalid).mp htaken
    obtain ⟨hsteps, hloop⟩ := wordSteps_of_line hrcs hvalid hline hus hrun
    exact ⟨opt, hsteps, hloop, keepsOrder_run hrcs hrun⟩

theorem validKeys_client : ValidKeys (baseOptions ++ clientOptions : List (OptRec Unit)) := by
  have hvalid : ∀ c ∈ chars "yeilftsad46n", ValidOption c := by simpa only [← isValid_iff] using by decide
  have hkeys : (baseOptions ++ clientOptions : List (OptRec Unit)).map OptRec.sKey = chars "yeilftsad46n" := by
    decide
  intro a ha _
  exact hvalid a.sKey (hkeys ▸ List.mem_map_of_mem ha)

/-- A line of the client, where the interface is given twice. -/
def sampleWords : List (List Octet) := [chars "-tn", chars "200", chars "-ieth1", chars "-i", chars "eth2"]

def sampleUses : List (Getopt.Use Octet) :=
  [(character 't', none), (character 'n', some (chars "200")), (character 'i', some (chars "eth1")),
    (character 'i', some (chars "eth2"))]

theorem taken_sample (posixly : Bool) : Taken posixly (baseOptions ++ clientOptions : List (OptRec Unit)) sampleWords
    sampleUses where
  line := by
    have hflag : Getopt.Word (lineRules posixly (baseOptions ++ clientOptions : List (OptRec Unit))) (chars "tn")
        [(character 't', none)] (some (character 'n')) := .flag rfl (.apart rfl)
    have hjoined : Getopt.Word (lineRules posixly (baseOptions ++ clientOptions : List (OptRec Unit)))
        (chars "ieth1") [(character 'i', some (chars "eth1"))] none := .joined (.inl rfl) (by decide)
    have htn : chars "tn" ≠ [dash] := by decide
    have hieth1 : chars "ieth1" ≠ [dash] := by decide
    have hi : character 'i' ≠ dash := by decide
    exact .apart htn hflag (.word (by decide) hieth1 hjoined (.value rfl hi .nil))
  plain := by decide
  first := by
    intro u hu
    have hmem : u ∈ sampleUses := List.mem_of_find?_eq_some hu
    simp only [sampleUses, List.mem_cons, List.not_mem_nil, or_false] at hmem
    rcases hmem with rfl | rfl | rfl | rfl
    · exact ⟨_, rfl, takes_flag rfl⟩
    · exact ⟨_, rfl, takes_number (i := 200) rfl (by decide) (by decide) (by decide) (by decide)⟩
    · exact ⟨_, rfl, takes_str rfl (by decide)⟩
    · exact ⟨_, rfl, takes_str rfl (by decide)⟩

theorem cmd_words_taken_sample : ∃ opt,
    wordSteps true (chars "client") sampleWords clientOptions (fun _ => 0xaa) = some (sampleUses.map useStep) ∧
      cmdLoop (sampleUses.map useStep) (cmdFresh clientOptions : Opt Unit) = some (.ok, opt) := by
  obtain ⟨opt, hsteps, hloop, -⟩ := (cmd_words_taken (by simp [clientOptions]) validKeys_client).2 sampleUses
    (taken_sample true)
  exact ⟨opt, hsteps, hloop⟩

end Whole

end Csptp
