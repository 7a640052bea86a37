import Csptp.Cmdl.Programs
import Csptp.Cmdl.Settings

/-! # Strings of a structure

The structure that `cmd_client` or `cmd_service` fills holds strings of the option object, which is freed
at the end. Those of the command line and the defaults stay, and the duplicates that the object made for
the file do not. -/
namespace Csptp
open Octets
set_option autoImplicit false

section Strings
variable {φ : Type} {self self' fresh : Opt φ} {c : ParseCall} {cur : ℕ × ℕ}

/-! ## Objects that own duplicates -/

/-- All strings that the object owns or has released are duplicates. -/
structure Duplicating (opt : Opt φ) : Prop where
  owning : Owning opt
  dups : ∀ b ∈ owned opt.rcs ++ opt.heap.released, ∃ n, b = .dup n

/-- A setting of the command line or of the file. -/
structure Command (c : ParseCall) : Prop where
  flags : c.fl = optBoolDef ∨ c.fl = optStrDup
  caller : ∀ t ∈ c.s, ∃ n, t.block = .caller n

namespace Duplicating

theorem other (H : Duplicating self) {b : Block} (hb : ∃ n, b = .caller n) :
    b ∉ owned self.rcs ++ self.heap.released := by
  intro hin
  obtain ⟨n, rfl⟩ := hb
  obtain ⟨m, hm⟩ := H.dups _ hin
  exact Block.noConfusion hm

theorem proper (H : Duplicating self) (hc : Command c) : Proper self c := by
  refine ⟨fun t ht hin => H.other (hc.caller t ht) (List.mem_append_right _ hin), fun cur v t hs _ => ?_,
    fun cur v t _ hmask => ?_⟩
  · have hcaller := hc.caller t (by rw [hs.str]; rfl)
    exact ⟨hcaller, H.other hcaller⟩
  · rcases hc.flags with hfl | hfl
    · exact absurd hmask (by rw [hfl]; decide)
    · exact absurd hmask (by rw [hfl]; decide)

theorem clean (H : Duplicating self) (hc : Command c) : Clean self c := by
  refine ⟨fun cur v t _ => (flags_plain hc.flags).2, fun cur v t hs _ hin => ?_⟩
  refine H.other (hc.caller t (by rw [hs.str]; rfl)) (List.mem_append_left _ ?_)
  exact List.mem_flatMap.mpr ⟨v, mem_slots_of_slotAt hs.slot, hin⟩

variable [LongDouble φ]

theorem called {b : Bool} (H : Duplicating self) (hc : Command c) (h : Called self c b self') :
    Duplicating self' := by
  refine ⟨H.owning.called (H.proper hc) (H.clean hc) h, ?_⟩
  cases h with
  | missing => exact H.dups
  | @parsed cur a v v' b h' htarget hslot hparsed =>
    cases hparsed with
    | kept =>
      rw [store_self hslot]
      exact H.dups
    | refused =>
      rw [store_self hslot]
      exact H.dups
    | @int i =>
      rw [(@Owning.store_same φ self cur v (v.setInt i) H.owning hslot rfl rfl).2]
      exact H.dups
    | @float t f =>
      rw [(@Owning.store_same φ self cur v (v.setFloat f) H.owning hslot rfl rfl).2]
      exact H.dups
    | @str t v' h' hopen hstr hs _ hne hset =>
      obtain ⟨v₁, h₁, hset₁, hstored, -, hperm⟩ :=
        H.owning.storing ⟨⟨a, htarget, hstr⟩, hslot, hopen, hs, hne⟩ (H.proper hc) (H.clean hc)
      rw [hset] at hset₁
      cases hset₁
      intro b hb
      rcases List.mem_append.mp (hperm.mem_iff.mp hb) with hold | hnew
      · exact H.dups b hold
      · cases hstored with
        | static => exact absurd hnew List.not_mem_nil
        | dup => exact ⟨_, List.mem_singleton.mp hnew⟩
        | short => exact absurd hnew List.not_mem_nil
        | pass hmask =>
          rcases hc.flags with hfl | hfl
          · exact absurd hmask (by rw [hfl]; decide)
          · exact absurd hmask (by rw [hfl]; decide)

theorem run {calls : List ParseCall} (H : Duplicating self) (hc : ∀ c ∈ calls, Command c)
    (h : self.runTrue calls = some self') : Duplicating self' := by
  induction calls generalizing self with
  | nil =>
    cases h
    exact H
  | cons c calls ih =>
    obtain ⟨self₁, hcall, hrun⟩ := runTrue_cons h
    obtain ⟨hfirst, hrest⟩ := List.forall_mem_cons.mp hc
    exact ih (H.called hfirst (call_called H.owning.formed hcall)) hrest hrun

theorem new {arrays : List (List (OptRec φ))} (h : GoodRecords arrays) :
    Duplicating (Opt.withRecords arrays) := by
  refine ⟨owning_withRecords h, fun b hb => ?_⟩
  rcases List.mem_append.mp hb with hb | hb
  · obtain ⟨v, hv, hb⟩ := List.mem_flatMap.mp hb
    rw [slots_withRecords hv] at hb
    exact absurd hb List.not_mem_nil
  · rw [withRecords_eq] at hb
    exact absurd hb List.not_mem_nil

end Duplicating

variable [LongDouble φ]

/-! ## After the object is freed -/

/-- The first setting of the option in this place is a duplicate of a string in the file. -/
def SetByFile (fresh : Opt φ) (calls : List ParseCall) (cur : ℕ × ℕ) : Prop :=
  ∃ c, firstSetting fresh cur calls = some c ∧ c.fl = optStrDup ∧ c.ok = true

/-- A string in a value, which the object was asked for before it was freed. -/
theorem live_iff {arrays : List (List (OptRec φ))} (harrays : GoodRecords arrays) {calls : List ParseCall}
    (hcalls : ∀ c ∈ calls, Command c) (h : (Opt.withRecords arrays).runTrue calls = some self)
    {a : OptRec φ} (ha : Opt.recAt (Opt.withRecords arrays).rcs cur = some a) (hstr : a.type = .str)
    {w : OptRecVal φ} (hw : self.valueAt (cur, a) = some w) {m : Memory} (hfree : self.free = some m) :
    (∀ t ∈ w.s, t.block ∉ m.released) ↔ ¬ SetByFile (Opt.withRecords arrays) calls cur := by
  have H : Duplicating self := (Duplicating.new harrays).run hcalls h
  obtain ⟨v, hslot, hvalue, hfirst⟩ :=
    new_first harrays.nonempty (fun c hc => (flags_plain (hcalls c hc).flags).1) h ha
  rw [hw] at hvalue
  cases hvalue
  rw [H.owning.free] at hfree
  cases hfree
  have hlive {t : CStr} (ht : ∃ n, t.block = .caller n) : t.block ∉ self.heap.released ++ owned self.rcs :=
    fun hin => H.other ht (List.mem_append.mpr (List.mem_append.mp hin).symm)
  obtain ⟨hnone, rfl⟩ | ⟨c, h₁, h₂, hsetting, hset, hparsed⟩ := hfirst
  · refine iff_of_true (fun t ht => hlive ?_) ?_
    · obtain ⟨r, hr, hmem⟩ := exists_of_recAt ha
      exact harrays.defaults r hr a hmem t ht
    · rintro ⟨c, hc, -⟩
      exact absurd (hnone.symm.trans hc) (by simp)
  · have hcommand := hcalls c (List.mem_of_find?_eq_some hsetting)
    obtain ⟨t, hs, -, hstored⟩ := parsed_str hstr rfl rfl (flags_plain hcommand.flags).2 hparsed
    have hdup : SetByFile (Opt.withRecords arrays) calls cur ↔ c.fl = optStrDup ∧ c.ok = true := by
      rw [SetByFile, hsetting]
      simp
    rw [hdup, if_pos hset]
    cases hstored with
    | static hmask =>
      refine iff_of_true (fun u hu => ?_) fun hdup => ?_
      · cases hu
        exact hlive (hcommand.caller t hs)
      · rw [hdup.1] at hmask
        exact absurd hmask (by decide)
    | dup hmask hok =>
      refine iff_of_false (fun hall => ?_) (not_not.mpr ⟨?_, hok⟩)
      · refine hall _ rfl (List.mem_append_right _ ?_)
        exact List.mem_flatMap.mpr ⟨_, mem_slots_of_slotAt hslot, List.mem_singleton_self _⟩
      · rcases hcommand.flags with hfl | hfl
        · rw [hfl] at hmask
          exact absurd hmask (by decide)
        · exact hfl
    | short _ hok =>
      refine iff_of_true (fun u hu => absurd hu (by simp)) fun hdup => ?_
      exact absurd (hok.symm.trans hdup.2) (by simp)
    | pass hmask =>
      rcases hcommand.flags with hfl | hfl
      · exact absurd hmask (by rw [hfl]; decide)
      · exact absurd hmask (by rw [hfl]; decide)

end Strings

/-! ## The settings -/

section Settings
variable {φ : Type} {fresh : Opt φ}

theorem command_fileCalls {strdup : ℕ → Bool} {lines : List ParsedLine} {n : ℕ} :
    ∀ c ∈ fileCalls fresh strdup n lines, Command c := by
  induction lines generalizing n with
  | nil => exact fun c hc => absurd hc List.not_mem_nil
  | cons line rest ih =>
    cases line with
    | ignored => exact ih
    | refused => exact ih
    | setSection => exact ih
    | setKey key val =>
      refine List.forall_mem_cons.mpr ⟨⟨.inr rfl, fun t ht => ⟨2, ?_⟩⟩, ih⟩
      have ht : keyVal (typeOf fresh (untilZero key)) (untilZero val) = some t := ht
      rw [keyVal] at ht
      split at ht
      · obtain ⟨text, -, rfl⟩ := Option.map_eq_some_iff.mp ht
        rfl
      · cases ht
        rfl

theorem command_settings {sys : CmdSystem} {args : List GetoptStep} :
    ∀ c ∈ settings sys fresh args, Command c := by
  intro c hc
  rcases List.mem_append.mp hc with hc | hc
  · obtain ⟨g, -, rfl⟩ := List.mem_map.mp hc
    refine ⟨.inl rfl, fun t ht => ?_⟩
    obtain ⟨s, -, rfl⟩ := Option.map_eq_some_iff.mp ht
    exact ⟨s.1, rfl⟩
  · rw [configCalls] at hc
    split at hc
    · exact absurd hc List.not_mem_nil
    · cases hfile : sys.file (cfgName args) with
      | none =>
        rw [hfile] at hc
        exact absurd hc List.not_mem_nil
      | some text =>
        rw [hfile] at hc
        exact command_fileCalls c hc

end Settings

/-! ## The structures -/

section Structures
variable {sys : CmdSystem} {args : List GetoptStep} {rcs : List (OptRec Unit)} {opt : Opt Unit}
  {m : Memory}

/-- The first setting of the option with this short key is a duplicate of a string in the file. -/
def FileSets (sys : CmdSystem) (rcs : List (OptRec Unit)) (args : List GetoptStep) (sk : Char) : Prop :=
  let fresh := Opt.withRecords [baseOptions, rcs]
  ∃ e, fresh.target (.short sk.toNat) = some e ∧ SetByFile fresh (settings sys fresh args) e.1

/-- What a structure holds is what the object gave for this key, and in this memory it is still live. -/
def StillValid (opt : Opt Unit) (sk : Char) (s : Option CStr) (m : Memory) : Prop :=
  opt.getOptStr sk = some s ∧ ∀ t ∈ s, t.block ∉ m.released

theorem stillValid_iff (hgood : GoodRecords [baseOptions, rcs])
    (h : cmdBase sys rcs args = some (.ok, some opt)) (hfree : opt.free = some m) {sk : Char} {cur : ℕ × ℕ}
    {a : OptRec Unit} (hstr : a.type = .str)
    (htarget : (Opt.withRecords [baseOptions, rcs]).target (.short sk.toNat) = some (cur, a))
    {s : Option CStr} (hs : opt.getOptStr sk = some s) :
    StillValid opt sk s m ↔ ¬ FileSets sys rcs args sk := by
  have hrun := runTrue_settings (hgood.nonempty rcs (by simp)) h
  have hformed := formed_withRecords hgood.nonempty
  obtain ⟨hsame, hformed'⟩ := run_same hformed hrun
  have ha := Opt.recAt_of_target htarget
  obtain ⟨w, hw, -⟩ := first_value hgood.nonempty (fun c hc => flags_plain (flags_settings c hc)) hrun ha
  have hget := getOptStr_eq hformed' ((hsame.target _).trans htarget) hw
  rw [hs] at hget
  cases hget
  rw [StillValid, and_iff_right hs, live_iff hgood command_settings hrun ha hstr hw hfree, FileSets, htarget]
  simp

theorem goodRecords_client : GoodRecords [baseOptions, clientOptions] := by
  constructor
  · simp [baseOptions, clientOptions]
  · simp [baseOptions, clientOptions, keyStr, keyBool, keyInt, keyEnum, programStr, OptRecVal.zero]

theorem goodRecords_service : GoodRecords [baseOptions, serviceOptions] := by
  constructor
  · simp [baseOptions, serviceOptions]
  · simp [baseOptions, serviceOptions, keyStr, keyBool, keyInt, keyEnum, programStr, OptRecVal.zero]

theorem clientOpt_some {h4 h6 : Bool} {o : ParsedClient} (h : clientOpt opt h4 h6 = some (o, m)) :
    opt.getOptStr 'i' = some o.ifName ∧ opt.getOptStr 'd' = some o.ip ∧ opt.free = some m := by
  simp only [clientOpt, Option.bind_eq_bind, Option.bind_eq_some_iff] at h
  obtain ⟨ifName, hname, _, -, _, -, _, -, ip, hip, _, -, _, hfree, h⟩ := h
  cases h
  exact ⟨hname, hip, hfree⟩

theorem cmdClient_ok {o : ParsedClient} (h : cmdClient sys args = some (.ok, some (o, m))) :
    ∃ opt, cmdBase sys clientOptions args = some (.ok, some opt) ∧ opt.getOptStr 'i' = some o.ifName ∧
      opt.getOptStr 'd' = some o.ip ∧ opt.free = some m := by
  simp only [cmdClient, Option.bind_eq_bind, Option.bind_eq_some_iff] at h
  obtain ⟨r, hbase, h⟩ := h
  split at h
  · rename_i opt
    simp only [Option.bind_eq_some_iff] at h
    obtain ⟨h4, -, h6, -, h⟩ := h
    split at h
    · simp only [Option.bind_eq_some_iff] at h
      obtain ⟨_, -, h⟩ := h
      exact absurd h (by simp)
    · simp only [Option.bind_eq_some_iff] at h
      obtain ⟨_, ho, h⟩ := h
      cases h
      exact ⟨opt, hbase, clientOpt_some ho⟩
  · exact absurd h (by simp)

theorem cmdService_ok {o : ParsedService} (h : cmdService sys args = some (.ok, some (o, m))) :
    ∃ opt, cmdBase sys serviceOptions args = some (.ok, some opt) ∧
      opt.getOptStr 'i' = some o.ifName ∧ opt.free = some m := by
  simp only [cmdService, Option.bind_eq_bind, Option.bind_eq_some_iff] at h
  obtain ⟨r, hbase, h⟩ := h
  split at h
  · rename_i opt
    simp only [Option.bind_eq_some_iff] at h
    obtain ⟨ifName, hname, _, -, _, -, _, -, _, hfree, h⟩ := h
    cases h
    exact ⟨opt, hbase, hname, hfree⟩
  · exact absurd h (by simp)

/-- In a structure that is returned, the strings are the values of their options and still live, exactly
when the file set none of them. -/
theorem parsed_strings_live (sys : CmdSystem) (args : List GetoptStep) :
    (∀ o m, cmdClient sys args = some (.ok, some (o, m)) →
      ∃ opt, cmdBase sys clientOptions args = some (.ok, some opt) ∧
        (StillValid opt 'i' o.ifName m ∧ StillValid opt 'd' o.ip m ↔
          ¬ FileSets sys clientOptions args 'i' ∧ ¬ FileSets sys clientOptions args 'd')) ∧
    (∀ o m, cmdService sys args = some (.ok, some (o, m)) →
      ∃ opt, cmdBase sys serviceOptions args = some (.ok, some opt) ∧
        (StillValid opt 'i' o.ifName m ↔ ¬ FileSets sys serviceOptions args 'i')) := by
  constructor
  · intro o m h
    obtain ⟨opt, hbase, hname, hip, hfree⟩ := cmdClient_ok h
    refine ⟨opt, hbase, and_congr ?_ ?_⟩
    · exact stillValid_iff goodRecords_client hbase hfree rfl rfl hname
    · exact stillValid_iff goodRecords_client hbase hfree rfl rfl hip
  · intro o m h
    obtain ⟨opt, hbase, hname, hfree⟩ := cmdService_ok h
    exact ⟨opt, hbase, stillValid_iff goodRecords_service hbase hfree rfl rfl hname⟩

end Structures

section Sample

/-- What the file of the sample sets. -/
def fileName : CStr := ⟨.dup 0, chars "x"⟩

/-- The file sets the name of the interface, which is freed with the object. -/
theorem parsed_strings_live_fails :
    (∃ o m, cmdClient (sampleSystem true) [sampleArg] = some (.ok, some (o, m)) ∧
      ∃ t, o.ifName = some t ∧ t.block ∈ m.released) ∧
    ∃ o m, cmdService (sampleSystem true) [sampleArg] = some (.ok, some (o, m)) ∧
      ∃ t, o.ifName = some t ∧ t.block ∈ m.released :=
  ⟨⟨⟨true, false, false, 128, .invalidProto, some fileName, some (programStr 4 "")⟩, ⟨[.dup 0], 1⟩,
      by decide +kernel, fileName, rfl, by decide⟩,
    ⟨true, true, .udpIPv4, some fileName⟩, ⟨[.dup 0], 1⟩, by decide +kernel, fileName, rfl, by decide⟩

/-- `-i eth1` -/
def nameArg : GetoptStep := ⟨'i'.toNat, some (5, chars "eth1"), false⟩

theorem not_fileSets {rcs : List (OptRec Unit)} {args : List GetoptStep} {sk : Char} {cur : ℕ × ℕ}
    {a : OptRec Unit}
    (htarget : (Opt.withRecords [baseOptions, rcs]).target (.short sk.toNat) = some (cur, a))
    (h : (firstSetting (Opt.withRecords [baseOptions, rcs]) cur
      (settings (sampleSystem true) (Opt.withRecords [baseOptions, rcs]) args)).any
        (fun c => c.fl = optStrDup) = false) : ¬ FileSets (sampleSystem true) rcs args sk := by
  rintro ⟨e, he, c, hc, hfl, -⟩
  rw [htarget] at he
  cases he
  rw [hc, Option.any_some, hfl] at h
  exact absurd h (by decide)

/-- The name on the command line goes before the one in the file. -/
theorem parsed_strings_live_sample :
    (∃ opt o m, cmdClient (sampleSystem true) [sampleArg, nameArg] = some (.ok, some (o, m)) ∧
      StillValid opt 'i' o.ifName m ∧ StillValid opt 'd' o.ip m) ∧
    ∃ opt o m, cmdService (sampleSystem true) [sampleArg, nameArg] = some (.ok, some (o, m)) ∧
      StillValid opt 'i' o.ifName m := by
  have hlive := parsed_strings_live (sampleSystem true) [sampleArg, nameArg]
  constructor
  · have h : cmdClient (sampleSystem true) [sampleArg, nameArg] = some (.ok, some
        (⟨true, false, false, 128, .invalidProto, nameArg.arg, some (programStr 4 "")⟩, ⟨[], 0⟩)) := by
      decide +kernel
    obtain ⟨opt, -, hiff⟩ := hlive.1 _ _ h
    exact ⟨opt, _, _, h,
      hiff.mpr ⟨not_fileSets rfl (by decide +kernel), not_fileSets rfl (by decide +kernel)⟩⟩
  · have h : cmdService (sampleSystem true) [sampleArg, nameArg] = some (.ok, some
        (⟨true, true, .udpIPv4, nameArg.arg⟩, ⟨[], 0⟩)) := by
      decide +kernel
    obtain ⟨opt, -, hiff⟩ := hlive.2 _ _ h
    exact ⟨opt, _, _, h, hiff.mpr (not_fileSets rfl (by decide +kernel))⟩

end Sample

end Csptp
