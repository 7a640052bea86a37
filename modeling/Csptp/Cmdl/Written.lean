import Csptp.Cmdl.Returned
import Csptp.Opt.Literals

/-! # Every setting of the client can be written

A setting of the client is written with a word for each flag that differs from its default, and with the
other values as numbers and names. `cmd_client` returns it from these words. -/
namespace Csptp
open Octets
set_option autoImplicit false

/-! ## Flags -/

section Flags
variable {R : Getopt.Rules Octet} {l : List (Char × Bool)} {ws : List (List Octet)}
  {us : List (Getopt.Use Octet)} {sk : Char}

/-- A word for each flag that is set. -/
def flagWords (l : List (Char × Bool)) : List (List Octet) :=
  (l.filter Prod.snd).map fun f => [dash, character f.1]

def flagUses (l : List (Char × Bool)) : List (Getopt.Use Octet) :=
  (l.filter Prod.snd).map fun f => (character f.1, none)

theorem line_flags (hdash : R.dash = dash)
    (hl : ∀ f ∈ l, R.hasArg (character f.1) = some .no ∧ character f.1 ≠ dash) (h : Getopt.Line R ws us) :
    Getopt.Line R (flagWords l ++ ws) (flagUses l ++ us) := by
  induction l with
  | nil => exact h
  | cons f l ih =>
    obtain ⟨⟨hc, hne⟩, hrest⟩ := List.forall_mem_cons.mp hl
    have hline := ih hrest
    rcases f with ⟨c, _ | _⟩
    · exact hline
    · rw [← hdash] at hne
      have hflag := hline.flag hc hne
      rwa [hdash] at hflag

theorem character_inj {c : Char} (hc : c.toNat < 128) (hsk : sk.toNat < 128) :
    character c = character sk ↔ c = sk := by
  rw [← toInt_character hsk, (toInt_character hc).mpr rfl, Nat.cast_inj, Char.toNat_inj]

theorem firstUse_flags (hl : ∀ f ∈ l, f.1.toNat < 128) (hsk : sk.toNat < 128) :
    firstUse (flagUses l ++ us) sk = if (sk, true) ∈ l then some (character sk, none) else firstUse us sk := by
  induction l with
  | nil => rfl
  | cons f l ih =>
    obtain ⟨hc, hrest⟩ := List.forall_mem_cons.mp hl
    have ih := ih hrest
    rcases f with ⟨c, _ | _⟩
    · simpa [flagUses] using ih
    · have hcons : firstUse (flagUses ((c, true) :: l) ++ us) sk =
          if c = sk then some (character c, none) else firstUse (flagUses l ++ us) sk := by
        rw [firstUse, flagUses, List.filter_cons_of_pos rfl, List.map_cons, List.cons_append, List.find?_cons]
        split
        · rename_i heq
          rw [if_pos ((character_inj hc hsk).mp (of_decide_eq_true heq))]
        · rename_i hne
          rw [if_neg fun heq => of_decide_eq_false hne ((character_inj hc hsk).mpr heq)]
          rfl
      rw [hcons, ih]
      by_cases heq : c = sk
      · rw [if_pos heq, if_pos (by simp [heq]), heq]
      · simp [heq, Ne.symm heq]

end Flags

/-! ## Settings -/

/-- What can be set for the client. No type stands for any. -/
structure ClientSetting where
  useTwoSteps : Bool
  useCSPTPstatus : Bool
  useAltTimeScale : Bool
  type : Prot
  domainNumber : ℕ
  ifName : List Octet
  ip : List Octet
  udp : type = .udpIPv4 ∨ type = .udpIPv6 ∨ type = .invalidProto
  inRange : 128 ≤ domainNumber ∧ domainNumber ≤ 239
  named : ifName ≠ []

namespace ClientSetting
variable (o : ClientSetting)

def flags : List (Char × Bool) :=
  [('t', !o.useTwoSteps), ('s', o.useCSPTPstatus), ('a', o.useAltTimeScale), ('4', o.type = .udpIPv4),
    ('6', o.type = .udpIPv6)]

/-- The words of a setting. -/
def words : List (List Octet) :=
  flagWords o.flags ++ [dash, character 'n'] :: decimal o.domainNumber :: [dash, character 'i'] :: o.ifName ::
    if o.ip = [] then [] else [[dash, character 'd'], o.ip]

/-- The uses of the options that have an argument. -/
def values : List (Getopt.Use Octet) :=
  (character 'n', some (decimal o.domainNumber)) :: (character 'i', some o.ifName) ::
    if o.ip = [] then [] else [(character 'd', some o.ip)]

def uses : List (Getopt.Use Octet) := flagUses o.flags ++ o.values

/-- The setting is in the structure of the client. -/
structure IsIn (r : ParsedClient) : Prop where
  useTwoSteps : r.useTwoSteps = o.useTwoSteps
  useCSPTPstatus : r.useCSPTPstatus = o.useCSPTPstatus
  useAltTimeScale : r.useAltTimeScale = o.useAltTimeScale
  type : r.type = o.type
  domainNumber : r.domainNumber.toNat = o.domainNumber
  ifName : r.ifName.map CStr.text = some o.ifName
  ip : r.ip.map CStr.text = some o.ip

end ClientSetting

section Written
variable {o : ClientSetting} {posixly : Bool}

/-- The keys of the flags. -/
def flagKeys : List Char := ['t', 's', 'a', '4', '6']

theorem mem_flagKeys {c : Char} : c ∈ flagKeys ↔ c = 't' ∨ c = 's' ∨ c = 'a' ∨ c = '4' ∨ c = '6' := by
  simp [flagKeys]

theorem flag_key {c : Char} (h : c ∈ flagKeys) : c.toNat < 128 ∧ character c ≠ dash ∧ character c ∉ chars "hv?" := by
  rcases mem_flagKeys.mp h with rfl | rfl | rfl | rfl | rfl <;> decide

/-- The keys with an argument. -/
theorem value_key {c : Char} (h : c = 'n' ∨ c = 'i' ∨ c = 'd' ∨ c = 'f') :
    c.toNat < 128 ∧ character c ≠ dash ∧ character c ∉ chars "hv?" ∧ c ∉ flagKeys := by
  rcases h with rfl | rfl | rfl | rfl <;> decide

theorem hasArg_flag {c : Char} (h : c ∈ flagKeys) :
    (lineRules posixly (baseOptions ++ clientOptions : List (OptRec Unit))).hasArg (character c) = some .no := by
  rcases mem_flagKeys.mp h with rfl | rfl | rfl | rfl | rfl <;> rfl

theorem keyRecord_flag {c : Char} (h : c ∈ flagKeys) :
    ∃ a, keyRecord (baseOptions ++ clientOptions : List (OptRec Unit)) (character c) = some a ∧ a.type = .bool := by
  rcases mem_flagKeys.mp h with rfl | rfl | rfl | rfl | rfl <;> exact ⟨_, rfl, rfl⟩

theorem flags_char : ∀ f ∈ o.flags, f.1 ∈ flagKeys := by
  simp [ClientSetting.flags, flagKeys]

theorem flags_ascii : ∀ f ∈ o.flags, f.1.toNat < 128 := fun f hf => (flag_key (flags_char f hf)).1

theorem mem_uses {u : Getopt.Use Octet} (h : u ∈ o.uses) :
    (∃ c ∈ flagKeys, u = (character c, none)) ∨
      u = (character 'n', some (decimal o.domainNumber)) ∨ u = (character 'i', some o.ifName) ∨
        o.ip ≠ [] ∧ u = (character 'd', some o.ip) := by
  rw [ClientSetting.uses, List.mem_append, ClientSetting.values, List.mem_cons, List.mem_cons] at h
  rcases h with h | rfl | rfl | h
  · obtain ⟨f, hf, rfl⟩ := List.mem_map.mp h
    exact .inl ⟨f.1, flags_char f (List.mem_filter.mp hf).1, rfl⟩
  · exact .inr (.inl rfl)
  · exact .inr (.inr (.inl rfl))
  · split at h
    · exact absurd h List.not_mem_nil
    · rename_i hip
      exact .inr (.inr (.inr ⟨hip, List.mem_singleton.mp h⟩))

theorem line_words : Getopt.Line (lineRules posixly (baseOptions ++ clientOptions : List (OptRec Unit))) o.words
    o.uses := by
  have hflags : ∀ f ∈ o.flags,
      (lineRules posixly (baseOptions ++ clientOptions : List (OptRec Unit))).hasArg (character f.1) =
        some .no ∧ character f.1 ≠ dash :=
    fun f hf => ⟨hasArg_flag (flags_char f hf), (flag_key (flags_char f hf)).2.1⟩
  have hn := (value_key (c := 'n') (by simp)).2.1
  have hi := (value_key (c := 'i') (by simp)).2.1
  have hd := (value_key (c := 'd') (by simp)).2.1
  rw [ClientSetting.words, ClientSetting.uses, ClientSetting.values]
  refine line_flags rfl hflags (.value rfl hn (.value rfl hi ?_))
  split
  · exact .nil
  · exact .value rfl hd .nil

theorem toInt64_domain : toInt64 (decimal o.domainNumber) = some (o.domainNumber : ℤ) := by
  obtain ⟨hlow, hhigh⟩ := o.inRange
  have hmax : (o.domainNumber : ℤ) ≤ int64Max := le_trans (by omega : (o.domainNumber : ℤ) ≤ 239) (by decide)
  exact toInt64_decimal (by omega) hmax

theorem taken_words : Taken posixly (baseOptions ++ clientOptions : List (OptRec Unit)) o.words o.uses where
  line := line_words
  plain := by
    intro u hu
    rcases mem_uses hu with ⟨c, hc, rfl⟩ | rfl | rfl | ⟨-, rfl⟩
    · exact (flag_key hc).2.2
    all_goals exact (value_key (by simp)).2.2.1
  first := by
    intro u hu
    obtain ⟨hlow, hhigh⟩ := o.inRange
    rcases mem_uses (List.mem_of_find?_eq_some hu) with ⟨c, hc, rfl⟩ | rfl | rfl | ⟨hip, rfl⟩
    · obtain ⟨a, ha, htype⟩ := keyRecord_flag hc
      exact ⟨a, ha, takes_flag htype⟩
    · have hmin : (128 : ℤ) ≤ o.domainNumber := by omega
      have hmax : (o.domainNumber : ℤ) ≤ 239 := by omega
      exact ⟨_, rfl, takes_number rfl (decimal_ne_nil (by omega)) toInt64_domain hmin hmax⟩
    · exact ⟨_, rfl, takes_str rfl o.named⟩
    · exact ⟨_, rfl, takes_str rfl hip⟩

theorem firstUse_uses {sk : Char} (hsk : sk.toNat < 128) : firstUse o.uses sk =
    if (sk, true) ∈ o.flags then some (character sk, none) else firstUse o.values sk :=
  firstUse_flags flags_ascii hsk

theorem firstUse_flag {sk : Char} (hsk : sk ∈ flagKeys) :
    (firstUse o.uses sk).isSome = decide ((sk, true) ∈ o.flags) := by
  have hnone : firstUse o.values sk = none := by
    rw [ClientSetting.values]
    split <;> rcases mem_flagKeys.mp hsk with rfl | rfl | rfl | rfl | rfl <;> rfl
  rw [firstUse_uses (flag_key hsk).1, hnone]
  split
  · rename_i h
    exact (decide_eq_true h).symm
  · rename_i h
    exact (decide_eq_false h).symm

theorem firstUse_value {sk : Char} (hsk : sk = 'n' ∨ sk = 'i' ∨ sk = 'd' ∨ sk = 'f') :
    firstUse o.uses sk = firstUse o.values sk := by
  obtain ⟨hascii, -, -, hnot⟩ := value_key hsk
  rw [firstUse_uses hascii, if_neg fun h => hnot (flags_char _ h)]

theorem firstUse_domain : firstUse o.uses 'n' = some (character 'n', some (decimal o.domainNumber)) :=
  firstUse_value (by simp)

theorem firstUse_ifName : firstUse o.uses 'i' = some (character 'i', some o.ifName) :=
  firstUse_value (by simp)

theorem firstUse_ip : (firstUse o.uses 'd').elim [] (fun u => u.2.getD []) = o.ip := by
  rw [firstUse_value (by simp), ClientSetting.values]
  split
  · rename_i hip
    exact hip.symm
  · rfl

theorem firstUse_file : firstUse o.uses 'f' = none := by
  rw [firstUse_value (by simp), ClientSetting.values]
  split <;> rfl

/-- What the client gets from the words is the setting. -/
theorem isIn_of_says {r : ParsedClient} (h : ClientSays o.uses r) : o.IsIn r where
  useTwoSteps := by
    rw [h.useTwoSteps, ← Option.not_isSome, firstUse_flag (by decide)]
    simp [ClientSetting.flags]
  useCSPTPstatus := by
    rw [h.useCSPTPstatus, firstUse_flag (by decide)]
    simp [ClientSetting.flags]
  useAltTimeScale := by
    rw [h.useAltTimeScale, firstUse_flag (by decide)]
    simp [ClientSetting.flags]
  type := by
    rw [h.type, firstUse_flag (by decide), firstUse_flag (by decide)]
    rcases o.udp with htype | htype | htype <;> simp [ClientSetting.flags, htype]
  domainNumber := by
    obtain ⟨i, hi, -, -, hread⟩ := h.domainNumber
    rw [firstUse_domain, Option.elim_some, Option.getD_some, toInt64_domain, Option.some_inj] at hread
    obtain ⟨hlow, hhigh⟩ := o.inRange
    rw [hi, ← hread, BitVec.ofInt_natCast, BitVec.toNat_ofNat]
    exact Nat.mod_eq_of_lt (by omega)
  ifName := by
    obtain ⟨s, hs, htext⟩ := h.ifName
    rw [firstUse_ifName, Option.elim_some, Option.getD_some] at htext
    rw [hs, Option.map_some, htext]
  ip := by
    obtain ⟨s, hs, htext⟩ := h.ip
    rw [firstUse_ip] at htext
    rw [hs, Option.map_some, htext]

theorem words_run (o : ClientSetting) (posixly : Bool) (program : List Octet) (contents : ℕ → Octet) :
    wordSteps posixly program o.words clientOptions contents = some (o.uses.map useStep) ∧
      ∃ opt, (cmdFresh clientOptions).runTrue (o.uses.map useCall) = some opt ∧
        cmdLoop (o.uses.map useStep) (cmdFresh clientOptions) = some (.ok, opt) := by
  have hrcs : clientOptions ≠ [] := by simp [clientOptions]
  obtain ⟨hline, hus, opt, hrun⟩ := (taken_iff hrcs validKeys_client).mp (@taken_words o posixly)
  obtain ⟨hsteps, hloop⟩ := @wordSteps_of_line _ _ _ _ _ program contents _ hrcs validKeys_client _ hline hus hrun
  exact ⟨hsteps, opt, hrun, hloop⟩

theorem cmdClient_uses {sys : CmdSystem} (hsys : HasMemory sys) (o : ClientSetting) :
    ∃ r, cmdClient sys (o.uses.map useStep) = some (.ok, some (r, Memory.init)) ∧ o.IsIn r := by
  obtain ⟨-, opt, hrun, hloop⟩ := words_run o true [] fun _ => 0
  have hreturn := cmdClient_line hsys hrun hloop firstUse_file
  -- Only one protocol is forced.
  have hone : ¬ ((firstUse o.uses '4').isSome ∧ (firstUse o.uses '6').isSome) := by
    rw [firstUse_flag (by decide), firstUse_flag (by decide)]
    rcases o.udp with htype | htype | htype <;> simp [ClientSetting.flags, htype]
  rw [if_neg hone] at hreturn
  obtain ⟨r, hr, hsays⟩ := hreturn
  exact ⟨r, hr, isIn_of_says hsays⟩

/-- The client gets every setting back from its words. -/
theorem cmd_client_written {sys : CmdSystem} (hsys : HasMemory sys) (o : ClientSetting) (posixly : Bool)
    (program : List Octet) (contents : ℕ → Octet) : ∃ args r,
      wordSteps posixly program o.words clientOptions contents = some args ∧
        cmdClient sys args = some (.ok, some (r, Memory.init)) ∧ o.IsIn r := by
  obtain ⟨r, hr, hin⟩ := cmdClient_uses hsys o
  exact ⟨_, r, (words_run o posixly program contents).1, hr, hin⟩

def sampleSetting : ClientSetting :=
  ⟨false, true, false, .udpIPv6, 200, chars "eth1", [], .inr (.inl rfl), by decide, by decide⟩

theorem cmd_client_written_sample : ∃ args r,
    wordSteps true (chars "client") [chars "-t", chars "-s", chars "-6", chars "-n", chars "200", chars "-i",
      chars "eth1"] clientOptions (fun _ => 0) = some args ∧
        cmdClient (sampleSystem true) args = some (.ok, some (r, Memory.init)) ∧ r.type = .udpIPv6 := by
  have hsys : HasMemory (sampleSystem true) := ⟨rfl, rfl, rfl, rfl⟩
  have hwords : sampleSetting.words = [chars "-t", chars "-s", chars "-6", chars "-n", chars "200", chars "-i",
      chars "eth1"] := by decide
  obtain ⟨args, r, hsteps, hr, hin⟩ := cmd_client_written hsys sampleSetting true (chars "client") fun _ => 0
  exact ⟨args, r, hwords ▸ hsteps, hr, hin.type⟩

end Written

end Csptp
