import Csptp.Opt.Limits

/-! # A ledger of strings

What an object owns and what it has released are together the strings that it duplicated and those that
were handed over to it. So at the end each of these was released once, and nothing else was. -/
namespace Csptp
open Octets
set_option autoImplicit false

variable {φ : Type} {self self' : Opt φ} {c : ParseCall} {b : Bool}

/-! ## The ledger -/

/-- What a call that returned this handed over. -/
def handing (c : ParseCall × Bool) : List Block :=
  if c.2 = true ∧ c.1.fl &&& optStrPass ≠ 0 then (c.1.s.map fun t => t.block).toList else []

def handed (past : List (ParseCall × Bool)) : List Block := past.flatMap handing

/-- The first duplicates. -/
def duplicates (n : ℕ) : List Block := (List.range n).map .dup

def Balanced (past : List (ParseCall × Bool)) (self : Opt φ) : Prop :=
  (owned self.rcs ++ self.heap.released).Perm (handed past ++ duplicates self.heap.dups)

/-- A string is handed over only to an option that takes it. -/
structure KeepsStrings (opt : Opt φ) (c : ParseCall) : Prop where
  clean : Clean opt c
  taken : ∀ cur a v t, opt.target c.key = some (cur, a) → Opt.slotAt opt.rcs cur = some v →
    c.s = some t → c.fl &&& optStrPass ≠ 0 → v.Open c.fl

/-! ## A call keeps it -/

theorem duplicates_succ (n : ℕ) : duplicates (n + 1) = duplicates n ++ [.dup n] := by
  rw [duplicates, List.range_succ, List.map_append]
  rfl

theorem pass_iff_mask (fl : OptFlags) (h : fl &&& optStrMask ≠ optStrMask) :
    fl &&& optStrPass ≠ 0 ↔ fl &&& optStrMask = optStrPass := by
  revert fl
  decide +kernel

theorem handed_append (past : List (ParseCall × Bool)) (call : ParseCall × Bool) :
    handed (past ++ [call]) = handed past ++ handing call := by
  rw [handed, List.flatMap_append, ← handed, List.flatMap_singleton]

/-- A call that hands nothing over and stores what was there. -/
theorem balanced_nothing {past : List (ParseCall × Bool)} (H : Balanced past self)
    (hnone : handing (c, b) = []) : Balanced (past ++ [(c, b)]) self := by
  rw [Balanced, handed_append, hnone, List.append_nil]
  exact H

theorem balanced_called [LongDouble φ] {past : List (ParseCall × Bool)} (hown : Owning self)
    (hstr : ∀ e ∈ entries 0 self.rcs, e.2.type = .str) (hp : Proper self c) (hc : KeepsStrings self c)
    (H : Balanced past self) (h : Called self c b self') : Balanced (past ++ [(c, b)]) self' := by
  cases h with
  | missing => exact balanced_nothing H (if_neg fun hb => absurd hb.1 (by simp))
  | @parsed cur a v v' b h' htarget hslot hparsed =>
    have htype : a.type = .str := hstr _ (Opt.mem_of_target htarget)
    cases hparsed with
    | kept hclosed =>
      rw [store_self hslot]
      refine balanced_nothing H ?_
      rw [handing]
      split
      · rename_i hpass
        cases hs : c.s with
        | none => rfl
        | some t => exact absurd (hc.taken cur a v t htarget hslot hs hpass.2) hclosed
      · rfl
    | refused =>
      rw [store_self hslot]
      exact balanced_nothing H (if_neg fun hb => absurd hb.1 (by simp))
    | int _ hi => exact absurd hi (not_numeric_of_str htype)
    | float _ hfloat => exact absurd (hfloat.symm.trans htype) (by simp)
    | @str t v' h' hopen _ hs _ hne hset =>
      have hstoring : Storing self c cur v t := ⟨⟨a, htarget, htype⟩, hslot, hopen, hs, hne⟩
      have hpass := pass_iff_mask c.fl (hc.clean.flags cur v t hstoring)
      obtain ⟨v₁, h₁, hset₁, hstored, -, hperm⟩ := hown.storing hstoring hp hc.clean
      rw [hset] at hset₁
      cases hset₁
      have hsum := hperm.trans (List.Perm.append_right v'.owned H)
      have hnone (hmask : c.fl &&& optStrMask ≠ optStrPass) : handing (c, true) = [] :=
        if_neg fun hb => hmask (hpass.mp hb.2)
      rw [Balanced, handed_append]
      cases hstored with
      | static hmask =>
        have howned : OptSet.owned ⟨{ v.val with s := some t }, false, true⟩ = [] := rfl
        rw [howned, List.append_nil] at hsum
        rw [hnone (by rw [hmask]; decide), List.append_nil]
        exact hsum
      | dup hmask =>
        rw [hnone (by rw [hmask]; decide), List.append_nil]
        change (_ ++ _ : List Block).Perm (_ ++ duplicates (self.heap.dups + 1))
        rw [duplicates_succ, ← List.append_assoc]
        exact hsum
      | short hmask =>
        have howned : OptSet.owned ⟨{ v.val with s := none }, false, true⟩ = [] := rfl
        rw [howned, List.append_nil] at hsum
        rw [hnone (by rw [hmask]; decide), List.append_nil]
        exact hsum
      | pass hmask =>
        have hone : handing (c, true) = [t.block] := by
          rw [handing, if_pos ⟨rfl, hpass.mpr hmask⟩, hs]
          rfl
        rw [hone]
        refine hsum.trans ?_
        rw [List.append_assoc, List.append_assoc]
        exact List.Perm.append_left _ List.perm_append_comm

/-! ## The whole run -/

theorem types_store (h : Memory) (cur : ℕ × ℕ) (v : OptSet φ)
    (hstr : ∀ e ∈ entries 0 self.rcs, e.2.type = .str) :
    ∀ e ∈ entries 0 (self.store cur v h).rcs, e.2.type = .str := by
  rw [entries_store]
  exact hstr

theorem types_called [LongDouble φ] (hstr : ∀ e ∈ entries 0 self.rcs, e.2.type = .str)
    (h : Called self c b self') : ∀ e ∈ entries 0 self'.rcs, e.2.type = .str := by
  cases h with
  | missing => exact hstr
  | parsed => exact types_store _ _ _ hstr

/-- The strings that an object returns are live. -/
theorem Owning.live (H : Owning self) {key : OptKey} {val : OptRecVal φ}
    (h : self.getVal key = some (some val)) : ∀ s ∈ val.s, s.block ∉ self.heap.released := by
  rw [Opt.getVal_eq H.formed] at h
  cases htarget : self.target key with
  | none =>
    rw [htarget] at h
    cases h
  | some found =>
    obtain ⟨cur, a⟩ := found
    rw [htarget] at h
    simp only [Opt.valueAt, Option.map_eq_some_iff, Option.some.injEq, Option.bind_eq_bind,
      Option.bind_eq_some_iff, exists_eq_right] at h
    obtain ⟨v, hslot, rfl⟩ := h
    intro s hs hin
    split at hs
    · have hmem := mem_slots_of_slotAt hslot
      cases halloc : v.isAlloc with
      | false => exact (H.borrowed v hmem halloc s hs).other (List.mem_append_right _ hin)
      | true =>
        have hown : s.block ∈ owned self.rcs := by
          refine List.mem_flatMap.mpr ⟨v, hmem, ?_⟩
          rw [OptSet.owned, if_pos halloc, Option.mem_toList, Option.map_eq_some_iff]
          exact ⟨s, hs, rfl⟩
        exact List.disjoint_of_nodup_append H.nodup hown hin
    · exact (H.defaults _ (Opt.mem_of_target htarget) s hs).other (List.mem_append_right _ hin)

/-- However options are set and replaced: what is duplicated and what is handed over is released once,
nothing else is released, and no value that is returned was released before, when every string that is
handed over is taken and the flags say one thing. -/
theorem strings_released_once [LongDouble φ] {arrays : List (List (OptRec φ))}
    (harrays : GoodRecords arrays) (hstr : ∀ r ∈ arrays, ∀ a ∈ r, a.type = .str) {calls : List ParseCall}
    (h : (Opt.withRecords arrays).Steps (fun opt c => Proper opt c ∧ KeepsStrings opt c) calls) :
    ∃ rs self', (Opt.withRecords arrays).run calls = some (rs, self') ∧
      (∀ key val, self'.getVal key = some (some val) → ∀ s ∈ val.s, s.block ∉ self'.heap.released) ∧
      ∃ h', self'.free = some h' ∧
        (∀ x ∈ handed (calls.zip rs) ++ duplicates h'.dups, h'.released.count x = 1) ∧
        ∀ x ∈ h'.released, x ∈ handed (calls.zip rs) ++ duplicates h'.dups := by
  have hown := owning_withRecords harrays
  have hnew : Balanced [] (Opt.withRecords arrays) := by
    have howned : owned (Opt.withRecords arrays).rcs = [] :=
      List.flatMap_eq_nil_iff.mpr fun v hv => by rw [slots_withRecords hv]; rfl
    rw [Balanced, howned, withRecords_eq]
    exact List.Perm.refl _
  have htypes : ∀ e ∈ entries 0 (Opt.withRecords arrays).rcs, e.2.type = .str := fun e he => by
    obtain ⟨r, hr, ha⟩ := exists_of_mem_entries he
    exact hstr r hr e.2 ha
  obtain ⟨rs, self', hrun, ⟨hown', htypes'⟩, hbalanced⟩ := @Opt.run_of_steps φ _ _
    (fun past self => (Owning self ∧ ∀ e ∈ entries 0 self.rcs, e.2.type = .str) ∧ Balanced past self)
    (fun past self c hI hP => by
      obtain ⟨⟨hown, htypes⟩, hbalanced⟩ := hI
      obtain ⟨b, self', hcall⟩ := hown.call_defined hP.1 hP.2.clean
        (fun cur a v t htarget _ _ _ henum =>
          absurd (henum.symm.trans (htypes _ (Opt.mem_of_target htarget))) (by simp))
      have hcalled := call_called hown.formed hcall
      exact ⟨b, self', hcall, ⟨hown.called hP.1 hP.2.clean hcalled, types_called htypes hcalled⟩,
        balanced_called hown htypes hP.1 hP.2 hbalanced hcalled⟩)
    [] _ _ ⟨⟨hown, htypes⟩, hnew⟩ h
  have hfree := hown'.free
  have hperm : (self'.heap.released ++ owned self'.rcs).Perm
      (handed (calls.zip rs) ++ duplicates self'.heap.dups) := List.perm_append_comm.trans hbalanced
  have hnodup : (self'.heap.released ++ owned self'.rcs).Nodup :=
    List.nodup_append_comm.mp hown'.nodup
  exact ⟨rs, self', hrun, fun key val => hown'.live, _, hfree,
    fun x hx => List.count_eq_one_of_mem hnodup (hperm.mem_iff.mpr hx), fun x hx => hperm.mem_iff.mp hx⟩

section Sample

/-- Another string for the option. -/
def passCall (fl : OptFlags) : ParseCall := ⟨.name [107], some ⟨.caller 2, [121]⟩, optStrPass ||| fl, true⟩

/-- The string that the option owns, again. -/
def againCall : ParseCall := ⟨.name [107], some ⟨.dup 0, [120]⟩, optStrDup ||| optReplace, true⟩

theorem not_storing_passCall {b : Bool} {self' : Opt Unit}
    (hcall : sampleObject.call (sampleCall optStrDup true 1) = some (b, self')) (cur : ℕ × ℕ)
    (v : OptSet Unit) (t : CStr) : ¬ Storing self' (passCall 0) cur v t := by
  cases hcall
  intro hs
  obtain ⟨a, ha, -⟩ := hs.target
  cases ha
  have hslot := hs.slot
  cases hslot
  rcases hs.takes with hfl | hv
  · exact absurd hfl (by decide)
  · exact absurd hv (by decide)

/-- A string is handed over to an option that is set and stays as it is; a string comes with two flags;
and an option is to be set to a duplicate of its own string. -/
theorem strings_released_once_fails :
    (sampleObject.Steps Proper [sampleCall optStrDup true 1, passCall 0] ∧ ∃ rs self' h',
      sampleObject.run [sampleCall optStrDup true 1, passCall 0] = some (rs, self') ∧
        self'.free = some h' ∧
        .caller 2 ∈ handed ([sampleCall optStrDup true 1, passCall 0].zip rs) ∧
        h'.released.count (.caller 2) = 0) ∧
    (sampleObject.Steps Proper [sampleCall optStrMask true 1] ∧ ∃ rs self' h',
      sampleObject.run [sampleCall optStrMask true 1] = some (rs, self') ∧ self'.free = some h' ∧
        .caller 1 ∈ handed ([sampleCall optStrMask true 1].zip rs) ∧ h'.released.count (.caller 1) = 0) ∧
    (sampleObject.Steps Proper [sampleCall optStrDup true 1, againCall] ∧
      sampleObject.run [sampleCall optStrDup true 1, againCall] = none) := by
  refine ⟨⟨⟨proper_sampleCall _ _ _, fun b self' hcall => ⟨?_, fun _ _ _ => trivial⟩⟩,
      _, _, _, rfl, rfl, by decide, by decide⟩,
    ⟨⟨proper_sampleCall _ _ _, fun _ _ _ => trivial⟩, _, _, _, rfl, rfl, by decide, by decide⟩,
    ⟨⟨proper_sampleCall _ _ _, fun b self' hcall => ⟨?_, fun _ _ _ => trivial⟩⟩, rfl⟩⟩
  · have hset := not_storing_passCall hcall
    cases hcall
    exact ⟨by decide, fun _ _ _ hs => absurd hs (hset _ _ _), fun _ _ _ hs => absurd hs (hset _ _ _)⟩
  · cases hcall
    exact ⟨by decide, fun _ _ _ _ hmask => absurd rfl hmask, fun _ _ _ _ hmask => absurd hmask (by decide)⟩

/-- A duplicate is replaced by a string that is handed over. -/
theorem strings_released_once_sample :
    let calls := [sampleCall optStrDup true 10, passCall optReplace]
    ∃ rs self', sampleObject.run calls = some (rs, self') ∧
      (∀ key val, self'.getVal key = some (some val) → ∀ s ∈ val.s, s.block ∉ self'.heap.released) ∧
      ∃ h', self'.free = some h' ∧
        (∀ x ∈ handed (calls.zip rs) ++ duplicates h'.dups, h'.released.count x = 1) ∧
        ∀ x ∈ h'.released, x ∈ handed (calls.zip rs) ++ duplicates h'.dups := by
  refine strings_released_once goodRecords_sample (fun r hr a ha => ?_)
    ⟨⟨proper_sampleCall _ _ _, clean_sampleCall, fun _ _ _ _ _ _ _ hpass => absurd hpass (by decide)⟩,
      fun b self' hcall => ⟨?_, fun _ _ _ => trivial⟩⟩
  · rw [List.mem_singleton.mp hr, List.mem_singleton] at ha
    rw [ha]
    rfl
  · cases hcall
    refine ⟨⟨by decide, fun cur v t hs _ => ?_, fun cur v t hs _ => ⟨fun w hw halloc => ?_, ?_⟩⟩,
      ⟨fun cur v t hs => by decide, fun cur v t hs hmask => absurd hmask (by decide)⟩,
      fun cur a v t _ _ _ _ => .inl (by decide)⟩
    · cases hs.str
      exact ⟨⟨2, rfl⟩, by decide⟩
    · have hw := List.mem_singleton.mp hw
      rw [hw] at halloc
      exact absurd halloc (by decide)
    · intro e he s hs'
      cases hs.str
      have he := List.mem_singleton.mp he
      rw [he] at hs'
      cases hs'
      exact fun heq => by cases heq

end Sample

end Csptp
