import Mathlib.Algebra.Order.Group.Multiset
import Mathlib.Tactic.Abel
import Csptp.Opt.Numbers

/-! # Who owns the strings

An option object owns the strings that it duplicated and those that were passed to it, each in one value
at most, and it has released none of them. All other strings that it holds are the caller's. -/
namespace Csptp
open Octets
set_option autoImplicit false

variable {φ : Type} {self : Opt φ} {c : ParseCall} {cur : ℕ × ℕ} {v v' : OptSet φ} {t : CStr}
  {h : Memory}

/-! ## Owned and borrowed strings -/

def OptSet.owned (v : OptSet φ) : List Block :=
  if v.isAlloc then (v.val.s.map fun s => s.block).toList else []

def owned (rcs : List (OptRecList φ)) : List Block := (slots rcs).flatMap OptSet.owned

/-- A string of the caller's, which the object neither owns nor has released. -/
structure Borrowed (opt : Opt φ) (s : CStr) : Prop where
  caller : ∃ n, s.block = .caller n
  other : s.block ∉ owned opt.rcs ++ opt.heap.released

structure Owning (opt : Opt φ) : Prop where
  formed : Formed opt.rcs
  nodup : (owned opt.rcs ++ opt.heap.released).Nodup
  made : ∀ n, .dup n ∈ owned opt.rcs ++ opt.heap.released → n < opt.heap.dups
  borrowed : ∀ v ∈ slots opt.rcs, v.isAlloc = false → ∀ s ∈ v.val.s, Borrowed opt s
  defaults : ∀ e ∈ entries 0 opt.rcs, ∀ s ∈ e.2.defVal.s, Borrowed opt s

/-! ## Calls -/

/-- The call stores this string in this place. -/
structure Storing (opt : Opt φ) (c : ParseCall) (cur : ℕ × ℕ) (v : OptSet φ) (t : CStr) : Prop where
  target : ∃ a, opt.target c.key = some (cur, a) ∧ a.type = .str
  slot : Opt.slotAt opt.rcs cur = some v
  takes : v.Open c.fl
  str : c.s = some t
  nonempty : t.text ≠ []

/-- What the caller sees to: no string is used after its release; a string that is not duplicated is the
caller's; and a string that is handed over is no longer in use elsewhere. -/
structure Proper (opt : Opt φ) (c : ParseCall) : Prop where
  live : ∀ t ∈ c.s, t.block ∉ opt.heap.released
  own : ∀ cur v t, Storing opt c cur v t → c.fl &&& optStrMask ≠ optStrDup → Borrowed opt t
  unused : ∀ cur v t, Storing opt c cur v t → c.fl &&& optStrMask = optStrPass →
    (∀ w ∈ slots opt.rcs, w.isAlloc = false → ∀ s ∈ w.val.s, s.block ≠ t.block) ∧
      ∀ e ∈ entries 0 opt.rcs, ∀ s ∈ e.2.defVal.s, s.block ≠ t.block

/-- A string that is stored comes with one of the flags for strings at most, and it is not a duplicate of
the string that its option owns. -/
structure Clean (opt : Opt φ) (c : ParseCall) : Prop where
  flags : ∀ cur v t, Storing opt c cur v t → c.fl &&& optStrMask ≠ optStrMask
  copies : ∀ cur v t, Storing opt c cur v t → c.fl &&& optStrMask = optStrDup → t.block ∉ v.owned

/-! ## Storing a value -/

theorem owned_store (hs : Opt.slotAt self.rcs cur = some v) : ∃ P Q,
    owned self.rcs = P ++ v.owned ++ Q ∧
      ∀ (w : OptSet φ) h, owned (self.store cur w h).rcs = P ++ w.owned ++ Q := by
  obtain ⟨pre, post, hold, hnew⟩ := slots_store hs
  refine ⟨pre.flatMap OptSet.owned, post.flatMap OptSet.owned, ?_, fun w h => ?_⟩
  · rw [owned, hold]
    simp
  · rw [owned, hnew]
    simp

theorem mem_slots_store (hs : Opt.slotAt self.rcs cur = some v) {w x : OptSet φ}
    (hx : x ∈ slots (self.store cur w h).rcs) : x = w ∨ x ∈ slots self.rcs := by
  obtain ⟨pre, post, hold, hnew⟩ := slots_store hs
  rw [hnew] at hx
  rw [hold]
  simp only [List.mem_append, List.mem_cons] at hx ⊢
  tauto

theorem mem_slots_of_slotAt (hs : Opt.slotAt self.rcs cur = some v) : v ∈ slots self.rcs := by
  obtain ⟨pre, post, hold, -⟩ := slots_store hs
  rw [hold]
  simp

/-! ## Storing a string -/

/-- What a call stores for a string, when it releases the one that the value owns. -/
inductive StrStored (v : OptSet φ) (t : CStr) (fl : OptFlags) (ok : Bool) (h : Memory) :
    OptSet φ → Memory → Prop
  | static (hmask : fl &&& optStrMask = optStrSt) :
      StrStored v t fl ok h ⟨{ v.val with s := some t }, false, true⟩ ⟨h.released ++ v.owned, h.dups⟩
  | dup (hmask : fl &&& optStrMask = optStrDup) (hok : ok = true) :
      StrStored v t fl ok h ⟨{ v.val with s := some ⟨.dup h.dups, t.text⟩ }, true, true⟩
        ⟨h.released ++ v.owned, h.dups + 1⟩
  | short (hmask : fl &&& optStrMask = optStrDup) (hok : ok = false) :
      StrStored v t fl ok h ⟨{ v.val with s := none }, false, true⟩ ⟨h.released ++ v.owned, h.dups⟩
  | pass (hmask : fl &&& optStrMask = optStrPass) :
      StrStored v t fl ok h ⟨{ v.val with s := some t }, true, true⟩ ⟨h.released ++ v.owned, h.dups⟩

theorem mask_cases (fl : OptFlags) : fl &&& optStrMask = optStrSt ∨ fl &&& optStrMask = optStrDup ∨
    fl &&& optStrMask = optStrPass ∨ fl &&& optStrMask = optStrMask := by
  revert fl
  decide +kernel

theorem release_owned (hv : ∀ b ∈ v.owned, b ∉ h.released) :
    v.release h = some ⟨h.released ++ v.owned, h.dups⟩ := by
  rw [OptSet.owned] at hv
  rw [OptSet.release, OptSet.owned]
  split
  · rename_i halloc
    rw [if_pos halloc] at hv
    cases hs : v.val.s with
    | none =>
      rw [Memory.free]
      simp
    | some s =>
      rw [hs] at hv
      rw [Memory.free, if_neg (hv s.block (by simp))]
      rfl
  · simp

theorem setStr_stored {fl : OptFlags} {ok : Bool} (hv : ∀ b ∈ v.owned, b ∉ h.released)
    (hmask : fl &&& optStrMask ≠ optStrMask) (hlive : t.block ∉ h.released)
    (hcopy : fl &&& optStrMask = optStrDup → t.block ∉ v.owned) :
    ∃ v' h', setStr v t fl ok h = some (v', h') ∧ StrStored v t fl ok h v' h' := by
  rw [setStr, release_owned hv, Option.bind_eq_bind, Option.bind_some]
  by_cases hst : fl &&& optStrMask = optStrSt
  · rw [if_pos hst]
    exact ⟨_, _, rfl, .static hst⟩
  rw [if_neg hst]
  by_cases hdup : fl &&& optStrMask = optStrDup
  · rw [if_pos hdup, Memory.strdup, if_neg (by simpa using ⟨hlive, hcopy hdup⟩)]
    cases ok with
    | true => exact ⟨_, _, rfl, .dup hdup rfl⟩
    | false => exact ⟨_, _, rfl, .short hdup rfl⟩
  rw [if_neg hdup]
  have hpass : fl &&& optStrMask = optStrPass := by
    rcases mask_cases fl with h | h | h | h
    · exact absurd h hst
    · exact absurd h hdup
    · exact h
    · exact absurd h hmask
  rw [if_pos hpass]
  exact ⟨_, _, rfl, .pass hpass⟩

namespace Owning

/-- A number is stored, and the string of the value stays. -/
theorem store_same (H : Owning self) (hs : Opt.slotAt self.rcs cur = some v) (hv : v'.val.s = v.val.s)
    (halloc : v'.isAlloc = v.isAlloc) :
    Owning (self.store cur v' self.heap) ∧ owned (self.store cur v' self.heap).rcs = owned self.rcs := by
  obtain ⟨P, Q, hold, hnew⟩ := owned_store hs
  have howned : owned (self.store cur v' self.heap).rcs = owned self.rcs := by
    rw [hnew, hold, OptSet.owned, OptSet.owned, hv, halloc]
  have hborrowed {s : CStr} (hb : Borrowed self s) : Borrowed (self.store cur v' self.heap) s :=
    ⟨hb.caller, by rw [howned]; exact hb.other⟩
  refine ⟨⟨formed_store H.formed v', by rw [howned]; exact H.nodup, by rw [howned]; exact H.made, ?_, ?_⟩,
    howned⟩
  · intro w hw hw' s hs'
    rcases mem_slots_store hs hw with rfl | hw
    · rw [halloc] at hw'
      rw [hv] at hs'
      exact hborrowed (H.borrowed v (mem_slots_of_slotAt hs) hw' s hs')
    · exact hborrowed (H.borrowed w hw hw' s hs')
  · intro e he s hs'
    rw [entries_store] at he
    exact hborrowed (H.defaults e he s hs')

/-- The old string is released, and what the new value owns is added. -/
theorem store_str (H : Owning self) (hs : Opt.slotAt self.rcs cur = some v)
    (hreleased : h.released = self.heap.released ++ v.owned) (hdups : self.heap.dups ≤ h.dups)
    (hnew : ∀ b ∈ v'.owned, b ∉ owned self.rcs ++ self.heap.released)
    (hmade : ∀ n, .dup n ∈ v'.owned → n < h.dups)
    (hborrowed : v'.isAlloc = false → ∀ s ∈ v'.val.s, Borrowed self s)
    (hslots : ∀ w ∈ slots self.rcs, w.isAlloc = false → ∀ s ∈ w.val.s, s.block ∉ v'.owned)
    (hdefaults : ∀ e ∈ entries 0 self.rcs, ∀ s ∈ e.2.defVal.s, s.block ∉ v'.owned) :
    Owning (self.store cur v' h) ∧
      (owned (self.store cur v' h).rcs ++ h.released).Perm
        (owned self.rcs ++ self.heap.released ++ v'.owned) := by
  obtain ⟨P, Q, hold, howned⟩ := owned_store hs
  have hperm : (owned (self.store cur v' h).rcs ++ h.released).Perm
      (owned self.rcs ++ self.heap.released ++ v'.owned) := by
    rw [howned, hold, hreleased, ← Multiset.coe_eq_coe]
    simp only [← Multiset.coe_add]
    abel
  have hmem (b : Block) : b ∈ owned (self.store cur v' h).rcs ++ h.released ↔
      b ∈ owned self.rcs ++ self.heap.released ∨ b ∈ v'.owned := by
    rw [hperm.mem_iff, List.mem_append]
  have hkeep {s : CStr} (hb : Borrowed self s) (hs : s.block ∉ v'.owned) :
      Borrowed (self.store cur v' h) s :=
    ⟨hb.caller, fun hin => ((hmem _).mp hin).elim hb.other hs⟩
  have hv' : v'.owned.Nodup := by
    rw [OptSet.owned]
    split
    · cases v'.val.s <;> simp
    · exact List.nodup_nil
  refine ⟨⟨formed_store H.formed v', ?_, ?_, ?_, ?_⟩, hperm⟩
  · refine hperm.nodup_iff.mpr ?_
    exact H.nodup.append hv' fun b hb hb' => hnew b hb' hb
  · intro n hn
    rcases (hmem _).mp hn with hn | hn
    · exact (H.made n hn).trans_le hdups
    · exact hmade n hn
  · intro w hw hw' s hs'
    rcases mem_slots_store hs hw with rfl | hw
    · refine hkeep (hborrowed hw' s hs') ?_
      rw [OptSet.owned, hw']
      exact List.not_mem_nil
    · exact hkeep (H.borrowed w hw hw' s hs') (hslots w hw hw' s hs')
  · intro e he s hs'
    rw [entries_store] at he
    exact hkeep (H.defaults e he s hs') (hdefaults e he s hs')

/-- A string is stored as its flags say, and the object owns as much as before and what it took over. -/
theorem storing (H : Owning self) (hs : Storing self c cur v t) (hp : Proper self c)
    (hc : Clean self c) : ∃ v' h', setStr v t c.fl c.ok self.heap = some (v', h') ∧
      StrStored v t c.fl c.ok self.heap v' h' ∧ Owning (self.store cur v' h') ∧
      (owned (self.store cur v' h').rcs ++ h'.released).Perm
        (owned self.rcs ++ self.heap.released ++ v'.owned) := by
  have hlive := hp.live t (by rw [hs.str]; rfl)
  have hown : ∀ b ∈ v.owned, b ∈ owned self.rcs := fun b hb =>
    List.mem_flatMap.mpr ⟨v, mem_slots_of_slotAt hs.slot, hb⟩
  have hv : ∀ b ∈ v.owned, b ∉ self.heap.released := fun b hb =>
    List.disjoint_of_nodup_append H.nodup (hown b hb)
  obtain ⟨v', h', hset, hstored⟩ := @setStr_stored φ v t self.heap c.fl c.ok hv (hc.flags cur v t hs) hlive
    (hc.copies cur v t hs)
  refine ⟨v', h', hset, hstored, ?_⟩
  have hcaller {s : CStr} (hb : Borrowed self s) (n : ℕ) : s.block ∉ [Block.dup n] := by
    obtain ⟨k, hk⟩ := hb.caller
    rw [hk, List.mem_singleton]
    exact Block.noConfusion
  cases hstored with
  | static hmask =>
    refine H.store_str hs.slot rfl le_rfl (by simp [OptSet.owned]) (by simp [OptSet.owned]) ?_
      (by simp [OptSet.owned]) (by simp [OptSet.owned])
    intro _ s hs'
    cases hs'
    exact hp.own cur v t hs (by rw [hmask]; decide)
  | dup hmask hok =>
    refine H.store_str hs.slot rfl (Nat.le_succ _) ?_ ?_ (fun hw => absurd hw (by simp)) ?_ ?_
    · intro b hb hin
      have hb : b = .dup self.heap.dups := by simpa [OptSet.owned] using hb
      rw [hb] at hin
      exact lt_irrefl _ (H.made _ hin)
    · intro n hn
      have hn : n = self.heap.dups := by simpa [OptSet.owned] using hn
      rw [hn]
      exact Nat.lt_succ_self _
    · exact fun w hw hw' s hs' => hcaller (H.borrowed w hw hw' s hs') _
    · exact fun e he s hs' => hcaller (H.defaults e he s hs') _
  | short hmask hok =>
    exact H.store_str hs.slot rfl le_rfl (by simp [OptSet.owned]) (by simp [OptSet.owned])
      (fun _ s hs' => absurd hs' (by simp)) (by simp [OptSet.owned]) (by simp [OptSet.owned])
  | pass hmask =>
    have hb := hp.own cur v t hs (by rw [hmask]; decide)
    obtain ⟨n, hn⟩ := hb.caller
    obtain ⟨hslots, hdefaults⟩ := hp.unused cur v t hs hmask
    refine H.store_str hs.slot rfl le_rfl ?_ ?_ (fun hw => absurd hw (by simp)) ?_ ?_
    · intro b hb' hin
      have hb' : b = t.block := by simpa [OptSet.owned] using hb'
      rw [hb'] at hin
      exact hb.other hin
    · intro k hk
      have hk : .dup k = t.block := by simpa [OptSet.owned] using hk
      rw [hn] at hk
      exact Block.noConfusion hk
    · intro w hw hw' s hs' hin
      exact hslots w hw hw' s hs' (by simpa [OptSet.owned] using hin)
    · intro e he s hs' hin
      exact hdefaults e he s hs' (by simpa [OptSet.owned] using hin)

/-! ## The end -/

theorem foldlM_release {l : List (OptSet φ)} {h : Memory}
    (hl : (l.flatMap OptSet.owned ++ h.released).Nodup) :
    l.foldlM (fun h v => v.release h) h = some ⟨h.released ++ l.flatMap OptSet.owned, h.dups⟩ := by
  induction l generalizing h with
  | nil => simp
  | cons v l ih =>
    rw [List.flatMap_cons] at hl
    have hv : ∀ b ∈ v.owned, b ∉ h.released := fun b hb =>
      List.disjoint_of_nodup_append hl (List.mem_append_left _ hb)
    rw [List.foldlM_cons, release_owned hv, Option.bind_eq_bind, Option.bind_some, ih, List.flatMap_cons,
      List.append_assoc]
    refine List.Perm.nodup_iff ?_ |>.mp hl
    rw [← Multiset.coe_eq_coe]
    simp only [← Multiset.coe_add]
    abel

/-- `free` releases what the object owns. -/
theorem free (H : Owning self) :
    self.free = some ⟨self.heap.released ++ owned self.rcs, self.heap.dups⟩ := by
  have hzip : (self.rcs.flatMap fun c => c.rcs.zip c.vals).map Prod.snd = slots self.rcs := by
    rw [List.map_flatMap]
    exact List.flatMap_congr fun c hc => List.map_snd_zip (H.formed.sized c hc).le
  have hall := foldlM_release H.nodup
  rw [← owned, ← hzip, List.foldlM_map] at hall
  exact hall

/-- A call that the caller and the flags see to keeps the ownership. -/
theorem called [LongDouble φ] {b : Bool} {self' : Opt φ} (H : Owning self) (hp : Proper self c)
    (hc : Clean self c) (h : Called self c b self') : Owning self' := by
  cases h with
  | missing => exact H
  | @parsed cur a v v' b h' htarget hslot hparsed =>
    cases hparsed with
    | kept => exact (H.store_same hslot rfl rfl).1
    | refused => exact (H.store_same hslot rfl rfl).1
    | @int i => exact (@store_same φ self cur v (v.setInt i) H hslot rfl rfl).1
    | @float t f => exact (@store_same φ self cur v (v.setFloat f) H hslot rfl rfl).1
    | @str t v' h' hopen hstr hs _ hne hset =>
      obtain ⟨v₁, h₁, hset₁, -, hkeep, -⟩ := H.storing ⟨⟨a, htarget, hstr⟩, hslot, hopen, hs, hne⟩ hp hc
      rw [hset] at hset₁
      cases hset₁
      exact hkeep

theorem call_defined [LongDouble φ] (H : Owning self) (hp : Proper self c) (hc : Clean self c)
    (hends : ∀ cur a v t, self.target c.key = some (cur, a) → Opt.slotAt self.rcs cur = some v →
      v.Open c.fl → c.s = some t → NameSearchEnds a t.text c.fl) :
    ∃ b self', self.call c = some (b, self') := by
  rw [Opt.call_eq H.formed]
  cases htarget : self.target c.key with
  | none => exact ⟨false, self, rfl⟩
  | some found =>
    obtain ⟨cur, a⟩ := found
    obtain ⟨v, hslot⟩ := exists_slotAt H.formed (Opt.recAt_of_target htarget)
    obtain ⟨x, hx⟩ := @parseVal_defined φ a v c.s c.fl c.ok self.heap _ hp.live
      (fun t ht hopen htype hne => by
        obtain ⟨v', h', hset, -⟩ := H.storing ⟨⟨a, htarget, htype⟩, hslot, hopen, ht, hne⟩ hp hc
        exact ⟨_, hset⟩)
      (fun t ht hopen => parseInt_defined (hends cur a v t htarget hslot hopen ht))
    refine ⟨x.1, self.store cur x.2.1 x.2.2, ?_⟩
    simp [Opt.parseAt, hslot, hx]

end Owning

/-! ## New objects -/

section New
variable [LongDouble φ]

/-- An object with these arrays of records. -/
def Opt.withRecords (arrays : List (List (OptRec φ))) : Opt φ :=
  arrays.foldl (fun self r => (self.addRecords r true).2) (optAlloc Memory.init)

/-- Every array has a record, and the strings that are defaults are the caller's. -/
structure GoodRecords (arrays : List (List (OptRec φ))) : Prop where
  nonempty : ∀ r ∈ arrays, r ≠ []
  defaults : ∀ r ∈ arrays, ∀ a ∈ r, ∀ s ∈ a.defVal.s, ∃ n, s.block = .caller n

def OptSet.zero : OptSet φ := ⟨⟨none, 0, LongDouble.zero⟩, false, false⟩

theorem withRecords_eq (arrays : List (List (OptRec φ))) :
    Opt.withRecords arrays =
      ⟨arrays.map fun r => ⟨r, List.replicate r.length OptSet.zero⟩, Memory.init⟩ := by
  have hfold (self : Opt φ) : arrays.foldl (fun self r => (self.addRecords r true).2) self =
      ⟨self.rcs ++ arrays.map fun r => ⟨r, List.replicate r.length OptSet.zero⟩, self.heap⟩ := by
    induction arrays generalizing self with
    | nil => simp
    | cons r arrays ih =>
      rw [List.foldl_cons, ih]
      simp [Opt.addRecords, OptSet.zero]
  exact hfold _

theorem slots_withRecords {arrays : List (List (OptRec φ))} {v : OptSet φ}
    (hv : v ∈ slots (Opt.withRecords arrays).rcs) : v = OptSet.zero := by
  rw [withRecords_eq] at hv
  simp only [slots, List.mem_flatMap, List.mem_map] at hv
  obtain ⟨c, ⟨r, -, rfl⟩, hv⟩ := hv
  exact List.eq_of_mem_replicate hv

theorem exists_of_recAt {arrays : List (List (OptRec φ))} {a : OptRec φ}
    (hrec : Opt.recAt (Opt.withRecords arrays).rcs cur = some a) : ∃ r ∈ arrays, a ∈ r := by
  rw [withRecords_eq] at hrec
  simp only [Opt.recAt, Option.bind_eq_bind, Option.bind_eq_some_iff] at hrec
  obtain ⟨c, hc, ha⟩ := hrec
  obtain ⟨r, hr, rfl⟩ := List.mem_map.mp (List.mem_of_getElem? hc)
  exact ⟨r, hr, List.mem_of_getElem? ha⟩

theorem exists_of_mem_entries {arrays : List (List (OptRec φ))} {e : (ℕ × ℕ) × OptRec φ}
    (he : e ∈ entries 0 (Opt.withRecords arrays).rcs) : ∃ r ∈ arrays, e.2 ∈ r :=
  exists_of_recAt (recAt_of_mem he).2

theorem formed_withRecords {arrays : List (List (OptRec φ))} (h : ∀ r ∈ arrays, r ≠ []) :
    Formed (Opt.withRecords arrays).rcs := by
  rw [withRecords_eq]
  constructor
  · intro c hc
    obtain ⟨r, hr, rfl⟩ := List.mem_map.mp hc
    exact h r hr
  · intro c hc
    obtain ⟨r, hr, rfl⟩ := List.mem_map.mp hc
    exact List.length_replicate

theorem owning_withRecords {arrays : List (List (OptRec φ))} (h : GoodRecords arrays) :
    Owning (Opt.withRecords arrays) := by
  have hzero := @slots_withRecords φ _ arrays
  have howned : owned (Opt.withRecords arrays).rcs = [] := by
    refine List.flatMap_eq_nil_iff.mpr fun v hv => ?_
    rw [hzero hv]
    rfl
  have hheap : (Opt.withRecords arrays).heap = Memory.init := by rw [withRecords_eq]
  have hnone : owned (Opt.withRecords arrays).rcs ++ (Opt.withRecords arrays).heap.released = [] := by
    rw [howned, hheap]
    rfl
  refine ⟨formed_withRecords h.nonempty, by rw [hnone]; exact List.nodup_nil, by rw [hnone]; simp, ?_, ?_⟩
  · intro v hv _ s hs
    rw [hzero hv] at hs
    exact absurd hs (by simp [OptSet.zero])
  · intro e he s hs
    obtain ⟨r, hr, ha⟩ := exists_of_mem_entries he
    exact ⟨h.defaults r hr _ ha s hs, by rw [hnone]; simp⟩

/-- Every string of the caller's that is no default can be given to a new object. -/
theorem proper_withRecords {arrays : List (List (OptRec φ))} (hlive : ∀ t ∈ c.s, ∃ n, t.block = .caller n)
    (hother : ∀ t ∈ c.s, ∀ r ∈ arrays, ∀ a ∈ r, ∀ s ∈ a.defVal.s, s.block ≠ t.block) :
    Proper (Opt.withRecords arrays) c := by
  have hheap : (Opt.withRecords arrays).heap = Memory.init := by rw [withRecords_eq]
  have howned : owned (Opt.withRecords arrays).rcs = [] := by
    refine List.flatMap_eq_nil_iff.mpr fun v hv => ?_
    rw [slots_withRecords hv]
    rfl
  refine ⟨fun t _ => by rw [hheap]; exact List.not_mem_nil, fun cur v t hs _ => ?_,
    fun cur v t hs _ => ⟨fun w hw _ s hs' => ?_, fun e he s hs' => ?_⟩⟩
  · refine ⟨hlive t (by rw [hs.str]; rfl), ?_⟩
    rw [howned, hheap]
    exact List.not_mem_nil
  · rw [slots_withRecords hw] at hs'
    exact absurd hs' (by simp [OptSet.zero])
  · obtain ⟨r, hr, ha⟩ := exists_of_mem_entries he
    exact hother t (by rw [hs.str]; rfl) r hr _ ha s hs'

end New

/-! ## Runs -/

section Runs
variable [LongDouble φ]

def Opt.run : Opt φ → List ParseCall → Option (List Bool × Opt φ)
  | self, [] => some ([], self)
  | self, c :: rest => do
    let r ← self.call c
    let rs ← run r.2 rest
    some (r.1 :: rs.1, rs.2)

/-- Each of these calls meets the condition when it is made. -/
def Opt.Steps (P : Opt φ → ParseCall → Prop) : Opt φ → List ParseCall → Prop
  | _, [] => True
  | self, c :: rest => P self c ∧ ∀ b self', self.call c = some (b, self') → Steps P self' rest

/-- When calls under this condition return and keep an invariant, then so do runs. -/
theorem Opt.run_of_steps {P : Opt φ → ParseCall → Prop} {I : List (ParseCall × Bool) → Opt φ → Prop}
    (hstep : ∀ past self c, I past self → P self c →
      ∃ b self', self.call c = some (b, self') ∧ I (past ++ [(c, b)]) self')
    {past : List (ParseCall × Bool)} {self : Opt φ} {calls : List ParseCall} (hI : I past self)
    (h : self.Steps P calls) :
    ∃ rs self', self.run calls = some (rs, self') ∧ I (past ++ calls.zip rs) self' := by
  induction calls generalizing past self with
  | nil => exact ⟨[], self, rfl, by simpa using hI⟩
  | cons c rest ih =>
    obtain ⟨b, self₁, hcall, hI₁⟩ := hstep past self c hI h.1
    obtain ⟨rs, self', hrun, hI'⟩ := ih hI₁ (h.2 b self₁ hcall)
    refine ⟨b :: rs, self', ?_, by simpa using hI'⟩
    rw [Opt.run, hcall, Option.bind_eq_bind, Option.bind_some, hrun]
    rfl

end Runs

end Csptp
