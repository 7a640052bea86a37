import Csptp.Opt.Main

/-! # Going over the records

When no array of records is empty, the loop over the records visits all of them, in the order of the
arrays, and each lookup finds the first record of its kind. -/
namespace Csptp
set_option autoImplicit false

variable {φ β σ : Type}

/-! ## All records -/

/-- The records of these arrays, the first of which has this number, with the places where they are. -/
def entries : ℕ → List (OptRecList φ) → List ((ℕ × ℕ) × OptRec φ)
  | _, [] => []
  | n, c :: rest => (c.rcs.zipIdx.map fun a => ((n, a.2), a.1)) ++ entries (n + 1) rest

theorem map_entries (n : ℕ) (rcs : List (OptRecList φ)) :
    (entries n rcs).map Prod.snd = rcs.flatMap fun c => c.rcs := by
  induction rcs generalizing n with
  | nil => rfl
  | cons c rest ih =>
    rw [entries, List.map_append, ih, List.flatMap_cons, List.map_map]
    congr 1
    exact List.zipIdx_map_fst 0 c.rcs

/-- What a loop over these records does. -/
def foldEntries (body : ℕ × ℕ → OptRec φ → σ → β ⊕ σ) : List ((ℕ × ℕ) × OptRec φ) → σ → β ⊕ σ
  | [], s => .inr s
  | e :: rest, s =>
    match body e.1 e.2 s with
    | .inl b => .inl b
    | .inr s => foldEntries body rest s

/-- Every array has a record, and a value for each of its records. -/
structure Formed (rcs : List (OptRecList φ)) : Prop where
  nonempty : ∀ c ∈ rcs, c.rcs ≠ []
  sized : ∀ c ∈ rcs, c.vals.length = c.rcs.length

section Loop
variable {body : ℕ × ℕ → OptRec φ → σ → β ⊕ σ}

theorem numRecords_cons (c : OptRecList φ) (rest : List (OptRecList φ)) :
    Opt.numRecords (c :: rest) = c.rcs.length + Opt.numRecords rest := by
  rw [Opt.numRecords, List.map_cons, List.sum_cons]
  rfl

/-- From some record on, the loop visits it, the rest of its array and the arrays behind. -/
theorem loopRec_eq {n : ℕ} : ∀ {pre post : List (OptRecList φ)} {c : OptRecList φ}
    {done todo : List (OptRec φ)} {a : OptRec φ} {s : σ}, c.rcs = done ++ a :: todo →
    (∀ c ∈ post, c.rcs ≠ []) → todo.length + Opt.numRecords post < n →
    Opt.loopRec (pre ++ c :: post) body n (pre.length, done.length) s =
      some (foldEntries body (((pre.length, done.length), a) ::
        (todo.zipIdx (done.length + 1)).map (fun a => ((pre.length, a.2), a.1)) ++
          entries (pre.length + 1) post) s) := by
  induction n with
  | zero => intro _ _ _ _ _ _ _ _ _ hn; omega
  | succ n ih =>
    intro pre post c done todo a s hc hpost hn
    have hrec : Opt.recAt (pre ++ c :: post) (pre.length, done.length) = some a := by
      simp [Opt.recAt, hc]
    rw [Opt.loopRec, hrec, Option.bind_eq_bind, Option.bind_some, List.cons_append, foldEntries]
    dsimp only
    cases hbody : body (pre.length, done.length) a s with
    | inl b => rfl
    | inr s =>
      dsimp only
      cases todo with
      | cons a' todo =>
        have hnext : Opt.nextRec (pre ++ c :: post) (pre.length, done.length) =
            some (some (pre.length, (done ++ [a]).length)) := by
          simp [Opt.nextRec, hc]
        rw [hnext, Option.bind_eq_bind, Option.bind_some]
        dsimp only
        rw [@ih pre post c (done ++ [a]) todo a' s (by simp [hc]) hpost (by simp at hn; omega)]
        simp
      | nil =>
        cases post with
        | nil =>
          have hnext : Opt.nextRec (pre ++ [c]) (pre.length, done.length) = some none := by
            simp [Opt.nextRec, hc]
          rw [hnext, Option.bind_eq_bind, Option.bind_some]
          rfl
        | cons c' post =>
          obtain ⟨a', todo, hc'⟩ := List.exists_cons_of_ne_nil (hpost c' List.mem_cons_self)
          have hnext : Opt.nextRec (pre ++ c :: c' :: post) (pre.length, done.length) =
              some (some ((pre ++ [c]).length, ([] : List (OptRec φ)).length)) := by
            simp [Opt.nextRec, hc]
          rw [numRecords_cons, hc'] at hn
          have hrest := @ih (pre ++ [c]) post c' [] todo a' s hc'
            (fun x hx => hpost x (List.mem_cons_of_mem _ hx)) (by simp at hn; omega)
          rw [List.append_assoc, List.singleton_append] at hrest
          rw [hnext, Option.bind_eq_bind, Option.bind_some]
          dsimp only
          rw [hrest]
          simp [entries, hc']

end Loop

/-! ## The loop and the lookups of an object -/

section Lookups
variable {self : Opt φ}

theorem forRec_eq (h : Formed self.rcs) (hne : self.rcs ≠ []) (body : ℕ × ℕ → OptRec φ → σ → β ⊕ σ)
    (s : σ) : self.forRec body s = some (foldEntries body (entries 0 self.rcs) s) := by
  obtain ⟨c, post, hrcs⟩ := List.exists_cons_of_ne_nil hne
  have hc := h.nonempty c (by simp [hrcs])
  obtain ⟨a, todo, hc⟩ := List.exists_cons_of_ne_nil hc
  have hloop := @loopRec_eq φ β σ body (Opt.numRecords self.rcs) [] post c [] todo a s hc
    (fun x hx => h.nonempty x (by simp [hrcs, hx])) (by rw [hrcs, numRecords_cons, hc]; simp)
  rw [List.nil_append, ← hrcs] at hloop
  rw [Opt.forRec]
  refine hloop.trans ?_
  simp [hrcs, entries, hc]

theorem foldEntries_find (p : OptRec φ → Bool) (l : List ((ℕ × ℕ) × OptRec φ)) :
    foldEntries (fun cur a (_ : Unit) => if p a then .inl (cur, a) else .inr ()) l () =
      match l.find? (fun e => p e.2) with
      | some found => .inl found
      | none => .inr () := by
  induction l with
  | nil => rfl
  | cons e l ih =>
    rw [foldEntries, List.find?_cons]
    cases p e.2 with
    | true => rfl
    | false => exact ih

/-- A lookup finds the first record of its kind. -/
theorem select_eq (h : Formed self.rcs) (hne : self.rcs ≠ []) (p : OptRec φ → Bool) :
    self.select p = some ((entries 0 self.rcs).find? fun e => p e.2) := by
  rw [Opt.select, forRec_eq h hne, Option.bind_eq_bind, Option.bind_some, foldEntries_find]
  cases (entries 0 self.rcs).find? (fun e => p e.2) <;> rfl

/-- A method looks a record up, unless its argument is blank or the object has no records. -/
theorem select_guarded {α : Type} (h : Formed self.rcs) (blank : Prop) [Decidable blank]
    (p : OptRec φ → Bool) {x : Option α} {f : Option ((ℕ × ℕ) × OptRec φ) → Option α} (hf : f none = x) :
    (if self.rcs = [] ∨ blank then x else (self.select p).bind f) =
      f (if blank then none else (entries 0 self.rcs).find? fun e => p e.2) := by
  by_cases hblank : blank
  · rw [if_pos (.inr hblank), if_pos hblank, hf]
  rw [if_neg hblank]
  by_cases hne : self.rcs = []
  · have hnone : (entries 0 self.rcs).find? (fun e => p e.2) = none := by simp [hne, entries]
    rw [if_pos (.inl hne), hnone, hf]
  · rw [if_neg (not_or.mpr ⟨hne, hblank⟩), select_eq h hne, Option.bind_some]

end Lookups

/-! ## Places and values -/

section Places
variable {rcs : List (OptRecList φ)} {cur : ℕ × ℕ} {a : OptRec φ} {v₀ : OptSet φ}

theorem recAt_of_mem {n : ℕ} (h : (cur, a) ∈ entries n rcs) :
    n ≤ cur.1 ∧ Opt.recAt rcs (cur.1 - n, cur.2) = some a := by
  induction rcs generalizing n with
  | nil => simp [entries] at h
  | cons c rcs ih =>
    rw [entries, List.mem_append, List.mem_map] at h
    rcases h with ⟨x, hx, heq⟩ | h
    · obtain ⟨rfl, rfl⟩ := Prod.mk.inj heq
      refine ⟨le_rfl, ?_⟩
      simpa [Opt.recAt] using List.mk_mem_zipIdx_iff_getElem?.mp hx
    · obtain ⟨hle, hrec⟩ := ih h
      refine ⟨by omega, ?_⟩
      rw [show cur.1 - n = cur.1 - (n + 1) + 1 by omega]
      simpa [Opt.recAt] using hrec

theorem exists_slotAt (h : Formed rcs) (ha : Opt.recAt rcs cur = some a) :
    ∃ v, Opt.slotAt rcs cur = some v := by
  simp only [Opt.recAt, Option.bind_eq_bind, Option.bind_eq_some_iff] at ha
  obtain ⟨c, hc, ha⟩ := ha
  have hlen : cur.2 < c.vals.length := by
    rw [h.sized c (List.mem_of_getElem? hc)]
    exact (List.getElem?_eq_some_iff.mp ha).1
  exact ⟨c.vals[cur.2], by simp [Opt.slotAt, hc, hlen]⟩

/-- All values, in the order of the records. -/
def slots (rcs : List (OptRecList φ)) : List (OptSet φ) := rcs.flatMap fun c => c.vals

variable {self : Opt φ} {h : Memory}

theorem recAt_store (cur' : ℕ × ℕ) (v : OptSet φ) :
    Opt.recAt (self.store cur v h).rcs cur' = Opt.recAt self.rcs cur' := by
  simp only [Opt.recAt, Opt.store, List.getElem?_modify, Option.bind_eq_bind]
  cases self.rcs[cur'.1]? with
  | none => rfl
  | some c => split <;> rfl

theorem entries_modify (n : ℕ) (i : ℕ) (f : OptRecList φ → OptRecList φ) (hf : ∀ c, (f c).rcs = c.rcs) :
    entries n (rcs.modify i f) = entries n rcs := by
  induction rcs generalizing n i with
  | nil => cases i <;> rfl
  | cons c rcs ih =>
    cases i with
    | zero => simp [List.modify_zero_cons, entries, hf]
    | succ i => simp [List.modify_succ_cons, entries, ih]

theorem entries_store (n : ℕ) (v : OptSet φ) :
    entries n (self.store cur v h).rcs = entries n self.rcs :=
  entries_modify n cur.1 _ fun _ => rfl

theorem slotAt_store (hs : Opt.slotAt self.rcs cur = some v₀) (v : OptSet φ) (cur' : ℕ × ℕ) :
    Opt.slotAt (self.store cur v h).rcs cur' =
      if cur' = cur then some v else Opt.slotAt self.rcs cur' := by
  simp only [Opt.slotAt, Option.bind_eq_bind, Option.bind_eq_some_iff] at hs
  obtain ⟨c, hc, hv⟩ := hs
  have hlen := (List.getElem?_eq_some_iff.mp hv).1
  simp only [Opt.slotAt, Opt.store, List.getElem?_modify, Option.bind_eq_bind]
  by_cases harray : cur.1 = cur'.1
  · rw [← harray, hc]
    by_cases hindex : cur.2 = cur'.2
    · rw [if_pos (Prod.ext harray.symm hindex.symm), ← hindex]
      simp [hlen]
    · rw [if_neg fun heq => hindex (congrArg Prod.snd heq).symm]
      simp [List.getElem?_set_ne hindex]
  · rw [if_neg fun heq => harray (congrArg Prod.fst heq).symm]
    simp only [harray, if_false]
    cases self.rcs[cur'.1]? <;> rfl

theorem mem_modify {α : Type} {l : List α} {i : ℕ} {f : α → α} {x : α} (hx : x ∈ l.modify i f) :
    ∃ y ∈ l, x = y ∨ x = f y := by
  obtain ⟨j, hj⟩ := List.mem_iff_getElem?.mp hx
  rw [List.getElem?_modify, Option.map_eq_map, Option.map_eq_some_iff] at hj
  obtain ⟨y, hy, rfl⟩ := hj
  refine ⟨y, List.mem_of_getElem? hy, ?_⟩
  split
  · exact .inr rfl
  · exact .inl rfl

theorem formed_store (hf : Formed self.rcs) (v : OptSet φ) : Formed (self.store cur v h).rcs := by
  constructor
  · intro c hc
    obtain ⟨c₀, hc₀, rfl | rfl⟩ := mem_modify hc
    · exact hf.nonempty _ hc₀
    · exact hf.nonempty c₀ hc₀
  · intro c hc
    obtain ⟨c₀, hc₀, rfl | rfl⟩ := mem_modify hc
    · exact hf.sized _ hc₀
    · rw [List.length_set]
      exact hf.sized c₀ hc₀

/-- Storing the value that is there. -/
theorem store_self (hs : Opt.slotAt self.rcs cur = some v₀) : self.store cur v₀ self.heap = self := by
  simp only [Opt.slotAt, Option.bind_eq_bind, Option.bind_eq_some_iff] at hs
  obtain ⟨c, hc, hv⟩ := hs
  obtain ⟨hlen, hv⟩ := List.getElem?_eq_some_iff.mp hv
  have hrcs : (self.rcs.modify cur.1 fun c => { c with vals := c.vals.set cur.2 v₀ }) = self.rcs := by
    refine List.ext_getElem? fun i => ?_
    rw [List.getElem?_modify]
    by_cases hi : cur.1 = i
    · subst hi
      simp [hc, ← hv]
    · simp [hi]
  rw [Opt.store, hrcs]

/-- Storing a value replaces one in the list of all values. -/
theorem slots_store (hs : Opt.slotAt self.rcs cur = some v₀) : ∃ pre post,
    slots self.rcs = pre ++ v₀ :: post ∧
      ∀ v h, slots (self.store cur v h).rcs = pre ++ v :: post := by
  obtain ⟨n, i⟩ := cur
  have hmodify (rcs : List (OptRecList φ)) : ∀ n, Opt.slotAt rcs (n, i) = some v₀ → ∃ pre post,
      slots rcs = pre ++ v₀ :: post ∧
        ∀ v, slots (rcs.modify n fun c => { c with vals := c.vals.set i v }) = pre ++ v :: post := by
    induction rcs with
    | nil => intro n hs; simp [Opt.slotAt] at hs
    | cons c rcs ih =>
      intro n hs
      cases n with
      | zero =>
        have hv : c.vals[i]? = some v₀ := by simpa [Opt.slotAt] using hs
        obtain ⟨hlen, hv⟩ := List.getElem?_eq_some_iff.mp hv
        have hset (v : OptSet φ) : c.vals.set i v = c.vals.take i ++ v :: c.vals.drop (i + 1) := by
          rw [List.set_eq_take_append_cons_drop, if_pos hlen]
        refine ⟨c.vals.take i, c.vals.drop (i + 1) ++ slots rcs, ?_, fun v => ?_⟩
        · have hself := hset v₀
          rw [← hv, List.set_getElem_self, hv] at hself
          rw [slots, List.flatMap_cons, ← slots, ← List.cons_append, ← List.append_assoc, ← hself]
        · rw [List.modify_zero_cons, slots, List.flatMap_cons, hset, ← slots]
          simp
      | succ n =>
        obtain ⟨pre, post, hold, hnew⟩ := ih n (by simpa [Opt.slotAt] using hs)
        refine ⟨c.vals ++ pre, post, ?_, fun v => ?_⟩
        · rw [slots, List.flatMap_cons, ← slots, hold, List.append_assoc]
        · rw [List.modify_succ_cons, slots, List.flatMap_cons, ← slots, hnew, List.append_assoc]
  obtain ⟨pre, post, hold, hnew⟩ := hmodify self.rcs n hs
  exact ⟨pre, post, hold, fun v _ => hnew v⟩

end Places

end Csptp
