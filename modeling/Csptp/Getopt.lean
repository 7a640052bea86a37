import Mathlib.Algebra.GroupWithZero.Nat
import Mathlib.Data.List.Basic

/-! # Options in the words of a command line

`next` reads the words as `getopt` of the C library does, one option a call: options may share a word, and
an argument is the rest of its word or the next word. Words that are no options are left for the end. A
line of words gives certain options and nothing else exactly when it is written by the rules of `Line`. -/
namespace Getopt
set_option autoImplicit false

/-- What follows an option. -/
inductive HasArg
  | no
  | required
  | optional
deriving DecidableEq

structure Rules (α : Type*) where
  dash : α
  hasArg : α → Option HasArg
  /-- There are no options behind the first operand. -/
  posixly : Bool

/-- An option with its argument. -/
abbrev Use (α : Type*) := α × Option (List α)

/-- What a call finds. -/
inductive Found (α : Type*)
  | use (u : Use α)
  | unknown (c : α)
  | missing (c : α)

/-- The words that are done without the operands among them, the word that options are read from, what is
left of it, and the words to come. -/
structure Cursor (α : Type*) where
  done : List (List α)
  operands : List (List α)
  word : List α
  chars : List α
  todo : List (List α)

variable {α : Type*} (R : Rules α)

/-! ## Reading -/

def start (program : List α) (words : List (List α)) : Cursor α := ⟨[program], [], [], [], words⟩

/-- The last word in front of the one that comes next. Operands are moved behind the options. -/
def Cursor.last (cur : Cursor α) : List α :=
  if cur.chars = [] then cur.done.getLastD [] else (cur.done ++ cur.operands).getLastD []

/-- Behind an option without an argument. -/
def Cursor.advance (cur : Cursor α) (cs : List α) : Cursor α :=
  if cs = [] then { cur with done := cur.done ++ [cur.word], chars := [] } else { cur with chars := cs }

/-- Behind the word. -/
def Cursor.past (cur : Cursor α) : Cursor α := cur.advance []

/-- The option `c`, with `cs` behind it in its word. -/
def take (c : α) (cs : List α) (cur : Cursor α) : Found α × Cursor α :=
  match R.hasArg c with
  | none => (.unknown c, cur.advance cs)
  | some .no => (.use (c, none), cur.advance cs)
  | some .optional => (.use (c, if cs = [] then none else some cs), cur.past)
  | some .required =>
    if cs ≠ [] then (.use (c, some cs), cur.past)
    else match cur.todo with
      | [] => (.missing c, cur.past)
      | arg :: rest => (.use (c, some arg),
          { cur with done := cur.done ++ [cur.word, arg], chars := [], todo := rest })

theorem advance_chars {cur : Cursor α} {cs : List α} : (cur.advance cs).chars = cs := by
  rw [Cursor.advance]
  split
  · rename_i h
    exact h.symm
  · rfl

theorem advance_todo {cur : Cursor α} {cs : List α} : (cur.advance cs).todo = cur.todo := by
  rw [Cursor.advance]
  split <;> rfl

section Calls
variable [DecidableEq α]

/-- The characters of a word that has options. -/
def Rules.options : List α → Option (List α)
  | d :: c :: cs => if d = R.dash then some (c :: cs) else none
  | _ => none

/-- Skips operands, up to a word that has options. -/
def seek (cur : Cursor α) : List (List α) → Option (Cursor α)
  | [] => none
  | w :: ws =>
    match R.options w with
    | some cs => if cs = [R.dash] then none else some { cur with word := w, chars := cs, todo := ws }
    | none => if R.posixly then none else seek { cur with operands := cur.operands ++ [w] } ws

/-- A call. -/
def next (cur : Cursor α) : Option (Found α × Cursor α) :=
  match cur.chars with
  | c :: cs => some (take R c cs cur)
  | [] => (seek R cur cur.todo).bind fun cur =>
    match cur.chars with
    | c :: cs => some (take R c cs cur)
    | [] => none

/-- These are found one after the other, and then there are no more options. -/
inductive Finds : Cursor α → List (Found α) → Prop
  | done {cur : Cursor α} (h : next R cur = none) : Finds cur []
  | call {cur cur' : Cursor α} {f : Found α} {fs : List (Found α)} (h : next R cur = some (f, cur'))
      (hrest : Finds cur' fs) : Finds cur (f :: fs)

end Calls

/-! ## Words -/

/-- The options of a word, and the last of them if its argument is the next word. -/
inductive Word : List α → List (Use α) → Option α → Prop
  | nil : Word [] [] none
  | flag {c : α} {cs : List α} {us : List (Use α)} {t : Option α} (hc : R.hasArg c = some .no)
      (h : Word cs us t) : Word (c :: cs) ((c, none) :: us) t
  | joined {c : α} {arg : List α} (hc : R.hasArg c = some .required ∨ R.hasArg c = some .optional)
      (harg : arg ≠ []) : Word (c :: arg) [(c, some arg)] none
  | bare {c : α} (hc : R.hasArg c = some .optional) : Word [c] [(c, none)] none
  | apart {c : α} (hc : R.hasArg c = some .required) : Word [c] [] (some c)

section Words
variable {R} {c : α} {cs : List α} {us : List (Use α)} {t : Option α}

theorem word_nil : Word R [] us t ↔ us = [] ∧ t = none := by
  constructor
  · rintro ⟨⟩
    exact ⟨rfl, rfl⟩
  · rintro ⟨rfl, rfl⟩
    exact .nil

theorem word_unknown (hc : R.hasArg c = none) : ¬ Word R (c :: cs) us t := by
  rintro (_ | ⟨hc', -⟩ | ⟨hc' | hc', -⟩ | hc' | hc') <;> simp [hc] at hc'

theorem word_no (hc : R.hasArg c = some .no) :
    Word R (c :: cs) us t ↔ ∃ us', us = (c, none) :: us' ∧ Word R cs us' t := by
  constructor
  · rintro (_ | ⟨-, h⟩ | ⟨hc' | hc', -⟩ | hc' | hc')
    · exact ⟨_, rfl, h⟩
    all_goals simp [hc] at hc'
  · rintro ⟨us', rfl, h⟩
    exact .flag hc h

theorem word_optional (hc : R.hasArg c = some .optional) :
    Word R (c :: cs) us t ↔ us = [(c, if cs = [] then none else some cs)] ∧ t = none := by
  constructor
  · rintro (_ | ⟨hc', -⟩ | ⟨-, harg⟩ | - | hc')
    · simp [hc] at hc'
    · exact ⟨by rw [if_neg harg], rfl⟩
    · exact ⟨rfl, rfl⟩
    · simp [hc] at hc'
  · rintro ⟨rfl, rfl⟩
    cases cs with
    | nil => exact .bare hc
    | cons c' cs' => exact .joined (.inr hc) (List.cons_ne_nil _ _)

theorem word_required (hc : R.hasArg c = some .required) :
    Word R (c :: cs) us t ↔ cs ≠ [] ∧ us = [(c, some cs)] ∧ t = none ∨ cs = [] ∧ us = [] ∧ t = some c := by
  constructor
  · rintro (_ | ⟨hc', -⟩ | ⟨-, harg⟩ | hc' | -)
    · simp [hc] at hc'
    · exact .inl ⟨harg, rfl, rfl⟩
    · simp [hc] at hc'
    · exact .inr ⟨rfl, rfl, rfl⟩
  · rintro (⟨hne, rfl, rfl⟩ | ⟨rfl, rfl, rfl⟩)
    · exact .joined (.inl hc) hne
    · exact .apart hc

/-- Only options are used. -/
theorem word_known (h : Word R cs us t) : (∀ u ∈ us, R.hasArg u.1 ≠ none) ∧ ∀ c ∈ t, R.hasArg c ≠ none := by
  induction h with
  | nil => exact ⟨fun u hu => absurd hu List.not_mem_nil, fun c hc => absurd hc (by simp)⟩
  | flag hc _ ih => exact ⟨List.forall_mem_cons.mpr ⟨by simp [hc], ih.1⟩, ih.2⟩
  | joined hc => exact ⟨by rcases hc with hc | hc <;> simp [hc], by simp⟩
  | bare hc => exact ⟨by simp [hc], by simp⟩
  | apart hc => exact ⟨by simp, by simp [hc]⟩

end Words

/-! ## Command lines -/

section Lines
variable [DecidableEq α]

/-- The options of a line. -/
inductive Line : List (List α) → List (Use α) → Prop
  | nil : Line [] []
  | ending {ws : List (List α)} : Line ([R.dash, R.dash] :: ws) []
  | operand {w : List α} {ws : List (List α)} {us : List (Use α)} (hw : R.options w = none)
      (hskip : R.posixly = false) (h : Line ws us) : Line (w :: ws) us
  | stop {w : List α} {ws : List (List α)} (hw : R.options w = none) (hstop : R.posixly = true) :
      Line (w :: ws) []
  | word {cs : List α} {ws : List (List α)} {us us' : List (Use α)} (hne : cs ≠ []) (hend : cs ≠ [R.dash])
      (hword : Word R cs us none) (h : Line ws us') : Line ((R.dash :: cs) :: ws) (us ++ us')
  | apart {cs arg : List α} {c : α} {ws : List (List α)} {us us' : List (Use α)} (hend : cs ≠ [R.dash])
      (hword : Word R cs us (some c)) (h : Line ws us') :
      Line ((R.dash :: cs) :: arg :: ws) (us ++ (c, some arg) :: us')

/-- What these words still give, from within a word on. -/
inductive Remains : List α → List (List α) → List (Use α) → Prop
  | word {cs : List α} {ws : List (List α)} {us us' : List (Use α)} (hword : Word R cs us none)
      (h : Line R ws us') : Remains cs ws (us ++ us')
  | apart {cs arg : List α} {c : α} {ws : List (List α)} {us us' : List (Use α)}
      (hword : Word R cs us (some c)) (h : Line R ws us') : Remains cs (arg :: ws) (us ++ (c, some arg) :: us')

variable {R} {c : α} {cs w : List α} {ws : List (List α)} {us : List (Use α)}

/-- An option without an argument, in a word of its own. -/
theorem Line.flag (hc : R.hasArg c = some .no) (hdash : c ≠ R.dash) (h : Line R ws us) :
    Line R ([R.dash, c] :: ws) ((c, none) :: us) := by
  have hend : [c] ≠ [R.dash] := by simpa using hdash
  exact .word (List.cons_ne_nil _ _) hend (.flag hc .nil) h

/-- An option and its argument, in a word each. -/
theorem Line.value {arg : List α} (hc : R.hasArg c = some .required) (hdash : c ≠ R.dash) (h : Line R ws us) :
    Line R ([R.dash, c] :: arg :: ws) ((c, some arg) :: us) := by
  have hend : [c] ≠ [R.dash] := by simpa using hdash
  exact .apart hend (.apart hc) h

theorem line_known (h : Line R ws us) : ∀ u ∈ us, R.hasArg u.1 ≠ none := by
  induction h with
  | nil => exact fun u hu => absurd hu List.not_mem_nil
  | ending => exact fun u hu => absurd hu List.not_mem_nil
  | operand _ _ _ ih => exact ih
  | stop => exact fun u hu => absurd hu List.not_mem_nil
  | word _ _ hword _ ih => exact List.forall_mem_append.mpr ⟨(word_known hword).1, ih⟩
  | apart _ hword _ ih =>
    obtain ⟨hus, hc⟩ := word_known hword
    exact List.forall_mem_append.mpr ⟨hus, List.forall_mem_cons.mpr ⟨hc _ rfl, ih⟩⟩

theorem remains_iff : Remains R cs ws us ↔
    (∃ us₁ us₂, us = us₁ ++ us₂ ∧ Word R cs us₁ none ∧ Line R ws us₂) ∨
      ∃ us₁ c arg ws' us₂, us = us₁ ++ (c, some arg) :: us₂ ∧ ws = arg :: ws' ∧ Word R cs us₁ (some c) ∧
        Line R ws' us₂ := by
  constructor
  · rintro (⟨hword, h⟩ | ⟨hword, h⟩)
    · exact .inl ⟨_, _, rfl, hword, h⟩
    · exact .inr ⟨_, _, _, _, _, rfl, rfl, hword, h⟩
  · rintro (⟨us₁, us₂, rfl, hword, h⟩ | ⟨us₁, c, arg, ws', us₂, rfl, rfl, hword, h⟩)
    · exact .word hword h
    · exact .apart hword h

theorem remains_nil : Remains R [] ws us ↔ Line R ws us := by
  constructor
  · rintro (⟨⟨⟩, h⟩ | ⟨⟨⟩, -⟩)
    exact h
  · exact fun h => .word .nil h

theorem remains_unknown (hc : R.hasArg c = none) : ¬ Remains R (c :: cs) ws us := by
  intro h
  rcases remains_iff.mp h with ⟨_, _, -, hword, -⟩ | ⟨_, _, _, _, _, -, -, hword, -⟩
  · exact word_unknown hc hword
  · exact word_unknown hc hword

theorem remains_no (hc : R.hasArg c = some .no) :
    Remains R (c :: cs) ws us ↔ ∃ us', us = (c, none) :: us' ∧ Remains R cs ws us' := by
  simp only [remains_iff, word_no hc]
  constructor
  · rintro (⟨_, us₂, rfl, ⟨us₁, rfl, hword⟩, h⟩ | ⟨_, c', arg, ws', us₂, rfl, hws, ⟨us₁, rfl, hword⟩, h⟩)
    · exact ⟨_, rfl, .inl ⟨us₁, us₂, rfl, hword, h⟩⟩
    · exact ⟨_, rfl, .inr ⟨us₁, c', arg, ws', us₂, rfl, hws, hword, h⟩⟩
  · rintro ⟨_, rfl, ⟨us₁, us₂, rfl, hword, h⟩ | ⟨us₁, c', arg, ws', us₂, rfl, hws, hword, h⟩⟩
    · exact .inl ⟨_, us₂, rfl, ⟨us₁, rfl, hword⟩, h⟩
    · exact .inr ⟨_, c', arg, ws', us₂, rfl, hws, ⟨us₁, rfl, hword⟩, h⟩

theorem remains_optional (hc : R.hasArg c = some .optional) : Remains R (c :: cs) ws us ↔
    ∃ us', us = (c, if cs = [] then none else some cs) :: us' ∧ Line R ws us' := by
  rw [remains_iff]
  constructor
  · rintro (⟨_, us₂, rfl, hword, h⟩ | ⟨_, _, _, _, _, -, -, hword, -⟩)
    · obtain ⟨rfl, -⟩ := (word_optional hc).mp hword
      exact ⟨us₂, rfl, h⟩
    · exact absurd ((word_optional hc).mp hword).2 (by simp)
  · rintro ⟨us₂, rfl, h⟩
    exact .inl ⟨_, us₂, rfl, (word_optional hc).mpr ⟨rfl, rfl⟩, h⟩

theorem remains_joined (hc : R.hasArg c = some .required) (hcs : cs ≠ []) :
    Remains R (c :: cs) ws us ↔ ∃ us', us = (c, some cs) :: us' ∧ Line R ws us' := by
  rw [remains_iff]
  constructor
  · rintro (⟨_, us₂, rfl, hword, h⟩ | ⟨_, _, _, _, _, -, -, hword, -⟩)
    · rcases (word_required hc).mp hword with ⟨-, rfl, -⟩ | ⟨hnil, -⟩
      · exact ⟨us₂, rfl, h⟩
      · exact absurd hnil hcs
    · rcases (word_required hc).mp hword with ⟨-, -, h⟩ | ⟨hnil, -⟩
      · exact absurd h (by simp)
      · exact absurd hnil hcs
  · rintro ⟨us₂, rfl, h⟩
    exact .inl ⟨_, us₂, rfl, (word_required hc).mpr (.inl ⟨hcs, rfl, rfl⟩), h⟩

theorem remains_apart (hc : R.hasArg c = some .required) : Remains R [c] ws us ↔
    ∃ arg ws' us', ws = arg :: ws' ∧ us = (c, some arg) :: us' ∧ Line R ws' us' := by
  rw [remains_iff]
  constructor
  · rintro (⟨_, _, rfl, hword, -⟩ | ⟨_, c', arg, ws', us₂, rfl, rfl, hword, h⟩)
    · rcases (word_required hc).mp hword with ⟨hne, -⟩ | ⟨-, -, h⟩
      · exact absurd rfl hne
      · exact absurd h (by simp)
    · rcases (word_required hc).mp hword with ⟨hne, -⟩ | ⟨-, rfl, hc'⟩
      · exact absurd rfl hne
      · obtain rfl := Option.some.inj hc'
        exact ⟨arg, ws', us₂, rfl, rfl, h⟩
  · rintro ⟨arg, ws', us₂, rfl, rfl, h⟩
    exact .inr ⟨[], c, arg, ws', us₂, rfl, rfl, (word_required hc).mpr (.inr ⟨rfl, rfl, rfl⟩), h⟩

theorem options_eq_some : R.options w = some cs ↔ w = R.dash :: cs ∧ cs ≠ [] := by
  cases w with
  | nil => simp [Rules.options]
  | cons d rest =>
    cases rest with
    | nil =>
      simp only [Rules.options, reduceCtorEq, List.cons.injEq, false_iff, not_and, not_not]
      exact fun h => h.2.symm
    | cons c' cs' =>
      rw [Rules.options]
      by_cases hd : d = R.dash
      · rw [if_pos hd, hd]
        constructor
        · rintro ⟨⟩
          exact ⟨rfl, List.cons_ne_nil _ _⟩
        · rintro ⟨h, -⟩
          exact congrArg some (List.cons.inj h).2
      · rw [if_neg hd]
        exact iff_of_false (by simp) fun h => hd (List.cons.inj h.1).1

/-- A line that begins with a word of options. -/
theorem line_options (hw : R.options w = some cs) (hend : cs ≠ [R.dash]) :
    Line R (w :: ws) us ↔ Remains R cs ws us := by
  obtain ⟨rfl, hne⟩ := options_eq_some.mp hw
  constructor
  · intro h
    cases h with
    | ending => exact absurd rfl hend
    | operand hw' => exact absurd (hw.symm.trans hw') (by simp)
    | stop hw' => exact absurd (hw.symm.trans hw') (by simp)
    | word _ _ hword h => exact .word hword h
    | apart _ hword h => exact .apart hword h
  · intro h
    cases h with
    | word hword h => exact .word hne hend hword h
    | apart hword h => exact .apart hend hword h

theorem line_operand (hw : R.options w = none) :
    Line R (w :: ws) us ↔ if R.posixly then us = [] else Line R ws us := by
  have hnot {cs : List α} (hne : cs ≠ []) : w ≠ R.dash :: cs := fun h =>
    absurd (hw.symm.trans (options_eq_some.mpr ⟨h, hne⟩)) (by simp)
  constructor
  · intro h
    cases h with
    | ending => exact absurd rfl (hnot (List.cons_ne_nil _ _))
    | operand _ hskip h =>
      rw [if_neg (by simp [hskip])]
      exact h
    | stop _ hstop => rw [if_pos hstop]
    | word hne => exact absurd rfl (hnot hne)
    | apart _ hword =>
      refine absurd rfl (hnot ?_)
      rintro rfl
      exact absurd (word_nil.mp hword).2 (by simp)
  · intro h
    split at h
    · rename_i hstop
      rw [h]
      exact .stop hw hstop
    · rename_i hskip
      exact .operand hw (by simpa using hskip) h

end Lines

/-! ## One call -/

theorem exists_cons_iff {us : List (Use α)} {u : Use α} {P : List (Use α) → Prop} :
    (∃ u' us', us = u' :: us' ∧ Found.use u = Found.use u' ∧ P us') ↔ ∃ us', us = u :: us' ∧ P us' := by
  constructor
  · rintro ⟨u', us', rfl, hu, h⟩
    cases hu
    exact ⟨us', rfl, h⟩
  · rintro ⟨us', rfl, h⟩
    exact ⟨u, us', rfl, rfl, h⟩

section Calls
variable [DecidableEq α] {R} {cur cur' : Cursor α} {c : α} {cs : List α} {us : List (Use α)}

theorem seek_none : ∀ {ws : List (List α)} {cur : Cursor α}, seek R cur ws = none →
    (Line R ws us ↔ us = [])
  | [], _, _ => ⟨fun h => by cases h; rfl, fun h => h ▸ .nil⟩
  | w :: ws, cur, h => by
    rw [seek] at h
    split at h
    · rename_i cs hw
      obtain ⟨rfl, -⟩ := options_eq_some.mp hw
      split at h
      · rename_i hend
        obtain rfl := hend
        constructor
        · intro h
          cases h with
          | ending => rfl
          | operand hw' => exact absurd (hw.symm.trans hw') (by simp)
          | stop => rfl
          | word _ hend => exact absurd rfl hend
          | apart hend => exact absurd rfl hend
        · rintro rfl
          exact .ending
      · exact absurd h (by simp)
    · rename_i hw
      rw [line_operand hw]
      split at h
      · rename_i hstop
        rw [if_pos hstop]
      · rename_i hskip
        rw [if_neg hskip]
        exact seek_none h

theorem seek_some : ∀ {ws : List (List α)} {cur : Cursor α}, seek R cur ws = some cur' →
    cur'.chars ≠ [] ∧ (Line R ws us ↔ Remains R cur'.chars cur'.todo us)
  | w :: ws, cur, h => by
    rw [seek] at h
    split at h
    · rename_i cs hw
      split at h
      · exact absurd h (by simp)
      · rename_i hend
        cases h
        exact ⟨(options_eq_some.mp hw).2, line_options hw hend⟩
    · rename_i hw
      split at h
      · exact absurd h (by simp)
      · rename_i hskip
        rw [line_operand hw, if_neg hskip]
        exact seek_some h

/-- What is found is the first of the options that remain. -/
theorem take_spec : Remains R (c :: cs) cur.todo us ↔ ∃ u us', us = u :: us' ∧ (take R c cs cur).1 = .use u ∧
    Remains R (take R c cs cur).2.chars (take R c cs cur).2.todo us' := by
  have hpast : cur.past.chars = [] ∧ cur.past.todo = cur.todo := ⟨advance_chars, advance_todo⟩
  cases hc : R.hasArg c with
  | none =>
    simp only [take, hc]
    exact iff_of_false (remains_unknown hc) (by simp)
  | some a =>
    cases a with
    | no => simp only [take, hc, exists_cons_iff, advance_chars, advance_todo, remains_no hc]
    | optional => simp only [take, hc, exists_cons_iff, hpast, remains_nil, remains_optional hc]
    | required =>
      by_cases hcs : cs = []
      · subst hcs
        rw [remains_apart hc]
        cases htodo : cur.todo with
        | nil =>
          simp only [take, hc, htodo]
          simp
        | cons arg rest =>
          simp only [take, hc, htodo, ne_eq, not_true_eq_false, if_false, exists_cons_iff, remains_nil]
          constructor
          · rintro ⟨_, _, us', hws, rfl, h⟩
            cases hws
            exact ⟨us', rfl, h⟩
          · rintro ⟨us', rfl, h⟩
            exact ⟨arg, rest, us', rfl, rfl, h⟩
      · simp only [take, hc, ne_eq, hcs, not_false_eq_true, if_true, exists_cons_iff, hpast, remains_nil,
          remains_joined hc hcs]

/-- So it is with a call, which finds nothing only where no options remain. -/
theorem next_spec : Remains R cur.chars cur.todo us ↔ (next R cur = none ∧ us = []) ∨
    ∃ u us' cur', us = u :: us' ∧ next R cur = some (.use u, cur') ∧ Remains R cur'.chars cur'.todo us' := by
  have hread {c : α} {cs : List α} {cur : Cursor α} : Remains R (c :: cs) cur.todo us ↔
      ∃ u us' cur', us = u :: us' ∧ take R c cs cur = (.use u, cur') ∧
        Remains R cur'.chars cur'.todo us' := by
    rw [take_spec]
    refine exists_congr fun u => exists_congr fun us' => ⟨?_, ?_⟩
    · rintro ⟨rfl, hu, h⟩
      exact ⟨_, rfl, Prod.ext hu rfl, h⟩
    · rintro ⟨cur', rfl, htake, h⟩
      rw [htake]
      exact ⟨rfl, rfl, h⟩
  cases hchars : cur.chars with
  | cons c cs => simp [next, hchars, hread]
  | nil =>
    rw [remains_nil]
    cases hseek : seek R cur cur.todo with
    | none => simp [next, hchars, hseek, seek_none hseek]
    | some cur₁ =>
      obtain ⟨hne, hline⟩ : cur₁.chars ≠ [] ∧ (Line R cur.todo us ↔ Remains R cur₁.chars cur₁.todo us) :=
        seek_some hseek
      obtain ⟨c, cs, hchars₁⟩ := List.exists_cons_of_ne_nil hne
      rw [hline, hchars₁]
      simp [next, hchars, hseek, hchars₁, hread]

/-! ## All calls -/

/-- The options of a line are what is found in it. -/
theorem finds_iff : Finds R cur (us.map .use) ↔ Remains R cur.chars cur.todo us := by
  induction us generalizing cur with
  | nil =>
    rw [next_spec]
    constructor
    · rintro ⟨h⟩
      exact .inl ⟨h, rfl⟩
    · rintro (⟨h, -⟩ | ⟨_, _, _, h, -⟩)
      · exact .done h
      · exact absurd h (by simp)
  | cons u us ih =>
    rw [next_spec]
    constructor
    · rintro (_ | ⟨h, hrest⟩)
      exact .inr ⟨u, us, _, rfl, h, ih.mp hrest⟩
    · rintro (⟨-, h⟩ | ⟨_, _, cur', hus, h, hrest⟩)
      · exact absurd h (by simp)
      · cases hus
        exact .call h (ih.mpr hrest)

/-- A line of words gives these options and nothing else if and only if it is written by the rules. -/
theorem finds_line {ws : List (List α)} (program : List α) : Finds R (start program ws) (us.map .use) ↔ Line R ws us :=
  finds_iff.trans remains_nil

/-! ## How many calls -/

/-- What is still to be read. -/
def Cursor.size (cur : Cursor α) : ℕ := cur.chars.length + (cur.todo.map fun w => w.length + 1).sum

omit [DecidableEq α] in
theorem take_size : (take R c cs cur).2.size ≤ cs.length + (cur.todo.map fun w => w.length + 1).sum := by
  have hadvance (cs : List α) : (cur.advance cs).size =
      cs.length + (cur.todo.map fun w => w.length + 1).sum := by
    rw [Cursor.size, advance_chars, advance_todo]
  have hpast : cur.past.size ≤ cs.length + (cur.todo.map fun w => w.length + 1).sum := by
    rw [Cursor.past, hadvance]
    simp
  rw [take]
  split
  · exact Nat.le_of_eq (hadvance cs)
  · exact Nat.le_of_eq (hadvance cs)
  · exact hpast
  · split
    · exact hpast
    · split
      · exact hpast
      · rename_i htodo
        dsimp only [Cursor.size]
        rw [htodo, List.map_cons, List.sum_cons, List.length_nil]
        omega

theorem seek_size : ∀ {ws : List (List α)} {cur : Cursor α}, seek R cur ws = some cur' →
    cur'.size ≤ (ws.map fun w => w.length + 1).sum
  | w :: ws, cur, h => by
    rw [seek] at h
    rw [List.map_cons, List.sum_cons]
    split at h
    · rename_i cs hw
      obtain ⟨rfl, -⟩ := options_eq_some.mp hw
      split at h
      · exact absurd h (by simp)
      · cases h
        dsimp only [Cursor.size]
        rw [List.length_cons]
        omega
    · split at h
      · exact absurd h (by simp)
      · exact Nat.le_trans (seek_size h) (Nat.le_add_left _ _)

theorem next_size {f : Found α} (h : next R cur = some (f, cur')) : cur'.size < cur.size := by
  have hread {c : α} {cs : List α} {cur : Cursor α} (hchars : cur.chars = c :: cs)
      (htake : take R c cs cur = (f, cur')) : cur'.size < cur.size := by
    have hsize := @take_size _ R cur c cs
    rw [htake] at hsize
    rw [show cur.size = cur.chars.length + _ from rfl, hchars, List.length_cons]
    dsimp only at hsize
    omega
  rw [next] at h
  split at h
  · rename_i hchars
    exact hread hchars (Option.some.inj h)
  · rename_i hchars
    obtain ⟨cur₁, hseek, h⟩ := Option.bind_eq_some_iff.mp h
    have hsize := seek_size hseek
    split at h
    · rename_i hchars₁
      exact Nat.lt_of_lt_of_le (hread hchars₁ (Option.some.inj h))
        (Nat.le_trans hsize (Nat.le_add_left _ _))
    · exact absurd h (by simp)

theorem finds_length {fs : List (Found α)} (h : Finds R cur fs) : fs.length ≤ cur.size := by
  induction h with
  | done => exact Nat.zero_le _
  | call h _ ih => exact Nat.lt_of_le_of_lt ih (next_size h)

end Calls

end Getopt
