import Csptp.Buffer
import Csptp.Runs
import Mathlib.Data.Option.Basic
import Mathlib.Logic.Function.Basic

/-! # Buffers in one memory (`buf.c`)

The blocks of all buffers lie in one memory, where a call writes through pointers. Each buffer behaves as if
it had a memory for itself: a run of calls on any number of buffers is one of buffers that are values. -/
namespace Csptp
open Octets
set_option autoImplicit false

/-! ## Buffers as values -/

namespace Buf

/-- `_copy` -/
def copy (b other : Buf) : Bool × Buf :=
  if h : b.size < other.len then (false, b)
  else (true, { b with mem := blit b.mem 0 other.data, len := other.len, len_le := not_lt.mp h })

/-- `_spawn`, when there is memory, which holds these octets. -/
def spawn (b : Buf) (contents : Mem) : Option Buf :=
  if b.size = 0 then none else some { b with mem := blit contents 0 b.data }

/-- `_resize`. A buffer never shrinks. -/
def resize (b : Buf) (newSize : ℕ) (hsize : newSize < 2 ^ 64) (memory : Bool) (contents : Mem) : Bool × Buf :=
  if hlow : newSize < b.size then (false, b)
  else if newSize = b.size then (true, b)
  else if memory = false then (false, b)
  else (true,
    { mem := blit contents 0 (region b.mem 0 b.size)
      size := newSize
      len := b.len
      len_le := le_trans b.len_le (not_lt.mp hlow)
      size_lt := hsize })

end Buf

/-! ## Buffers in memory -/

/-- `struct buffer_t`, with the pointer to its block. -/
structure BufObj where
  addr : ℕ
  size : ℕ
  len : ℕ

namespace BufObj

/-- `buffer_alloc`, with the block that `malloc` gives and whether there is memory for the object. -/
def alloc (size : ℕ) (malloc : Option ℕ) (memory : Bool) : Option BufObj :=
  if size = 0 then none else malloc.bind fun m => if memory then some ⟨m, size, 0⟩ else none

def setLen (o : BufObj) (len : ℕ) : Bool × BufObj :=
  if len > o.size then (false, o) else (true, { o with len := len })

def copy (o other : BufObj) (mem : Mem) : Bool × Mem × BufObj :=
  if o.size < other.len then (false, mem, o)
  else (true, blit mem o.addr (region mem other.addr other.len), { o with len := other.len })

def spawn (o : BufObj) (malloc : Option ℕ) (memory : Bool) (mem : Mem) : Option (Mem × BufObj) :=
  if o.size = 0 then none
  else if o.len > o.size then none
  else malloc.bind fun m =>
    if memory then some (blit mem m (region mem o.addr o.len), ⟨m, o.size, o.len⟩) else none

/-- `realloc` gives a block with the octets of the old one in front. -/
def resize (o : BufObj) (newSize : ℕ) (realloc : Option ℕ) (mem : Mem) : Bool × Mem × BufObj :=
  if newSize < o.size then (false, mem, o)
  else if newSize = o.size then (true, mem, o)
  else match realloc with
  | none => (false, mem, o)
  | some m => (true, blit mem m (region mem o.addr o.size), ⟨m, newSize, o.len⟩)

end BufObj

/-- A call on the buffers of a program, with what the system answers. `write` is what code outside of `buf.c`
does through the pointer of `_getBuf`. -/
inductive BufCall (ι : Type)
  | alloc (i : ι) (size : ℕ) (hsize : size < 2 ^ 64) (malloc : Option ℕ) (memory : Bool)
  | free (i : ι)
  | setLen (i : ι) (len : ℕ)
  | write (i : ι) (offset : ℕ) (octs : List Octet)
  | copy (i other : ι)
  | spawn (i k : ι) (malloc : Option ℕ) (memory : Bool)
  | resize (i : ι) (newSize : ℕ) (hsize : newSize < 2 ^ 64) (realloc : Option ℕ)

/-- The memory and the objects in it. -/
structure BufHeap (ι : Type) where
  mem : Mem
  objs : ι → Option BufObj

section Calls
variable {ι : Type} [DecidableEq ι]

/-- What a call returns, true for an object, and the memory after it. -/
def BufHeap.apply (h : BufHeap ι) : BufCall ι → Bool × BufHeap ι
  | .alloc i size _ malloc memory =>
    match BufObj.alloc size malloc memory with
    | none => (false, h)
    | some o => (true, { h with objs := Function.update h.objs i (some o) })
  | .free i => (true, { h with objs := Function.update h.objs i none })
  | .setLen i len =>
    match h.objs i with
    | none => (false, h)
    | some o => ((o.setLen len).1, { h with objs := Function.update h.objs i (some (o.setLen len).2) })
  | .write i offset octs =>
    match h.objs i with
    | none => (false, h)
    | some o => (true, { h with mem := blit h.mem (o.addr + offset) octs })
  | .copy i other =>
    match h.objs i, h.objs other with
    | some o, some o' =>
      ((o.copy o' h.mem).1, ⟨(o.copy o' h.mem).2.1, Function.update h.objs i (some (o.copy o' h.mem).2.2)⟩)
    | _, _ => (false, h)
  | .spawn i k malloc memory =>
    match h.objs i with
    | none => (false, h)
    | some o =>
      match o.spawn malloc memory h.mem with
      | none => (false, h)
      | some (mem, o') => (true, ⟨mem, Function.update h.objs k (some o')⟩)
  | .resize i newSize _ realloc =>
    match h.objs i with
    | none => (false, h)
    | some o =>
      ((o.resize newSize realloc h.mem).1, ⟨(o.resize newSize realloc h.mem).2.1,
        Function.update h.objs i (some (o.resize newSize realloc h.mem).2.2)⟩)

/-- The same call on buffers that are values. `contents` is what a new block holds. -/
def applyApart (contents : Mem) (bs : ι → Option Buf) : BufCall ι → Bool × (ι → Option Buf)
  | .alloc i size hsize malloc memory =>
    match if malloc.isSome && memory then bufferAlloc size contents hsize else none with
    | none => (false, bs)
    | some b => (true, Function.update bs i (some b))
  | .free i => (true, Function.update bs i none)
  | .setLen i len =>
    match bs i with
    | none => (false, bs)
    | some b => ((b.setLen len).1, Function.update bs i (some (b.setLen len).2))
  | .write i offset octs =>
    match bs i with
    | none => (false, bs)
    | some b => (true, Function.update bs i (some (b.withMem (blit b.mem offset octs))))
  | .copy i other =>
    match bs i, bs other with
    | some b, some b' => ((b.copy b').1, Function.update bs i (some (b.copy b').2))
    | _, _ => (false, bs)
  | .spawn i k malloc memory =>
    match bs i with
    | none => (false, bs)
    | some b =>
      match if malloc.isSome && memory then b.spawn contents else none with
      | none => (false, bs)
      | some b' => (true, Function.update bs k (some b'))
  | .resize i newSize hsize realloc =>
    match bs i with
    | none => (false, bs)
    | some b =>
      ((b.resize newSize hsize realloc.isSome contents).1,
        Function.update bs i (some (b.resize newSize hsize realloc.isSome contents).2))

end Calls

/-! ## A block and its value -/

/-- The block is apart from these octets. -/
def BufObj.Off (o : BufObj) (addr size : ℕ) : Prop := addr + size ≤ o.addr ∨ o.addr + o.size ≤ addr

/-- The value of a buffer. -/
structure Views (mem : Mem) (o : BufObj) (b : Buf) : Prop where
  size : b.size = o.size
  len : b.len = o.len
  octets : ∀ k < o.size, b.mem k = mem (o.addr + k)

namespace Views
variable {mem : Mem} {o : BufObj} {b : Buf}

/-- What is written elsewhere does not matter. -/
theorem frame (h : Views mem o b) {addr : ℕ} {octs : List Octet} (hoff : o.Off addr octs.length) :
    Views (blit mem addr octs) o b := by
  refine ⟨h.size, h.len, fun k hk => ?_⟩
  rw [BufObj.Off] at hoff
  rw [blit_of_not_mem (by omega), h.octets k hk]

/-- What is written into the block is written into the value. -/
theorem write (h : Views mem o b) {offset : ℕ} {octs : List Octet} (hin : offset + octs.length ≤ o.size) :
    Views (blit mem (o.addr + offset) octs) o (b.withMem (blit b.mem offset octs)) := by
  have hend : o.addr + offset + octs.length ≤ o.addr + o.size := by omega
  refine ⟨h.size, h.len, fun k hk => ?_⟩
  rw [Buf.withMem_mem]
  by_cases hk' : offset ≤ k ∧ k < offset + octs.length
  · rw [blit_of_mem hk'.1 hk'.2, blit_of_mem (by omega) (by omega), Nat.add_sub_add_left]
  · rw [blit_of_not_mem (by omega), blit_of_not_mem (by omega), h.octets k hk]

theorem region_eq (h : Views mem o b) {n : ℕ} (hn : n ≤ o.size) : region b.mem 0 n = region mem o.addr n := by
  apply List.ext_getElem (by simp)
  intro k hk _
  rw [region_length] at hk
  rw [region_getElem, region_getElem, Nat.zero_add, h.octets k (by omega)]

theorem len_le (h : Views mem o b) : o.len ≤ o.size := by
  rw [← h.len, ← h.size]
  exact b.len_le

theorem data (h : Views mem o b) : b.data = region mem o.addr o.len := by
  rw [Buf.data, h.len, h.region_eq h.len_le]

end Views

/-! ## The calls on values -/

section Values
variable {mem : Mem} {o o' : BufObj} {b b' : Buf}

/-- What a new block holds. -/
def contentsAt (mem : Mem) (addr : ℕ) : Mem := fun k => mem (addr + k)

theorem views_alloc {size : ℕ} (hsize : size < 2 ^ 64) (addr : ℕ) :
    Views mem ⟨addr, size, 0⟩ ⟨contentsAt mem addr, size, 0, Nat.zero_le _, hsize⟩ :=
  ⟨rfl, rfl, fun _ _ => rfl⟩

theorem views_setLen (h : Views mem o b) (len : ℕ) :
    (o.setLen len).1 = (b.setLen len).1 ∧ Views mem (o.setLen len).2 (b.setLen len).2 := by
  have hsize := h.size
  rw [BufObj.setLen, Buf.setLen]
  by_cases hlen : len ≤ b.size
  · rw [if_neg (by omega), dif_pos hlen]
    exact ⟨rfl, h.size, rfl, h.octets⟩
  · rw [if_pos (by omega), dif_neg hlen]
    exact ⟨rfl, h⟩

theorem views_copy (h : Views mem o b) (h' : Views mem o' b') :
    (o.copy o' mem).1 = (b.copy b').1 ∧ Views (o.copy o' mem).2.1 (o.copy o' mem).2.2 (b.copy b').2 := by
  have hsize := h.size
  have hlen' := h'.len
  rw [BufObj.copy, Buf.copy]
  by_cases hlen : b.size < b'.len
  · rw [if_pos (by omega), dif_pos hlen]
    exact ⟨rfl, h⟩
  -- The other buffer is read before anything is written.
  · rw [if_neg (by omega), dif_neg hlen, ← h'.data]
    have hin : 0 + b'.data.length ≤ o.size := by
      rw [Buf.data_length]
      omega
    exact ⟨rfl, h.size, h'.len, (h.write hin).octets⟩

theorem views_spawn (h : Views mem o b) (addr : ℕ) (hzero : o.size ≠ 0) :
    ∃ b', b.spawn (contentsAt mem addr) = some b' ∧
      Views (blit mem addr (region mem o.addr o.len)) ⟨addr, o.size, o.len⟩ b' := by
  rw [Buf.spawn, if_neg (h.size ▸ hzero)]
  refine ⟨_, rfl, h.size, h.len, ?_⟩
  have hnew : Views mem ⟨addr, o.size, o.len⟩ { b with mem := contentsAt mem addr } := ⟨h.size, h.len, fun _ _ => rfl⟩
  have hin : 0 + (region mem o.addr o.len).length ≤ o.size := by
    rw [region_length, Nat.zero_add]
    exact h.len_le
  rw [h.data]
  exact (hnew.write hin).octets

theorem views_resize (h : Views mem o b) {newSize : ℕ} (hsize : newSize < 2 ^ 64) (addr : ℕ)
    (hlow : ¬ newSize < o.size) :
    Views (blit mem addr (region mem o.addr o.size)) ⟨addr, newSize, o.len⟩
      ⟨blit (contentsAt mem addr) 0 (region b.mem 0 b.size), newSize, b.len,
        le_trans b.len_le (not_lt.mp (h.size ▸ hlow)), hsize⟩ := by
  refine ⟨rfl, h.len, ?_⟩
  have hnew : Views mem ⟨addr, newSize, o.len⟩ ⟨contentsAt mem addr, newSize, b.len,
      le_trans b.len_le (not_lt.mp (h.size ▸ hlow)), hsize⟩ := ⟨rfl, h.len, fun _ _ => rfl⟩
  have hin : 0 + (region mem o.addr o.size).length ≤ newSize := by
    rw [region_length, Nat.zero_add]
    exact not_lt.mp hlow
  dsimp only
  rw [h.size, h.region_eq le_rfl]
  exact (hnew.write hin).octets

end Values

/-! ## All buffers -/

section Shown
variable {ι : Type} [DecidableEq ι] {h : BufHeap ι} {bs : ι → Option Buf}

/-- The block is apart from the ones of the other buffers. -/
def BufHeap.RoomFor (h : BufHeap ι) (i : ι) (addr size : ℕ) : Prop :=
  ∀ j o, j ≠ i → h.objs j = some o → o.Off addr size

/-- The buffers in memory have these values, and their blocks are apart. -/
structure Shown (h : BufHeap ι) (bs : ι → Option Buf) : Prop where
  views : ∀ i, Option.Rel (Views h.mem) (h.objs i) (bs i)
  room : ∀ i o, h.objs i = some o → h.RoomFor i o.addr o.size

omit [DecidableEq ι] in
theorem Shown.cases (hs : Shown h bs) (i : ι) : (h.objs i = none ∧ bs i = none) ∨
    ∃ o b, h.objs i = some o ∧ bs i = some b ∧ Views h.mem o b := by
  have hrel := hs.views i
  cases hobj : h.objs i with
  | none =>
    cases hb : bs i with
    | none => exact .inl ⟨rfl, rfl⟩
    | some b =>
      rw [hobj, hb] at hrel
      cases hrel
  | some o =>
    cases hb : bs i with
    | none =>
      rw [hobj, hb] at hrel
      cases hrel
    | some b =>
      rw [hobj, hb] at hrel
      cases hrel with
      | some hview => exact .inr ⟨o, b, rfl, rfl, hview⟩

/-- A buffer gets a block that has room, into which something is written. -/
theorem Shown.put (hs : Shown h bs) {i : ι} {o : BufObj} {b : Buf} {addr : ℕ} {octs : List Octet}
    (hroom : h.RoomFor i o.addr o.size) (hin : o.addr ≤ addr ∧ addr + octs.length ≤ o.addr + o.size)
    (hview : Views (blit h.mem addr octs) o b) :
    Shown ⟨blit h.mem addr octs, Function.update h.objs i (some o)⟩ (Function.update bs i (some b)) := by
  refine ⟨fun j => ?_, fun j o' hj k o'' hk hk' => ?_⟩
  · by_cases hji : j = i
    · subst hji
      dsimp only
      rw [Function.update_self, Function.update_self]
      exact .some hview
    · dsimp only
      rw [Function.update_of_ne hji, Function.update_of_ne hji]
      rcases hs.cases j with ⟨hobj, hb⟩ | ⟨o', b', hobj, hb, hview'⟩
      · rw [hobj, hb]
        exact .none
      · rw [hobj, hb]
        have hoff := hroom j o' hji hobj
        rw [BufObj.Off] at hoff
        exact .some (hview'.frame (by rw [BufObj.Off]; omega))
  · dsimp only at hj hk'
    by_cases hji : j = i
    · rw [hji] at hj hk
      rw [Function.update_self] at hj
      cases hj
      rw [Function.update_of_ne hk] at hk'
      exact hroom k o'' hk hk'
    · rw [Function.update_of_ne hji] at hj
      by_cases hki : k = i
      · rw [hki, Function.update_self] at hk'
        cases hk'
        exact (hroom j o' hji hj).symm
      · rw [Function.update_of_ne hki] at hk'
        exact hs.room j o' hj k o'' hk hk'

/-- A buffer gets a block or a length, and nothing is written. -/
theorem Shown.set (hs : Shown h bs) {i : ι} {o : BufObj} {b : Buf} (hroom : h.RoomFor i o.addr o.size)
    (hview : Views h.mem o b) :
    Shown { h with objs := Function.update h.objs i (some o) } (Function.update bs i (some b)) := by
  have hput := @Shown.put _ _ _ _ hs i o b o.addr [] hroom ⟨le_rfl, Nat.le_add_right _ _⟩
  rw [blit_nil] at hput
  exact hput hview

theorem Shown.drop (hs : Shown h bs) (i : ι) :
    Shown { h with objs := Function.update h.objs i none } (Function.update bs i none) := by
  have hback {j : ι} {o : BufObj} (hj : Function.update h.objs i none j = some o) : h.objs j = some o := by
    by_cases hji : j = i
    · rw [hji, Function.update_self] at hj
      cases hj
    · rwa [Function.update_of_ne hji] at hj
  refine ⟨fun j => ?_, fun j o hj k o' hk hk' => hs.room j o (hback hj) k o' hk (hback hk')⟩
  by_cases hji : j = i
  · subst hji
    dsimp only
    rw [Function.update_self, Function.update_self]
    exact .none
  · dsimp only
    rw [Function.update_of_ne hji, Function.update_of_ne hji]
    exact hs.views j

/-- A new block has room among the others, an object has one place, and code writes into the block. -/
def BufCall.Allowed (h : BufHeap ι) : BufCall ι → Prop
  | .alloc i size _ malloc _ => h.objs i = none ∧ ∀ m ∈ malloc, h.RoomFor i m size
  | .free _ => True
  | .setLen _ _ => True
  | .write i offset octs => ∀ o ∈ h.objs i, offset + octs.length ≤ o.size
  | .copy _ _ => True
  | .spawn i k malloc _ => h.objs k = none ∧ ∀ o ∈ h.objs i, ∀ m ∈ malloc, h.RoomFor k m o.size
  | .resize i newSize _ realloc => ∀ m ∈ realloc, h.RoomFor i m newSize

/-- The call returns the same on values, and leaves the values of what it leaves in memory. -/
def Mirrors (h : BufHeap ι) (bs : ι → Option Buf) (call : BufCall ι) : Prop :=
  ∃ contents, (applyApart contents bs call).1 = (h.apply call).1 ∧
    Shown (h.apply call).2 (applyApart contents bs call).2

theorem mirrors_alloc (hs : Shown h bs) {i : ι} {size : ℕ} (hsize : size < 2 ^ 64) {malloc : Option ℕ}
    (memory : Bool) (hroom : ∀ m ∈ malloc, h.RoomFor i m size) :
    Mirrors h bs (.alloc i size hsize malloc memory) := by
  refine ⟨contentsAt h.mem (malloc.getD 0), ?_⟩
  rw [BufHeap.apply, applyApart, BufObj.alloc, bufferAlloc]
  by_cases hzero : size = 0
  · rw [if_pos hzero, if_pos hzero, ite_self]
    exact ⟨rfl, hs⟩
  · rw [if_neg hzero, if_neg hzero]
    cases malloc with
    | none => exact ⟨rfl, hs⟩
    | some m =>
      cases memory with
      | false => exact ⟨rfl, hs⟩
      | true => exact ⟨rfl, hs.set (hroom m rfl) (views_alloc hsize m)⟩

theorem mirrors_setLen (hs : Shown h bs) (i : ι) (len : ℕ) : Mirrors h bs (.setLen i len) := by
  refine ⟨h.mem, ?_⟩
  rw [BufHeap.apply, applyApart]
  rcases hs.cases i with ⟨hobj, hb⟩ | ⟨o, b, hobj, hb, hview⟩
  · rw [hobj, hb]
    exact ⟨rfl, hs⟩
  · rw [hobj, hb]
    obtain ⟨hok, hview'⟩ := views_setLen hview len
    have hsame : (o.setLen len).2.addr = o.addr ∧ (o.setLen len).2.size = o.size := by
      rw [BufObj.setLen]
      split <;> exact ⟨rfl, rfl⟩
    refine ⟨hok.symm, hs.set ?_ hview'⟩
    rw [hsame.1, hsame.2]
    exact hs.room i o hobj

theorem mirrors_write (hs : Shown h bs) {i : ι} {offset : ℕ} {octs : List Octet}
    (hin : ∀ o ∈ h.objs i, offset + octs.length ≤ o.size) : Mirrors h bs (.write i offset octs) := by
  refine ⟨h.mem, ?_⟩
  rw [BufHeap.apply, applyApart]
  rcases hs.cases i with ⟨hobj, hb⟩ | ⟨o, b, hobj, hb, hview⟩
  · rw [hobj, hb]
    exact ⟨rfl, hs⟩
  · rw [hobj, hb]
    have hin := hin o hobj
    have hput := hs.put (hs.room i o hobj) ⟨Nat.le_add_right _ offset, by omega⟩ (hview.write hin)
    rw [← hobj, Function.update_eq_self] at hput
    exact ⟨rfl, hput⟩

theorem mirrors_copy (hs : Shown h bs) (i other : ι) : Mirrors h bs (.copy i other) := by
  refine ⟨h.mem, ?_⟩
  rw [BufHeap.apply, applyApart]
  rcases hs.cases i with ⟨hobj, hb⟩ | ⟨o, b, hobj, hb, hview⟩
  · rw [hobj, hb]
    exact ⟨rfl, hs⟩
  rcases hs.cases other with ⟨hobj', hb'⟩ | ⟨o', b', hobj', hb', hview'⟩
  · rw [hobj, hb, hobj', hb']
    exact ⟨rfl, hs⟩
  · rw [hobj, hb, hobj', hb']
    obtain ⟨hok, hcopy⟩ := views_copy hview hview'
    refine ⟨hok.symm, ?_⟩
    dsimp only
    rw [BufObj.copy] at hcopy ⊢
    by_cases hlen : o.size < o'.len
    · rw [if_pos hlen] at hcopy ⊢
      exact hs.set (hs.room i o hobj) hcopy
    · rw [if_neg hlen] at hcopy ⊢
      refine hs.put (o := { o with len := o'.len }) (hs.room i o hobj) ⟨le_rfl, ?_⟩ hcopy
      rw [region_length]
      exact Nat.add_le_add_left (not_lt.mp hlen) _

theorem mirrors_spawn (hs : Shown h bs) {i k : ι} {malloc : Option ℕ} (memory : Bool)
    (hroom : ∀ o ∈ h.objs i, ∀ m ∈ malloc, h.RoomFor k m o.size) : Mirrors h bs (.spawn i k malloc memory) := by
  refine ⟨contentsAt h.mem (malloc.getD 0), ?_⟩
  rw [BufHeap.apply, applyApart]
  rcases hs.cases i with ⟨hobj, hb⟩ | ⟨o, b, hobj, hb, hview⟩
  · rw [hobj, hb]
    exact ⟨rfl, hs⟩
  · rw [hobj, hb]
    dsimp only
    unfold BufObj.spawn
    rw [if_neg (not_lt.mpr hview.len_le)]
    by_cases hzero : o.size = 0
    · rw [if_pos hzero, Buf.spawn, if_pos (hview.size.trans hzero), ite_self]
      exact ⟨rfl, hs⟩
    rw [if_neg hzero]
    cases malloc with
    | none => exact ⟨rfl, hs⟩
    | some m =>
      cases memory with
      | false => exact ⟨rfl, hs⟩
      | true =>
        obtain ⟨b', hspawn, hview'⟩ := views_spawn hview m hzero
        have hspawn' : b.spawn (contentsAt h.mem ((some m).getD 0)) = some b' := hspawn
        rw [hspawn']
        refine ⟨rfl, hs.put (o := ⟨m, o.size, o.len⟩) (hroom o hobj m rfl) ⟨le_rfl, ?_⟩ hview'⟩
        rw [region_length]
        exact Nat.add_le_add_left hview.len_le _

theorem mirrors_resize (hs : Shown h bs) {i : ι} {newSize : ℕ} (hsize : newSize < 2 ^ 64) {realloc : Option ℕ}
    (hroom : ∀ m ∈ realloc, h.RoomFor i m newSize) : Mirrors h bs (.resize i newSize hsize realloc) := by
  -- The value goes on with what the new block held behind the octets that move.
  refine ⟨contentsAt h.mem (realloc.getD 0), ?_⟩
  rw [BufHeap.apply, applyApart]
  rcases hs.cases i with ⟨hobj, hb⟩ | ⟨o, b, hobj, hb, hview⟩
  · rw [hobj, hb]
    exact ⟨rfl, hs⟩
  · rw [hobj, hb]
    dsimp only
    unfold BufObj.resize Buf.resize
    have hsame := hview.size
    have hstay := hs.set (hs.room i o hobj) hview
    by_cases hlow : newSize < o.size
    · rw [if_pos hlow, dif_pos (by omega)]
      exact ⟨rfl, hstay⟩
    by_cases heq : newSize = o.size
    · rw [if_neg hlow, if_pos heq, dif_neg (by omega), if_pos (by omega)]
      exact ⟨rfl, hstay⟩
    rw [if_neg hlow, if_neg heq, dif_neg (by omega), if_neg (by omega)]
    cases realloc with
    | none => exact ⟨rfl, hstay⟩
    | some m =>
      refine ⟨rfl, hs.put (o := ⟨m, newSize, o.len⟩) (hroom m rfl) ⟨le_rfl, ?_⟩
        (views_resize hview hsize m hlow)⟩
      rw [region_length]
      exact Nat.add_le_add_left (not_lt.mp hlow) _

theorem mirrors_call (hs : Shown h bs) {call : BufCall ι} (hallowed : call.Allowed h) : Mirrors h bs call := by
  cases call with
  | alloc i size hsize malloc memory => exact mirrors_alloc hs hsize memory hallowed.2
  | free i => exact ⟨h.mem, rfl, hs.drop i⟩
  | setLen i len => exact mirrors_setLen hs i len
  | write i offset octs => exact mirrors_write hs hallowed
  | copy i other => exact mirrors_copy hs i other
  | spawn i k malloc memory => exact mirrors_spawn hs memory hallowed.2
  | resize i newSize hsize realloc => exact mirrors_resize hs hsize hallowed

end Shown

/-! ## Runs -/

section Runs
variable {ι : Type} [DecidableEq ι]

/-- A call, what it returned, and the size and the data of every buffer after it. -/
structure BufEvent (ι : Type) where
  call : BufCall ι
  ok : Bool
  seen : ι → Option (ℕ × List Octet)

def BufHeap.seen (h : BufHeap ι) (i : ι) : Option (ℕ × List Octet) :=
  (h.objs i).map fun o => (o.size, region h.mem o.addr o.len)

def seenApart (bs : ι → Option Buf) (i : ι) : Option (ℕ × List Octet) := (bs i).map fun b => (b.size, b.data)

def HeapStep (_ : List (BufEvent ι)) (h : BufHeap ι) (e : BufEvent ι) (h' : BufHeap ι) : Prop :=
  e.call.Allowed h ∧ h.apply e.call = (e.ok, h') ∧ e.seen = h'.seen

/-- The runs in one memory, from any memory without buffers. -/
def HeapRun : List (BufEvent ι) → BufHeap ι → Prop := Runs.Run (fun h => h.objs = fun _ => none) HeapStep

def ApartStep (_ : List (BufEvent ι)) (bs : ι → Option Buf) (e : BufEvent ι) (bs' : ι → Option Buf) : Prop :=
  ∃ contents, applyApart contents bs e.call = (e.ok, bs') ∧ e.seen = seenApart bs'

/-- The runs of buffers that are values. -/
def ApartRun : List (BufEvent ι) → (ι → Option Buf) → Prop := Runs.Run (fun bs => bs = fun _ => none) ApartStep

omit [DecidableEq ι] in
theorem Shown.seen {h : BufHeap ι} {bs : ι → Option Buf} (hs : Shown h bs) : h.seen = seenApart bs := by
  funext i
  rw [BufHeap.seen, seenApart]
  rcases hs.cases i with ⟨hobj, hb⟩ | ⟨o, b, hobj, hb, hview⟩
  · rw [hobj, hb]
    rfl
  · rw [hobj, hb, Option.map_some, Option.map_some, hview.size, hview.data]

/-- Every run of calls on any buffers in one memory is a run of buffers that are values: each call returns the
same, and every buffer has the same size and data after it. The blocks stay apart. -/
theorem buffers_apart {history : List (BufEvent ι)} {h : BufHeap ι} (hrun : HeapRun history h) :
    ∃ bs, ApartRun history bs ∧ Shown h bs := by
  induction hrun with
  | start hstart =>
    refine ⟨fun _ => none, .start rfl, fun i => ?_, fun i o hi => ?_⟩
    · rw [hstart]
      exact .none
    · rw [hstart] at hi
      cases hi
  | step _ hstep ih =>
    obtain ⟨bs, hapart, hs⟩ := ih
    obtain ⟨hallowed, happly, hseen⟩ := hstep
    obtain ⟨contents, hok, hs'⟩ := mirrors_call hs hallowed
    rw [happly] at hok hs'
    exact ⟨_, hapart.step ⟨contents, Prod.ext hok rfl, hseen.trans hs'.seen⟩, hs'⟩

def heapEvent (h : BufHeap ι) (call : BufCall ι) : BufEvent ι := ⟨call, (h.apply call).1, (h.apply call).2.seen⟩

theorem HeapRun.next {past : List (BufEvent ι)} {h : BufHeap ι} (hrun : HeapRun past h) (call : BufCall ι)
    (hallowed : call.Allowed h) : HeapRun (past ++ [heapEvent h call]) (h.apply call).2 :=
  Runs.Run.step hrun ⟨hallowed, rfl, rfl⟩

end Runs

/-- Two octets are written and copied into a second buffer, and the first one is written over. -/
def sampleBufCalls : List (BufCall Bool) :=
  [.alloc false 4 (by decide) (some 100) true, .write false 0 [1, 2], .setLen false 2,
    .spawn false true (some 200) true, .write false 0 [9]]

theorem buffers_apart_sample : ∃ (history : List (BufEvent Bool)) (h : BufHeap Bool) (bs : Bool → Option Buf),
    history.map BufEvent.call = sampleBufCalls ∧ HeapRun history h ∧ ApartRun history bs ∧
      seenApart bs true = some (4, [1, 2]) ∧ seenApart bs false = some (4, [9, 2]) := by
  have hstart : HeapRun [] (⟨fun _ => 0xaa, fun _ => none⟩ : BufHeap Bool) := .start rfl
  have halloc := hstart.next (.alloc false 4 (by decide) (some 100) true)
    ⟨rfl, fun m _ j o _ ho => absurd ho (by simp)⟩
  have hwrite := halloc.next (.write false 0 [1, 2]) fun o ho => by
    cases ho
    decide
  have hlen := hwrite.next (.setLen false 2) trivial
  have hspawn := hlen.next (.spawn false true (some 200) true) ⟨rfl, fun o ho m hm j o' hj ho' => by
    cases ho
    cases hm
    cases j with
    | true => exact absurd rfl hj
    | false =>
      cases ho'
      exact .inr (by decide)⟩
  have hover := hspawn.next (.write false 0 [9]) fun o ho => by
    cases ho
    decide
  obtain ⟨bs, hapart, hs⟩ := buffers_apart hover
  refine ⟨_, _, bs, rfl, hover, hapart, ?_, ?_⟩
  · rw [← hs.seen]
    decide +kernel
  · rw [← hs.seen]
    decide +kernel

end Csptp
