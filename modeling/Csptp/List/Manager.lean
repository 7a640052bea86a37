import Csptp.Linked
import Mathlib.Data.Int.Notation

/-! # The manager of sorted lists (`slist.c`)

Any number of lists share the nodes of one manager: a node that leaves a list goes to the free list and
from there to any list. `none` stands for a call that never returns: it waits for a mutex its own thread
holds, or it follows a pointer to a node that is not there. -/
namespace Csptp
open Linked
set_option autoImplicit false

abbrev Ptr := ℕ

structure ListMgr (ι δ : Type) where
  heap : Heap Ptr δ
  /-- The `_head` of every list. -/
  lists : ι → Option Ptr
  freeList : Option Ptr
  count : ℕ
  freeCount : ℕ
  /-- A thread holds the mutex. -/
  mtx : Bool

namespace ListMgr
variable {ι δ γ : Type}

/-- The callbacks of a manager; `cleanup` and `release` may be null. What is called `release` gets the
node, not its data. -/
structure Callbacks (δ γ : Type) where
  cmp : δ → γ → ℤ
  set : δ → γ → δ
  cleanup : Option (δ → γ → ℤ)
  release : Option (Node Ptr δ → Bool → Node Ptr δ × Bool)

/-- `pslistmgr_alloc`, and lists whose heads are null. -/
def alloc : ListMgr ι δ where
  heap _ := none
  lists _ := none
  freeList := none
  count := 0
  freeCount := 0
  mtx := false

/-! ## Mutex and memory -/

/-- Nobody else holds the mutex while a call runs, so it is only not given to a thread that has it. -/
def mlock (s : ListMgr ι δ) : Option (ListMgr ι δ) :=
  if s.mtx then none else some { s with mtx := true }

def munlock (s : ListMgr ι δ) : Option (ListMgr ι δ) :=
  if s.mtx then some { s with mtx := false } else none

def setNxt (s : ListMgr ι δ) (node : Ptr) (nxt : Option Ptr) : Option (ListMgr ι δ) := do
  let cell ← s.heap node
  some { s with heap := Function.update s.heap node (some ⟨nxt, cell.data⟩) }

def callCmp (cb : Callbacks δ γ) (s : ListMgr ι δ) (node : Ptr) (cookie : γ) : Option ℤ := do
  let cell ← s.heap node
  some (cb.cmp cell.data cookie)

def callSet (cb : Callbacks δ γ) (s : ListMgr ι δ) (node : Ptr) (cookie : γ) :
    Option (ListMgr ι δ) := do
  let cell ← s.heap node
  some { s with heap := Function.update s.heap node (some ⟨cell.nxt, cb.set cell.data cookie⟩) }

/-- `fresh` is what `malloc` returns if it is called, and `blank` are the data of a node of zeros. -/
def getFreeNode (blank : δ) (s : ListMgr ι δ) (nxt fresh : Option Ptr) :
    Option (Option Ptr × ListMgr ι δ) :=
  match s.freeList with
  | none =>
    match fresh with
    | none => some (none, s)
    | some ret => do
      let s := { s with heap := Function.update s.heap ret (some ⟨none, blank⟩) }
      let s ← s.setNxt ret nxt
      some (some ret, { s with count := s.count + 1 })
  | some ret => do
    let cell ← s.heap ret
    let s := { s with freeCount := s.freeCount - 1, freeList := cell.nxt }
    let s ← s.setNxt ret nxt
    some (some ret, { s with count := s.count + 1 })

def freeNode (cb : Callbacks δ γ) (s : ListMgr ι δ) (node : Ptr) (useFreeList : Bool) :
    Option (ListMgr ι δ) := do
  let cell ← s.heap node
  let (cell, useFreeList) :=
    match cb.release with
    | none => (cell, useFreeList)
    | some release => release cell useFreeList
  if useFreeList then
    some { s with
      heap := Function.update s.heap node (some ⟨s.freeList, cell.data⟩)
      freeList := some node
      freeCount := s.freeCount + 1
      count := s.count - 1 }
  else
    some { s with
      heap := Function.update s.heap node none
      count := s.count - 1 }

/-! ## Update -/

section Update
variable (cb : Callbacks δ γ) (blank : δ)

/-- How every branch of `updateNode` that adds a node ends: `link` stores the address of the node. -/
def addNode (s : ListMgr ι δ) (nxt : Option Ptr) (cookie : γ) (fresh : Option Ptr)
    (link : Ptr → ListMgr ι δ → Option (ListMgr ι δ)) : Option (Bool × ListMgr ι δ) := do
  let (node, s) ← s.getFreeNode blank nxt fresh
  match node with
  | none => do
    let s ← s.munlock
    some (false, s)
  | some tmp => do
    let s ← s.callSet cb tmp cookie
    let s ← link tmp s
    let s ← s.munlock
    some (true, s)

def updateLoop (cookie : γ) (fresh : Option Ptr) :
    ℕ → Option Ptr → Ptr → ℤ → ListMgr ι δ → Option (Bool × ListMgr ι δ)
  | 0, _, _, _, _ => none
  | n + 1, prv, cur, c, s =>
    if c = 0 then do
      -- Update node
      let s ← s.callSet cb cur cookie
      let s ← s.munlock
      some (true, s)
    else if 0 < c then do
      let cell ← s.heap cur
      match cell.nxt with
      | none =>
        -- New tail
        s.addNode cb blank none cookie fresh fun tmp s => s.setNxt cur (some tmp)
      | some nxt => do
        let c ← s.callCmp cb nxt cookie
        updateLoop cookie fresh n (some cur) nxt c s
    else
      -- In middle
      s.addNode cb blank (some cur) cookie fresh fun tmp s => do
        let prv ← prv
        s.setNxt prv (some tmp)

variable [DecidableEq ι]

def setHead (list : ι) (node : Ptr) (s : ListMgr ι δ) : Option (ListMgr ι δ) :=
  some { s with lists := Function.update s.lists list (some node) }

def updateNode (s : ListMgr ι δ) (list : ι) (cookie : γ) (fresh : Option Ptr) :
    Option (Bool × ListMgr ι δ) := do
  let s ← s.mlock
  match s.lists list with
  | none =>
    -- First node
    s.addNode cb blank none cookie fresh (setHead list)
  | some cur => do
    let c ← s.callCmp cb cur cookie
    if c < 0 then
      -- New head
      s.addNode cb blank (some cur) cookie fresh (setHead list)
    else
      updateLoop cb blank cookie fresh s.count none cur c s

end Update

/-! ## Fetch -/

def fetchLoop (cb : Callbacks δ γ) (cookie : γ) (s : ListMgr ι δ) :
    ℕ → Option Ptr → Option (Option Ptr)
  | 0, _ => none
  | _ + 1, none => some none
  | n + 1, some cur => do
    let cell ← s.heap cur
    let c := cb.cmp cell.data cookie
    if c = 0 then some (some cur)
    else if c < 0 then some none
    else fetchLoop cb cookie s n cell.nxt

def fetchNode (cb : Callbacks δ γ) (s : ListMgr ι δ) (list : ι) (cookie : γ) :
    Option (Option Ptr × ListMgr ι δ) := do
  let s ← s.mlock
  let node ← fetchLoop cb cookie s (s.count + 1) (s.lists list)
  let s ← s.munlock
  some (node, s)

/-! ## Clean up -/

/-- Where a thread is in `cleanUpNodes` when it does not hold the mutex, with the nodes removed so far. -/
inductive Cleaner where
  | head (cnt : ℕ)
  | tail (prv : Ptr) (cnt : ℕ)
  | done (cnt : ℕ)
deriving DecidableEq

def Cleaner.cnt : Cleaner → ℕ
  | .head cnt => cnt
  | .tail _ cnt => cnt
  | .done cnt => cnt

section CleanUp
variable [DecidableEq ι] (cb : Callbacks δ γ) (cleanup : δ → γ → ℤ) (list : ι) (cookie : γ)

/-- One pass of a loop of `cleanUpNodes`, from `MLOCK` to `MULOCK`. -/
def cleanSection (s : ListMgr ι δ) : Cleaner → Option (Cleaner × ListMgr ι δ)
  | .head cnt => do
    let s ← s.mlock
    match s.lists list with
    | none => do
      let s ← s.munlock
      some (.done cnt, s)
    | some cur => do
      let cell ← s.heap cur
      if cleanup cell.data cookie ≠ 0 then do
        let s := { s with lists := Function.update s.lists list cell.nxt }
        let s ← s.freeNode cb cur true
        let s ← s.munlock
        some (.head (cnt + 1), s)
      else do
        let s ← s.munlock
        some (.tail cur cnt, s)
  | .tail prv cnt => do
    let s ← s.mlock
    let before ← s.heap prv
    match before.nxt with
    | none => do
      let s ← s.munlock
      some (.done cnt, s)
    | some cur => do
      let cell ← s.heap cur
      if cleanup cell.data cookie ≠ 0 then do
        let s ← s.setNxt prv cell.nxt
        let s ← s.freeNode cb cur true
        let s ← s.munlock
        some (.tail prv (cnt + 1), s)
      else do
        let s ← s.munlock
        some (.tail cur cnt, s)
  | .done cnt => some (.done cnt, s)

def cleanLoop : ℕ → Cleaner → ListMgr ι δ → Option (ℕ × ListMgr ι δ)
  | _, .done cnt, s => some (cnt, s)
  | 0, _, _ => none
  | n + 1, cleaner, s => do
    let (cleaner, s) ← cleanSection cb cleanup list cookie s cleaner
    cleanLoop n cleaner s

end CleanUp

def cleanUpNodes [DecidableEq ι] (cb : Callbacks δ γ) (s : ListMgr ι δ) (list : ι) (cookie : γ) :
    Option (ℕ × ListMgr ι δ) :=
  match cb.cleanup with
  | none => some (0, s)
  | some cleanup => cleanLoop cb cleanup list cookie (s.count + 1) (.head 0) s

/-! ## Freeing -/

/-- The loop of `freeList0`; the head of the list is left as it is. -/
def freeList0 (cb : Callbacks δ γ) (useFreeList : Bool) :
    ℕ → Option Ptr → ListMgr ι δ → Option (ListMgr ι δ)
  | _, none, s => some s
  | 0, some _, _ => none
  | n + 1, some cur, s => do
    let cell ← s.heap cur
    let nxt := cell.nxt
    let s ← s.freeNode cb cur useFreeList
    freeList0 cb useFreeList n nxt s

/-- The method `freeList`; its name is that of the field here. -/
def freeAll (cb : Callbacks δ γ) (s : ListMgr ι δ) (list : ι) (useFreeList : Bool) :
    Option (ListMgr ι δ) := do
  let s ← s.mlock
  let s ← freeList0 cb useFreeList (s.count + s.freeCount) (s.lists list) s
  s.munlock

def getFreeNodes (s : ListMgr ι δ) : Option ℕ := do
  let s ← s.mlock
  let ret := s.freeCount
  let _ ← s.munlock
  some ret

def getUsedNodes (s : ListMgr ι δ) : Option ℕ := do
  let s ← s.mlock
  let ret := s.count
  let _ ← s.munlock
  some ret

end ListMgr

end Csptp
