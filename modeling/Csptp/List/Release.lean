import Csptp.Logged
import Csptp.List.Freeing

/-! # What the callbacks of a list manager are given

The operations are written once more with a log of the calls of the callbacks. `set`, `cmp` and `cleanup`
get the data area of a node, and `release` gets the node itself. -/
namespace Csptp
open Linked Runs Logged
set_option autoImplicit false

/-- An address in a node: that of the node, or that of its member `_data`. -/
inductive Area where
  | node (node : Ptr)
  | data (node : Ptr)
deriving DecidableEq

/-- A callback gets an address, or a node moves: to the free list if it is to be reused, and else its
memory is freed. -/
inductive ListAct where
  | cmp (data : Area)
  | set (data : Area)
  | cleanup (data : Area)
  | release (data : Area) (reuse : Bool)
  | moved (node : Ptr) (reuse : Bool)
deriving DecidableEq

def ListAct.isMove : ListAct → Bool
  | .release _ _ => true
  | .moved _ _ => true
  | _ => false

def ListAct.WithNode (act : ListAct) : Prop := ∀ node reuse, act ≠ .release (.data node) reuse

/-- Nothing moves, and `release` is not called. -/
def Still (acts : List ListAct) : Prop := ∀ act ∈ acts, act.isMove = false

theorem still_append {acts acts' : List ListAct} :
    Still (acts ++ acts') ↔ Still acts ∧ Still acts' := List.forall_mem_append

def callFunc (node : Ptr) : Area := .data node

namespace ListMgr
variable {ι δ γ : Type} {s s' : ListMgr ι δ}

namespace Traced

def callCmp (cb : Callbacks δ γ) (s : ListMgr ι δ) (node : Ptr) (cookie : γ) : Logged ListAct ℤ :=
  tell (.cmp (callFunc node)) (lift (s.callCmp cb node cookie))

def callSet (cb : Callbacks δ γ) (s : ListMgr ι δ) (node : Ptr) (cookie : γ) :
    Logged ListAct (ListMgr ι δ) :=
  tell (.set (callFunc node)) (lift (s.callSet cb node cookie))

def callRelease (cb : Callbacks δ γ) (node : Ptr) (cell : Node Ptr δ) (useFreeList : Bool) :
    Logged ListAct (Node Ptr δ × Bool) :=
  match cb.release with
  | none => pure (cell, useFreeList)
  | some release => tell (.release (.node node) useFreeList) (pure (release cell useFreeList))

def freeNode (cb : Callbacks δ γ) (s : ListMgr ι δ) (node : Ptr) (useFreeList : Bool) :
    Logged ListAct (ListMgr ι δ) := do
  let cell ← lift (s.heap node)
  let (cell, useFreeList) ← callRelease cb node cell useFreeList
  if useFreeList then
    tell (.moved node true) (pure { s with
      heap := Function.update s.heap node (some ⟨s.freeList, cell.data⟩)
      freeList := some node
      freeCount := s.freeCount + 1
      count := s.count - 1 })
  else
    tell (.moved node false) (pure { s with
      heap := Function.update s.heap node none
      count := s.count - 1 })

section Update
variable (cb : Callbacks δ γ) (blank : δ)

def addNode (s : ListMgr ι δ) (nxt : Option Ptr) (cookie : γ) (fresh : Option Ptr)
    (link : Ptr → ListMgr ι δ → Option (ListMgr ι δ)) : Logged ListAct (Bool × ListMgr ι δ) := do
  let (node, s) ← lift (s.getFreeNode blank nxt fresh)
  match node with
  | none => do
    let s ← lift s.munlock
    pure (false, s)
  | some tmp => do
    let s ← callSet cb s tmp cookie
    let s ← lift (link tmp s)
    let s ← lift s.munlock
    pure (true, s)

def updateLoop (cookie : γ) (fresh : Option Ptr) :
    ℕ → Option Ptr → Ptr → ℤ → ListMgr ι δ → Logged ListAct (Bool × ListMgr ι δ)
  | 0, _, _, _, _ => lift none
  | n + 1, prv, cur, c, s =>
    if c = 0 then do
      -- Update node
      let s ← callSet cb s cur cookie
      let s ← lift s.munlock
      pure (true, s)
    else if 0 < c then do
      let cell ← lift (s.heap cur)
      match cell.nxt with
      | none =>
        -- New tail
        addNode cb blank s none cookie fresh fun tmp s => s.setNxt cur (some tmp)
      | some nxt => do
        let c ← callCmp cb s nxt cookie
        updateLoop cookie fresh n (some cur) nxt c s
    else
      -- In middle
      addNode cb blank s (some cur) cookie fresh fun tmp s => do
        let prv ← prv
        s.setNxt prv (some tmp)

variable [DecidableEq ι]

def updateNode (s : ListMgr ι δ) (list : ι) (cookie : γ) (fresh : Option Ptr) :
    Logged ListAct (Bool × ListMgr ι δ) := do
  let s ← lift s.mlock
  match s.lists list with
  | none =>
    -- First node
    addNode cb blank s none cookie fresh (setHead list)
  | some cur => do
    let c ← callCmp cb s cur cookie
    if c < 0 then
      -- New head
      addNode cb blank s (some cur) cookie fresh (setHead list)
    else
      updateLoop cb blank cookie fresh s.count none cur c s

end Update

section CleanUp
variable [DecidableEq ι] (cb : Callbacks δ γ) (cleanup : δ → γ → ℤ) (list : ι) (cookie : γ)

def cleanSection (s : ListMgr ι δ) : Cleaner → Logged ListAct (Cleaner × ListMgr ι δ)
  | .head cnt => do
    let s ← lift s.mlock
    match s.lists list with
    | none => do
      let s ← lift s.munlock
      pure (.done cnt, s)
    | some cur => do
      let cell ← lift (s.heap cur)
      let r ← tell (.cleanup (callFunc cur)) (pure (cleanup cell.data cookie))
      if r ≠ 0 then do
        let s := { s with lists := Function.update s.lists list cell.nxt }
        let s ← freeNode cb s cur true
        let s ← lift s.munlock
        pure (.head (cnt + 1), s)
      else do
        let s ← lift s.munlock
        pure (.tail cur cnt, s)
  | .tail prv cnt => do
    let s ← lift s.mlock
    let before ← lift (s.heap prv)
    match before.nxt with
    | none => do
      let s ← lift s.munlock
      pure (.done cnt, s)
    | some cur => do
      let cell ← lift (s.heap cur)
      let r ← tell (.cleanup (callFunc cur)) (pure (cleanup cell.data cookie))
      if r ≠ 0 then do
        let s ← lift (s.setNxt prv cell.nxt)
        let s ← freeNode cb s cur true
        let s ← lift s.munlock
        pure (.tail prv (cnt + 1), s)
      else do
        let s ← lift s.munlock
        pure (.tail cur cnt, s)
  | .done cnt => pure (.done cnt, s)

def cleanLoop : ℕ → Cleaner → ListMgr ι δ → Logged ListAct (ℕ × ListMgr ι δ)
  | _, .done cnt, s => pure (cnt, s)
  | 0, _, _ => lift none
  | n + 1, cleaner, s => do
    let (cleaner, s) ← cleanSection cb cleanup list cookie s cleaner
    cleanLoop n cleaner s

end CleanUp

def cleanUpNodes [DecidableEq ι] (cb : Callbacks δ γ) (s : ListMgr ι δ) (list : ι) (cookie : γ) :
    Logged ListAct (ℕ × ListMgr ι δ) :=
  match cb.cleanup with
  | none => pure (0, s)
  | some cleanup => cleanLoop cb cleanup list cookie (s.count + 1) (.head 0) s

def freeList0 (cb : Callbacks δ γ) (useFreeList : Bool) :
    ℕ → Option Ptr → ListMgr ι δ → Logged ListAct (ListMgr ι δ)
  | _, none, s => pure s
  | 0, some _, _ => lift none
  | n + 1, some cur, s => do
    let cell ← lift (s.heap cur)
    let nxt := cell.nxt
    let s ← freeNode cb s cur useFreeList
    freeList0 cb useFreeList n nxt s

def freeAll (cb : Callbacks δ γ) (s : ListMgr ι δ) (list : ι) (useFreeList : Bool) :
    Logged ListAct (ListMgr ι δ) := do
  let s ← lift s.mlock
  let s ← freeList0 cb useFreeList (s.count + s.freeCount) (s.lists list) s
  lift s.munlock

/-- The method `free`: the nodes on the free list, then the manager. -/
def free (cb : Callbacks δ γ) (s : ListMgr ι δ) : Logged ListAct PUnit := do
  let _ ← freeList0 cb false (s.count + s.freeCount) s.freeList s
  pure ⟨⟩

/-! ## Without the log -/

@[simp] theorem erase_callCmp (cb : Callbacks δ γ) (node : Ptr) (cookie : γ) :
    (callCmp cb s node cookie).erase = s.callCmp cb node cookie := by
  simp [callCmp]

@[simp] theorem erase_callSet (cb : Callbacks δ γ) (node : Ptr) (cookie : γ) :
    (callSet cb s node cookie).erase = s.callSet cb node cookie := by
  simp [callSet]

@[simp] theorem erase_freeNode (cb : Callbacks δ γ) (node : Ptr) (useFreeList : Bool) :
    (freeNode cb s node useFreeList).erase = s.freeNode cb node useFreeList := by
  simp only [freeNode, ListMgr.freeNode, erase_bind, erase_lift]
  cases s.heap node with
  | none => rfl
  | some cell =>
    unfold callRelease
    cases cb.release <;> simp

@[simp] theorem erase_addNode (cb : Callbacks δ γ) (blank : δ) (nxt : Option Ptr) (cookie : γ)
    (fresh : Option Ptr) (link : Ptr → ListMgr ι δ → Option (ListMgr ι δ)) :
    (addNode cb blank s nxt cookie fresh link).erase =
      s.addNode cb blank nxt cookie fresh link := by
  simp only [addNode, ListMgr.addNode, erase_bind, erase_lift]
  refine Option.bind_congr fun r _ => ?_
  obtain ⟨node, s'⟩ := r
  cases node with
  | none | some tmp => simp

theorem erase_updateLoop (cb : Callbacks δ γ) (blank : δ) (cookie : γ) (fresh : Option Ptr) (n : ℕ)
    (prv : Option Ptr) (cur : Ptr) (c : ℤ) :
    (updateLoop cb blank cookie fresh n prv cur c s).erase =
      ListMgr.updateLoop cb blank cookie fresh n prv cur c s := by
  induction n generalizing prv cur c with
  | zero => rfl
  | succ n ih =>
    simp only [updateLoop, ListMgr.updateLoop, erase_ite, erase_bind, erase_lift, erase_addNode]
    split_ifs with heq hgt
    · simp
    · refine Option.bind_congr fun cell _ => ?_
      cases cell.nxt with
      | none => simp
      | some nxt => simp [ih]
    · rfl

@[simp] theorem erase_updateNode [DecidableEq ι] (cb : Callbacks δ γ) (blank : δ) (list : ι) (cookie : γ)
    (fresh : Option Ptr) : (updateNode cb blank s list cookie fresh).erase =
      s.updateNode cb blank list cookie fresh := by
  simp only [updateNode, ListMgr.updateNode, erase_bind, erase_lift]
  refine Option.bind_congr fun s' _ => ?_
  cases s'.lists list with
  | none => simp
  | some cur => simp [erase_updateLoop]

section CleanUp
variable [DecidableEq ι] (cb : Callbacks δ γ) (cleanup : δ → γ → ℤ) (list : ι) (cookie : γ)

@[simp] theorem erase_cleanSection (cleaner : Cleaner) :
    (cleanSection cb cleanup list cookie s cleaner).erase =
      ListMgr.cleanSection cb cleanup list cookie s cleaner := by
  cases cleaner with
  | head cnt =>
    simp only [cleanSection, ListMgr.cleanSection, erase_bind, erase_lift]
    refine Option.bind_congr fun s' _ => ?_
    cases s'.lists list with
    | none | some cur => simp
  | tail prv cnt =>
    simp only [cleanSection, ListMgr.cleanSection, erase_bind, erase_lift]
    refine Option.bind_congr fun s' _ => Option.bind_congr fun before _ => ?_
    cases before.nxt with
    | none | some cur => simp
  | done cnt => rfl

theorem erase_cleanLoop (n : ℕ) (cleaner : Cleaner) :
    (cleanLoop cb cleanup list cookie n cleaner s).erase =
      ListMgr.cleanLoop cb cleanup list cookie n cleaner s := by
  induction n generalizing cleaner s with
  | zero => cases cleaner <;> rfl
  | succ n ih => cases cleaner <;> simp [cleanLoop, ListMgr.cleanLoop, ih]

end CleanUp

@[simp] theorem erase_cleanUpNodes [DecidableEq ι] (cb : Callbacks δ γ) (list : ι) (cookie : γ) :
    (cleanUpNodes cb s list cookie).erase = s.cleanUpNodes cb list cookie := by
  unfold cleanUpNodes ListMgr.cleanUpNodes
  cases cb.cleanup with
  | none => rfl
  | some cleanup => exact erase_cleanLoop cb cleanup list cookie _ _

theorem erase_freeList0 (cb : Callbacks δ γ) (useFreeList : Bool) (n : ℕ) (cur : Option Ptr) :
    (freeList0 cb useFreeList n cur s).erase = ListMgr.freeList0 cb useFreeList n cur s := by
  induction n generalizing cur s with
  | zero => cases cur <;> rfl
  | succ n ih => cases cur <;> simp [freeList0, ListMgr.freeList0, ih]

@[simp] theorem erase_freeAll (cb : Callbacks δ γ) (list : ι) (useFreeList : Bool) :
    (freeAll cb s list useFreeList).erase = s.freeAll cb list useFreeList := by
  simp [freeAll, ListMgr.freeAll, erase_freeList0]

/-! ## What the log contains -/

section Update
variable (cb : Callbacks δ γ)

theorem only_callSet (node : Ptr) (cookie : γ) :
    (callSet cb s node cookie).Only fun act => act.isMove = false := (only_lift _).tell rfl

theorem only_callCmp (node : Ptr) (cookie : γ) :
    (callCmp cb s node cookie).Only fun act => act.isMove = false := (only_lift _).tell rfl

variable (blank : δ)

theorem only_addNode (nxt : Option Ptr) (cookie : γ) (fresh : Option Ptr)
    (link : Ptr → ListMgr ι δ → Option (ListMgr ι δ)) :
    (addNode cb blank s nxt cookie fresh link).Only fun act => act.isMove = false := by
  refine (only_lift _).bind fun r => ?_
  obtain ⟨node, s'⟩ := r
  cases node with
  | none => exact (only_lift _).bind fun _ => only_pure _
  | some tmp =>
    refine (only_callSet cb tmp cookie).bind fun _ => ?_
    exact (only_lift _).bind fun _ => (only_lift _).bind fun _ => only_pure _

theorem only_updateLoop (cookie : γ) (fresh : Option Ptr) (n : ℕ) (prv : Option Ptr) (cur : Ptr)
    (c : ℤ) : (updateLoop cb blank cookie fresh n prv cur c s).Only fun act => act.isMove = false := by
  induction n generalizing prv cur c with
  | zero => exact only_lift _
  | succ n ih =>
    unfold updateLoop
    split_ifs
    · refine (only_callSet cb cur cookie).bind fun _ => ?_
      exact (only_lift _).bind fun _ => only_pure _
    · refine (only_lift _).bind fun cell => ?_
      cases cell.nxt with
      | none => exact only_addNode cb blank _ cookie fresh _
      | some nxt => exact (only_callCmp cb nxt cookie).bind fun _ => ih _ _ _
    · exact only_addNode cb blank _ cookie fresh _

theorem only_updateNode [DecidableEq ι] (list : ι) (cookie : γ) (fresh : Option Ptr) :
    (updateNode cb blank s list cookie fresh).Only fun act => act.isMove = false := by
  refine (only_lift _).bind fun s' => ?_
  cases s'.lists list with
  | none => exact only_addNode cb blank _ cookie fresh _
  | some cur =>
    refine (only_callCmp cb cur cookie).bind fun c => ?_
    split_ifs
    · exact only_addNode cb blank _ cookie fresh _
    · exact only_updateLoop cb blank cookie fresh _ _ _ _

end Update

section Freeing
variable {cb : Callbacks δ γ} {acts : List ListAct}

theorem only_freeNode (node : Ptr) (useFreeList : Bool) :
    (freeNode cb s node useFreeList).Only ListAct.WithNode := by
  refine (only_lift _).bind fun cell => Only.bind ?_ fun r => ?_
  · unfold callRelease
    cases cb.release with
    | none => exact only_pure _
    | some release => exact (only_pure _).tell nofun
  · obtain ⟨cell', reuse⟩ := r
    cases reuse <;> exact (only_pure _).tell nofun

/-- A node does not move without a call of `release`. -/
theorem freeNode_moves (hrelease : cb.release ≠ none) {node : Ptr} {useFreeList : Bool}
    (h : (freeNode cb s node useFreeList).Yields s' acts) : ¬ Still acts := by
  obtain ⟨release, hrelease⟩ := Option.ne_none_iff_exists'.mp hrelease
  obtain ⟨cell, l₁, l₂, -, hrest, rfl⟩ := yields_bind.mp h
  obtain ⟨r, l₃, l₄, hcall, -, rfl⟩ := yields_bind.mp hrest
  simp only [callRelease, hrelease] at hcall
  obtain ⟨l₅, -, rfl⟩ := yields_tell.mp hcall
  intro hstill
  have hact := hstill (.release (.node node) useFreeList) (by simp)
  simp [ListAct.isMove] at hact

theorem only_freeList0 (useFreeList : Bool) (n : ℕ) (cur : Option Ptr) :
    (freeList0 cb useFreeList n cur s).Only ListAct.WithNode := by
  induction n generalizing cur s with
  | zero =>
    cases cur with
    | none => exact only_pure _
    | some cur => exact only_lift _
  | succ n ih =>
    cases cur with
    | none => exact only_pure _
    | some cur => exact (only_lift _).bind fun _ => (only_freeNode _ _).bind fun _ => ih _

theorem only_freeAll (list : ι) (useFreeList : Bool) :
    (freeAll cb s list useFreeList).Only ListAct.WithNode :=
  (only_lift _).bind fun _ => (only_freeList0 _ _ _).bind fun _ => only_lift _

theorem freeList0_still (hrelease : cb.release ≠ none) {useFreeList : Bool} {n : ℕ} {cur : Option Ptr}
    (h : (freeList0 cb useFreeList n cur s).Yields s' acts) : Still acts ↔ cur = none := by
  cases cur with
  | none =>
    have hpure : (pure s : Logged ListAct (ListMgr ι δ)).Yields s' acts := by cases n <;> exact h
    simp [(yields_pure.mp hpure).2, Still]
  | some cur =>
    cases n with
    | zero => simp [freeList0, yields_lift] at h
    | succ n =>
      obtain ⟨cell, l₁, l₂, -, hrest, rfl⟩ := yields_bind.mp h
      obtain ⟨s₁, l₃, l₄, hfree, -, rfl⟩ := yields_bind.mp hrest
      have hmoves := freeNode_moves hrelease hfree
      simp [still_append, hmoves]

theorem freeAll_still (hrelease : cb.release ≠ none) {list : ι} {useFreeList : Bool}
    (h : (freeAll cb s list useFreeList).Yields s' acts) : Still acts ↔ s.lists list = none := by
  obtain ⟨s₁, l₁, l₂, hlock, hrest, rfl⟩ := yields_bind.mp h
  obtain ⟨s₂, l₃, l₄, hloop, hunlock, rfl⟩ := yields_bind.mp hrest
  obtain ⟨hlock, rfl⟩ := yields_lift.mp hlock
  obtain ⟨-, rfl⟩ := yields_lift.mp hunlock
  have hlists : s₁.lists = s.lists := by
    unfold mlock at hlock
    split at hlock
    · cases hlock
    · cases hlock
      rfl
  rw [List.nil_append, List.append_nil, freeList0_still hrelease hloop, hlists]

section CleanUp
variable [DecidableEq ι] {cleanup : δ → γ → ℤ} {list : ι} {cookie : γ} {cleaner cleaner' : Cleaner}

variable (cleanup list cookie cleaner) in
theorem only_cleanSection : (cleanSection cb cleanup list cookie s cleaner).Only ListAct.WithNode := by
  cases cleaner with
  | head cnt =>
    refine (only_lift _).bind fun s' => ?_
    cases s'.lists list with
    | none => exact (only_lift _).bind fun _ => only_pure _
    | some cur =>
      refine (only_lift _).bind fun cell => ((only_pure _).tell nofun).bind fun r => ?_
      split_ifs
      · refine (only_freeNode _ _).bind fun _ => ?_
        exact (only_lift _).bind fun _ => only_pure _
      · exact (only_lift _).bind fun _ => only_pure _
  | tail prv cnt =>
    refine (only_lift _).bind fun s' => (only_lift _).bind fun before => ?_
    cases before.nxt with
    | none => exact (only_lift _).bind fun _ => only_pure _
    | some cur =>
      refine (only_lift _).bind fun cell => ((only_pure _).tell nofun).bind fun r => ?_
      split_ifs
      · refine (only_lift _).bind fun _ => (only_freeNode _ _).bind fun _ => ?_
        exact (only_lift _).bind fun _ => only_pure _
      · exact (only_lift _).bind fun _ => only_pure _
  | done cnt => exact only_pure _

theorem only_cleanLoop (n : ℕ) :
    (cleanLoop cb cleanup list cookie n cleaner s).Only ListAct.WithNode := by
  induction n generalizing cleaner s with
  | zero =>
    cases cleaner with
    | done cnt => exact only_pure _
    | head cnt | tail prv cnt => exact only_lift _
  | succ n ih =>
    cases cleaner with
    | done cnt => exact only_pure _
    | head cnt | tail prv cnt => exact (only_cleanSection _ _ _ _).bind fun _ => ih

omit [DecidableEq ι] in
theorem unlocked_log {c : Cleaner}
    (h : (do let s ← lift s.munlock; pure (c, s) : Logged ListAct (Cleaner × ListMgr ι δ)).Yields
      (cleaner', s') acts) : cleaner' = c ∧ Still acts := by
  obtain ⟨s₁, l₁, l₂, hunlock, hpure, rfl⟩ := yields_bind.mp h
  obtain ⟨-, rfl⟩ := yields_lift.mp hunlock
  obtain ⟨hresult, rfl⟩ := yields_pure.mp hpure
  exact ⟨(Prod.mk.inj hresult).1.symm, by simp [Still]⟩

omit [DecidableEq ι] in
theorem freed_log (hrelease : cb.release ≠ none) {c : Cleaner} {node : Ptr}
    (h : (do
      let s ← freeNode cb s node true
      let s ← lift s.munlock
      pure (c, s) : Logged ListAct (Cleaner × ListMgr ι δ)).Yields (cleaner', s') acts) :
    cleaner' = c ∧ ¬ Still acts := by
  obtain ⟨s₁, l₁, l₂, hfree, hrest, rfl⟩ := yields_bind.mp h
  have hmoves := freeNode_moves hrelease hfree
  exact ⟨(unlocked_log hrest).1, by simp [still_append, hmoves]⟩

omit [DecidableEq ι] in
theorem cleanup_log {cell : Node Ptr δ} {node : Ptr} {f : ℤ → Logged ListAct (Cleaner × ListMgr ι δ)}
    (h : (tell (.cleanup (callFunc node)) (pure (cleanup cell.data cookie)) >>= f).Yields (cleaner', s')
      acts) :
    ∃ l, (f (cleanup cell.data cookie)).Yields (cleaner', s') l ∧ (Still acts ↔ Still l) := by
  obtain ⟨r, l₁, l₂, htell, hrest, rfl⟩ := yields_bind.mp h
  obtain ⟨l, hpure, rfl⟩ := yields_tell.mp htell
  obtain ⟨rfl, rfl⟩ := yields_pure.mp hpure
  exact ⟨l₂, hrest, by simp [Still, ListAct.isMove]⟩

/-- A section moves a node if and only if it counts one. -/
theorem cleanSection_still (hrelease : cb.release ≠ none)
    (h : (cleanSection cb cleanup list cookie s cleaner).Yields (cleaner', s') acts) :
    cleaner.cnt ≤ cleaner'.cnt ∧ (Still acts ↔ cleaner'.cnt = cleaner.cnt) := by
  cases cleaner with
  | head cnt =>
    obtain ⟨s₁, l₁, l₂, hlock, h₁, rfl⟩ := yields_bind.mp h
    obtain ⟨-, rfl⟩ := yields_lift.mp hlock
    cases hhead : s₁.lists list with
    | none =>
      simp only [hhead] at h₁
      obtain ⟨rfl, hstill⟩ := unlocked_log h₁
      simp [Cleaner.cnt, hstill]
    | some cur =>
      simp only [hhead] at h₁
      obtain ⟨cell, l₃, l₄, hcell, h₂, rfl⟩ := yields_bind.mp h₁
      obtain ⟨-, rfl⟩ := yields_lift.mp hcell
      obtain ⟨l, h₃, hacts⟩ := cleanup_log h₂
      split_ifs at h₃ with hclean
      · obtain ⟨rfl, hmoves⟩ := freed_log hrelease h₃
        simp [Cleaner.cnt, hacts, hmoves]
      · obtain ⟨rfl, hstill⟩ := unlocked_log h₃
        simp [Cleaner.cnt, hacts, hstill]
  | tail prv cnt =>
    obtain ⟨s₁, l₁, l₂, hlock, h₁, rfl⟩ := yields_bind.mp h
    obtain ⟨-, rfl⟩ := yields_lift.mp hlock
    obtain ⟨before, l₃, l₄, hbefore, h₂, rfl⟩ := yields_bind.mp h₁
    obtain ⟨-, rfl⟩ := yields_lift.mp hbefore
    cases hnxt : before.nxt with
    | none =>
      simp only [hnxt] at h₂
      obtain ⟨rfl, hstill⟩ := unlocked_log h₂
      simp [Cleaner.cnt, hstill]
    | some cur =>
      simp only [hnxt] at h₂
      obtain ⟨cell, l₅, l₆, hcell, h₃, rfl⟩ := yields_bind.mp h₂
      obtain ⟨-, rfl⟩ := yields_lift.mp hcell
      obtain ⟨l, h₄, hacts⟩ := cleanup_log h₃
      split_ifs at h₄ with hclean
      · obtain ⟨s₂, l₇, l₈, hset, h₅, rfl⟩ := yields_bind.mp h₄
        obtain ⟨-, rfl⟩ := yields_lift.mp hset
        obtain ⟨rfl, hmoves⟩ := freed_log hrelease h₅
        simp [Cleaner.cnt, hacts, hmoves]
      · obtain ⟨rfl, hstill⟩ := unlocked_log h₄
        simp [Cleaner.cnt, hacts, hstill]
  | done cnt =>
    obtain ⟨hresult, rfl⟩ := yields_pure.mp h
    cases hresult
    simp [Still]

theorem cleanLoop_still (hrelease : cb.release ≠ none) {n cnt : ℕ}
    (h : (cleanLoop cb cleanup list cookie n cleaner s).Yields (cnt, s') acts) :
    cleaner.cnt ≤ cnt ∧ (Still acts ↔ cnt = cleaner.cnt) := by
  induction n generalizing cleaner s acts with
  | zero =>
    cases cleaner with
    | done cnt =>
      obtain ⟨hresult, rfl⟩ := yields_pure.mp h
      cases hresult
      simp [Cleaner.cnt, Still]
    | head cnt | tail prv cnt => simp [cleanLoop, yields_lift] at h
  | succ n ih =>
    cases cleaner with
    | done cnt =>
      obtain ⟨hresult, rfl⟩ := yields_pure.mp h
      cases hresult
      simp [Cleaner.cnt, Still]
    | head _ | tail _ _ =>
      obtain ⟨⟨cleaner', s₁⟩, l₁, l₂, hsection, hrest, rfl⟩ := yields_bind.mp h
      obtain ⟨hle₁, hstill₁⟩ := cleanSection_still hrelease hsection
      obtain ⟨hle₂, hstill₂⟩ := ih hrest
      refine ⟨hle₁.trans hle₂, ?_⟩
      rw [still_append, hstill₁, hstill₂]
      omega

end CleanUp

theorem cleanUpNodes_still [DecidableEq ι] (hrelease : cb.release ≠ none) {list : ι} {cookie : γ}
    {cnt : ℕ} (h : (cleanUpNodes cb s list cookie).Yields (cnt, s') acts) :
    (∀ act ∈ acts, act.WithNode) ∧ (Still acts ↔ cnt = 0) := by
  unfold cleanUpNodes at h
  cases hcleanup : cb.cleanup with
  | none =>
    simp only [hcleanup] at h
    obtain ⟨hresult, rfl⟩ := yields_pure.mp h
    cases hresult
    simp [Still]
  | some cleanup =>
    simp only [hcleanup] at h
    exact ⟨only_cleanLoop _ _ _ h, (cleanLoop_still hrelease h).2⟩

end Freeing

end Traced

/-! ## Runs of a manager -/

inductive ManagerOp (ι γ : Type) where
  | update (list : ι) (cookie : γ) (fresh : Option Ptr)
  | cleanUp (list : ι) (cookie : γ)
  | freeList (list : ι) (useFreeList : Bool)
  | free

structure ManagerEvent (ι δ γ : Type) where
  before : ListMgr ι δ
  op : ManagerOp ι γ
  acts : List ListAct

def ManagerOp.Allowed (s : ListMgr ι δ) : ManagerOp ι γ → Prop
  | .update _ _ fresh => s.Unused fresh
  | _ => True

/-- No node leaves a list, and the free list of a manager that is freed has none. -/
def ManagerOp.Quiet (cb : Callbacks δ γ) (s : ListMgr ι δ) : ManagerOp ι γ → Prop
  | .update _ _ _ => True
  | .cleanUp list cookie => ∀ c ∈ s.nodes (some list), cb.cleans cookie c = false
  | .freeList list _ => s.lists list = none
  | .free => s.freeList = none

/-- Every node that moves has been given to `release` right before, by the address of its data and with
the flag that says where it goes; and `release` is not called otherwise. -/
def Honoured (acts : List ListAct) : Prop :=
  ∃ moves : List (Ptr × Bool), acts.filter ListAct.isMove =
    moves.flatMap fun m => [.release (.data m.1) m.2, .moved m.1 m.2]

theorem honoured_iff {acts : List ListAct} (h : ∀ act ∈ acts, act.WithNode) :
    Honoured acts ↔ Still acts := by
  constructor
  · rintro ⟨moves, hmoves⟩ act hact
    cases moves with
    | nil =>
      have hnone := List.filter_eq_nil_iff.mp hmoves act hact
      simpa using hnone
    | cons m moves =>
      have hmem : ListAct.release (.data m.1) m.2 ∈ acts.filter ListAct.isMove := by simp [hmoves]
      exact absurd rfl (h _ (List.mem_filter.mp hmem).1 m.1 m.2)
  · intro hstill
    refine ⟨[], List.filter_eq_nil_iff.mpr fun act hact => ?_⟩
    simp [hstill act hact]

section Runs
variable [DecidableEq ι] (cb : Callbacks δ γ) (blank : δ)

/-- `none` when the manager is gone. -/
def traced (s : ListMgr ι δ) : ManagerOp ι γ → Logged ListAct (Option (ListMgr ι δ))
  | .update list cookie fresh => do
    let (_, s) ← Traced.updateNode cb blank s list cookie fresh
    pure (some s)
  | .cleanUp list cookie => do
    let (_, s) ← Traced.cleanUpNodes cb s list cookie
    pure (some s)
  | .freeList list useFreeList => do
    let s ← Traced.freeAll cb s list useFreeList
    pure (some s)
  | .free => do
    let _ ← Traced.free cb s
    pure none

def ManagerStep (_ : List (ManagerEvent ι δ γ)) (t : Option (ListMgr ι δ)) (e : ManagerEvent ι δ γ)
    (t' : Option (ListMgr ι δ)) : Prop :=
  t = some e.before ∧ e.op.Allowed e.before ∧ (e.before.traced cb blank e.op).Yields t' e.acts

variable {cb blank} [Fintype ι]

def InShape (t : Option (ListMgr ι δ)) : Prop := ∀ s, t = some s → s.mtx = false ∧ ∃ L, Shape s L

omit [DecidableEq ι] in
theorem inShape_some {L : Shelf ι δ} (H : Shape s L) (hmtx : s.mtx = false) : InShape (some s) := by
  rintro _ ⟨⟩
  exact ⟨hmtx, L, H⟩

omit [DecidableEq ι] in
theorem inShape_none : InShape (none : Option (ListMgr ι δ)) := nofun

variable (cb) in
theorem cleanUpNodes_cleans {L : Shelf ι δ} (H : Shape s L) (hmtx : s.mtx = false) (list : ι)
    (cookie : γ) :
    ∃ cnt s', s.cleanUpNodes cb list cookie = some (cnt, s') ∧ InShape (some s') ∧
      (cnt = 0 ↔ ∀ c ∈ s.nodes (some list), cb.cleans cookie c = false) := by
  cases hcleanup : cb.cleanup with
  | none =>
    refine ⟨0, s, by simp [cleanUpNodes, hcleanup], inShape_some H hmtx, ?_⟩
    simp [Callbacks.cleans, hcleanup]
  | some cleanup =>
    obtain ⟨s', L', hresult, H', hmtx', -⟩ := cleanUpNodes_cleansUp list cookie H hmtx hcleanup
    refine ⟨_, s', hresult, inShape_some H' hmtx', ?_⟩
    simp [H.nodes_eq, Callbacks.cleans, hcleanup]

theorem update_still {L : Shelf ι δ} (H : Shape s L) (hmtx : s.mtx = false) {list : ι} {cookie : γ}
    {fresh : Option Ptr} (hfresh : s.Unused fresh) {done : Bool} {acts : List ListAct}
    (h : (Traced.updateNode cb blank s list cookie fresh).Yields (done, s') acts) :
    (∀ act ∈ acts, act.WithNode) ∧ Still acts ∧ InShape (some s') := by
  have hstill : Still acts := Traced.only_updateNode cb blank list cookie fresh _ _ h
  refine ⟨fun act hact node reuse heq => ?_, hstill, ?_⟩
  · subst heq
    simpa [ListAct.isMove] using hstill _ hact
  · obtain ⟨done', s'', L', hcall, H', hmtx', -⟩ :=
      updateNode_updates cb blank list cookie H hmtx hfresh
    have herase := h.erase
    rw [Traced.erase_updateNode, hcall] at herase
    cases herase
    exact inShape_some H' hmtx'

/-- What one operation does: only `release` gets a node, a quiet operation leaves all nodes where they are,
and any other one calls `release`. -/
theorem traced_still (hrelease : cb.release ≠ none) {L : Shelf ι δ} (H : Shape s L)
    (hmtx : s.mtx = false) {op : ManagerOp ι γ} (hallowed : op.Allowed s)
    {t : Option (ListMgr ι δ)} {acts : List ListAct} (h : (s.traced cb blank op).Yields t acts) :
    (∀ act ∈ acts, act.WithNode) ∧ (Still acts ↔ op.Quiet cb s) ∧ (op.Quiet cb s → InShape t) := by
  cases op with
  | update list cookie fresh =>
    obtain ⟨⟨done, s₁⟩, acts, l, hupdate, hpure, rfl⟩ := yields_bind.mp h
    obtain ⟨rfl, rfl⟩ := yields_pure.mp hpure
    rw [List.append_nil]
    obtain ⟨hnode, hstill, hshape⟩ := update_still H hmtx hallowed hupdate
    exact ⟨hnode, ⟨fun _ => trivial, fun _ => hstill⟩, fun _ => hshape⟩
  | cleanUp list cookie =>
    obtain ⟨⟨cnt, s₁⟩, acts, l, hclean, hpure, rfl⟩ := yields_bind.mp h
    obtain ⟨rfl, rfl⟩ := yields_pure.mp hpure
    rw [List.append_nil]
    obtain ⟨hnode, hstill⟩ := Traced.cleanUpNodes_still hrelease hclean
    obtain ⟨cnt', s', hcall, hshape, hquiet⟩ := cleanUpNodes_cleans cb H hmtx list cookie
    have herase := hclean.erase
    rw [Traced.erase_cleanUpNodes, hcall] at herase
    cases herase
    exact ⟨hnode, hstill.trans hquiet, fun _ => hshape⟩
  | freeList list useFreeList =>
    obtain ⟨s₁, acts, l, hfree, hpure, rfl⟩ := yields_bind.mp h
    obtain ⟨rfl, rfl⟩ := yields_pure.mp hpure
    rw [List.append_nil]
    refine ⟨Traced.only_freeAll _ _ _ _ hfree, Traced.freeAll_still hrelease hfree, fun hquiet => ?_⟩
    have herase := hfree.erase
    rw [Traced.erase_freeAll, freeAll_empty cb hmtx hquiet] at herase
    cases herase
    exact inShape_some H hmtx
  | free =>
    obtain ⟨u, acts, l, hfree, hpure, rfl⟩ := yields_bind.mp h
    obtain ⟨rfl, rfl⟩ := yields_pure.mp hpure
    rw [List.append_nil]
    obtain ⟨s₁, acts, l, hloop, hpure, rfl⟩ := yields_bind.mp hfree
    obtain ⟨-, rfl⟩ := yields_pure.mp hpure
    rw [List.append_nil]
    exact ⟨Traced.only_freeList0 _ _ _ _ _ hloop, Traced.freeList0_still hrelease hloop,
      fun _ => inShape_none⟩

theorem inShape_of_quiet (hrelease : cb.release ≠ none) {history : List (ManagerEvent ι δ γ)}
    {t : Option (ListMgr ι δ)} (h : Run (· = some alloc) (ManagerStep cb blank) history t) :
    (Each (fun _ e => Honoured e.acts) history ↔
      Each (fun _ e => e.op.Quiet cb e.before) history) ∧
    (Each (fun _ e => e.op.Quiet cb e.before) history → InShape t) := by
  induction h with
  | start h =>
    subst h
    exact ⟨by simp [each_nil], fun _ => inShape_some shape_alloc rfl⟩
  | @step past t t' e hrun h ih =>
    obtain ⟨rfl, hallowed, hyields⟩ := h
    obtain ⟨ihiff, ihshape⟩ := ih
    rw [each_concat, each_concat, ihiff]
    have hstep (hquiet : Each (fun _ e => e.op.Quiet cb e.before) past) :
        (Honoured e.acts ↔ e.op.Quiet cb e.before) ∧ (e.op.Quiet cb e.before → InShape t') := by
      obtain ⟨hmtx, L, H⟩ := ihshape hquiet _ rfl
      obtain ⟨hnode, hstill, hshape⟩ := traced_still hrelease H hmtx hallowed hyields
      exact ⟨(honoured_iff hnode).trans hstill, hshape⟩
    exact ⟨and_congr_right fun hquiet => (hstep hquiet).1, fun hquiet => (hstep hquiet.1).2 hquiet.2⟩

/-- The contract of `release` is kept in a run if and only if no operation of the run has a node to
release. -/
theorem release_contract (hrelease : cb.release ≠ none) {history : List (ManagerEvent ι δ γ)}
    {t : Option (ListMgr ι δ)} (h : Run (· = some alloc) (ManagerStep cb blank) history t) :
    Each (fun _ e => Honoured e.acts) history ↔ Each (fun _ e => e.op.Quiet cb e.before) history :=
  (inShape_of_quiet hrelease h).1

end Runs

section Sample

/-- `release` leaves the node and the flag as they are. -/
def releasing : Callbacks (ℕ × ℕ) (ℕ × ℕ) :=
  { sampleCallbacks with release := some fun cell reuse => (cell, reuse) }

theorem managerRun_next [DecidableEq ι] {cb : Callbacks δ γ} {blank : δ}
    {past : List (ManagerEvent ι δ γ)} {t : Option (ListMgr ι δ)} {c : ManagerOp ι γ}
    {acts : List ListAct} (h : Run (· = some alloc) (ManagerStep cb blank) past (some s))
    (hallowed : c.Allowed s) (hyields : (s.traced cb blank c).Yields t acts) :
    Run (· = some alloc) (ManagerStep cb blank) (past ++ [⟨s, c, acts⟩]) t :=
  Run.step h ⟨rfl, hallowed, hyields⟩

/-- The clean up finds nothing to remove, and the freed list and the free list are empty. -/
theorem release_contract_sample : ∃ history : List (ManagerEvent Bool (ℕ × ℕ) (ℕ × ℕ)),
    Run (· = some alloc) (ManagerStep releasing (0, 0)) history none ∧
      history.map (fun e => e.op) =
        [.update false (7, 6) (some 10), .cleanUp false (0, 5), .freeList true true, .free] ∧
      Each (fun _ e => Honoured e.acts) history := by
  have h₀ : Run (· = some alloc) (@ManagerStep Bool _ _ _ releasing (0, 0)) [] (some alloc) :=
    Run.start rfl
  have h₁ := managerRun_next h₀ (c := .update false (7, 6) (some 10)) (unused_some rfl) rfl
  have h₂ := managerRun_next h₁ (c := .cleanUp false (0, 5)) trivial rfl
  have h₃ := managerRun_next h₂ (c := .freeList true true) trivial rfl
  have h₄ := managerRun_next h₃ (c := .free) trivial rfl
  refine ⟨_, h₄, rfl, (release_contract (by simp [releasing]) h₄).mpr ?_⟩
  simp only [each_concat]
  refine ⟨⟨⟨⟨each_nil _, trivial⟩, ?_⟩, rfl⟩, rfl⟩
  change ∀ c ∈ [((10 : Ptr), ((7, 6) : ℕ × ℕ))], releasing.cleans (0, 5) c = false
  decide

/-- A clean up gives the node to `release`, where `set` and `cleanup` have got its data. -/
theorem release_contract_fails : ∃ (history : List (ManagerEvent Bool (ℕ × ℕ) (ℕ × ℕ)))
    (t : Option (ListMgr Bool (ℕ × ℕ))),
    Run (· = some alloc) (ManagerStep releasing (0, 0)) history t ∧
      history.map (fun e => (e.op, e.acts)) =
        [(.update false (7, 1) (some 10), [.set (.data 10)]),
          (.cleanUp false (0, 5), [.cleanup (.data 10), .release (.node 10) true, .moved 10 true])] ∧
      ¬ Each (fun _ e => Honoured e.acts) history := by
  have h₀ : Run (· = some alloc) (@ManagerStep Bool _ _ _ releasing (0, 0)) [] (some alloc) :=
    Run.start rfl
  have h₁ := managerRun_next h₀ (c := .update false (7, 1) (some 10)) (unused_some rfl) rfl
  have h₂ := managerRun_next h₁ (c := .cleanUp false (0, 5)) trivial rfl
  refine ⟨_, _, h₂, rfl, fun hall => ?_⟩
  have hlast : Honoured [.cleanup (.data 10), .release (.node 10) true, .moved 10 true] :=
    (each_concat.mp hall).2
  rw [honoured_iff (by simp [ListAct.WithNode])] at hlast
  simp [Still, ListAct.isMove] at hlast

end Sample

end ListMgr

end Csptp
