import Srv32.Data.SearchTree
import Mathlib.Data.BitVec
import Mathlib.Logic.Function.Basic

namespace Srv32.Gdb
open SearchTree (Side)

/-! The breakpoint map of the debugger stub, a tree of nodes on the heap. -/

abbrev Addr := ℕ

/-- A pointer; `none` is `NULL`. -/
abbrev Ptr := Option Addr

inductive Color
  | red
  | black
deriving DecidableEq, Repr

structure Node where
  data : BitVec 32
  color : Color
  left : Ptr
  right : Ptr
  parent : Ptr
deriving DecidableEq, Repr

def Node.child (n : Node) : Side → Ptr
  | .left => n.left
  | .right => n.right

def Node.setChild (n : Node) (s : Side) (p : Ptr) : Node :=
  match s with
  | .left => { n with left := p }
  | .right => { n with right := p }

def Node.setParent (n : Node) (p : Ptr) : Node := { n with parent := p }
def Node.setColor (n : Node) (c : Color) : Node := { n with color := c }
def Node.setData (n : Node) (d : BitVec 32) : Node := { n with data := d }

/-- The nodes that are allocated and not freed. -/
abbrev Heap := Addr → Option Node

inductive Stop
  /-- A null or freed node is dereferenced. -/
  | fault
  /-- The call has not returned yet. -/
  | fuel
deriving DecidableEq, Repr

def load (h : Heap) (p : Ptr) : Except Stop Node :=
  match p.bind h with
  | some n => .ok n
  | none => .error .fault

/-- An assignment to a field of `*p`. -/
def modify (h : Heap) (p : Ptr) (f : Node → Node) : Except Stop Heap :=
  match p with
  | none => .error .fault
  | some a =>
    match h a with
    | none => .error .fault
    | some n => .ok (Function.update h a (some (f n)))

def free (h : Heap) (p : Ptr) : Except Stop Heap :=
  match p with
  | none => .ok h
  | some a => if h a = none then .error .fault else .ok (Function.update h a none)

/-- The heap and the `root` of `struct rv`. -/
structure Map where
  heap : Heap
  root : Ptr

def Map.empty : Map := ⟨fun _ => none, none⟩

/-- `p` is the address that `malloc` returns. -/
def createNode (h : Heap) (p : Addr) (data : BitVec 32) : Heap :=
  Function.update h p (some ⟨data, .red, none, none, none⟩)

def insertBST : ℕ → Heap → Ptr → Ptr → Except Stop (Heap × Ptr)
  | 0, _, _, _ => .error .fuel
  | k + 1, h, root, pt =>
    if root = none then .ok (h, pt) else do
      let p ← load h pt
      let r ← load h root
      if p.data.slt r.data then
        let (h, left) ← insertBST k h r.left pt
        let h ← modify h root (·.setChild .left left)
        let r ← load h root
        let h ← modify h r.left (·.setParent root)
        pure (h, root)
      else if r.data.slt p.data then
        let (h, right) ← insertBST k h r.right pt
        let h ← modify h root (·.setChild .right right)
        let r ← load h root
        let h ← modify h r.right (·.setParent root)
        pure (h, root)
      else
        -- a key that is there already: the new node is dropped, and leaks
        pure (h, root)

/-- The common body of the two rotations; `s` is the side `x` goes down to. -/
def rotate (s : Side) (m : Map) (x : Ptr) : Except Stop Map := do
  let y := (← load m.heap x).child s.other
  let yn ← load m.heap y
  -- the inner child of `y` goes over to `x`
  let h ← modify m.heap x (·.setChild s.other (yn.child s))
  let c := (← load h x).child s.other
  let h ← (if c ≠ none then modify h c (·.setParent x) else pure h)
  let q := (← load h x).parent
  let h ← modify h y (·.setParent q)
  let xn ← load h x
  -- `y` takes the place of `x`, at the root or below its parent
  let (h, root) ←
    (if xn.parent = none then pure (h, y) else do
      let p ← load h xn.parent
      let h ← modify h xn.parent (·.setChild (if x = p.left then .left else .right) y)
      pure (h, m.root))
  let h ← modify h y (·.setChild s x)
  let h ← modify h x (·.setParent y)
  pure ⟨h, root⟩

def rotateLeft : Map → Ptr → Except Stop Map := rotate .left

def rotateRight : Map → Ptr → Except Stop Map := rotate .right

/-- The condition of the loop of `fixViolation`. -/
def violates (m : Map) (pt : Ptr) : Except Stop Bool :=
  if pt = m.root then pure false else do
    let n ← load m.heap pt
    if n.color = .black then pure false else do
      let p ← load m.heap n.parent
      pure (p.color = .red)

def isRed (h : Heap) (p : Ptr) : Except Stop Bool :=
  if p = none then pure false else do
    let n ← load h p
    pure (n.color = .red)

/-- The body of the loop when the parent of `pt` is the child of its own parent on side `s`;
the two halves of the source differ in the sides only. -/
def fixSide (s : Side) (m : Map) (pt parentPt grandParentPt : Ptr) :
    Except Stop (Map × Ptr) := do
  let unclePt := (← load m.heap grandParentPt).child s.other
  if ← isRed m.heap unclePt then
    let h ← modify m.heap grandParentPt (·.setColor .red)
    let h ← modify h parentPt (·.setColor .black)
    let h ← modify h unclePt (·.setColor .black)
    pure (⟨h, m.root⟩, grandParentPt)
  else
    let p ← load m.heap parentPt
    let (m, parentPt) ←
      (if pt = p.child s.other then do
        let m ← rotate s m parentPt
        -- `pt` goes down to the old parent
        let n ← load m.heap parentPt
        pure (m, n.parent)
      else
        pure (m, parentPt))
    let m ← rotate s.other m grandParentPt
    -- the colours of parent and grandparent are swapped after the outer rotation
    let temp := (← load m.heap parentPt).color
    let c := (← load m.heap grandParentPt).color
    let h ← modify m.heap parentPt (·.setColor c)
    let h ← modify h grandParentPt (·.setColor temp)
    pure (⟨h, m.root⟩, parentPt)

def fixViolation : ℕ → Map → Ptr → Except Stop Map
  | 0, _, _ => .error .fuel
  | k + 1, m, pt => do
    if ← violates m pt then
      let parentPt := (← load m.heap pt).parent
      let grandParentPt := (← load m.heap parentPt).parent
      let g ← load m.heap grandParentPt
      let (m, pt) ←
        (if parentPt = g.left then fixSide .left m pt parentPt grandParentPt
        else fixSide .right m pt parentPt grandParentPt)
      fixViolation k m pt
    else
      let h ← modify m.heap m.root (·.setColor .black)
      pure ⟨h, m.root⟩

def minValueNode : ℕ → Heap → Ptr → Except Stop Ptr
  | 0, _, _ => .error .fuel
  | k + 1, h, current => do
    let n ← load h current
    if n.left = none then pure current else minValueNode k h n.left

def deleteNodeBST : ℕ → Heap → Ptr → BitVec 32 → Except Stop (Heap × Ptr)
  | 0, _, _, _ => .error .fuel
  | k + 1, h, root, data =>
    if root = none then .ok (h, root) else do
      let r ← load h root
      if data.slt r.data then
        let (h, left) ← deleteNodeBST k h r.left data
        let h ← modify h root (·.setChild .left left)
        pure (h, root)
      else if r.data.slt data then
        let (h, right) ← deleteNodeBST k h r.right data
        let h ← modify h root (·.setChild .right right)
        pure (h, root)
      else if r.left = none ∨ r.right = none then
        let temp := if r.left ≠ none then r.left else r.right
        if temp = none then
          let h ← free h root
          pure (h, none)
        else
          -- `*root = *temp` takes over the parent pointer too
          let t ← load h temp
          let h ← modify h root (fun _ => t)
          let h ← free h temp
          pure (h, root)
      else
        -- two children: the successor's key comes up, and its node is deleted below
        let temp ← minValueNode k h r.right
        let t ← load h temp
        let h ← modify h root (·.setData t.data)
        let r ← load h root
        let t ← load h temp
        let (h, right) ← deleteNodeBST k h r.right t.data
        let h ← modify h root (·.setChild .right right)
        pure (h, root)

def insertNode (k : ℕ) (m : Map) (data : BitVec 32) (p : Addr) : Except Stop Map := do
  let (h, root) ← insertBST k (createNode m.heap p data) m.root (some p)
  fixViolation k ⟨h, root⟩ (some p)

def deleteNode (k : ℕ) (m : Map) (data : BitVec 32) : Except Stop Map := do
  let (h, root) ← deleteNodeBST k m.heap m.root data
  pure ⟨h, root⟩

def findNode : ℕ → Heap → Ptr → BitVec 32 → Except Stop Ptr
  | 0, _, _, _ => .error .fuel
  | k + 1, h, root, data =>
    if root = none then .ok root else do
      let r ← load h root
      if r.data = data then pure root
      else if r.data.slt data then findNode k h r.right data
      else findNode k h r.left data

/-- `software` tells whether the type is `BP_SOFTWARE`; the key is the address cut to `int`. -/
def srvSetBp (k : ℕ) (m : Map) (addr : BitVec 64) (software : Bool) (p : Addr) :
    Except Stop (Map × Bool) := do
  if !software then
    pure (m, true)
  else
    let m ← insertNode k m (addr.setWidth 32) p
    pure (m, true)

def srvDelBp (k : ℕ) (m : Map) (addr : BitVec 64) (software : Bool) :
    Except Stop (Map × Bool) := do
  if !software then
    pure (m, true)
  else
    let n ← findNode k m.heap m.root (addr.setWidth 32)
    if n = none then
      pure (m, true)
    else
      let m ← deleteNode k m (addr.setWidth 32)
      pure (m, true)

end Srv32.Gdb
