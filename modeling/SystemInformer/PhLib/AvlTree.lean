import SystemInformer.Lib.BalTree

/-!
# `avltree.c`: the AVL tree on linked elements

The links are embedded in the caller's elements, so the model is a heap: the
address of the sentinel `Tree->Root` and the addresses of the elements each hold
a `PH_AVL_LINKS`, and every function reads and writes those. An access through
a null pointer ends the run, and so does a loop that outlasts its fuel: both
are `none`.

The left and right rotations of the source are mirror images statement by
statement, and so are the two halves of `PhpRebalanceAvlLinks`; each pair is one
definition over the side.
-/

namespace SystemInformer.PhLib

open BalTree

/-- The address of a `PH_AVL_LINKS`: the tree's own `Root`, or an element's. -/
inductive AvlRef (α : Type) where
  | root
  | element (a : α)
  deriving DecidableEq

structure AvlLinks (α : Type) where
  parent : Option (AvlRef α)
  left : Option (AvlRef α)
  right : Option (AvlRef α)
  balance : Int

abbrev AvlHeap (α : Type) := AvlRef α → AvlLinks α

/-- `PH_AVL_TREE`, with the memory its links live in. -/
structure AvlTree (α : Type) where
  heap : AvlHeap α
  count : UInt32
  compareFunction : α → α → Int

variable {α : Type}

def AvlLinks.child (l : AvlLinks α) : Side → Option (AvlRef α)
  | .left => l.left
  | .right => l.right

def AvlLinks.setChild (l : AvlLinks α) (d : Side) (p : Option (AvlRef α)) : AvlLinks α :=
  match d with
  | .left => { l with left := p }
  | .right => { l with right := p }

def AvlLinks.setParent (l : AvlLinks α) (p : Option (AvlRef α)) : AvlLinks α :=
  { l with parent := p }

def AvlLinks.setBalance (l : AvlLinks α) (b : Int) : AvlLinks α := { l with balance := b }

/-- The address of a `Left` or `Right` field. -/
structure AvlSlot (α : Type) where
  owner : AvlRef α
  side : Side

variable [DecidableEq α]

namespace AvlHeap

def setParent (h : AvlHeap α) (x : AvlRef α) (p : Option (AvlRef α)) : AvlHeap α :=
  Function.update h x ((h x).setParent p)

def setChild (h : AvlHeap α) (x : AvlRef α) (d : Side) (p : Option (AvlRef α)) : AvlHeap α :=
  Function.update h x ((h x).setChild d p)

def setBalance (h : AvlHeap α) (x : AvlRef α) (b : Int) : AvlHeap α :=
  Function.update h x ((h x).setBalance b)

/-- `if (X) X->Parent = P`. -/
def setParentOf (h : AvlHeap α) (x : Option (AvlRef α)) (p : AvlRef α) : AvlHeap α :=
  match x with
  | none => h
  | some x => setParent h x (some p)

end AvlHeap

open AvlHeap

/-! ## Initialisation and search -/

def phInitializeAvlTree (h : AvlHeap α) (compareFunction : α → α → Int) : AvlTree α :=
  ⟨Function.update h .root ⟨none, none, none, 0⟩, 0, compareFunction⟩

def phRootElementAvlTree (tree : AvlTree α) : Option (AvlRef α) := (tree.heap .root).right

/-- The loop of `PhpFindElementAvlTree`; only elements are ever compared. -/
def findLoop (tree : AvlTree α) (element : α) : Nat → AvlRef α → Option (AvlRef α × Int)
  | 0, _ => none
  | _ + 1, .root => none
  | fuel + 1, .element links =>
      let result := tree.compareFunction element links
      if result = 0 then
        some (.element links, 0)
      else if result < 0 then
        match (tree.heap (.element links)).left with
        | some left => findLoop tree element fuel left
        | none => some (.element links, -1)
      else
        match (tree.heap (.element links)).right with
        | some right => findLoop tree element fuel right
        | none => some (.element links, 1)

def phpFindElementAvlTree (fuel : Nat) (tree : AvlTree α) (element : α) :
    Option (AvlRef α × Int) :=
  match phRootElementAvlTree tree with
  | none => some (.root, 1)
  | some links => findLoop tree element fuel links

/-! ## Rotations -/

/-- One rotation towards side `d`: `P` gives way to its child `Q` on the other
side. -/
def rotateAvlLinks (d : Side) (h : AvlHeap α) (root : AvlSlot α) : Option (AvlHeap α) := do
  let P ← (h root.owner).child root.side
  let Q ← (h P).child d.opp
  -- The new root is Q.
  let h := setChild h root.owner root.side (some Q)
  let h := setParent h Q (h P).parent
  -- Transfer B.
  let h := setChild h P d.opp ((h Q).child d)
  let h := setParentOf h ((h P).child d.opp) P
  let h := setChild h Q d (some P)
  some (setParent h P (some Q))

/-- Two rotations towards side `d` at once: `P` gives way to its grandchild `R`. -/
def rotateTwiceAvlLinks (d : Side) (h : AvlHeap α) (root : AvlSlot α) :
    Option (AvlHeap α) := do
  let P ← (h root.owner).child root.side
  let Q ← (h P).child d.opp
  let R ← (h Q).child d
  -- The new root is R.
  let h := setChild h root.owner root.side (some R)
  let h := setParent h R (h P).parent
  -- Transfer C.
  let h := setChild h Q d ((h R).child d.opp)
  let h := setParentOf h ((h Q).child d) Q
  let h := setChild h R d.opp (some Q)
  let h := setParent h Q (some R)
  -- Transfer B.
  let h := setChild h P d.opp ((h R).child d)
  let h := setParentOf h ((h P).child d.opp) P
  let h := setChild h R d (some P)
  some (setParent h P (some R))

def phpRotateLeftAvlLinks (h : AvlHeap α) (root : AvlSlot α) : Option (AvlHeap α) :=
  rotateAvlLinks .left h root

def phpRotateRightAvlLinks (h : AvlHeap α) (root : AvlSlot α) : Option (AvlHeap α) :=
  rotateAvlLinks .right h root

def phpRotateLeftTwiceAvlLinks (h : AvlHeap α) (root : AvlSlot α) : Option (AvlHeap α) :=
  rotateTwiceAvlLinks .left h root

def phpRotateRightTwiceAvlLinks (h : AvlHeap α) (root : AvlSlot α) : Option (AvlHeap α) :=
  rotateTwiceAvlLinks .right h root

/-! ## Rebalancing -/

/-- The half of `PhpRebalanceAvlLinks` for a node that is too heavy on side `e`,
with the rotations away from it. -/
def rebalanceSide (e : Side) (rotate rotateTwice : AvlHeap α → AvlSlot α → Option (AvlHeap α))
    (h : AvlHeap α) (root : AvlSlot α) (P : AvlRef α) : Option (AvlHeap α × Nat) := do
  let Q ← (h P).child e
  if (h Q).balance = e.sign then
    let h ← rotate h root
    some (setBalance (setBalance h P 0) Q 0, 1)
  else if (h Q).balance = e.opp.sign then
    let R ← (h Q).child e.opp
    let h ← rotateTwice h root
    let h :=
      if (h R).balance = e.sign then setBalance (setBalance h P e.opp.sign) Q 0
      else if (h R).balance = e.opp.sign then setBalance (setBalance h P 0) Q e.sign
      else setBalance (setBalance h P 0) Q 0
    some (setBalance h R 0, 2)
  else
    -- Special (only occurs when removing).
    let h ← rotate h root
    some (setBalance h Q e.opp.sign, 3)

def phpRebalanceAvlLinks (h : AvlHeap α) (root : AvlSlot α) : Option (AvlHeap α × Nat) := do
  let P ← (h root.owner).child root.side
  if (h P).balance = -1 then
    rebalanceSide .left phpRotateRightAvlLinks phpRotateRightTwiceAvlLinks h root P
  else
    rebalanceSide .right phpRotateLeftAvlLinks phpRotateLeftTwiceAvlLinks h root P

/-- The field of `parent` that holds `P`: `Left` if it is there, else `Right`. -/
def slotOf (h : AvlHeap α) (parent P : AvlRef α) : AvlSlot α :=
  if (h parent).left = some P then ⟨parent, .left⟩ else ⟨parent, .right⟩

/-! ## Adding -/

/-- The loop that traces upwards after a link was added below `P`. -/
def addLoop (rootElement : AvlRef α) : Nat → AvlHeap α → AvlRef α → Option (AvlHeap α)
  | 0, _, _ => none
  | fuel + 1, h, P =>
      if P = rootElement then
        some h
      else do
        let parent ← (h P).parent
        let balance := (slotOf h parent P).side.sign
        let P := parent
        if (h P).balance = 0 then
          addLoop rootElement fuel (setBalance h P balance) P
        else if (h P).balance ≠ balance then
          some (setBalance h P 0)
        else
          let parent ← (h P).parent
          let r ← phpRebalanceAvlLinks h (slotOf h parent P)
          some r.1

/-- `none` stands for the null pointer in the result: the element was added. -/
def phAddElementAvlTree (fuel : Nat) (tree : AvlTree α) (element : α) :
    Option (AvlTree α × Option (AvlRef α)) := do
  let (P, result) ← phpFindElementAvlTree fuel tree element
  if result = 0 then
    some (tree, some P)
  else
    let side : Side := if result < 0 then .left else .right
    let h := setChild tree.heap P side (some (.element element))
    let h := Function.update h (.element element) ⟨some P, none, none, 0⟩
    let rootElement ← (h .root).right
    let h ← addLoop rootElement fuel h (.element element)
    some ({ tree with heap := h, count := tree.count + 1 }, none)

/-! ## Removing -/

/-- `while (X->Left) X = X->Left`, and its mirror image. -/
def lastChild (d : Side) (h : AvlHeap α) : Nat → AvlRef α → Option (AvlRef α)
  | 0, _ => none
  | fuel + 1, x =>
      match (h x).child d with
      | some y => lastChild d h fuel y
      | none => some x

/-- The loop that traces upwards after a link was removed from side `balance`
of `P`. -/
def removeLoop : Nat → AvlHeap α → AvlRef α → Int → Option (AvlHeap α)
  | 0, _, _, _ => none
  | fuel + 1, h, P, balance =>
      let trace (h : AvlHeap α) (P : AvlRef α) : Option (AvlHeap α) := do
        let parent ← (h P).parent
        removeLoop fuel h parent (slotOf h parent P).side.sign
      if P = .root then
        some h
      else if (h P).balance = balance then
        trace (setBalance h P 0) P
      else if (h P).balance = 0 then
        some (setBalance h P (-balance))
      else do
        let parent ← (h P).parent
        let r ← phpRebalanceAvlLinks h (slotOf h parent P)
        -- A special case rotation keeps the height.
        if r.2 = 3 then
          some r.1
        else
          let P ← (r.1 P).parent
          trace r.1 P

/-- The node that is unlinked in the element's place. -/
def replacementOf (fuel : Nat) (h : AvlHeap α) (element : AvlRef α) : Option (AvlRef α) :=
  match (h element).left, (h element).right with
  | some left, some right =>
      if 0 ≤ (h element).balance then lastChild .left h fuel right
      else lastChild .right h fuel left
  | _, _ => some element

/-- The node's only subtree moves up into its place. -/
def moveSubtreeUp (h : AvlHeap α) (newElement parent : AvlRef α) (replace : AvlSlot α) :
    AvlHeap α :=
  match (h newElement).right with
  | none =>
      let h := setChild h replace.owner replace.side (h newElement).left
      setParentOf h (h newElement).left parent
  | some right =>
      setParentOf (setChild h replace.owner replace.side (some right)) (some right) parent

/-- The node is unlinked, and the loop follows. -/
def unlinkElement (fuel : Nat) (h : AvlHeap α) (newElement : AvlRef α) :
    Option (AvlHeap α) := do
  let parent ← (h newElement).parent
  let replace := slotOf h parent newElement
  let h := moveSubtreeUp h newElement parent replace
  let P ← (h newElement).parent
  removeLoop fuel h P replace.side.sign

/-- `*newElement = *Element`, with the links to it redirected. -/
def replaceSubject (h : AvlHeap α) (element newElement : AvlRef α) : Option (AvlHeap α) := do
  let h := Function.update h newElement (h element)
  let parent ← (h element).parent
  let side := (slotOf h parent element).side
  let newParent ← (h newElement).parent
  let h := setChild h newParent side (some newElement)
  let h := setParentOf h (h newElement).left newElement
  some (setParentOf h (h newElement).right newElement)

def removeLinks (fuel : Nat) (h : AvlHeap α) (element : AvlRef α) : Option (AvlHeap α) := do
  let newElement ← replacementOf fuel h element
  let h ← unlinkElement fuel h newElement
  if newElement = element then some h else replaceSubject h element newElement

def phRemoveElementAvlTree (fuel : Nat) (tree : AvlTree α) (element : α) :
    Option (AvlTree α) := do
  let h ← removeLinks fuel tree.heap (.element element)
  some { tree with heap := h, count := tree.count - 1 }

end SystemInformer.PhLib
