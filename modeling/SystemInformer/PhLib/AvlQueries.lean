import SystemInformer.PhLib.AvlTree

/-!
# `avltree.c`: bounds, neighbours and enumeration

Nothing here writes to the links. The four searches for a bound go down one path and remember an
element of it; they differ in which comparisons lead to the right and in which turns are
remembered. The neighbours of an element are found below it or on the way up, where the sentinel
ends the way: the tree hangs off its `Right`, so a climb that came from the right passes it and a
climb that came from the left stops at it.

`PhEnumAvlTree` keeps the elements whose subtree is half done on an array of 47 links. A push onto
the full array ends the run without a result, as a null pointer does.
-/

namespace SystemInformer.PhLib

open BalTree

variable {α : Type}

/-! ## Bounds -/

def phFindElementAvlTree (fuel : Nat) (tree : AvlTree α) (element : α) :
    Option (Option (AvlRef α)) := do
  let (links, result) ← phpFindElementAvlTree fuel tree element
  some (if result = 0 then some links else none)

/-- The loop of the searches: where `right` leads, and the side that `closest` is set on. -/
def boundLoop (tree : AvlTree α) (element : α) (right : Int → Bool) (side : Side) :
    Nat → Option (AvlRef α) → Option (AvlRef α) → Option (Option (AvlRef α))
  | 0, _, _ => none
  | _ + 1, none, closest => some closest
  | _ + 1, some .root, _ => none
  | fuel + 1, some (.element links), closest =>
      let turn : Side := if right (tree.compareFunction element links) then .right else .left
      boundLoop tree element right side fuel ((tree.heap (.element links)).child turn)
        (if turn = side then some (.element links) else closest)

def boundElement (right : Int → Bool) (side : Side) (fuel : Nat) (tree : AvlTree α)
    (element : α) : Option (Option (AvlRef α)) :=
  boundLoop tree element right side fuel (phRootElementAvlTree tree) none

def phLowerBoundElementAvlTree (fuel : Nat) (tree : AvlTree α) (element : α) :
    Option (Option (AvlRef α)) :=
  boundElement (fun result => result > 0) .left fuel tree element

def phUpperBoundElementAvlTree (fuel : Nat) (tree : AvlTree α) (element : α) :
    Option (Option (AvlRef α)) :=
  boundElement (fun result => result ≥ 0) .left fuel tree element

def phLowerDualBoundElementAvlTree (fuel : Nat) (tree : AvlTree α) (element : α) :
    Option (Option (AvlRef α)) :=
  boundElement (fun result => result > 0) .right fuel tree element

def phUpperDualBoundElementAvlTree (fuel : Nat) (tree : AvlTree α) (element : α) :
    Option (Option (AvlRef α)) :=
  boundElement (fun result => result ≥ 0) .right fuel tree element

/-! ## Neighbours -/

def endElement (d : Side) (fuel : Nat) (tree : AvlTree α) : Option (Option (AvlRef α)) :=
  match phRootElementAvlTree tree with
  | none => some none
  | some links => (lastChild d tree.heap fuel links).map some

def phMinimumElementAvlTree (fuel : Nat) (tree : AvlTree α) : Option (Option (AvlRef α)) :=
  endElement .left fuel tree

def phMaximumElementAvlTree (fuel : Nat) (tree : AvlTree α) : Option (Option (AvlRef α)) :=
  endElement .right fuel tree

/-- The trace back from side `d`: `links` is the parent of `element`. -/
def climbLoop [DecidableEq α] (d : Side) (h : AvlHeap α) :
    Nat → AvlRef α → Option (AvlRef α) → Option (Option (AvlRef α))
  | 0, _, _ => none
  | _ + 1, _, none => some none
  | fuel + 1, element, some links =>
      if (h links).child d = some element then climbLoop d h fuel links (h links).parent
      else some (some links)

def phSuccessorElementAvlTree [DecidableEq α] (fuel : Nat) (h : AvlHeap α) (element : AvlRef α) :
    Option (Option (AvlRef α)) :=
  match (h element).right with
  | some right => (lastChild .left h fuel right).map some
  | none => climbLoop .right h fuel element (h element).parent

def phPredecessorElementAvlTree [DecidableEq α] (fuel : Nat) (h : AvlHeap α)
    (element : AvlRef α) : Option (Option (AvlRef α)) :=
  match (h element).left with
  | some left => (lastChild .right h fuel left).map some
  | none => do
      match ← climbLoop .left h fuel element (h element).parent with
      | none => some none
      -- The tree is stored in `Right` of the sentinel.
      | some links => some (if (h links).parent = none then none else some links)

/-- The loop of a caller: `links` and what comes after it, until null. -/
def iterateLinks (next : AvlRef α → Option (Option (AvlRef α))) :
    Nat → Option (AvlRef α) → Option (List (AvlRef α))
  | 0, _ => none
  | _ + 1, none => some []
  | fuel + 1, some links => do
      let rest ← iterateLinks next fuel (← next links)
      some (links :: rest)

/-- From the minimum, one successor after the other. -/
def iterateForward [DecidableEq α] (fuel : Nat) (tree : AvlTree α) : Option (List (AvlRef α)) := do
  iterateLinks (phSuccessorElementAvlTree fuel tree.heap) fuel (← phMinimumElementAvlTree fuel tree)

/-- From the maximum, one predecessor after the other. -/
def iterateBackward [DecidableEq α] (fuel : Nat) (tree : AvlTree α) :
    Option (List (AvlRef α)) := do
  iterateLinks (phPredecessorElementAvlTree fuel tree.heap) fuel
    (← phMaximumElementAvlTree fuel tree)

/-! ## Enumeration -/

inductive TreeEnumerationOrder where
  | inOrder
  | inReverseOrder

def TreeEnumerationOrder.side : TreeEnumerationOrder → Side
  | .inOrder => .left
  | .inReverseOrder => .right

/-- The length of `stackBase`. -/
def stackBaseLength : Nat := 47

/-- The loop that pushes an element and its descendants on one side. -/
def pushLoop (d : Side) (h : AvlHeap α) :
    Nat → Option (AvlRef α) → List (AvlRef α) → Option (List (AvlRef α))
  | 0, _, _ => none
  | _ + 1, none, stack => some stack
  | fuel + 1, some links, stack =>
      if stack.length < stackBaseLength then
        pushLoop d h fuel ((h links).child d) (links :: stack)
      else none

/-- The loop that pops and calls back. The callback reads and changes its context; the calls that
were made are returned beside it. -/
def enumLoop {σ : Type} (d : Side) (h : AvlHeap α) (callback : AvlRef α → σ → Bool × σ) :
    Nat → List (AvlRef α) → σ → Option (List (AvlRef α) × σ)
  | 0, _, _ => none
  | _ + 1, [], context => some ([], context)
  | fuel + 1, links :: stack, context =>
      match callback links context with
      | (false, context) => some ([links], context)
      | (true, context) => do
          let stack ← pushLoop d h fuel ((h links).child d.opp) stack
          let (calls, context) ← enumLoop d h callback fuel stack context
          some (links :: calls, context)

def phEnumAvlTree {σ : Type} (fuel : Nat) (tree : AvlTree α) (order : TreeEnumerationOrder)
    (callback : AvlRef α → σ → Bool × σ) (context : σ) : Option (List (AvlRef α) × σ) := do
  let stack ← pushLoop order.side tree.heap fuel (phRootElementAvlTree tree) []
  enumLoop order.side tree.heap callback fuel stack context

end SystemInformer.PhLib
