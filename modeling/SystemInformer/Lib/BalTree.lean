import Mathlib

/-!
# Balanced binary trees and their one-hole contexts

A node of the tree carries a stored balance beside its element. `Balanced` says
that every stored balance is the height of the right subtree less that of the
left one and is -1, 0 or 1; nothing recomputes a balance, so an algorithm that
keeps `Balanced` has kept its stored balances right.

Left and right only differ by a sign here: `join d x a b y` is the node whose
subtree on side `d` is `x`, and the rotations are written once for a heavy side.
A context is the path from a hole up to the root, innermost frame first.
-/

namespace BalTree

inductive Side where
  | left
  | right
  deriving DecidableEq

def Side.opp : Side → Side
  | .left => .right
  | .right => .left

/-- The balance of a node heavier on this side. -/
def Side.sign : Side → Int
  | .left => -1
  | .right => 1

@[simp] theorem Side.opp_opp (d : Side) : d.opp.opp = d := by
  cases d <;> rfl

@[simp] theorem Side.sign_opp (d : Side) : d.opp.sign = -d.sign := by
  cases d <;> rfl

theorem Side.sign_eq (d : Side) : d.sign = -1 ∨ d.sign = 1 := by
  cases d with
  | left => exact Or.inl rfl
  | right => exact Or.inr rfl

inductive BTree (α : Type) where
  | nil
  | node (l : BTree α) (a : α) (b : Int) (r : BTree α)

variable {α : Type}

/-- The node with subtree `x` on side `d` and `y` on the other. -/
def BTree.join (d : Side) (x : BTree α) (a : α) (b : Int) (y : BTree α) : BTree α :=
  match d with
  | .left => .node x a b y
  | .right => .node y a b x

@[simp] theorem BTree.join_opp (d : Side) (x y : BTree α) (a : α) (b : Int) :
    BTree.join d.opp x a b y = BTree.join d y a b x := by
  cases d <;> rfl

theorem BTree.node_eq_join (l r : BTree α) (a : α) (b : Int) (d : Side) :
    ∃ x y, BTree.node l a b r = BTree.join d x a b y := by
  cases d with
  | left => exact ⟨l, r, rfl⟩
  | right => exact ⟨r, l, rfl⟩

/-- Induction with the subtrees named by their side. -/
@[elab_as_elim]
theorem BTree.join_induction {motive : BTree α → Prop} (d : Side) (nil : motive .nil)
    (join : ∀ x a b y, motive x → motive y → motive (BTree.join d x a b y)) (t : BTree α) :
    motive t := by
  induction t with
  | nil => exact nil
  | node l a b r ihl ihr =>
      cases d with
      | left => exact join l a b r ihl ihr
      | right => exact join r a b l ihr ihl

def BTree.toList : BTree α → List α
  | .nil => []
  | .node l a _ r => l.toList ++ a :: r.toList

def BTree.height : BTree α → Nat
  | .nil => 0
  | .node l _ _ r => max l.height r.height + 1

theorem BTree.height_le_length (t : BTree α) : t.height ≤ t.toList.length := by
  induction t with
  | nil => exact Nat.le_refl 0
  | node l a b r ihl ihr =>
      simp only [BTree.height, BTree.toList, List.length_append, List.length_cons]
      omega

def BTree.balance : BTree α → Int
  | .nil => 0
  | .node _ _ b _ => b

def BTree.Balanced : BTree α → Prop
  | .nil => True
  | .node l _ b r =>
      b = (r.height : Int) - l.height ∧ -1 ≤ b ∧ b ≤ 1 ∧ l.Balanced ∧ r.Balanced

@[simp] theorem BTree.height_join (d : Side) (x y : BTree α) (a : α) (b : Int) :
    (BTree.join d x a b y).height = max x.height y.height + 1 := by
  cases d with
  | left => rfl
  | right => simp only [BTree.join, BTree.height, Nat.max_comm]

@[simp] theorem BTree.balance_join (d : Side) (x y : BTree α) (a : α) (b : Int) :
    (BTree.join d x a b y).balance = b := by
  cases d <;> rfl

theorem BTree.exists_join {t : BTree α} (d : Side) (h : t.height ≠ 0) :
    ∃ x a b y, t = BTree.join d x a b y := by
  cases t with
  | nil => exact absurd rfl h
  | node l a b r =>
      obtain ⟨x, y, hxy⟩ := BTree.node_eq_join l r a b d
      exact ⟨x, a, b, y, hxy⟩

theorem BTree.balanced_join {d : Side} {x y : BTree α} {a : α} {b : Int} :
    (BTree.join d x a b y).Balanced ↔
      d.sign * b = (x.height : Int) - y.height ∧ -1 ≤ b ∧ b ≤ 1 ∧
        x.Balanced ∧ y.Balanced := by
  cases d with
  | left =>
      simp only [BTree.join, BTree.Balanced, Side.sign]
      constructor
      · intro h
        exact ⟨by omega, h.2⟩
      · intro h
        exact ⟨by omega, h.2⟩
  | right =>
      simp only [BTree.join, BTree.Balanced, Side.sign, Int.one_mul]
      constructor
      · intro h
        exact ⟨h.1, h.2.1, h.2.2.1, h.2.2.2.2, h.2.2.2.1⟩
      · intro h
        exact ⟨h.1, h.2.1, h.2.2.1, h.2.2.2.2, h.2.2.2.1⟩

theorem BTree.mem_join {d : Side} {x y : BTree α} {a : α} {b : Int} {v : α} :
    v ∈ (BTree.join d x a b y).toList ↔ v = a ∨ v ∈ x.toList ∨ v ∈ y.toList := by
  cases d with
  | left => simp only [BTree.join, BTree.toList, List.mem_append, List.mem_cons, or_left_comm]
  | right =>
      simp only [BTree.join, BTree.toList, List.mem_append, List.mem_cons]
      rw [or_left_comm, or_comm (a := v ∈ y.toList)]

theorem BTree.toList_join_perm (d : Side) (x y : BTree α) (a : α) (b : Int) :
    (BTree.join d x a b y).toList.Perm (a :: (x.toList ++ y.toList)) := by
  cases d with
  | left => exact List.perm_middle
  | right => exact List.perm_middle.trans (List.Perm.cons a List.perm_append_comm)

theorem BTree.nodup_join {d : Side} {x y : BTree α} {a : α} {b : Int} :
    (BTree.join d x a b y).toList.Nodup ↔
      (a ∉ x.toList ∧ a ∉ y.toList) ∧ x.toList.Nodup ∧ y.toList.Nodup ∧
        ∀ v ∈ x.toList, v ∉ y.toList := by
  rw [(BTree.toList_join_perm d x y a b).nodup_iff, List.nodup_cons, List.mem_append, not_or,
    List.nodup_append]
  simp only [ne_eq, List.forall_mem_ne]

/-- The elements in order from side `d` to the other. -/
def BTree.listFrom (d : Side) (t : BTree α) : List α :=
  match d with
  | .left => t.toList
  | .right => t.toList.reverse

@[simp] theorem BTree.listFrom_nil (d : Side) : (BTree.nil : BTree α).listFrom d = [] := by
  cases d <;> rfl

theorem BTree.listFrom_join (d : Side) (x y : BTree α) (a : α) (b : Int) :
    (BTree.join d x a b y).listFrom d = x.listFrom d ++ a :: y.listFrom d := by
  cases d with
  | left => rfl
  | right => simp [BTree.listFrom, BTree.join, BTree.toList]

theorem BTree.mem_listFrom {d : Side} {t : BTree α} {a : α} : a ∈ t.listFrom d ↔ a ∈ t.toList := by
  cases d with
  | left => exact Iff.rfl
  | right => exact List.mem_reverse

theorem BTree.length_listFrom (d : Side) (t : BTree α) :
    (t.listFrom d).length = t.toList.length := by
  cases d with
  | left => rfl
  | right => exact List.length_reverse

/-- The fewest elements that a balanced tree of a height has are counted by Fibonacci numbers. -/
theorem BTree.Balanced.fib_height_le {t : BTree α} (h : t.Balanced) :
    Nat.fib (t.height + 2) ≤ t.toList.length + 1 := by
  induction t with
  | nil => exact Nat.le_refl 1
  | node l a b r ihl ihr =>
      obtain ⟨hb, hlo, hhi, hl, hr⟩ := h
      have hleft := ihl hl
      have hright := ihr hr
      have hstep : ∀ n, Nat.fib (n + 1 + 2) = Nat.fib (n + 1) + Nat.fib (n + 2) :=
        fun n => Nat.fib_add_two
      have hlower : ∀ {t : BTree α} {n : Nat}, n ≤ t.height + 2 →
          Nat.fib (t.height + 2) ≤ t.toList.length + 1 → Nat.fib n ≤ t.toList.length + 1 :=
        fun hn ht => (Nat.fib_mono hn).trans ht
      rw [BTree.height, BTree.toList, List.length_append, List.length_cons]
      rcases Nat.le_total l.height r.height with hle | hle
      · rw [Nat.max_eq_right hle, hstep]
        have hshort := hlower (show r.height + 1 ≤ l.height + 2 by omega) hleft
        omega
      · rw [Nat.max_eq_left hle, hstep]
        have hshort := hlower (show l.height + 1 ≤ r.height + 2 by omega) hright
        omega

/-! ## Rotations -/

/-- Both single rotations keep the order of the elements. -/
theorem BTree.toList_rotate (d : Side) (x y z : BTree α) (p q : α) (b b' c c' : Int) :
    (BTree.join d (BTree.join d z p b' y) q c' x).toList =
      (BTree.join d z p b (BTree.join d y q c x)).toList := by
  cases d <;> simp [BTree.join, BTree.toList]

/-- So do both double ones. -/
theorem BTree.toList_rotateTwice (d : Side) (w x y z : BTree α) (p q r : α)
    (b b' c c' e e' : Int) :
    (BTree.join d (BTree.join d z p b' y) r e' (BTree.join d x q c' w)).toList =
      (BTree.join d z p b (BTree.join d (BTree.join d y r e x) q c w)).toList := by
  cases d <;> simp [BTree.join, BTree.toList]

/-! ## Contexts -/

structure Frame (α : Type) where
  side : Side
  elem : α
  balance : Int
  sibling : BTree α

/-- A path from a hole to the root. -/
abbrev Ctx (α : Type) := List (Frame α)

/-- The tree with `t` in the hole. -/
def plug : Ctx α → BTree α → BTree α
  | [], t => t
  | f :: c, t => plug c (BTree.join f.side t f.elem f.balance f.sibling)

def elems : Ctx α → List α
  | [] => []
  | f :: c => f.elem :: (f.sibling.toList ++ elems c)

/-- The elements before the hole, in order. -/
def before : Ctx α → List α
  | [] => []
  | f :: c =>
      match f.side with
      | .left => before c
      | .right => before c ++ (f.sibling.toList ++ [f.elem])

/-- The elements after the hole, in order. -/
def after : Ctx α → List α
  | [] => []
  | f :: c =>
      match f.side with
      | .left => f.elem :: (f.sibling.toList ++ after c)
      | .right => after c

/-- The elements beyond the hole on side `d`. -/
def beyond (d : Side) (c : Ctx α) : List α :=
  match d with
  | .left => before c
  | .right => after c

/-- The stored balances of a context are right for a hole of height `n`. -/
def BalancedAt : Ctx α → Nat → Prop
  | [], _ => True
  | f :: c, n =>
      f.side.sign * f.balance = (n : Int) - f.sibling.height ∧
        -1 ≤ f.balance ∧ f.balance ≤ 1 ∧ f.sibling.Balanced ∧
        BalancedAt c (max n f.sibling.height + 1)

theorem plug_append (c c' : Ctx α) (t : BTree α) : plug (c ++ c') t = plug c' (plug c t) := by
  induction c generalizing t with
  | nil => rfl
  | cons f c ih => exact ih _

theorem before_append (c c' : Ctx α) : before (c ++ c') = before c' ++ before c := by
  induction c with
  | nil => simp [before]
  | cons f c ih =>
      rw [List.cons_append, before, before, ih]
      cases f.side <;> simp

theorem after_append (c c' : Ctx α) : after (c ++ c') = after c ++ after c' := by
  induction c with
  | nil => rfl
  | cons f c ih =>
      rw [List.cons_append, after, after, ih]
      cases f.side <;> simp

theorem beyond_concat (d : Side) (c : Ctx α) (a : α) (b : Int) (t : BTree α) :
    beyond d (c ++ [⟨d, a, b, t⟩]) = beyond d c := by
  cases d with
  | left => simp [beyond, before_append, before]
  | right => simp [beyond, after_append, after]

theorem toList_plug (c : Ctx α) (t : BTree α) :
    (plug c t).toList = before c ++ t.toList ++ after c := by
  induction c generalizing t with
  | nil => simp [plug, before, after]
  | cons f c ih =>
      rw [plug, ih, before, after]
      cases f.side with
      | left => simp [BTree.join, BTree.toList]
      | right => simp [BTree.join, BTree.toList]

/-- The elements beyond the hole on side `d`, the nearest first. -/
def outward (d : Side) (c : Ctx α) : List α :=
  match d with
  | .left => (before c).reverse
  | .right => after c

@[simp] theorem outward_nil (d : Side) : outward d ([] : Ctx α) = [] := by
  cases d <;> rfl

theorem outward_cons_same {d : Side} {f : Frame α} {c : Ctx α} (h : f.side = d) :
    outward d (f :: c) = outward d c := by
  cases d <;> simp only [outward, before, after, h]

theorem outward_cons_opp {d : Side} {f : Frame α} {c : Ctx α} (h : f.side ≠ d) :
    outward d (f :: c) = f.elem :: (f.sibling.listFrom d.opp ++ outward d c) := by
  cases d with
  | left =>
      have hside : f.side = .right := by
        revert h
        cases f.side <;> simp
      simp only [outward, before, hside]
      simp [BTree.listFrom, Side.opp]
  | right =>
      have hside : f.side = .left := by
        revert h
        cases f.side <;> simp
      simp only [outward, after, hside]
      rfl

theorem listFrom_plug (d : Side) (c : Ctx α) (t : BTree α) :
    (plug c t).listFrom d = (outward d c).reverse ++ t.listFrom d ++ outward d.opp c := by
  cases d with
  | left => rw [BTree.listFrom, toList_plug, outward, List.reverse_reverse]; rfl
  | right =>
      rw [BTree.listFrom, toList_plug, List.reverse_append, List.reverse_append,
        ← List.append_assoc]
      rfl

theorem toList_plug_congr {c : Ctx α} {t t' : BTree α} (h : t.toList = t'.toList) :
    (plug c t).toList = (plug c t').toList := by
  rw [toList_plug, toList_plug, h]

theorem toList_plug_perm (c : Ctx α) (t : BTree α) :
    (plug c t).toList.Perm (t.toList ++ elems c) := by
  induction c generalizing t with
  | nil => simp [plug, elems]
  | cons f c ih =>
      refine (ih _).trans ?_
      rw [elems, ← List.cons_append, ← List.append_assoc]
      refine List.Perm.append_right _ ?_
      cases f.side with
      | left => exact List.Perm.refl _
      | right =>
          show (f.sibling.toList ++ f.elem :: t.toList).Perm _
          refine List.perm_append_comm.trans ?_
          exact List.perm_middle.symm

theorem length_le_plug (c : Ctx α) (t : BTree α) : c.length ≤ (plug c t).toList.length := by
  rw [(toList_plug_perm c t).length_eq, List.length_append]
  have h : c.length ≤ (elems c).length := by
    induction c with
    | nil => exact Nat.le_refl 0
    | cons f c ih =>
        simp only [elems, List.length_cons, List.length_append]
        omega
  omega

theorem nodup_plug {c : Ctx α} {t : BTree α} :
    (plug c t).toList.Nodup ↔
      t.toList.Nodup ∧ (elems c).Nodup ∧ ∀ a ∈ t.toList, a ∉ elems c := by
  rw [(toList_plug_perm c t).nodup_iff, List.nodup_append]
  refine and_congr_right fun _ => and_congr_right fun _ => ?_
  constructor
  · intro h a ha ha'
    exact h a ha a ha' rfl
  · intro h a ha b hb heq
    exact h a ha (heq ▸ hb)

theorem mem_plug {c : Ctx α} {t : BTree α} {a : α} :
    a ∈ (plug c t).toList ↔ a ∈ t.toList ∨ a ∈ elems c := by
  rw [(toList_plug_perm c t).mem_iff, List.mem_append]

theorem balanced_plug {c : Ctx α} {t : BTree α} :
    (plug c t).Balanced ↔ t.Balanced ∧ BalancedAt c t.height := by
  induction c generalizing t with
  | nil => simp [plug, BalancedAt]
  | cons f c ih =>
      rw [plug, ih, BTree.balanced_join, BTree.height_join, BalancedAt]
      constructor
      · intro h
        exact ⟨h.1.2.2.2.1, h.1.1, h.1.2.1, h.1.2.2.1, h.1.2.2.2.2, h.2⟩
      · intro h
        exact ⟨⟨h.2.1, h.2.2.1, h.2.2.2.1, h.1, h.2.2.2.2.1⟩, h.2.2.2.2.2⟩

/-- Every element of a tree is the root of a subtree in some context. -/
theorem exists_plug_of_mem {t : BTree α} {a : α} (h : a ∈ t.toList) :
    ∃ c l b r, t = plug c (.node l a b r) := by
  induction t with
  | nil => cases h
  | node l x b r ihl ihr =>
      rcases List.mem_append.mp h with h | h
      · obtain ⟨c, l', b', r', rfl⟩ := ihl h
        refine ⟨c ++ [⟨.left, x, b, r⟩], l', b', r', ?_⟩
        rw [plug_append]
        rfl
      · rcases List.mem_cons.mp h with rfl | h
        · exact ⟨[], l, b, r, rfl⟩
        · obtain ⟨c, l', b', r', rfl⟩ := ihr h
          refine ⟨c ++ [⟨.right, x, b, l⟩], l', b', r', ?_⟩
          rw [plug_append]
          rfl

end BalTree
