import SystemInformer.PhLib.AvlTree

/-!
# AVL links in memory: what represents a tree, and what a rotation does to it

`Linked h p t` says that the links of the elements of `t` spell out the tree,
its root hanging below `p`; `CtxLinked` is the same for a path up to the
sentinel, with a pointer in the hole. Both only read the links of their own
elements, so a function is described by the links it changes: its specification
lists the new links of a few addresses and says that all others are kept, and
one frame lemma for trees and one for contexts turn that into a statement
about the trees.
-/

namespace SystemInformer.PhLib

open BalTree AvlHeap

variable {α : Type}

/-! ## Links by side -/

/-- The links with `x` on side `d` and `y` on the other. -/
def AvlLinks.sided (parent : Option (AvlRef α)) (d : Side) (x y : Option (AvlRef α))
    (balance : Int) : AvlLinks α :=
  match d with
  | .left => ⟨parent, x, y, balance⟩
  | .right => ⟨parent, y, x, balance⟩

section Sided

variable (p : Option (AvlRef α)) (d : Side) (x y z : Option (AvlRef α)) (b : Int)

@[simp] theorem AvlLinks.parent_sided : (AvlLinks.sided p d x y b).parent = p := by
  cases d <;> rfl

@[simp] theorem AvlLinks.balance_sided : (AvlLinks.sided p d x y b).balance = b := by
  cases d <;> rfl

@[simp] theorem AvlLinks.child_sided : (AvlLinks.sided p d x y b).child d = x := by
  cases d <;> rfl

@[simp] theorem AvlLinks.child_opp_sided : (AvlLinks.sided p d x y b).child d.opp = y := by
  cases d <;> rfl

@[simp] theorem AvlLinks.sided_opp :
    AvlLinks.sided p d.opp x y b = AvlLinks.sided p d y x b := by
  cases d <;> rfl

@[simp] theorem AvlLinks.setChild_sided :
    (AvlLinks.sided p d x y b).setChild d z = AvlLinks.sided p d z y b := by
  cases d <;> rfl

@[simp] theorem AvlLinks.setChild_opp_sided :
    (AvlLinks.sided p d x y b).setChild d.opp z = AvlLinks.sided p d x z b := by
  cases d <;> rfl

@[simp] theorem AvlLinks.setParent_sided (q : Option (AvlRef α)) :
    (AvlLinks.sided p d x y b).setParent q = AvlLinks.sided q d x y b := by
  cases d <;> rfl

@[simp] theorem AvlLinks.setBalance_sided (b' : Int) :
    (AvlLinks.sided p d x y b).setBalance b' = AvlLinks.sided p d x y b' := by
  cases d <;> rfl

end Sided

@[simp] theorem AvlLinks.parent_setChild (l : AvlLinks α) (d : Side) (p : Option (AvlRef α)) :
    (l.setChild d p).parent = l.parent := by
  cases d <;> rfl

/-! ## Trees and contexts in memory -/

def ptr : BTree α → Option (AvlRef α)
  | .nil => none
  | .node _ a _ _ => some (.element a)

@[simp] theorem ptr_nil : ptr (BTree.nil : BTree α) = none := rfl

@[simp] theorem ptr_join (d : Side) (x y : BTree α) (a : α) (b : Int) :
    ptr (BTree.join d x a b y) = some (.element a) := by
  cases d <;> rfl

variable {t : BTree α}

theorem ptr_mem {a : α} (h : ptr t = some (.element a)) : a ∈ t.toList := by
  cases t with
  | nil => cases h
  | node l x b r =>
      injection h with h
      injection h with h
      subst h
      simp [BTree.toList]

theorem exists_of_ptr {x : AvlRef α} (h : ptr t = some x) :
    ∃ a ∈ t.toList, x = .element a := by
  cases t with
  | nil => cases h
  | node l a b r =>
      injection h with h
      exact ⟨a, by simp [BTree.toList], h.symm⟩

theorem ptr_ne_root (t : BTree α) : ptr t ≠ some .root := by
  cases t with
  | nil => simp
  | node l x b r => simp [ptr]

/-- The links of `t`'s elements spell out `t` below `p`. -/
def Linked (h : AvlHeap α) : AvlRef α → BTree α → Prop
  | _, .nil => True
  | p, .node l a b r =>
      h (.element a) = ⟨some p, ptr l, ptr r, b⟩ ∧
        Linked h (.element a) l ∧ Linked h (.element a) r

theorem linked_join {h : AvlHeap α} {p : AvlRef α} {d : Side} {x y : BTree α} {a : α}
    {b : Int} :
    Linked h p (BTree.join d x a b y) ↔
      h (.element a) = AvlLinks.sided (some p) d (ptr x) (ptr y) b ∧
        Linked h (.element a) x ∧ Linked h (.element a) y := by
  cases d with
  | left => exact Iff.rfl
  | right =>
      show _ ∧ _ ∧ _ ↔ _
      rw [and_comm (b := Linked h (.element a) y)]
      exact Iff.rfl

/-- The address that owns the hole of a context. -/
def holder : Ctx α → AvlRef α
  | [] => .root
  | f :: _ => .element f.elem

/-- The field the hole of a context is. -/
def hole (c : Ctx α) : AvlSlot α :=
  match c with
  | [] => ⟨.root, .right⟩
  | f :: _ => ⟨.element f.elem, f.side⟩

theorem hole_owner (c : Ctx α) : (hole c).owner = holder c := by
  cases c <;> rfl

variable {c : Ctx α}

theorem hole_owner_ne {a : α} (h : a ∉ elems c) :
    (hole c).owner ≠ .element a := by
  cases c with
  | nil => exact fun heq => nomatch heq
  | cons f c =>
      intro heq
      injection heq with heq
      exact h (heq ▸ List.mem_cons_self)

/-- The links of a path up to the sentinel, with `p` in the hole. -/
def CtxLinked (h : AvlHeap α) : Ctx α → Option (AvlRef α) → Prop
  | [], p => h .root = ⟨none, none, p, 0⟩
  | f :: c, p =>
      h (.element f.elem) =
        AvlLinks.sided (some (holder c)) f.side p (ptr f.sibling) f.balance ∧
        Linked h (.element f.elem) f.sibling ∧ CtxLinked h c (some (.element f.elem))

/-- A whole tree in memory, sentinel included. -/
def TreeLinked (h : AvlHeap α) (t : BTree α) : Prop :=
  CtxLinked h [] (ptr t) ∧ Linked h .root t

theorem treeLinked_plug {h : AvlHeap α} :
    TreeLinked h (plug c t) ↔ CtxLinked h c (ptr t) ∧ Linked h (holder c) t := by
  induction c generalizing t with
  | nil => exact Iff.rfl
  | cons f c ih =>
      rw [plug, ih, linked_join, ptr_join, CtxLinked]
      constructor
      · intro h
        exact ⟨⟨h.2.1, h.2.2.2, h.1⟩, h.2.2.1⟩
      · intro h
        exact ⟨h.1.2.2, h.1.1, h.2, h.1.2.1⟩

/-! ## Frames -/

theorem Linked.congr {h h' : AvlHeap α} {p : AvlRef α} (hl : Linked h p t)
    (heq : ∀ a ∈ t.toList, h' (.element a) = h (.element a)) : Linked h' p t := by
  induction t generalizing p with
  | nil => trivial
  | node l a b r ihl ihr =>
      obtain ⟨ha, hl, hr⟩ := hl
      refine ⟨?_, ihl hl fun x hx => heq x ?_, ihr hr fun x hx => heq x ?_⟩
      · rw [heq a (by simp [BTree.toList])]
        exact ha
      · exact List.mem_append.mpr (Or.inl hx)
      · exact List.mem_append.mpr (Or.inr (List.mem_cons_of_mem _ hx))

theorem Linked.reparent {h h' : AvlHeap α} {p q : AvlRef α}
    (hl : Linked h p t) (hnodup : t.toList.Nodup)
    (hroot : ∀ x, ptr t = some x → h' x = (h x).setParent (some q))
    (heq : ∀ a ∈ t.toList, ptr t ≠ some (.element a) → h' (.element a) = h (.element a)) :
    Linked h' q t := by
  cases t with
  | nil => trivial
  | node l a b r =>
      obtain ⟨ha, hl, hr⟩ := hl
      rw [BTree.toList, List.nodup_append, List.nodup_cons] at hnodup
      obtain ⟨-, ⟨har, -⟩, hdisj⟩ := hnodup
      refine ⟨?_, hl.congr fun x hx => heq x ?_ ?_, hr.congr fun x hx => heq x ?_ ?_⟩
      · rw [hroot (.element a) rfl, ha]
        rfl
      · exact List.mem_append.mpr (Or.inl hx)
      · intro hp
        injection hp with hp
        injection hp with hp
        exact hdisj x hx a List.mem_cons_self hp.symm
      · exact List.mem_append.mpr (Or.inr (List.mem_cons_of_mem _ hx))
      · intro hp
        injection hp with hp
        injection hp with hp
        exact har (hp ▸ hx)

theorem CtxLinked.congr {h h' : AvlHeap α} {p : Option (AvlRef α)}
    (hc : CtxLinked h c p) (hroot : h' .root = h .root)
    (heq : ∀ a ∈ elems c, h' (.element a) = h (.element a)) : CtxLinked h' c p := by
  induction c generalizing p with
  | nil =>
      show h' .root = _
      rw [hroot]
      exact hc
  | cons f c ih =>
      obtain ⟨ha, hs, hc⟩ := hc
      refine ⟨?_, hs.congr fun x hx => heq x ?_, ih hc fun x hx => heq x ?_⟩
      · rw [heq f.elem List.mem_cons_self]
        exact ha
      · exact List.mem_cons_of_mem _ (List.mem_append.mpr (Or.inl hx))
      · exact List.mem_cons_of_mem _ (List.mem_append.mpr (Or.inr hx))

theorem TreeLinked.congr {h h' : AvlHeap α} (hT : TreeLinked h t)
    (hroot : h' .root = h .root) (heq : ∀ a ∈ t.toList, h' (.element a) = h (.element a)) :
    TreeLinked h' t :=
  ⟨hT.1.congr hroot fun _ ha => absurd ha List.not_mem_nil, hT.2.congr heq⟩

theorem CtxLinked.fill {h h' : AvlHeap α} {p q : Option (AvlRef α)}
    (hc : CtxLinked h c p) (hnodup : (elems c).Nodup)
    (hhole : h' (hole c).owner = (h (hole c).owner).setChild (hole c).side q)
    (hroot : (hole c).owner ≠ .root → h' .root = h .root)
    (heq : ∀ a ∈ elems c, .element a ≠ (hole c).owner → h' (.element a) = h (.element a)) :
    CtxLinked h' c q := by
  cases c with
  | nil =>
      show h' .root = _
      have hr : h .root = ⟨none, none, p, 0⟩ := hc
      rw [show h' .root = (h .root).setChild .right q from hhole, hr]
      rfl
  | cons f c =>
      obtain ⟨ha, hs, hc⟩ := hc
      rw [elems, List.nodup_cons, List.mem_append, not_or] at hnodup
      have hne : ∀ x, x ≠ f.elem → AvlRef.element x ≠ (hole (f :: c)).owner := by
        intro x hx heq
        injection heq with heq
        exact hx heq
      refine ⟨?_, hs.congr fun x hx => heq x ?_ (hne x ?_),
        hc.congr (hroot (by simp [hole])) fun x hx => heq x ?_ (hne x ?_)⟩
      · rw [show h' (.element f.elem) = (h (.element f.elem)).setChild f.side q from hhole, ha,
          AvlLinks.setChild_sided]
      · exact List.mem_cons_of_mem _ (List.mem_append.mpr (Or.inl hx))
      · exact fun heq => hnodup.1.1 (heq ▸ hx)
      · exact List.mem_cons_of_mem _ (List.mem_append.mpr (Or.inr hx))
      · exact fun heq => hnodup.1.2 (heq ▸ hx)

theorem CtxLinked.child_hole {h : AvlHeap α} {p : Option (AvlRef α)}
    (hc : CtxLinked h c p) : (h (hole c).owner).child (hole c).side = p := by
  cases c with
  | nil =>
      have hr : h .root = ⟨none, none, p, 0⟩ := hc
      show (h .root).child .right = p
      rw [hr]
      rfl
  | cons f c =>
      show (h (.element f.elem)).child f.side = p
      rw [hc.1, AvlLinks.child_sided]

theorem Linked.parent_eq {h : AvlHeap α} {p x : AvlRef α}
    (hl : Linked h p t) (hx : ptr t = some x) : (h x).parent = some p := by
  cases t with
  | nil => cases hx
  | node l a b r =>
      injection hx with hx
      rw [← hx, hl.1]

theorem ptr_plug_cons (f : Frame α) (c : Ctx α) (t : BTree α) :
    ∃ a ∈ elems (f :: c), ptr (plug (f :: c) t) = some (.element a) := by
  induction c generalizing f t with
  | nil => exact ⟨f.elem, List.mem_cons_self, ptr_join ..⟩
  | cons g c ih =>
      obtain ⟨a, ha, hptr⟩ := ih g (BTree.join f.side t f.elem f.balance f.sibling)
      exact ⟨a, List.mem_cons_of_mem _ (List.mem_append.mpr (Or.inr ha)), hptr⟩

theorem ptr_plug_congr {t t' : BTree α} (h : ptr t = ptr t') :
    ptr (plug c t) = ptr (plug c t') := by
  induction c generalizing t t' with
  | nil => exact h
  | cons f c ih => exact ih (by rw [ptr_join, ptr_join])

/-! ## Rotations -/

variable [DecidableEq α]

section Heap

variable (h : AvlHeap α) (x y : AvlRef α)

@[simp] theorem setParent_self (p : Option (AvlRef α)) :
    setParent h x p x = (h x).setParent p := Function.update_self ..

theorem setParent_of_ne (p : Option (AvlRef α)) (hne : y ≠ x) :
    setParent h x p y = h y := Function.update_of_ne hne ..

@[simp] theorem setChild_self (d : Side) (p : Option (AvlRef α)) :
    setChild h x d p x = (h x).setChild d p := Function.update_self ..

theorem setChild_of_ne (d : Side) (p : Option (AvlRef α)) (hne : y ≠ x) :
    setChild h x d p y = h y := Function.update_of_ne hne ..

@[simp] theorem setParentOf_self (p : AvlRef α) :
    setParentOf h (some x) p x = (h x).setParent (some p) := setParent_self h x (some p)

theorem setParentOf_of_ne (q : Option (AvlRef α)) (p : AvlRef α) (hne : q ≠ some y) :
    setParentOf h q p y = h y := by
  cases q with
  | none => rfl
  | some x => exact setParent_of_ne h x y (some p) fun heq => hne (by rw [heq])

end Heap

theorem rotateAvlLinks_spec {d : Side} {h : AvlHeap α} {slot : AvlSlot α}
    {o P Q : AvlRef α} {A B C : Option (AvlRef α)} {bP bQ : Int}
    (hslot : (h slot.owner).child slot.side = some P)
    (hP : h P = AvlLinks.sided (some o) d A (some Q) bP)
    (hQ : h Q = AvlLinks.sided (some P) d B C bQ)
    (hoP : slot.owner ≠ P) (hoQ : slot.owner ≠ Q) (hPQ : P ≠ Q)
    (hB : ∀ x, B = some x → x ≠ P ∧ x ≠ Q ∧ x ≠ slot.owner) :
    ∃ h', rotateAvlLinks d h slot = some h' ∧
      h' slot.owner = (h slot.owner).setChild slot.side (some Q) ∧
      h' Q = AvlLinks.sided (some o) d (some P) C bQ ∧
      h' P = AvlLinks.sided (some Q) d A B bP ∧
      (∀ x, B = some x → h' x = (h x).setParent (some P)) ∧
      ∀ x, x ≠ slot.owner → x ≠ P → x ≠ Q → B ≠ some x → h' x = h x := by
  have hPo := hoP.symm
  have hQo := hoQ.symm
  have hQP := hPQ.symm
  have hBP : B ≠ some P := fun heq => (hB P heq).1 rfl
  have hBQ : B ≠ some Q := fun heq => (hB Q heq).2.1 rfl
  have hBo : B ≠ some slot.owner := fun heq => (hB _ heq).2.2 rfl
  refine ⟨setParent (setChild (setParentOf (setChild (setParent
    (setChild h slot.owner slot.side (some Q)) Q (some o)) P d.opp B) B P) Q d (some P)) P
    (some Q), ?_, ?_, ?_, ?_, ?_, ?_⟩
  · unfold rotateAvlLinks
    simp (disch := assumption) only [hslot, hP, hQ, Option.bind_eq_bind, Option.bind_some,
      AvlLinks.child_opp_sided, setChild_of_ne, setParent_of_ne, setParent_self,
      AvlLinks.parent_sided, AvlLinks.child_sided, AvlLinks.setParent_sided, setChild_self,
      AvlLinks.setChild_opp_sided]
  · simp (disch := assumption) only [setParent_of_ne, setChild_of_ne, setParentOf_of_ne,
      setChild_self]
  · simp (disch := assumption) only [setParent_of_ne, setChild_of_ne, setParentOf_of_ne,
      setChild_self, setParent_self, hQ, AvlLinks.setParent_sided, AvlLinks.setChild_sided]
  · simp (disch := assumption) only [setParent_of_ne, setChild_of_ne, setParentOf_of_ne,
      setChild_self, setParent_self, hP, AvlLinks.setParent_sided,
      AvlLinks.setChild_opp_sided]
  · intro x hx
    obtain ⟨hxP, hxQ, hxo⟩ := hB x hx
    subst hx
    simp (disch := assumption) only [setParent_of_ne, setChild_of_ne, setParentOf_self]
  · intro x hxo hxP hxQ hxB
    simp (disch := assumption) only [setParent_of_ne, setChild_of_ne, setParentOf_of_ne]

theorem rotateTwiceAvlLinks_spec {d : Side} {h : AvlHeap α} {slot : AvlSlot α}
    {o P Q R : AvlRef α} {A B C D : Option (AvlRef α)} {bP bQ bR : Int}
    (hslot : (h slot.owner).child slot.side = some P)
    (hP : h P = AvlLinks.sided (some o) d A (some Q) bP)
    (hQ : h Q = AvlLinks.sided (some P) d (some R) D bQ)
    (hR : h R = AvlLinks.sided (some Q) d B C bR)
    (hoP : slot.owner ≠ P) (hoQ : slot.owner ≠ Q) (hoR : slot.owner ≠ R)
    (hPQ : P ≠ Q) (hPR : P ≠ R) (hQR : Q ≠ R)
    (hB : ∀ x, B = some x → x ≠ P ∧ x ≠ Q ∧ x ≠ R ∧ x ≠ slot.owner ∧ C ≠ some x)
    (hC : ∀ x, C = some x → x ≠ P ∧ x ≠ Q ∧ x ≠ R ∧ x ≠ slot.owner ∧ B ≠ some x) :
    ∃ h', rotateTwiceAvlLinks d h slot = some h' ∧
      h' slot.owner = (h slot.owner).setChild slot.side (some R) ∧
      h' R = AvlLinks.sided (some o) d (some P) (some Q) bR ∧
      h' Q = AvlLinks.sided (some R) d C D bQ ∧
      h' P = AvlLinks.sided (some R) d A B bP ∧
      (∀ x, B = some x → h' x = (h x).setParent (some P)) ∧
      (∀ x, C = some x → h' x = (h x).setParent (some Q)) ∧
      ∀ x, x ≠ slot.owner → x ≠ P → x ≠ Q → x ≠ R → B ≠ some x → C ≠ some x →
        h' x = h x := by
  have hPo := hoP.symm
  have hQo := hoQ.symm
  have hRo := hoR.symm
  have hQP := hPQ.symm
  have hRP := hPR.symm
  have hRQ := hQR.symm
  have hBP : B ≠ some P := fun heq => (hB P heq).1 rfl
  have hBQ : B ≠ some Q := fun heq => (hB Q heq).2.1 rfl
  have hBR : B ≠ some R := fun heq => (hB R heq).2.2.1 rfl
  have hBo : B ≠ some slot.owner := fun heq => (hB _ heq).2.2.2.1 rfl
  have hCP : C ≠ some P := fun heq => (hC P heq).1 rfl
  have hCQ : C ≠ some Q := fun heq => (hC Q heq).2.1 rfl
  have hCR : C ≠ some R := fun heq => (hC R heq).2.2.1 rfl
  have hCo : C ≠ some slot.owner := fun heq => (hC _ heq).2.2.2.1 rfl
  refine ⟨setParent (setChild (setParentOf (setChild (setParent (setChild (setParentOf
    (setChild (setParent (setChild h slot.owner slot.side (some R)) R (some o)) Q d C) C Q)
    R d.opp (some Q)) Q (some R)) P d.opp B) B P) R d (some P)) P (some R),
    ?_, ?_, ?_, ?_, ?_, ?_, ?_, ?_⟩
  · unfold rotateTwiceAvlLinks
    simp (disch := assumption) only [hslot, hP, hQ, hR, Option.bind_eq_bind,
      Option.bind_some, AvlLinks.child_opp_sided, setChild_of_ne, setParent_of_ne,
      setParentOf_of_ne, setParent_self, AvlLinks.parent_sided, AvlLinks.child_sided,
      AvlLinks.setParent_sided, setChild_self, AvlLinks.setChild_opp_sided,
      AvlLinks.setChild_sided]
  · simp (disch := assumption) only [setParent_of_ne, setChild_of_ne, setParentOf_of_ne,
      setChild_self]
  · simp (disch := assumption) only [setParent_of_ne, setChild_of_ne, setParentOf_of_ne,
      setChild_self, setParent_self, hR, AvlLinks.setParent_sided, AvlLinks.setChild_sided,
      AvlLinks.setChild_opp_sided]
  · simp (disch := assumption) only [setParent_of_ne, setChild_of_ne, setParentOf_of_ne,
      setChild_self, setParent_self, hQ, AvlLinks.setParent_sided, AvlLinks.setChild_sided]
  · simp (disch := assumption) only [setParent_of_ne, setChild_of_ne, setParentOf_of_ne,
      setChild_self, setParent_self, hP, AvlLinks.setParent_sided,
      AvlLinks.setChild_opp_sided]
  · intro x hx
    obtain ⟨hxP, hxQ, hxR, hxo, hxC⟩ := hB x hx
    subst hx
    simp (disch := assumption) only [setParent_of_ne, setChild_of_ne, setParentOf_of_ne,
      setParentOf_self]
  · intro x hx
    obtain ⟨hxP, hxQ, hxR, hxo, hxB⟩ := hC x hx
    subst hx
    simp (disch := assumption) only [setParent_of_ne, setChild_of_ne, setParentOf_of_ne,
      setParentOf_self]
  · intro x hxo hxP hxQ hxR hxB hxC
    simp (disch := assumption) only [setParent_of_ne, setChild_of_ne, setParentOf_of_ne]

theorem rotate_linked {d : Side} {h : AvlHeap α} {x y z : BTree α} {p q : α}
    {bp bq : Int}
    (hT : TreeLinked h (plug c (BTree.join d z p bp (BTree.join d y q bq x))))
    (hn : (plug c (BTree.join d z p bp (BTree.join d y q bq x))).toList.Nodup) :
    ∃ h', rotateAvlLinks d h (hole c) = some h' ∧
      TreeLinked h' (plug c (BTree.join d (BTree.join d z p bp y) q bq x)) := by
  rw [treeLinked_plug, ptr_join, linked_join, ptr_join, linked_join] at hT
  obtain ⟨hc, hp, hz, hq, hy, hx⟩ := hT
  simp only [nodup_plug, BTree.nodup_join, BTree.mem_join, not_or] at hn
  obtain ⟨⟨⟨hpz, hpq, hpy, hpx⟩, hnz, ⟨⟨hqy, hqx⟩, hny, hnx, hyx⟩, hzr⟩, hnc, hcd⟩ := hn
  obtain ⟨h', hrun, howner, hq', hp', hroot, hkeep⟩ :=
    rotateAvlLinks_spec hc.child_hole hp hq
      (hole_owner_ne (hcd p (by simp))) (hole_owner_ne (hcd q (by simp)))
      (by simpa using hpq) (fun v hv => by
        obtain ⟨a, ha, rfl⟩ := exists_of_ptr hv
        have := hole_owner_ne (hcd a (by simp [ha]))
        grind)
  have hkeep' : ∀ a, a ≠ p → a ≠ q → ptr y ≠ some (.element a) →
      .element a ≠ (hole c).owner → h' (.element a) = h (.element a) :=
    fun a hap haq hay hao => hkeep _ hao (by simpa using hap) (by simpa using haq) hay
  have hfar : ∀ a, a ∉ y.toList → ptr y ≠ some (.element a) := fun a ha hptr => ha (ptr_mem hptr)
  refine ⟨h', hrun, treeLinked_plug.mpr ⟨?_, linked_join.mpr ⟨?_, linked_join.mpr
    ⟨?_, ?_, ?_⟩, ?_⟩⟩⟩
  · rw [ptr_join]
    refine hc.fill hnc howner (fun hne => hkeep _ hne.symm (by simp) (by simp)
      (ptr_ne_root y)) fun a ha hao => hkeep' a ?_ ?_ (hfar a ?_) hao
    · exact fun heq => hcd p (by simp) (heq ▸ ha)
    · exact fun heq => hcd q (by simp) (heq ▸ ha)
    · exact fun hay => hcd a (by simp [hay]) ha
  · rw [ptr_join, hq']
  · exact hp'
  · refine hz.congr fun a ha => hkeep' a ?_ ?_ (hfar a ?_) (hole_owner_ne (hcd a ?_)).symm
    · exact fun heq => hpz (heq ▸ ha)
    · exact (hzr a ha).1
    · exact (hzr a ha).2.1
    · simp [ha]
  · refine hy.reparent hny hroot fun a ha hay => hkeep' a ?_ ?_ hay
      (hole_owner_ne (hcd a ?_)).symm
    · exact fun heq => hpy (heq ▸ ha)
    · exact fun heq => hqy (heq ▸ ha)
    · simp [ha]
  · refine hx.congr fun a ha => hkeep' a ?_ ?_ (hfar a ?_) (hole_owner_ne (hcd a ?_)).symm
    · exact fun heq => hpx (heq ▸ ha)
    · exact fun heq => hqx (heq ▸ ha)
    · exact fun hay => hyx a hay ha
    · simp [ha]

theorem rotateTwice_linked {d : Side} {h : AvlHeap α} {w x y z : BTree α}
    {p q r : α} {bp bq br : Int}
    (hT : TreeLinked h
      (plug c (BTree.join d z p bp (BTree.join d (BTree.join d y r br x) q bq w))))
    (hn : (plug c
      (BTree.join d z p bp (BTree.join d (BTree.join d y r br x) q bq w))).toList.Nodup) :
    ∃ h', rotateTwiceAvlLinks d h (hole c) = some h' ∧
      TreeLinked h'
        (plug c (BTree.join d (BTree.join d z p bp y) r br (BTree.join d x q bq w))) := by
  rw [treeLinked_plug, ptr_join, linked_join, ptr_join, linked_join, ptr_join,
    linked_join] at hT
  obtain ⟨hc, hp, hz, hq, ⟨hr, hy, hx⟩, hw⟩ := hT
  simp only [nodup_plug, BTree.nodup_join, BTree.mem_join, not_or] at hn
  obtain ⟨⟨⟨hpz, hpq, ⟨hpr, hpy, hpx⟩, hpw⟩, hnz, ⟨⟨⟨hqr, hqy, hqx⟩, hqw⟩,
    ⟨⟨hry, hrx⟩, hny, hnx, hyx⟩, hnw, hyxw⟩, hzr⟩, hnc, hcd⟩ := hn
  have hyw : ∀ a ∈ y.toList, a ∉ w.toList := fun a ha => hyxw a (Or.inr (Or.inl ha))
  have hxw : ∀ a ∈ x.toList, a ∉ w.toList := fun a ha => hyxw a (Or.inr (Or.inr ha))
  have hrw : r ∉ w.toList := hyxw r (Or.inl rfl)
  have hy_ne : ∀ v, ptr y = some v → v ≠ .element p ∧ v ≠ .element q ∧ v ≠ .element r ∧
      v ≠ (hole c).owner ∧ ptr x ≠ some v := by
    intro v hv
    obtain ⟨a, ha, rfl⟩ := exists_of_ptr hv
    refine ⟨?_, ?_, ?_, (hole_owner_ne (hcd a (by simp [ha]))).symm,
      fun hptr => hyx a ha (ptr_mem hptr)⟩
    all_goals
      intro heq
      injection heq with heq
      subst heq
      exact absurd ha (by assumption)
  have hx_ne : ∀ v, ptr x = some v → v ≠ .element p ∧ v ≠ .element q ∧ v ≠ .element r ∧
      v ≠ (hole c).owner ∧ ptr y ≠ some v := by
    intro v hv
    obtain ⟨a, ha, rfl⟩ := exists_of_ptr hv
    refine ⟨?_, ?_, ?_, (hole_owner_ne (hcd a (by simp [ha]))).symm,
      fun hptr => hyx a (ptr_mem hptr) ha⟩
    all_goals
      intro heq
      injection heq with heq
      subst heq
      exact absurd ha (by assumption)
  obtain ⟨h', hrun, howner, hr', hq', hp', hrooty, hrootx, hkeep⟩ :=
    rotateTwiceAvlLinks_spec hc.child_hole hp hq hr
      (hole_owner_ne (hcd p (by simp))) (hole_owner_ne (hcd q (by simp)))
      (hole_owner_ne (hcd r (by simp))) (by simpa using hpq) (by simpa using hpr)
      (by simpa using hqr) hy_ne hx_ne
  have hkeep' : ∀ a, a ≠ p → a ≠ q → a ≠ r → ptr y ≠ some (.element a) →
      ptr x ≠ some (.element a) → .element a ≠ (hole c).owner →
      h' (.element a) = h (.element a) :=
    fun a hap haq har hay hax hao =>
      hkeep _ hao (by simpa using hap) (by simpa using haq) (by simpa using har) hay hax
  have hfary : ∀ a, a ∉ y.toList → ptr y ≠ some (.element a) :=
    fun a ha hptr => ha (ptr_mem hptr)
  have hfarx : ∀ a, a ∉ x.toList → ptr x ≠ some (.element a) :=
    fun a ha hptr => ha (ptr_mem hptr)
  refine ⟨h', hrun, treeLinked_plug.mpr ⟨?_, linked_join.mpr ⟨?_, linked_join.mpr
    ⟨?_, ?_, ?_⟩, linked_join.mpr ⟨?_, ?_, ?_⟩⟩⟩⟩
  · rw [ptr_join]
    refine hc.fill hnc howner (fun hne => hkeep _ hne.symm (by simp) (by simp) (by simp)
      (ptr_ne_root y) (ptr_ne_root x))
      fun a ha hao => hkeep' a ?_ ?_ ?_ (hfary a ?_) (hfarx a ?_) hao
    · exact fun heq => hcd p (by simp) (heq ▸ ha)
    · exact fun heq => hcd q (by simp) (heq ▸ ha)
    · exact fun heq => hcd r (by simp) (heq ▸ ha)
    · exact fun hay => hcd a (by simp [hay]) ha
    · exact fun hax => hcd a (by simp [hax]) ha
  · rw [ptr_join, ptr_join, hr']
  · exact hp'
  · refine hz.congr fun a ha => ?_
    obtain ⟨haq, ⟨har, hay, hax⟩, haw⟩ := hzr a ha
    exact hkeep' a (fun heq => hpz (heq ▸ ha)) haq har (hfary a hay) (hfarx a hax)
      (hole_owner_ne (hcd a (by simp [ha]))).symm
  · refine hy.reparent hny hrooty fun a ha hay => hkeep' a ?_ ?_ ?_ hay (hfarx a (hyx a ha))
      (hole_owner_ne (hcd a (by simp [ha]))).symm
    · exact fun heq => hpy (heq ▸ ha)
    · exact fun heq => hqy (heq ▸ ha)
    · exact fun heq => hry (heq ▸ ha)
  · exact hq'
  · refine hx.reparent hnx hrootx fun a ha hax => hkeep' a ?_ ?_ ?_
      (hfary a fun hay => hyx a hay ha) hax (hole_owner_ne (hcd a (by simp [ha]))).symm
    · exact fun heq => hpx (heq ▸ ha)
    · exact fun heq => hqx (heq ▸ ha)
    · exact fun heq => hrx (heq ▸ ha)
  · refine hw.congr fun a ha => hkeep' a ?_ ?_ ?_ (hfary a fun hay => hyw a hay ha)
      (hfarx a fun hax => hxw a hax ha) (hole_owner_ne (hcd a (by simp [ha]))).symm
    · exact fun heq => hpw (heq ▸ ha)
    · exact fun heq => hqw (heq ▸ ha)
    · exact fun heq => hrw (heq ▸ ha)

theorem setBalance_linked (c : Ctx α) (b' : Int) {d : Side} {h : AvlHeap α}
    {x y : BTree α} {a : α} {b : Int} (hT : TreeLinked h (plug c (BTree.join d x a b y)))
    (hn : (plug c (BTree.join d x a b y)).toList.Nodup) :
    TreeLinked (setBalance h (.element a) b') (plug c (BTree.join d x a b' y)) := by
  rw [treeLinked_plug, ptr_join, linked_join] at hT ⊢
  obtain ⟨hc, ha, hx, hy⟩ := hT
  simp only [nodup_plug, BTree.nodup_join, BTree.mem_join] at hn
  obtain ⟨⟨⟨hax, hay⟩, -, -, -⟩, -, hcd⟩ := hn
  have hkeep : ∀ v, v ≠ a → setBalance h (.element a) b' (.element v) = h (.element v) :=
    fun v hv => Function.update_of_ne (by simpa using hv) _ _
  refine ⟨hc.congr (Function.update_of_ne (by simp) _ _) fun v hv => hkeep v ?_, ?_,
    hx.congr fun v hv => hkeep v ?_, hy.congr fun v hv => hkeep v ?_⟩
  · exact fun heq => hcd a (Or.inl rfl) (heq ▸ hv)
  · rw [setBalance, Function.update_self, ha, AvlLinks.setBalance_sided]
  · exact fun heq => hax (heq ▸ hv)
  · exact fun heq => hay (heq ▸ hv)

end SystemInformer.PhLib
