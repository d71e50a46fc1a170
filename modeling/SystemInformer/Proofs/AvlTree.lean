import SystemInformer.Proofs.AvlRebalance

/-!
# The AVL tree over whole runs

A run starts from `PhInitializeAvlTree` and adds and removes elements, one call
after the other; the set that goes with it holds the elements whose addition
was not refused and that were not removed since. After every run the links in
memory spell out a binary tree over exactly that set, in the order of the
comparison function, with every stored balance right. The number of elements
is counted in a `ULONG`, so the count is right modulo 2^32.
-/

namespace SystemInformer.PhLib

open BalTree AvlHeap

variable {α : Type}

/-! ## Comparisons -/

structure ComparesTotally (cmp : α → α → Int) : Prop where
  swap : ∀ a b, cmp a b < 0 ↔ 0 < cmp b a
  trans : ∀ a b c, cmp a b ≤ 0 → cmp b c ≤ 0 → cmp a c ≤ 0

namespace ComparesTotally

variable {cmp : α → α → Int} (hcmp : ComparesTotally cmp)

include hcmp

theorem lt_of_lt_of_le {a b c : α} (hab : cmp a b < 0) (hbc : cmp b c ≤ 0) : cmp a c < 0 := by
  by_contra hac
  have hca : cmp c a ≤ 0 := by
    by_contra h
    exact hac ((hcmp.swap a c).mpr (by omega))
  have hba := hcmp.trans b c a hbc hca
  have := (hcmp.swap a b).mp hab
  omega

theorem lt_trans {a b c : α} (hab : cmp a b < 0) (hbc : cmp b c < 0) : cmp a c < 0 :=
  hcmp.lt_of_lt_of_le hab (by omega)

theorem eq_comm {a b : α} (h : cmp a b = 0) : cmp b a = 0 := by
  have h₁ := hcmp.swap a b
  have h₂ := hcmp.swap b a
  omega

theorem refl (a : α) : cmp a a = 0 := by
  have h := hcmp.swap a a
  omega

end ComparesTotally

/-- The in-order sequence is strictly increasing. -/
def Ordered (cmp : α → α → Int) (t : BTree α) : Prop :=
  t.toList.Pairwise fun a b => cmp a b < 0

theorem Ordered.nodup {cmp : α → α → Int} {t : BTree α} (hcmp : ComparesTotally cmp)
    (h : Ordered cmp t) : t.toList.Nodup := by
  refine List.Pairwise.imp (fun {a b} hab heq => ?_) h
  rw [heq, hcmp.refl b] at hab
  omega

theorem Ordered.eq_of_compare {cmp : α → α → Int} {t : BTree α} (hcmp : ComparesTotally cmp)
    (h : Ordered cmp t) {a b : α} (ha : a ∈ t.toList) (hb : b ∈ t.toList)
    (hab : cmp a b = 0) : a = b := by
  by_contra hne
  have hsymm : Std.Symm fun a b => cmp a b ≠ 0 := ⟨fun x y hxy hyx => hxy (hcmp.eq_comm hyx)⟩
  have hpair : t.toList.Pairwise fun a b => cmp a b ≠ 0 :=
    List.Pairwise.imp (fun {a b} hab => by omega) h
  exact hpair.forall ha hb hne hab

/-! ## Searching -/

/-- The hole of `c` is where `e` belongs. -/
def PlacedAt (cmp : α → α → Int) (e : α) (c : Ctx α) : Prop :=
  (∀ a ∈ before c, cmp a e < 0) ∧ ∀ a ∈ after c, cmp e a < 0

variable {c : Ctx α}

theorem placedAt_left {cmp : α → α → Int} (hcmp : ComparesTotally cmp) {e a : α} {b : Int}
    {l r : BTree α} (hord : Ordered cmp (plug c (.node l a b r)))
    (hc : PlacedAt cmp e c) (hlt : cmp e a < 0) : PlacedAt cmp e (⟨.left, a, b, r⟩ :: c) := by
  refine ⟨hc.1, fun x hx => ?_⟩
  rw [Ordered, toList_plug, BTree.toList] at hord
  have hax : x ∈ r.toList → cmp a x < 0 := by
    intro hx
    have hsub : [a, x].Sublist (before c ++ (l.toList ++ a :: r.toList) ++ after c) := by
      refine List.Sublist.trans ?_ (List.sublist_append_left _ _)
      refine List.Sublist.trans ?_ (List.sublist_append_right _ _)
      refine List.Sublist.trans ?_ (List.sublist_append_right _ _)
      exact List.Sublist.cons_cons a (List.singleton_sublist.mpr hx)
    exact hord.forall_sublist hsub
  rcases List.mem_cons.mp hx with rfl | hx
  · exact hlt
  · rcases List.mem_append.mp hx with hx | hx
    · exact hcmp.lt_trans hlt (hax hx)
    · exact hc.2 x hx

theorem placedAt_right {cmp : α → α → Int} (hcmp : ComparesTotally cmp) {e a : α} {b : Int}
    {l r : BTree α} (hord : Ordered cmp (plug c (.node l a b r)))
    (hc : PlacedAt cmp e c) (hlt : cmp a e < 0) : PlacedAt cmp e (⟨.right, a, b, l⟩ :: c) := by
  refine ⟨fun x hx => ?_, hc.2⟩
  rw [Ordered, toList_plug, BTree.toList] at hord
  have hxa : x ∈ l.toList → cmp x a < 0 := by
    intro hx
    have hsub : [x, a].Sublist (before c ++ (l.toList ++ a :: r.toList) ++ after c) := by
      refine List.Sublist.trans ?_ (List.sublist_append_left _ _)
      refine List.Sublist.trans ?_ (List.sublist_append_right _ _)
      exact List.Sublist.append (List.singleton_sublist.mpr hx)
        (List.singleton_sublist.mpr List.mem_cons_self)
    exact hord.forall_sublist hsub
  rcases List.mem_append.mp hx with hx | hx
  · exact hc.1 x hx
  · rcases List.mem_append.mp hx with hx | hx
    · exact hcmp.lt_trans (hxa hx) hlt
    · rw [List.mem_singleton.mp hx]
      exact hlt

/-- What a search for `e` answers in a tree: an element comparing equal, or the
hole where `e` belongs. -/
def FindsIn (cmp : α → α → Int) (e : α) (t : BTree α) (r : Option (AvlRef α × Int)) : Prop :=
  (∃ a ∈ t.toList, cmp e a = 0 ∧ r = some (.element a, 0)) ∨
    ∃ c, plug c .nil = t ∧ PlacedAt cmp e c ∧ r = some (holder c, (hole c).side.sign)

variable {e : α}

theorem findLoop_spec {tree : AvlTree α} (hcmp : ComparesTotally tree.compareFunction)
    {t : BTree α} : ∀ {fuel : Nat} {c : Ctx α} {P : AvlRef α}, t.height ≤ fuel →
    TreeLinked tree.heap (plug c t) → Ordered tree.compareFunction (plug c t) →
    PlacedAt tree.compareFunction e c → ptr t = some P →
    FindsIn tree.compareFunction e (plug c t) (findLoop tree e fuel P) := by
  induction t with
  | nil =>
      intro fuel c P _ _ _ _ hP
      cases hP
  | node l a b r ihl ihr =>
      intro fuel c P hfuel hT hord hc hP
      injection hP with hP
      subst hP
      obtain ⟨fuel, rfl⟩ : ∃ n, fuel = n + 1 := ⟨fuel - 1, by rw [BTree.height] at hfuel; omega⟩
      rw [BTree.height] at hfuel
      have ha := (treeLinked_plug.mp hT).2.1
      rw [findLoop]
      simp only [ha]
      split
      · next heq => exact Or.inl ⟨a, mem_plug.mpr (Or.inl (by simp [BTree.toList])), heq, rfl⟩
      · next hne =>
          split
          · next hlt =>
              have hc' := placedAt_left hcmp hord hc hlt
              split
              · next left hleft => exact ihl (by omega) hT hord hc' hleft
              · next hleft =>
                  cases l with
                  | nil => exact Or.inr ⟨⟨.left, a, b, r⟩ :: c, rfl, hc', rfl⟩
                  | node l' a' b' r' => cases hleft
          · next hlt =>
              have hgt : tree.compareFunction a e < 0 := (hcmp.swap a e).mpr (by omega)
              have hc' := placedAt_right hcmp hord hc hgt
              split
              · next right hright => exact ihr (by omega) hT hord hc' hright
              · next hright =>
                  cases r with
                  | nil => exact Or.inr ⟨⟨.right, a, b, l⟩ :: c, rfl, hc', rfl⟩
                  | node l' a' b' r' => cases hright

variable {fuel : Nat}

theorem phpFindElementAvlTree_spec {tree : AvlTree α} {t : BTree α}
    (hcmp : ComparesTotally tree.compareFunction) (hfuel : t.height ≤ fuel)
    (hT : TreeLinked tree.heap t) (hord : Ordered tree.compareFunction t) :
    FindsIn tree.compareFunction e t (phpFindElementAvlTree fuel tree e) := by
  have hroot : tree.heap .root = ⟨none, none, ptr t, 0⟩ := hT.1
  unfold phpFindElementAvlTree phRootElementAvlTree
  rw [hroot]
  have hplaced : PlacedAt tree.compareFunction e [] :=
    ⟨fun a ha => absurd ha List.not_mem_nil, fun a ha => absurd ha List.not_mem_nil⟩
  split
  · next hnil =>
      cases t with
      | nil => exact Or.inr ⟨[], rfl, hplaced, rfl⟩
      | node l a b r => cases hnil
  · next P hP => exact findLoop_spec hcmp hfuel (c := []) hT hord hplaced hP

theorem FindsIn.of_compare {cmp : α → α → Int} {e b : α} {t : BTree α}
    {r : Option (AvlRef α × Int)} (hcmp : ComparesTotally cmp) (hord : Ordered cmp t)
    (h : FindsIn cmp e t r) (hb : b ∈ t.toList) (heb : cmp e b = 0) :
    r = some (.element b, 0) := by
  rcases h with ⟨a, ha, hea, hr⟩ | ⟨c, rfl, hplaced, -⟩
  · have hab : cmp a b = 0 := by
      have h₁ := hcmp.trans a e b (by rw [hcmp.eq_comm hea]) (by rw [heb])
      have h₂ := hcmp.trans b e a (by rw [hcmp.eq_comm heb]) (by rw [hea])
      have h₃ := hcmp.swap a b
      omega
    rw [← hord.eq_of_compare hcmp ha hb hab]
    exact hr
  · rw [toList_plug, BTree.toList, List.append_nil, List.mem_append] at hb
    rcases hb with hb | hb
    · have := hplaced.1 b hb
      have := hcmp.eq_comm heb
      omega
    · have := hplaced.2 b hb
      omega

variable {h : AvlHeap α}

/-- The last node on side `d` of a subtree, and where it stands: it has nothing
below it on that side, and no element of the subtree lies beyond it. -/
theorem lastChild_spec (d : Side) {t : BTree α} :
    ∀ {fuel : Nat} {p P : AvlRef α}, t.height ≤ fuel → Linked h p t → ptr t = some P →
    ∃ c n b s, t = plug c (BTree.join d .nil n b s) ∧ beyond d c = [] ∧
      lastChild d h fuel P = some (.element n) := by
  induction t with
  | nil =>
      intro fuel p P _ _ hP
      cases hP
  | node l a b r ihl ihr =>
      intro fuel p P hfuel hl hP
      injection hP with hP
      subst hP
      obtain ⟨fuel, rfl⟩ : ∃ n, fuel = n + 1 := ⟨fuel - 1, by rw [BTree.height] at hfuel; omega⟩
      rw [BTree.height] at hfuel
      have hfl : l.height ≤ fuel := by omega
      have hfr : r.height ≤ fuel := by omega
      rw [lastChild, hl.1]
      cases d with
      | left =>
          cases l with
          | nil => exact ⟨[], a, b, r, rfl, rfl, rfl⟩
          | node l' a' b' r' =>
              obtain ⟨c, n, bn, s, hc, hout, hrun⟩ := ihl hfl hl.2.1 rfl
              refine ⟨c ++ [⟨.left, a, b, r⟩], n, bn, s, ?_, ?_, hrun⟩
              · rw [plug_append, ← hc]
                rfl
              · rw [beyond_concat, hout]
      | right =>
          cases r with
          | nil => exact ⟨[], a, b, l, rfl, rfl, rfl⟩
          | node l' a' b' r' =>
              obtain ⟨c, n, bn, s, hc, hout, hrun⟩ := ihr hfr hl.2.2 rfl
              refine ⟨c ++ [⟨.right, a, b, l⟩], n, bn, s, ?_, ?_, hrun⟩
              · rw [plug_append, ← hc]
                rfl
              · rw [beyond_concat, hout]

/-! ## Adding -/

/-- The tree in memory, with its balances right and its elements in order. -/
structure AvlRep (tree : AvlTree α) (t : BTree α) : Prop where
  linked : TreeLinked tree.heap t
  balanced : t.Balanced
  ordered : Ordered tree.compareFunction t

variable [DecidableEq α]

theorem hang_linked (hT : TreeLinked h (plug c .nil))
    (hn : (elems c).Nodup) (he : e ∉ elems c) :
    TreeLinked (Function.update
        (setChild h (hole c).owner (hole c).side (some (.element e))) (.element e)
        ⟨some (holder c), none, none, 0⟩)
      (plug c (.node .nil e 0 .nil)) := by
  obtain ⟨hc, -⟩ := treeLinked_plug.mp hT
  have howner := hole_owner_ne he
  rw [treeLinked_plug]
  refine ⟨hc.fill hn ?_ (fun hroot => ?_) fun a ha hao => ?_, ?_, trivial, trivial⟩
  · rw [Function.update_of_ne howner, setChild_self]
    rfl
  · rw [Function.update_of_ne (by simp), setChild_of_ne _ _ _ _ _ hroot.symm]
  · have hae : a ≠ e := fun heq => he (heq ▸ ha)
    rw [Function.update_of_ne (by simpa using hae), setChild_of_ne _ _ _ _ _ hao]
  · rw [Function.update_self]
    rfl

/-- An element that compares equal to none is added: it stands where it belongs,
and the others are as they were. -/
theorem phAddElementAvlTree_adds {tree : AvlTree α} {t : BTree α}
    (hcmp : ComparesTotally tree.compareFunction) (hrep : AvlRep tree t)
    (he : ∀ b ∈ t.toList, tree.compareFunction e b ≠ 0)
    (hfuel : t.toList.length < fuel) :
    ∃ tree' t', phAddElementAvlTree fuel tree e = some (tree', none) ∧ AvlRep tree' t' ∧
      t'.toList.Perm (e :: t.toList) ∧ tree'.count = tree.count + 1 ∧
      tree'.compareFunction = tree.compareFunction := by
  have hheight : t.height ≤ fuel := by have := t.height_le_length; omega
  rcases phpFindElementAvlTree_spec (e := e) hcmp hheight hrep.linked hrep.ordered with
    ⟨a, ha, hea, -⟩ | ⟨c, rfl, hplaced, hfind⟩
  · exact absurd hea (he a ha)
  have hn := hrep.ordered.nodup hcmp
  have hperm := toList_plug_perm c .nil
  have hec : e ∉ elems c := by
    intro hmem
    exact he e (hperm.mem_iff.mpr hmem) (hcmp.refl e)
  have hT := hang_linked hrep.linked (hperm.nodup_iff.mp hn) hec
  have hlist : (plug c (.node .nil e 0 .nil)).toList = before c ++ e :: after c := by
    rw [toList_plug]
    simp [BTree.toList]
  have hord : (before c ++ e :: after c).Pairwise
      fun a b => tree.compareFunction a b < 0 := by
    have hold := hrep.ordered
    rw [Ordered, toList_plug, BTree.toList, List.append_nil] at hold
    rw [List.pairwise_append] at hold ⊢
    refine ⟨hold.1, List.pairwise_cons.mpr ⟨hplaced.2, hold.2.1⟩, fun a ha b hb => ?_⟩
    rcases List.mem_cons.mp hb with rfl | hb
    · exact hplaced.1 a ha
    · exact hold.2.2 a ha b hb
  have hord' : Ordered tree.compareFunction (plug c (.node .nil e 0 .nil)) := by
    rw [Ordered, hlist]
    exact hord
  obtain ⟨x, hx⟩ : ∃ x, ptr (plug c (.node .nil e 0 .nil)) = some x := by
    cases c with
    | nil => exact ⟨_, rfl⟩
    | cons f c =>
        obtain ⟨a, -, ha⟩ := ptr_plug_cons f c (.node .nil e 0 .nil)
        exact ⟨_, ha⟩
  have hlen : c.length < fuel := by have := length_le_plug c .nil; omega
  obtain ⟨h', t', hrun, hT', hb', hl'⟩ := addLoop_spec hlen hT (hord'.nodup hcmp) rfl hx
    ⟨rfl, by decide, by decide, trivial, trivial⟩ (Or.inr rfl)
    (balanced_plug.mp hrep.balanced).2
  refine ⟨{ tree with heap := h', count := tree.count + 1 }, t', ?_, ⟨hT', hb', ?_⟩, ?_, rfl,
    rfl⟩
  · have hsign : (hole c).side.sign ≠ 0 := by
      rcases (hole c).side.sign_eq with hs | hs <;> omega
    have hside : (if (hole c).side.sign < 0 then Side.left else Side.right) =
        (hole c).side := by
      cases (hole c).side <;> rfl
    have hroot := hT.1
    rw [CtxLinked, hx] at hroot
    unfold phAddElementAvlTree
    rw [hfind]
    simp only [Option.bind_eq_bind, Option.bind_some, if_neg hsign, hside, ← hole_owner]
    rw [← hole_owner] at hroot hrun
    rw [hroot]
    simp only [Option.bind_some, hrun]
  · rw [Ordered, hl', hlist]
    exact hord
  · rw [hl', hlist, toList_plug, BTree.toList, List.append_nil]
    exact List.perm_middle

theorem phAddElementAvlTree_exists {tree : AvlTree α} {t : BTree α} {e b : α}
    (hcmp : ComparesTotally tree.compareFunction) (hrep : AvlRep tree t)
    (hb : b ∈ t.toList) (heb : tree.compareFunction e b = 0)
    (hfuel : t.toList.length < fuel) :
    phAddElementAvlTree fuel tree e = some (tree, some (.element b)) := by
  have hheight : t.height ≤ fuel := by have := t.height_le_length; omega
  have hfind := phpFindElementAvlTree_spec (e := e) hcmp hheight hrep.linked hrep.ordered
  unfold phAddElementAvlTree
  rw [hfind.of_compare hcmp hrep.ordered hb heb]
  rfl

/-! ## Removing -/

theorem unlink_linked {d : Side} {x s : BTree α} {n : α} {b : Int}
    (hT : TreeLinked h (plug c (BTree.join d x n b s)))
    (hn : (plug c (BTree.join d x n b s)).toList.Nodup) :
    TreeLinked (setParentOf (setChild h (hole c).owner (hole c).side (ptr s)) (ptr s)
      (holder c)) (plug c s) := by
  rw [treeLinked_plug, linked_join] at hT
  obtain ⟨hc, -, -, hs⟩ := hT
  simp only [nodup_plug, BTree.nodup_join, BTree.mem_join] at hn
  obtain ⟨⟨-, -, hns, -⟩, hnc, hdisj⟩ := hn
  have hsc : ∀ a ∈ s.toList, a ∉ elems c := fun a ha => hdisj a (Or.inr (Or.inr ha))
  have hsne : ∀ {a}, a ∈ elems c → ptr s ≠ some (.element a) :=
    fun ha hptr => hsc _ (ptr_mem hptr) ha
  rw [treeLinked_plug]
  refine ⟨hc.fill hnc ?_ (fun hroot => ?_) fun a ha hao => ?_, hs.reparent hns ?_ ?_⟩
  · rw [setParentOf_of_ne, setChild_self]
    intro hptr
    obtain ⟨a, ha, heq⟩ := exists_of_ptr hptr
    exact hole_owner_ne (hsc a ha) heq
  · rw [setParentOf_of_ne _ _ _ _ (ptr_ne_root s), setChild_of_ne _ _ _ _ _ hroot.symm]
  · rw [setParentOf_of_ne _ _ _ _ (hsne ha), setChild_of_ne _ _ _ _ _ hao]
  · intro v hv
    obtain ⟨a, ha, rfl⟩ := exists_of_ptr hv
    rw [hv, setParentOf_self, setChild_of_ne _ _ _ _ _ (hole_owner_ne (hsc a ha)).symm]
  · intro a ha hne
    rw [setParentOf_of_ne _ _ _ _ hne,
      setChild_of_ne _ _ _ _ _ (hole_owner_ne (hsc a ha)).symm]

theorem replaceSubject_linked {l r : BTree α} {e n : α} {b : Int}
    (hT : TreeLinked h (plug c (.node l e b r)))
    (hn : (plug c (.node l e b r)).toList.Nodup) (hnew : n ∉ (plug c (.node l e b r)).toList) :
    ∃ h', replaceSubject h (.element e) (.element n) = some h' ∧
      TreeLinked h' (plug c (.node l n b r)) := by
  have hkeep : ∀ a, a ≠ n → Function.update h (.element n) (h (.element e)) (.element a) =
      h (.element a) := fun a ha => Function.update_of_ne (by simpa using ha) _ _
  have h₁T : TreeLinked (Function.update h (.element n) (h (.element e)))
      (plug c (.node l e b r)) :=
    hT.congr (Function.update_of_ne (by simp) _ _) fun a ha => hkeep a fun heq => hnew (heq ▸ ha)
  have hslot := slotOf_eq_hole h₁T hn rfl
  have hnlinks : Function.update h (.element n) (h (.element e)) (.element n) =
      ⟨some (holder c), ptr l, ptr r, b⟩ := by
    rw [Function.update_self, (treeLinked_plug.mp hT).2.1]
  obtain ⟨hc, he, hl, hr⟩ := treeLinked_plug.mp h₁T
  unfold replaceSubject
  generalize Function.update h (.element n) (h (.element e)) = h₁ at *
  -- The new node, the two subtrees and the context have no element in common.
  rw [mem_plug, not_or, BTree.toList, List.mem_append, List.mem_cons, not_or, not_or] at hnew
  obtain ⟨⟨hnl, hne, hnr⟩, hnc⟩ := hnew
  rw [nodup_plug, BTree.toList, List.nodup_append, List.nodup_cons] at hn
  obtain ⟨⟨hlnd, ⟨her, hrnd⟩, hlr⟩, hcnd, hdisj⟩ := hn
  have hlc : ∀ a ∈ l.toList, a ∉ elems c := fun a ha => hdisj a (by simp [ha])
  have hrc : ∀ a ∈ r.toList, a ∉ elems c := fun a ha => hdisj a (by simp [ha])
  have hl_ne : ∀ {v}, v ∉ l.toList → ptr l ≠ some (.element v) := fun hv hptr => hv (ptr_mem hptr)
  have hr_ne : ∀ {v}, v ∉ r.toList → ptr r ≠ some (.element v) := fun hv hptr => hv (ptr_mem hptr)
  have hl_owner : ptr l ≠ some (hole c).owner := by
    intro hptr
    obtain ⟨a, ha, heq⟩ := exists_of_ptr hptr
    exact hole_owner_ne (hlc a ha) heq
  have hr_owner : ptr r ≠ some (hole c).owner := by
    intro hptr
    obtain ⟨a, ha, heq⟩ := exists_of_ptr hptr
    exact hole_owner_ne (hrc a ha) heq
  have hn_owner := (hole_owner_ne hnc).symm
  have hchild : ∀ {p}, setChild h₁ (hole c).owner (hole c).side p (.element n) =
      ⟨some (holder c), ptr l, ptr r, b⟩ := by
    intro p
    rw [setChild_of_ne _ _ _ _ _ hn_owner, hnlinks]
  refine ⟨setParentOf (setParentOf (setChild h₁ (hole c).owner (hole c).side
    (some (.element n))) (ptr l) (.element n)) (ptr r) (.element n), ?_, ?_⟩
  · simp only [he, Option.bind_eq_bind, Option.bind_some, hslot, hnlinks]
    rw [← hole_owner]
    simp only [hchild, setParentOf_of_ne _ _ _ _ (hl_ne hnl)]
  rw [treeLinked_plug]
  refine ⟨hc.fill hcnd ?_ (fun hroot => ?_) fun a ha hao => ?_, ?_, hl.reparent hlnd ?_ ?_,
    hr.reparent hrnd ?_ ?_⟩
  · rw [setParentOf_of_ne _ _ _ _ hr_owner, setParentOf_of_ne _ _ _ _ hl_owner,
      setChild_self]
    rfl
  · rw [setParentOf_of_ne _ _ _ _ (ptr_ne_root r), setParentOf_of_ne _ _ _ _ (ptr_ne_root l),
      setChild_of_ne _ _ _ _ _ hroot.symm]
  · rw [setParentOf_of_ne _ _ _ _ (hr_ne fun har => hrc a har ha),
      setParentOf_of_ne _ _ _ _ (hl_ne fun hal => hlc a hal ha), setChild_of_ne _ _ _ _ _ hao]
  · rw [setParentOf_of_ne _ _ _ _ (hr_ne hnr), setParentOf_of_ne _ _ _ _ (hl_ne hnl), hchild]
  · intro v hv
    obtain ⟨a, ha, rfl⟩ := exists_of_ptr hv
    have har : a ∉ r.toList := fun har => hlr a ha a (List.mem_cons_of_mem _ har) rfl
    rw [setParentOf_of_ne _ _ _ _ (hr_ne har), hv, setParentOf_self,
      setChild_of_ne _ _ _ _ _ (hole_owner_ne (hlc a ha)).symm]
  · intro a ha hal
    have har : a ∉ r.toList := fun har => hlr a ha a (List.mem_cons_of_mem _ har) rfl
    rw [setParentOf_of_ne _ _ _ _ (hr_ne har), setParentOf_of_ne _ _ _ _ hal,
      setChild_of_ne _ _ _ _ _ (hole_owner_ne (hlc a ha)).symm]
  · intro v hv
    obtain ⟨a, ha, rfl⟩ := exists_of_ptr hv
    have hal : a ∉ l.toList := fun hal => hlr a hal a (List.mem_cons_of_mem _ ha) rfl
    rw [hv, setParentOf_self, setParentOf_of_ne _ _ _ _ (hl_ne hal),
      setChild_of_ne _ _ _ _ _ (hole_owner_ne (hrc a ha)).symm]
  · intro a ha har
    have hal : a ∉ l.toList := fun hal => hlr a hal a (List.mem_cons_of_mem _ ha) rfl
    rw [setParentOf_of_ne _ _ _ _ har, setParentOf_of_ne _ _ _ _ (hl_ne hal),
      setChild_of_ne _ _ _ _ _ (hole_owner_ne (hrc a ha)).symm]

/-- A node with at most one subtree `s` is unlinked: `s` stands in its place and
every balance is right again. -/
theorem unlinkElement_spec {d : Side} {s : BTree α} {n : α}
    {b : Int} (hT : TreeLinked h (plug c (BTree.join d .nil n b s)))
    (hn : (plug c (BTree.join d .nil n b s)).toList.Nodup)
    (hbal : (plug c (BTree.join d .nil n b s)).Balanced) (hfuel : c.length < fuel) :
    ∃ h' t', unlinkElement fuel h (.element n) = some h' ∧ TreeLinked h' t' ∧ t'.Balanced ∧
      t'.toList = (plug c s).toList := by
  have hslot := slotOf_eq_hole hT hn (ptr_join ..)
  have h₁T := unlink_linked hT hn
  have hsub : (plug c s).toList.Nodup := by
    rw [toList_plug] at hn ⊢
    refine hn.sublist (List.Sublist.append_right (List.Sublist.append_left ?_ _) _)
    cases d <;> simp [BTree.join, BTree.toList]
  obtain ⟨hc, hnl, -, -⟩ := (treeLinked_plug.trans (and_congr_right' linked_join)).mp hT
  have hnc : n ∉ elems c := (nodup_plug.mp hn).2.2 n (BTree.mem_join.mpr (Or.inl rfl))
  have hns : ptr s ≠ some (.element n) := by
    intro hptr
    exact (BTree.nodup_join.mp (nodup_plug.mp hn).1).1.2 (ptr_mem hptr)
  -- What the node's own links say throughout.
  have hkeep : ∀ p, setChild h (hole c).owner (hole c).side p (.element n) =
      AvlLinks.sided (some (holder c)) d none (ptr s) b := by
    intro p
    rw [setChild_of_ne _ _ _ _ _ (hole_owner_ne hnc).symm, hnl, ptr_nil]
  rw [balanced_plug, BTree.balanced_join, BTree.height_join] at hbal
  obtain ⟨⟨-, -, -, -, hs⟩, hrest⟩ := hbal
  obtain ⟨h', t', hrun, hT', hb', hl'⟩ := removeLoop_spec hfuel h₁T hsub hs
    (by simpa [BTree.height] using hrest)
  refine ⟨h', t', ?_, hT', hb', hl'⟩
  have hmove : moveSubtreeUp h (.element n) (holder c) (hole c) =
      setParentOf (setChild h (hole c).owner (hole c).side (ptr s)) (ptr s) (holder c) := by
    unfold moveSubtreeUp
    rw [hnl, ptr_nil]
    simp only [hkeep]
    cases d with
    | left =>
        simp only [AvlLinks.sided]
        split
        · next hnone => rw [hnone]
        · next hsome => rw [hsome]
    | right => rfl
  unfold unlinkElement
  rw [show (h (.element n)).parent = some (holder c) by rw [hnl, AvlLinks.parent_sided]]
  simp only [Option.bind_eq_bind, Option.bind_some, hslot, hmove]
  rw [setParentOf_of_ne _ _ _ _ hns, hkeep, AvlLinks.parent_sided]
  exact hrun

theorem replaceSubject_spec {t : BTree α} {e n : α} {X Y : List α}
    (hT : TreeLinked h t) (hbal : t.Balanced) (hlist : t.toList = X ++ e :: Y)
    (hn : t.toList.Nodup) (hnew : n ∉ t.toList) :
    ∃ h' t', replaceSubject h (.element e) (.element n) = some h' ∧ TreeLinked h' t' ∧
      t'.Balanced ∧ t'.toList = X ++ n :: Y := by
  obtain ⟨c, l, b, r, rfl⟩ := exists_plug_of_mem (t := t) (a := e) (by rw [hlist]; simp)
  obtain ⟨h', hrun, hT'⟩ := replaceSubject_linked hT hn hnew
  refine ⟨h', _, hrun, hT', ?_, ?_⟩
  · rw [balanced_plug] at hbal ⊢
    exact hbal
  · have hshape : ∀ v, (plug c (.node l v b r)).toList =
        (before c ++ l.toList) ++ v :: (r.toList ++ after c) := by
      intro v
      rw [toList_plug, BTree.toList]
      simp
    rw [hshape] at hlist hn ⊢
    rw [List.nodup_append, List.nodup_cons] at hn
    have heX : e ∉ before c ++ l.toList := fun he => hn.2.2 e he e List.mem_cons_self rfl
    have heY : e ∉ r.toList ++ after c := hn.2.1.1
    obtain ⟨hX, -, hY⟩ := (List.append_cons_inj_of_notMem heX heY).mp hlist
    rw [hX, hY]

/-- A subject with two subtrees: the last node `n` on side `d` of the one on the
other side is unlinked and takes its place. -/
theorem removeDeep_spec {d : Side} {x u : BTree α}
    {b : Int} {P : AvlRef α}
    (hT : TreeLinked h (plug c (BTree.join d x e b u)))
    (hn : (plug c (BTree.join d x e b u)).toList.Nodup)
    (hbal : (plug c (BTree.join d x e b u)).Balanced)
    (hfuel : (plug c (BTree.join d x e b u)).toList.length < fuel) (hP : ptr u = some P) :
    ∃ n h₁ h₂ t', lastChild d h fuel P = some (.element n) ∧ n ≠ e ∧
      unlinkElement fuel h (.element n) = some h₁ ∧
      replaceSubject h₁ (.element e) (.element n) = some h₂ ∧ TreeLinked h₂ t' ∧
      t'.Balanced ∧ ∃ X Y, (plug c (BTree.join d x e b u)).toList = X ++ e :: Y ∧
        t'.toList = X ++ Y := by
  have hul := (treeLinked_plug.trans (and_congr_right' linked_join)).mp hT
  have huh : u.height ≤ fuel := by
    have h₁ := u.height_le_length
    have h₂ := (toList_plug_perm c (BTree.join d x e b u)).length_eq
    have h₃ := (BTree.toList_join_perm d x u e b).length_eq
    simp only [List.length_append, List.length_cons] at h₂ h₃
    omega
  obtain ⟨cu, n, bn, s, rfl, hout, hlast⟩ := lastChild_spec d huh hul.2.2.2 hP
  -- The node unlinked, in the context of the whole tree.
  have hplug : plug c (BTree.join d x e b (plug cu (BTree.join d .nil n bn s))) =
      plug (cu ++ ⟨d.opp, e, b, x⟩ :: c) (BTree.join d .nil n bn s) := by
    rw [plug_append, plug, BTree.join_opp]
  rw [hplug] at hT hn hbal hfuel ⊢
  have hlen := length_le_plug (cu ++ ⟨d.opp, e, b, x⟩ :: c) (BTree.join d .nil n bn s)
  obtain ⟨h₁, t₁, hrun₁, h₁T, hb₁, hl₁⟩ := unlinkElement_spec hT hn hbal
    (Nat.lt_of_le_of_lt hlen hfuel)
  -- The subject and the node are neighbours in the order.
  obtain ⟨X, Y, hX, hY⟩ : ∃ X Y,
      (plug (cu ++ ⟨d.opp, e, b, x⟩ :: c) s).toList = X ++ e :: Y ∧
      (plug (cu ++ ⟨d.opp, e, b, x⟩ :: c) (BTree.join d .nil n bn s)).toList =
        X ++ (if d = .left then e :: n :: Y else n :: e :: Y) := by
    cases d with
    | left =>
        refine ⟨before c ++ x.toList, s.toList ++ after cu ++ after c, ?_, ?_⟩
        · have hcu : before cu = [] := hout
          simp [toList_plug, before_append, after_append, before, after, Side.opp, hcu]
        · have hcu : before cu = [] := hout
          simp [toList_plug, before_append, after_append, before, after, Side.opp, hcu,
            BTree.join, BTree.toList]
    | right =>
        refine ⟨before c ++ before cu ++ s.toList, x.toList ++ after c, ?_, ?_⟩
        · have hcu : after cu = [] := hout
          simp [toList_plug, before_append, after_append, before, after, Side.opp, hcu]
        · have hcu : after cu = [] := hout
          simp [toList_plug, before_append, after_append, before, after, Side.opp, hcu,
            BTree.join, BTree.toList]
  have hperm : (plug (cu ++ ⟨d.opp, e, b, x⟩ :: c) (BTree.join d .nil n bn s)).toList.Perm
      (n :: (X ++ e :: Y)) := by
    rw [hY]
    cases d with
    | left =>
        have hswap : (X ++ e :: n :: Y).Perm (X ++ n :: e :: Y) :=
          List.Perm.append_left X (List.Perm.swap n e Y)
        exact hswap.trans List.perm_middle
    | right => exact List.perm_middle
  have hn₁ : (n :: (X ++ e :: Y)).Nodup := hperm.nodup_iff.mp hn
  rw [List.nodup_cons] at hn₁
  rw [hX] at hl₁
  obtain ⟨h₂, t₂, hrun₂, h₂T, hb₂, hl₂⟩ := replaceSubject_spec h₁T hb₁ hl₁
    (hl₁ ▸ hn₁.2) (hl₁ ▸ hn₁.1)
  have hne : n ≠ e := by
    intro heq
    exact hn₁.1 (by simp [heq])
  refine ⟨n, h₁, h₂, t₂, hlast, hne, hrun₁, hrun₂, h₂T, hb₂, ?_⟩
  cases d with
  | left => exact ⟨X, n :: Y, hY, hl₂⟩
  | right => exact ⟨X ++ [n], Y, by simpa using hY, by simpa using hl₂⟩

theorem removeShallow_spec {d : Side} {s : BTree α}
    {b : Int} (hT : TreeLinked h (plug c (BTree.join d .nil e b s)))
    (hn : (plug c (BTree.join d .nil e b s)).toList.Nodup)
    (hbal : (plug c (BTree.join d .nil e b s)).Balanced)
    (hfuel : (plug c (BTree.join d .nil e b s)).toList.length < fuel) :
    ∃ h' t', unlinkElement fuel h (.element e) = some h' ∧ TreeLinked h' t' ∧ t'.Balanced ∧
      ∃ X Y, (plug c (BTree.join d .nil e b s)).toList = X ++ e :: Y ∧
        t'.toList = X ++ Y := by
  have hlen := length_le_plug c (BTree.join d .nil e b s)
  obtain ⟨h', t', hrun, hT', hb', hl'⟩ := unlinkElement_spec hT hn hbal
    (Nat.lt_of_le_of_lt hlen hfuel)
  refine ⟨h', t', hrun, hT', hb', ?_⟩
  cases d with
  | left =>
      refine ⟨before c, s.toList ++ after c, ?_, ?_⟩
      · simp [toList_plug, BTree.join, BTree.toList]
      · rw [hl', toList_plug, List.append_assoc]
  | right =>
      refine ⟨before c ++ s.toList, after c, ?_, ?_⟩
      · simp [toList_plug, BTree.join, BTree.toList]
      · rw [hl', toList_plug]

theorem removeLinks_spec {t : BTree α}
    (hT : TreeLinked h t) (hn : t.toList.Nodup) (hbal : t.Balanced) (he : e ∈ t.toList)
    (hfuel : t.toList.length < fuel) :
    ∃ h' t', removeLinks fuel h (.element e) = some h' ∧ TreeLinked h' t' ∧ t'.Balanced ∧
      ∃ X Y, t.toList = X ++ e :: Y ∧ t'.toList = X ++ Y := by
  obtain ⟨c, l, b, r, rfl⟩ := exists_plug_of_mem he
  have helinks := (treeLinked_plug.mp hT).2.1
  unfold removeLinks replacementOf
  rw [helinks]
  cases l with
  | nil =>
      obtain ⟨h', t', hrun, hrest⟩ :=
        removeShallow_spec (d := .left) (s := r) hT hn hbal hfuel
      refine ⟨h', t', ?_, hrest⟩
      simp only [ptr_nil, Option.bind_eq_bind, Option.bind_some, hrun, if_true]
  | node l₁ a₁ b₁ r₁ =>
      cases r with
      | nil =>
          obtain ⟨h', t', hrun, hrest⟩ :=
            removeShallow_spec (d := .right) (s := .node l₁ a₁ b₁ r₁) hT hn hbal hfuel
          refine ⟨h', t', ?_, hrest⟩
          simp only [ptr, Option.bind_eq_bind, Option.bind_some, hrun, if_true]
      | node l₂ a₂ b₂ r₂ =>
          simp only [ptr, Option.bind_eq_bind]
          split
          · obtain ⟨n, h₁, h₂, t', hlast, hne, hrun₁, hrun₂, hrest⟩ :=
              removeDeep_spec (d := .left) (u := .node l₂ a₂ b₂ r₂) hT hn hbal hfuel rfl
            refine ⟨h₂, t', ?_, hrest⟩
            rw [hlast]
            simp only [Option.bind_some, hrun₁]
            rw [if_neg (by simpa using hne), hrun₂]
          · obtain ⟨n, h₁, h₂, t', hlast, hne, hrun₁, hrun₂, hrest⟩ :=
              removeDeep_spec (d := .right) (u := .node l₁ a₁ b₁ r₁) hT hn hbal hfuel rfl
            refine ⟨h₂, t', ?_, hrest⟩
            rw [hlast]
            simp only [Option.bind_some, hrun₁]
            rw [if_neg (by simpa using hne), hrun₂]

theorem phRemoveElementAvlTree_removes {tree : AvlTree α} {t : BTree α}
    (hcmp : ComparesTotally tree.compareFunction) (hrep : AvlRep tree t)
    (he : e ∈ t.toList) (hfuel : t.toList.length < fuel) :
    ∃ tree' t', phRemoveElementAvlTree fuel tree e = some tree' ∧ AvlRep tree' t' ∧
      t.toList.Perm (e :: t'.toList) ∧ tree'.count = tree.count - 1 ∧
      tree'.compareFunction = tree.compareFunction := by
  have hn := hrep.ordered.nodup hcmp
  obtain ⟨h', t', hrun, hT', hb', X, Y, hX, hY⟩ :=
    removeLinks_spec hrep.linked hn hrep.balanced he hfuel
  refine ⟨{ tree with heap := h', count := tree.count - 1 }, t', ?_, ⟨hT', hb', ?_⟩, ?_, rfl,
    rfl⟩
  · unfold phRemoveElementAvlTree
    rw [hrun]
    rfl
  · have hord := hrep.ordered
    rw [Ordered, hX] at hord
    rw [Ordered, hY]
    exact hord.sublist (List.Sublist.append_left (List.sublist_cons_self e Y) X)
  · rw [hX, hY]
    exact List.perm_middle

/-! ## Fuel

A call that returns returns the same with more fuel. -/

omit [DecidableEq α] in
theorem findLoop_succ {tree : AvlTree α} : ∀ {fuel : Nat} {P : AvlRef α}
    {r : AvlRef α × Int}, findLoop tree e fuel P = some r →
    findLoop tree e (fuel + 1) P = some r := by
  intro fuel
  induction fuel with
  | zero =>
      intro P r hrun
      cases hrun
  | succ fuel ih =>
      intro P r hrun
      cases P with
      | root => cases hrun
      | element links =>
          rw [findLoop] at hrun ⊢
          split at hrun
          · next heq => rwa [if_pos heq]
          · next hne =>
              rw [if_neg hne]
              split at hrun
              · next hlt =>
                  rw [if_pos hlt]
                  split at hrun
                  · exact ih hrun
                  · exact hrun
              · next hlt =>
                  rw [if_neg hlt]
                  split at hrun
                  · exact ih hrun
                  · exact hrun

theorem addLoop_succ {rootElement : AvlRef α} : ∀ {fuel : Nat} {h h' : AvlHeap α}
    {P : AvlRef α}, addLoop rootElement fuel h P = some h' →
    addLoop rootElement (fuel + 1) h P = some h' := by
  intro fuel
  induction fuel with
  | zero =>
      intro h h' P hrun
      cases hrun
  | succ fuel ih =>
      intro h h' P hrun
      rw [addLoop] at hrun ⊢
      split at hrun
      · next heq => rwa [if_pos heq]
      · next hne =>
          rw [if_neg hne]
          obtain ⟨parent, hparent, hrun⟩ := Option.bind_eq_some_iff.mp hrun
          rw [hparent]
          simp only [Option.bind_eq_bind, Option.bind_some] at hrun ⊢
          split at hrun
          · next hzero =>
              rw [if_pos hzero]
              exact ih hrun
          · next hzero => rwa [if_neg hzero]

omit [DecidableEq α] in
theorem lastChild_succ {d : Side} : ∀ {fuel : Nat} {x y : AvlRef α},
    lastChild d h fuel x = some y → lastChild d h (fuel + 1) x = some y := by
  intro fuel
  induction fuel with
  | zero =>
      intro x y hrun
      cases hrun
  | succ fuel ih =>
      intro x y hrun
      rw [lastChild] at hrun ⊢
      split at hrun
      · exact ih hrun
      · exact hrun

theorem removeLoop_succ : ∀ {fuel : Nat} {h h' : AvlHeap α} {P : AvlRef α} {balance : Int},
    removeLoop fuel h P balance = some h' → removeLoop (fuel + 1) h P balance = some h' := by
  intro fuel
  induction fuel with
  | zero =>
      intro h h' P balance hrun
      cases hrun
  | succ fuel ih =>
      intro h h' P balance hrun
      have htrace : ∀ (h₁ : AvlHeap α) (P : AvlRef α),
          (h₁ P).parent.bind (fun parent =>
            removeLoop fuel h₁ parent (slotOf h₁ parent P).side.sign) = some h' →
          (h₁ P).parent.bind (fun parent =>
            removeLoop (fuel + 1) h₁ parent (slotOf h₁ parent P).side.sign) = some h' := by
        intro h₁ P hrun
        obtain ⟨parent, hparent, hrun⟩ := Option.bind_eq_some_iff.mp hrun
        rw [hparent]
        exact ih hrun
      rw [removeLoop] at hrun ⊢
      simp only [Option.bind_eq_bind] at hrun ⊢
      split at hrun
      · next heq => rwa [if_pos heq]
      · next hne =>
          rw [if_neg hne]
          split at hrun
          · next hsame =>
              rw [if_pos hsame]
              exact htrace _ _ hrun
          · next hsame =>
              rw [if_neg hsame]
              split at hrun
              · next hzero => rwa [if_pos hzero]
              · next hzero =>
                  rw [if_neg hzero]
                  obtain ⟨parent, hparent, hrun⟩ := Option.bind_eq_some_iff.mp hrun
                  obtain ⟨r, hr, hrun⟩ := Option.bind_eq_some_iff.mp hrun
                  rw [hparent]
                  simp only [Option.bind_some, hr]
                  split at hrun
                  · next hthree => rwa [if_pos hthree]
                  · next hthree =>
                      rw [if_neg hthree]
                      obtain ⟨P', hP', hrun⟩ := Option.bind_eq_some_iff.mp hrun
                      rw [hP']
                      exact htrace _ _ hrun

omit [DecidableEq α] in
theorem phpFindElementAvlTree_succ {tree : AvlTree α}
    {r : AvlRef α × Int} (hrun : phpFindElementAvlTree fuel tree e = some r) :
    phpFindElementAvlTree (fuel + 1) tree e = some r := by
  unfold phpFindElementAvlTree at hrun ⊢
  split at hrun
  · exact hrun
  · exact findLoop_succ hrun

theorem phAddElementAvlTree_succ {tree : AvlTree α}
    {r : AvlTree α × Option (AvlRef α)} (hrun : phAddElementAvlTree fuel tree e = some r) :
    phAddElementAvlTree (fuel + 1) tree e = some r := by
  unfold phAddElementAvlTree at hrun ⊢
  obtain ⟨found, hfound, hrun⟩ := Option.bind_eq_some_iff.mp hrun
  rw [phpFindElementAvlTree_succ hfound]
  simp only [Option.bind_eq_bind, Option.bind_some] at hrun ⊢
  split at hrun
  · next hzero => rwa [if_pos hzero]
  · next hzero =>
      rw [if_neg hzero]
      obtain ⟨rootElement, hroot, hrun⟩ := Option.bind_eq_some_iff.mp hrun
      obtain ⟨h', hloop, hrun⟩ := Option.bind_eq_some_iff.mp hrun
      rw [hroot]
      simp only [Option.bind_some, addLoop_succ hloop]
      exact hrun

omit [DecidableEq α] in
theorem replacementOf_succ {e n : AvlRef α}
    (hrun : replacementOf fuel h e = some n) : replacementOf (fuel + 1) h e = some n := by
  unfold replacementOf at hrun ⊢
  split at hrun
  · split at hrun
    · next hbal =>
        rw [if_pos hbal]
        exact lastChild_succ hrun
    · next hbal =>
        rw [if_neg hbal]
        exact lastChild_succ hrun
  · exact hrun

theorem phRemoveElementAvlTree_succ {tree tree' : AvlTree α}
    (hrun : phRemoveElementAvlTree fuel tree e = some tree') :
    phRemoveElementAvlTree (fuel + 1) tree e = some tree' := by
  unfold phRemoveElementAvlTree removeLinks unlinkElement at hrun ⊢
  simp only [Option.bind_eq_bind, Option.bind_eq_some_iff] at hrun ⊢
  obtain ⟨h', ⟨n, hn, h₁, ⟨parent, hparent, P, hP, hloop⟩, hrest⟩, hrun⟩ := hrun
  exact ⟨h', ⟨n, replacementOf_succ hn, h₁, ⟨parent, hparent, P, hP, removeLoop_succ hloop⟩,
    hrest⟩, hrun⟩

omit [DecidableEq α] in
theorem eq_of_fuel {β : Type} {f : Nat → Option β} (hf : ∀ {n r}, f n = some r → f (n + 1) = some r)
    {n m : Nat} {r r' : β} (hn : f n = some r) (hm : f m = some r') : r = r' := by
  have hmono : ∀ {n r}, f n = some r → ∀ k, f (n + k) = some r := by
    intro n r hr k
    induction k with
    | zero => exact hr
    | succ k ih => exact hf ih
  have h₁ := hmono hn m
  have h₂ := hmono hm n
  rw [Nat.add_comm] at h₂
  exact Option.some.inj (h₁.symm.trans h₂)

/-! ## Runs -/

/-- The states of a tree and the sets of its elements over all sequences of
additions of elements outside the tree and removals of elements in it. -/
inductive AvlRun (cmp : α → α → Int) : AvlTree α → Finset α → Prop where
  | init (h : AvlHeap α) : AvlRun cmp (phInitializeAvlTree h cmp) ∅
  | added {tree tree' : AvlTree α} {elements : Finset α} {a : α} {fuel : Nat} :
      AvlRun cmp tree elements → a ∉ elements →
      phAddElementAvlTree fuel tree a = some (tree', none) →
      AvlRun cmp tree' (insert a elements)
  | refused {tree tree' : AvlTree α} {elements : Finset α} {a : α} {x : AvlRef α}
      {fuel : Nat} : AvlRun cmp tree elements → a ∉ elements →
      phAddElementAvlTree fuel tree a = some (tree', some x) → AvlRun cmp tree' elements
  | removed {tree tree' : AvlTree α} {elements : Finset α} {a : α} {fuel : Nat} :
      AvlRun cmp tree elements → a ∈ elements →
      phRemoveElementAvlTree fuel tree a = some tree' → AvlRun cmp tree' (elements.erase a)

/-- The tree `t` in memory, over the elements of a run. -/
structure AvlInvariant (cmp : α → α → Int) (tree : AvlTree α) (elements : Finset α)
    (t : BTree α) : Prop where
  compareFunction : tree.compareFunction = cmp
  rep : AvlRep tree t
  elements : ∀ a, a ∈ t.toList ↔ a ∈ elements
  count : tree.count.toNat = t.toList.length % 2 ^ 32

section Invariant

variable {cmp : α → α → Int} {tree tree' : AvlTree α} {elements : Finset α} {t : BTree α}
  {a : α}

theorem avlInvariant_init (cmp : α → α → Int) (h : AvlHeap α) :
    AvlInvariant cmp (phInitializeAvlTree h cmp) ∅ .nil := by
  have hroot : (phInitializeAvlTree h cmp).heap .root = ⟨none, none, none, 0⟩ := by
    simp only [phInitializeAvlTree, Function.update_self]
  refine ⟨rfl, ⟨⟨hroot, trivial⟩, trivial, List.Pairwise.nil⟩, ?_, rfl⟩
  intro a
  simp [BTree.toList]

theorem AvlInvariant.add (hcmp : ComparesTotally cmp) (hinv : AvlInvariant cmp tree elements t)
    (hnew : ∀ b ∈ elements, cmp a b ≠ 0) :
    ∃ tree' t', (∀ fuel > t.toList.length,
        phAddElementAvlTree fuel tree a = some (tree', none)) ∧
      AvlInvariant cmp tree' (insert a elements) t' := by
  obtain ⟨rfl, hrep, helems, hcount⟩ := hinv
  have hnew' : ∀ b ∈ t.toList, tree.compareFunction a b ≠ 0 :=
    fun b hb => hnew b ((helems b).mp hb)
  obtain ⟨tree', t', hrun, hrep', hperm, hcount', hcmp'⟩ :=
    phAddElementAvlTree_adds hcmp hrep hnew' (Nat.lt_succ_self _)
  refine ⟨tree', t', fun fuel hfuel => ?_, hcmp', hrep', fun b => ?_, ?_⟩
  · obtain ⟨tree'', t'', hrun', -⟩ := phAddElementAvlTree_adds hcmp hrep hnew' hfuel
    have heq := eq_of_fuel (f := fun fuel => phAddElementAvlTree fuel tree a)
      phAddElementAvlTree_succ hrun hrun'
    rw [hrun', ← heq]
  · rw [hperm.mem_iff, List.mem_cons, Finset.mem_insert, helems]
  · rw [hcount', hperm.length_eq, List.length_cons, UInt32.toNat_add, hcount]
    simp

theorem AvlInvariant.refuse (hcmp : ComparesTotally cmp)
    (hinv : AvlInvariant cmp tree elements t) {b : α} (hb : b ∈ elements)
    (hab : cmp a b = 0) {fuel : Nat} (hfuel : t.toList.length < fuel) :
    phAddElementAvlTree fuel tree a = some (tree, some (.element b)) := by
  obtain ⟨rfl, hrep, helems, -⟩ := hinv
  exact phAddElementAvlTree_exists hcmp hrep ((helems b).mpr hb) hab hfuel

theorem AvlInvariant.remove (hcmp : ComparesTotally cmp)
    (hinv : AvlInvariant cmp tree elements t) (ha : a ∈ elements) :
    ∃ tree' t', (∀ fuel > t.toList.length,
        phRemoveElementAvlTree fuel tree a = some tree') ∧
      AvlInvariant cmp tree' (elements.erase a) t' := by
  obtain ⟨rfl, hrep, helems, hcount⟩ := hinv
  have ha' := (helems a).mpr ha
  obtain ⟨tree', t', hrun, hrep', hperm, hcount', hcmp'⟩ :=
    phRemoveElementAvlTree_removes hcmp hrep ha' (Nat.lt_succ_self _)
  have hnodup := hperm.nodup_iff.mp (hrep.ordered.nodup hcmp)
  rw [List.nodup_cons] at hnodup
  refine ⟨tree', t', fun fuel hfuel => ?_, hcmp', hrep', fun b => ?_, ?_⟩
  · obtain ⟨tree'', t'', hrun', -⟩ := phRemoveElementAvlTree_removes hcmp hrep ha' hfuel
    have heq := eq_of_fuel (f := fun fuel => phRemoveElementAvlTree fuel tree a)
      phRemoveElementAvlTree_succ hrun hrun'
    rw [hrun', ← heq]
  · rw [Finset.mem_erase, ← helems, hperm.mem_iff, List.mem_cons]
    constructor
    · intro hb
      exact ⟨fun heq => hnodup.1 (heq ▸ hb), Or.inr hb⟩
    · intro hb
      exact hb.2.resolve_left hb.1
  · have hlen := hperm.length_eq
    rw [List.length_cons] at hlen
    rw [hcount', UInt32.toNat_sub, hcount, hlen]
    simp
    omega

end Invariant

theorem avlRun_invariant {cmp : α → α → Int} (hcmp : ComparesTotally cmp) {tree : AvlTree α}
    {elements : Finset α} (hrun : AvlRun cmp tree elements) :
    ∃ t, AvlInvariant cmp tree elements t := by
  induction hrun with
  | init h => exact ⟨.nil, avlInvariant_init cmp h⟩
  | @added tree tree' elements a fuel _ ha hadd ih =>
      obtain ⟨t, hinv⟩ := ih
      by_cases hnew : ∀ b ∈ elements, cmp a b ≠ 0
      · obtain ⟨tree'', t', hrun', hinv'⟩ := hinv.add hcmp hnew
        have heq := eq_of_fuel (f := fun fuel => phAddElementAvlTree fuel tree a)
          phAddElementAvlTree_succ hadd (hrun' _ (Nat.lt_succ_self _))
        injection heq with heq
        exact ⟨t', heq ▸ hinv'⟩
      · simp only [not_forall, Decidable.not_not] at hnew
        obtain ⟨b, hb, hab⟩ := hnew
        have heq := eq_of_fuel (f := fun fuel => phAddElementAvlTree fuel tree a)
          phAddElementAvlTree_succ hadd (hinv.refuse hcmp hb hab (Nat.lt_succ_self _))
        injection heq with _ heq
        cases heq
  | @refused tree tree' elements a x fuel _ ha hadd ih =>
      obtain ⟨t, hinv⟩ := ih
      by_cases hnew : ∀ b ∈ elements, cmp a b ≠ 0
      · obtain ⟨tree'', t', hrun', -⟩ := hinv.add hcmp hnew
        have heq := eq_of_fuel (f := fun fuel => phAddElementAvlTree fuel tree a)
          phAddElementAvlTree_succ hadd (hrun' _ (Nat.lt_succ_self _))
        injection heq with _ heq
        cases heq
      · simp only [not_forall, Decidable.not_not] at hnew
        obtain ⟨b, hb, hab⟩ := hnew
        have heq := eq_of_fuel (f := fun fuel => phAddElementAvlTree fuel tree a)
          phAddElementAvlTree_succ hadd (hinv.refuse hcmp hb hab (Nat.lt_succ_self _))
        injection heq with heq
        exact ⟨t, heq ▸ hinv⟩
  | @removed tree tree' elements a fuel _ ha hremove ih =>
      obtain ⟨t, hinv⟩ := ih
      obtain ⟨tree'', t', hrun', hinv'⟩ := hinv.remove hcmp ha
      have heq := eq_of_fuel (f := fun fuel => phRemoveElementAvlTree fuel tree a)
        phRemoveElementAvlTree_succ hremove (hrun' _ (Nat.lt_succ_self _))
      exact ⟨t', heq ▸ hinv'⟩

/-- After every run the links represent a tree of the run's elements, balanced
and in order, and every further call the run may make returns: an addition
beside an element comparing equal answers that element and changes nothing. -/
theorem avlTree_runs {cmp : α → α → Int} (hcmp : ComparesTotally cmp) {tree : AvlTree α}
    {elements : Finset α} (hrun : AvlRun cmp tree elements) :
    (∃ t, TreeLinked tree.heap t ∧ t.Balanced ∧ Ordered cmp t ∧
      (∀ a, a ∈ t.toList ↔ a ∈ elements) ∧
      tree.count.toNat = t.toList.length % 2 ^ 32 ∧ t.toList.length = elements.card) ∧
    (∀ a ∉ elements, ∀ b ∈ elements, cmp a b = 0 → ∃ n, ∀ fuel > n,
      phAddElementAvlTree fuel tree a = some (tree, some (.element b))) ∧
    (∀ a ∉ elements, (∀ b ∈ elements, cmp a b ≠ 0) → ∃ n tree', ∀ fuel > n,
      phAddElementAvlTree fuel tree a = some (tree', none)) ∧
    (∀ a ∈ elements, ∃ n tree', ∀ fuel > n,
      phRemoveElementAvlTree fuel tree a = some tree') := by
  obtain ⟨t, hinv⟩ := avlRun_invariant hcmp hrun
  refine ⟨⟨t, hinv.rep.linked, hinv.rep.balanced, ?_, hinv.elements, hinv.count, ?_⟩,
    fun a _ b hb hab => ⟨_, fun fuel hfuel => hinv.refuse hcmp hb hab hfuel⟩,
    fun a _ hnew => ?_, fun a ha => ?_⟩
  · have hord := hinv.rep.ordered
    rwa [hinv.compareFunction] at hord
  · have hnodup : t.toList.Nodup :=
      hinv.rep.ordered.nodup (hinv.compareFunction.symm ▸ hcmp)
    rw [← List.toFinset_card_of_nodup hnodup]
    congr 1
    ext a
    rw [List.mem_toFinset, hinv.elements]
  · obtain ⟨tree', t', hadd, -⟩ := hinv.add hcmp hnew
    exact ⟨_, tree', hadd⟩
  · obtain ⟨tree', t', hremove, -⟩ := hinv.remove hcmp ha
    exact ⟨_, tree', hremove⟩

def compareNat (a b : Nat) : Int := (a : Int) - b

theorem compareNat_total : ComparesTotally compareNat := by
  refine ⟨fun a b => ?_, fun a b c hab hbc => ?_⟩
  · unfold compareNat
    omega
  · unfold compareNat at *
    omega

theorem avlRun_range (n : Nat) : ∃ tree, AvlRun compareNat tree (Finset.range n) := by
  induction n with
  | zero => exact ⟨_, AvlRun.init fun _ => ⟨none, none, none, 0⟩⟩
  | succ n ih =>
      obtain ⟨tree, hrun⟩ := ih
      obtain ⟨t, hinv⟩ := avlRun_invariant compareNat_total hrun
      have hnew : ∀ b ∈ Finset.range n, compareNat n b ≠ 0 := by
        intro b hb
        rw [Finset.mem_range] at hb
        unfold compareNat
        omega
      obtain ⟨tree', t', hadd, -⟩ := hinv.add compareNat_total hnew
      rw [Finset.range_add_one]
      exact ⟨tree', hrun.added Finset.notMem_range_self (hadd _ (Nat.lt_succ_self _))⟩

theorem avlTree_runs_three : ∃ tree, AvlRun compareNat tree (Finset.range 3) ∧
    ∃ t, TreeLinked tree.heap t ∧ t.Balanced ∧ Ordered compareNat t ∧
      (∀ a, a ∈ t.toList ↔ a ∈ Finset.range 3) ∧
      tree.count.toNat = t.toList.length % 2 ^ 32 ∧
      t.toList.length = (Finset.range 3).card := by
  obtain ⟨tree, hrun⟩ := avlRun_range 3
  exact ⟨tree, hrun, (avlTree_runs compareNat_total hrun).1⟩

/-- After 2^32 additions the count is 0. -/
theorem avlTree_count_wraps :
    ¬ ∀ (cmp : Nat → Nat → Int) (tree : AvlTree Nat) (elements : Finset Nat),
      ComparesTotally cmp → AvlRun cmp tree elements →
        tree.count.toNat = elements.card := by
  intro h
  obtain ⟨tree, hrun⟩ := avlRun_range (2 ^ 32)
  have hcard := h compareNat tree _ compareNat_total hrun
  have hlt := tree.count.toNat_lt
  rw [hcard, Finset.card_range] at hlt
  omega

end SystemInformer.PhLib
