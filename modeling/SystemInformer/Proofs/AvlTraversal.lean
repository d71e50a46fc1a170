import SystemInformer.Proofs.AvlBounds

/-!
# The traversals of an AVL tree

The array of `PhEnumAvlTree` holds the elements whose subtree is half done; each goes with the
subtree that is still to come, and one subtree after the other the pending elements are those of
the whole rest of the run. A subtree is less high than what it stands in, so what an element and
its pending subtree may ever add to the array fits under it (`Held`). Fibonacci's bound makes
that 45 for fewer than 2^32 elements.

The neighbours of an element are read off the context it stands in: below it on that side, or else
the first frame whose hole is on the other side. A climb that meets no such frame ends in the
sentinel, which looks like the father of a right child: one direction passes it and finds its null
parent, the other one is given it and has to look at that parent itself.
-/

namespace SystemInformer.PhLib

open BalTree

variable {α : Type}

/-! ## Enumeration -/

/-- The calls for a list until the callback returns false, and its context after them. -/
def callUntil {σ : Type} (callback : AvlRef α → σ → Bool × σ) : List α → σ →
    List (AvlRef α) × σ
  | [], context => ([], context)
  | a :: l, context =>
      match callback (.element a) context with
      | (false, context) => ([.element a], context)
      | (true, context) =>
          let (calls, context) := callUntil callback l context
          (.element a :: calls, context)

/-- The array of an enumeration from side `d`: elements, each with the subtree to do after it.
Nothing above an entry ever needs more than `room` places. -/
def Held (d : Side) (h : AvlHeap α) (room : Nat) : List (α × BTree α) → Prop
  | [] => True
  | (a, y) :: s =>
      (h (.element a)).child d.opp = ptr y ∧ Linked h (.element a) y ∧
        s.length + y.height + 1 ≤ room ∧ Held d h room s

/-- What an enumeration has still to do. -/
def pending (d : Side) : List (α × BTree α) → List α
  | [] => []
  | (a, y) :: s => a :: (y.listFrom d ++ pending d s)

def stackLinks (s : List (α × BTree α)) : List (AvlRef α) := s.map fun f => .element f.1

theorem pushLoop_spec {d : Side} {h : AvlHeap α} {room : Nat} (hroom : room ≤ stackBaseLength)
    {t : BTree α} : ∀ {p : AvlRef α} {fuel : Nat} {s : List (α × BTree α)}, Linked h p t →
    Held d h room s → s.length + t.height ≤ room → t.height < fuel →
    ∃ s', pushLoop d h fuel (ptr t) (stackLinks s) = some (stackLinks s') ∧
      Held d h room s' ∧ pending d s' = t.listFrom d ++ pending d s := by
  induction t using BTree.join_induction d with
  | nil =>
      intro p fuel s _ hs _ hfuel
      obtain ⟨fuel, rfl⟩ : ∃ n, fuel = n + 1 := ⟨fuel - 1, by omega⟩
      exact ⟨s, rfl, hs, by rw [BTree.listFrom_nil, List.nil_append]⟩
  | join x a b y ihx _ =>
      intro p fuel s hlinked hs hfits hfuel
      obtain ⟨fuel, rfl⟩ : ∃ n, fuel = n + 1 := ⟨fuel - 1, by omega⟩
      obtain ⟨ha, hx, hy⟩ := linked_join.mp hlinked
      rw [BTree.height_join] at hfits hfuel
      have hheld : Held d h room ((a, y) :: s) := by
        refine ⟨?_, hy, by omega, hs⟩
        rw [ha, AvlLinks.child_opp_sided]
      have hlow : x.height < fuel := by omega
      obtain ⟨s', hrun, hs', hpending⟩ :=
        ihx hx hheld (by rw [List.length_cons]; omega) hlow
      refine ⟨s', ?_, hs', ?_⟩
      · have hlength : (stackLinks s).length < stackBaseLength := by
          rw [stackLinks, List.length_map]
          omega
        rw [ptr_join, pushLoop, if_pos hlength, ha, AvlLinks.child_sided]
        exact hrun
      · rw [hpending, BTree.listFrom_join, List.append_assoc]
        rfl

variable {fuel : Nat}

theorem enumLoop_spec {σ : Type} {d : Side} {h : AvlHeap α} {room : Nat}
    (hroom : room ≤ stackBaseLength) (callback : AvlRef α → σ → Bool × σ) :
    ∀ {s : List (α × BTree α)} {context : σ}, Held d h room s → (pending d s).length < fuel →
    enumLoop d h callback fuel (stackLinks s) context =
      some (callUntil callback (pending d s) context) := by
  induction fuel with
  | zero =>
      intro s context _ hfuel
      omega
  | succ fuel ih =>
      intro s context hs hfuel
      match s with
      | [] => rfl
      | (a, y) :: s =>
          obtain ⟨ha, hy, hfits, hs⟩ := hs
          rw [pending, List.length_cons, List.length_append, BTree.length_listFrom] at hfuel
          have hheight := y.height_le_length
          have hlow : y.height < fuel := by omega
          obtain ⟨s', hrun, hs', hpending⟩ := pushLoop_spec hroom hy hs (by omega) hlow
          rw [stackLinks, List.map_cons, enumLoop, pending, callUntil, ← hpending, ha,
            ← stackLinks, hrun]
          cases callback (.element a) context with
          | mk more context =>
              cases more with
              | false => rfl
              | true =>
                  have hshort : (pending d s').length < fuel := by
                    rw [hpending, List.length_append, BTree.length_listFrom]
                    omega
                  have hrest : enumLoop d h callback fuel (stackLinks s') context =
                      some (callUntil callback (pending d s') context) := ih hs' hshort
                  simp only [Option.bind_eq_bind, Option.bind_some, hrest]

theorem height_le_of_count {t : BTree α} (hbal : t.Balanced) (hcount : t.toList.length < 2 ^ 32) :
    t.height ≤ 45 := by
  by_contra hlt
  have hfib : Nat.fib 48 ≤ Nat.fib (t.height + 2) := Nat.fib_mono (by omega)
  have hbound := hbal.fib_height_le
  have hvalue : Nat.fib 48 = 4807526976 := by norm_num
  omega

theorem phEnumAvlTree_eq {σ : Type} (t : AvlSearchTree α) (hcount : t.shape.toList.length < 2 ^ 32)
    (order : TreeEnumerationOrder) (callback : AvlRef α → σ → Bool × σ) (context : σ) (hfuel : t.shape.toList.length < fuel) :
    phEnumAvlTree fuel t.tree order callback context =
      some (callUntil callback (t.shape.listFrom order.side) context) := by
  have hheight := height_le_of_count t.rep.balanced hcount
  have hroom : t.shape.height ≤ stackBaseLength := hheight.trans (by decide)
  have hroot : phRootElementAvlTree t.tree = ptr t.shape := by
    rw [phRootElementAvlTree, t.rep.linked.1]
  obtain ⟨s, hrun, hs, hpending⟩ := pushLoop_spec (d := order.side) (s := []) hroom
    t.rep.linked.2 trivial (by rw [List.length_nil, Nat.zero_add])
    (t.shape.height_le_length.trans_lt hfuel)
  rw [pending, List.append_nil] at hpending
  have hloop : enumLoop order.side t.tree.heap callback fuel (stackLinks s) context =
      some (callUntil callback (pending order.side s) context) :=
    enumLoop_spec hroom callback hs (by rw [hpending, BTree.length_listFrom]; exact hfuel)
  have hpush : pushLoop order.side t.tree.heap fuel (ptr t.shape) [] = some (stackLinks s) := hrun
  rw [phEnumAvlTree, hroot, hpush]
  simp only [Option.bind_eq_bind, Option.bind_some, hloop, hpending]

/-! ## Neighbours -/

variable [DecidableEq α]

/-- Where a climb ends that finds no element. -/
def pastEnd : Side → Option (AvlRef α)
  | .left => some .root
  | .right => none

/-- What the two searches for a neighbour share. -/
def neighbour (d : Side) (h : AvlHeap α) (fuel : Nat) (element : AvlRef α) :
    Option (Option (AvlRef α)) :=
  match (h element).child d with
  | some x => (lastChild d.opp h fuel x).map some
  | none => climbLoop d h fuel element (h element).parent

theorem climbLoop_eq {d : Side} {h : AvlHeap α} {c : Ctx α} :
    ∀ {a : α} {fuel : Nat}, CtxLinked h c (some (.element a)) → (a :: elems c).Nodup →
    c.length + 1 < fuel →
    climbLoop d h fuel (.element a) (some (holder c)) =
      some (((outward d c).head?.map .element).or (pastEnd d)) := by
  induction c with
  | nil =>
      intro a fuel hc _ hfuel
      obtain ⟨fuel, rfl⟩ : ∃ n, fuel = n + 2 := ⟨fuel - 2, by simp at hfuel; omega⟩
      have hroot : h .root = ⟨none, none, some (.element a), 0⟩ := hc
      rw [holder, climbLoop, hroot, outward_nil]
      cases d with
      | left => rfl
      | right => exact if_pos rfl
  | cons f c ih =>
      intro a fuel hc hnodup hfuel
      obtain ⟨fuel, rfl⟩ : ∃ n, fuel = n + 1 := ⟨fuel - 1, by omega⟩
      obtain ⟨hf, -, hctx⟩ := hc
      have helems : a ∉ elems (f :: c) ∧ (f.elem :: (f.sibling.toList ++ elems c)).Nodup :=
        List.nodup_cons.mp hnodup
      rw [elems] at helems
      rw [holder, climbLoop, hf]
      by_cases hside : f.side = d
      · rw [hside, AvlLinks.child_sided, if_pos rfl, AvlLinks.parent_sided,
          outward_cons_same hside]
        rw [List.length_cons] at hfuel
        refine ih hctx ?_ (by omega)
        exact List.Nodup.sublist (List.Sublist.cons_cons _ (List.sublist_append_right _ _))
          helems.2
      · have hopp : f.side = d.opp := by
          revert hside
          cases f.side <;> cases d <;> simp [Side.opp]
        have hother : (AvlLinks.sided (some (holder c)) f.side (some (.element a))
            (ptr f.sibling) f.balance).child d ≠ some (.element a) := by
          rw [hopp, AvlLinks.sided_opp, AvlLinks.child_sided]
          exact fun hptr => helems.1
            (List.mem_cons_of_mem _ (List.mem_append_left _ (ptr_mem hptr)))
        rw [if_neg hother, outward_cons_opp hside]
        rfl

omit [DecidableEq α] in
theorem lastChild_eq (d : Side) {h : AvlHeap α} {t : BTree α} {p P : AvlRef α}
    (hfuel : t.height ≤ fuel) (hlinked : Linked h p t) (hP : ptr t = some P) :
    ∃ a l, t.listFrom d = a :: l ∧ lastChild d h fuel P = some (.element a) := by
  obtain ⟨c, n, b, s, rfl, hbeyond, hrun⟩ := lastChild_spec d hfuel hlinked hP
  have hout : outward d c = [] := by
    revert hbeyond
    cases d with
    | left =>
        intro hbefore
        exact List.reverse_eq_nil_iff.mpr hbefore
    | right => exact id
  refine ⟨n, s.listFrom d ++ outward d.opp c, ?_, hrun⟩
  rw [listFrom_plug, hout, BTree.listFrom_join, BTree.listFrom_nil]
  rfl

theorem neighbour_eq {d : Side} {h : AvlHeap α} {c : Ctx α} {x y : BTree α} {a : α} {b : Int} (hT : TreeLinked h (plug c (BTree.join d x a b y)))
    (hnodup : (plug c (BTree.join d x a b y)).toList.Nodup)
    (hfuel : (plug c (BTree.join d x a b y)).toList.length + 1 < fuel) :
    neighbour d h fuel (.element a) =
      some (((x.listFrom d.opp ++ outward d c).head?.map .element).or (pastEnd d)) := by
  have hdepth := length_le_plug c (BTree.join d x a b y)
  have hlength := (toList_plug_perm c (BTree.join d x a b y)).length_eq
  obtain ⟨hc, hlinked⟩ := treeLinked_plug.mp hT
  obtain ⟨ha, hx, -⟩ := linked_join.mp hlinked
  rw [neighbour, ha, AvlLinks.child_sided]
  cases hptr : ptr x with
  | none =>
      have hnil : x = .nil := by
        cases x with
        | nil => rfl
        | node => cases hptr
      rw [ptr_join] at hc
      obtain ⟨-, helems, hdisj⟩ := nodup_plug.mp hnodup
      have hnotin : a ∉ elems c := hdisj a (BTree.mem_join.mpr (.inl rfl))
      rw [hnil, BTree.listFrom_nil, List.nil_append, AvlLinks.parent_sided]
      exact climbLoop_eq hc (List.nodup_cons.mpr ⟨hnotin, helems⟩) (by omega)
  | some P =>
      have hheight : x.height ≤ fuel := by
        have hle := (BTree.join d x a b y).height_le_length
        rw [BTree.height_join] at hle
        rw [List.length_append] at hlength
        omega
      obtain ⟨n, l, hlist, hrun⟩ := lastChild_eq d.opp hheight hx hptr
      rw [hlist]
      simp only [hrun]
      rfl

omit [DecidableEq α] in
theorem AvlSearchTree.nodup_listFrom (t : AvlSearchTree α) (d : Side) :
    (t.shape.listFrom d).Nodup := by
  have hnodup := t.rep.ordered.nodup t.compares
  cases d with
  | left => exact hnodup
  | right => exact List.nodup_reverse.mpr hnodup

variable {xs ys : List α}

omit [DecidableEq α] in
theorem AvlSearchTree.focus (t : AvlSearchTree α) {d : Side} {a : α}
    (hlist : t.shape.listFrom d.opp = xs ++ a :: ys) :
    ∃ c x b y, t.shape = plug c (BTree.join d x a b y) ∧
      ys = x.listFrom d.opp ++ outward d c := by
  have hmem : a ∈ t.shape.toList := by
    rw [← BTree.mem_listFrom (d := d.opp), hlist]
    exact List.mem_append_right _ List.mem_cons_self
  obtain ⟨c, l, b, r, hshape⟩ := exists_plug_of_mem hmem
  obtain ⟨x, y, hjoin⟩ := BTree.node_eq_join l r a b d
  rw [hjoin] at hshape
  have hsplit : xs ++ a :: ys = ((outward d.opp c).reverse ++ y.listFrom d.opp) ++
      a :: (x.listFrom d.opp ++ outward d c) := by
    rw [← hlist, hshape, listFrom_plug, ← BTree.join_opp, BTree.listFrom_join, Side.opp_opp]
    simp only [List.append_assoc, List.cons_append]
  have hnodup := t.nodup_listFrom d.opp
  rw [hlist, List.nodup_append, List.nodup_cons] at hnodup
  obtain ⟨-, ⟨hys, -⟩, hxs⟩ := hnodup
  obtain ⟨-, -, htail⟩ := (List.append_cons_inj_of_notMem
    (fun hin => hxs a hin a List.mem_cons_self rfl) hys).mp hsplit
  exact ⟨c, x, b, y, hshape, htail⟩

theorem neighbour_next (t : AvlSearchTree α) {d : Side} {a : α}
    (hlist : t.shape.listFrom d.opp = xs ++ a :: ys)
    (hfuel : t.shape.toList.length + 1 < fuel) :
    neighbour d t.tree.heap fuel (.element a) =
      some ((ys.head?.map .element).or (pastEnd d)) := by
  obtain ⟨c, x, b, y, hshape, rfl⟩ := t.focus hlist
  have hT := t.rep.linked
  have hnodup := t.rep.ordered.nodup t.compares
  rw [hshape] at hT hnodup hfuel
  exact neighbour_eq hT hnodup hfuel

theorem phSuccessorElementAvlTree_next (t : AvlSearchTree α) {a : α}
    (hlist : t.shape.listFrom .left = xs ++ a :: ys)
    (hfuel : t.shape.toList.length + 1 < fuel) :
    phSuccessorElementAvlTree fuel t.tree.heap (.element a) = some (ys.head?.map .element) := by
  have hnext := neighbour_next t (d := .right) hlist hfuel
  rw [pastEnd, Option.or_none] at hnext
  exact hnext

omit [DecidableEq α] in
theorem AvlSearchTree.parent_ne_none (t : AvlSearchTree α) {a : α} (ha : a ∈ t.shape.toList) :
    (t.tree.heap (.element a)).parent ≠ none := by
  obtain ⟨c, l, b, r, hshape⟩ := exists_plug_of_mem ha
  have hT := t.rep.linked
  rw [hshape] at hT
  rw [(treeLinked_plug.mp hT).2.1]
  exact Option.some_ne_none _

theorem phPredecessorElementAvlTree_next (t : AvlSearchTree α) {a : α}
    (hlist : t.shape.listFrom .right = xs ++ a :: ys)
    (hfuel : t.shape.toList.length + 1 < fuel) :
    phPredecessorElementAvlTree fuel t.tree.heap (.element a) =
      some (ys.head?.map .element) := by
  have hnext := neighbour_next t (d := .left) hlist hfuel
  have hroot : (t.tree.heap .root).parent = none := by rw [t.rep.linked.1]
  rw [neighbour] at hnext
  rw [phPredecessorElementAvlTree]
  cases ys with
  | nil =>
      obtain ⟨c, x, b, y, hshape, hnil⟩ := t.focus (d := .left) hlist
      have hx : ptr x = none := by
        cases x with
        | nil => rfl
        | node => simp [BTree.listFrom, BTree.toList, Side.opp] at hnil
      have hT := t.rep.linked
      rw [hshape] at hT
      have hleft : (t.tree.heap (.element a)).left = none := by
        rw [(linked_join.mp (treeLinked_plug.mp hT).2).1, hx]
        rfl
      rw [AvlLinks.child, hleft] at hnext
      rw [hleft]
      simp only [hnext]
      simp [pastEnd, hroot]
  | cons n ys =>
      have hn : n ∈ t.shape.toList := by
        rw [← BTree.mem_listFrom (d := .right), hlist]
        simp
      have hparent := t.parent_ne_none hn
      rw [AvlLinks.child] at hnext
      cases hleft : (t.tree.heap (.element a)).left with
      | some left =>
          rw [hleft] at hnext
          exact hnext
      | none =>
          simp only [hleft] at hnext
          simp only [hnext]
          simp [hparent]

/-! ## Iteration -/

omit [DecidableEq α] in
theorem endElement_eq (t : AvlSearchTree α) (d : Side)
    (hfuel : t.shape.toList.length < fuel) :
    endElement d fuel t.tree = some ((t.shape.listFrom d).head?.map .element) := by
  have hroot : phRootElementAvlTree t.tree = ptr t.shape := by
    rw [phRootElementAvlTree, t.rep.linked.1]
  rw [endElement, hroot]
  cases hptr : ptr t.shape with
  | none =>
      have hnil : t.shape = .nil := by
        revert hptr
        cases t.shape with
        | nil => exact fun _ => rfl
        | node =>
            intro hptr
            cases hptr
      rw [hnil, BTree.listFrom_nil]
      rfl
  | some P =>
      have hheight := t.shape.height_le_length
      have hhigh : t.shape.height ≤ fuel := by omega
      obtain ⟨a, l, hlist, hrun⟩ := lastChild_eq d hhigh t.rep.linked.2 hptr
      rw [hlist]
      simp only [hrun]
      rfl

omit [DecidableEq α] in
theorem iterateLinks_eq {next : AvlRef α → Option (Option (AvlRef α))} {l : List α} :
    ∀ {fuel : Nat}, l.length < fuel →
      (∀ xs a ys, l = xs ++ a :: ys → next (.element a) = some (ys.head?.map .element)) →
      iterateLinks next fuel (l.head?.map .element) = some (l.map .element) := by
  induction l with
  | nil =>
      intro fuel hfuel _
      obtain ⟨fuel, rfl⟩ : ∃ n, fuel = n + 1 := ⟨fuel - 1, by omega⟩
      rfl
  | cons a l ih =>
      intro fuel hfuel hnext
      rw [List.length_cons] at hfuel
      obtain ⟨fuel, rfl⟩ : ∃ n, fuel = n + 1 := ⟨fuel - 1, by omega⟩
      have hshort : l.length < fuel := by omega
      have hrest := ih hshort fun xs b ys hl =>
        hnext (a :: xs) b ys (by rw [hl, List.cons_append])
      rw [List.head?_cons, Option.map_some, iterateLinks, hnext [] a l rfl]
      simp only [Option.bind_eq_bind, Option.bind_some, hrest, List.map_cons]

theorem iterateForward_eq (t : AvlSearchTree α)
    (hfuel : t.shape.toList.length + 1 < fuel) :
    iterateForward fuel t.tree = some ((t.shape.listFrom .left).map .element) := by
  have hlength := t.shape.length_listFrom .left
  rw [iterateForward, phMinimumElementAvlTree, endElement_eq t .left (by omega)]
  exact iterateLinks_eq (by omega) fun xs a ys hlist =>
    phSuccessorElementAvlTree_next t hlist hfuel

theorem iterateBackward_eq (t : AvlSearchTree α)
    (hfuel : t.shape.toList.length + 1 < fuel) :
    iterateBackward fuel t.tree = some ((t.shape.listFrom .right).map .element) := by
  have hlength := t.shape.length_listFrom .right
  rw [iterateBackward, phMaximumElementAvlTree, endElement_eq t .right (by omega)]
  exact iterateLinks_eq (by omega) fun xs a ys hlist =>
    phPredecessorElementAvlTree_next t hlist hfuel

theorem neighbours_inverse (t : AvlSearchTree α) {a b : α}
    (hlist : t.shape.toList = xs ++ a :: b :: ys) :
    Answers (fun fuel => phSuccessorElementAvlTree fuel t.tree.heap (.element a))
        (fun r => r = some (.element b)) ∧
      Answers (fun fuel => phPredecessorElementAvlTree fuel t.tree.heap (.element b))
        (fun r => r = some (.element a)) := by
  have hreverse : t.shape.listFrom .right = ys.reverse ++ b :: a :: xs.reverse := by
    rw [BTree.listFrom, hlist]
    simp
  exact ⟨⟨t.shape.toList.length + 1, _,
      fun fuel hfuel => phSuccessorElementAvlTree_next t hlist hfuel, rfl⟩,
    ⟨t.shape.toList.length + 1, _,
      fun fuel hfuel => phPredecessorElementAvlTree_next t hreverse hfuel, rfl⟩⟩

omit [DecidableEq α] in
theorem AvlSearchTree.exists_after (t : AvlSearchTree α) {a b : α} (ha : a ∈ t.shape.toList)
    (hb : b ∈ t.shape.toList) (hab : t.tree.compareFunction a b < 0) :
    ∃ xs n ys, t.shape.toList = xs ++ a :: n :: ys := by
  obtain ⟨xs, ys, hlist⟩ := List.append_of_mem ha
  cases ys with
  | cons n ys => exact ⟨xs, n, ys, hlist⟩
  | nil =>
      have hord := t.rep.ordered
      rw [Ordered, hlist, List.pairwise_append] at hord
      rw [hlist, List.mem_append, List.mem_singleton] at hb
      rcases hb with hb | rfl
      · have hba := hord.2.2 b hb a List.mem_cons_self
        have := (t.compares.swap b a).mp hba
        omega
      · rw [t.compares.refl b] at hab
        omega

omit [DecidableEq α] in
theorem AvlSearchTree.exists_before (t : AvlSearchTree α) {a b : α} (ha : a ∈ t.shape.toList)
    (hb : b ∈ t.shape.toList) (hba : t.tree.compareFunction b a < 0) :
    ∃ xs n ys, t.shape.toList = xs ++ n :: a :: ys := by
  obtain ⟨xs, ys, hlist⟩ := List.append_of_mem ha
  rcases List.eq_nil_or_concat xs with rfl | ⟨xs, n, rfl⟩
  · have hord := t.rep.ordered
    rw [Ordered, hlist, List.nil_append, List.pairwise_cons] at hord
    rw [hlist, List.nil_append, List.mem_cons] at hb
    rcases hb with rfl | hb
    · rw [t.compares.refl b] at hba
      omega
    · have := (t.compares.swap a b).mp (hord.1 b hb)
      omega
  · exact ⟨xs, n, ys, by rw [hlist]; simp⟩

def AvlSearchTree.listing (t : AvlSearchTree α) (order : TreeEnumerationOrder) : List α :=
  match order with
  | .inOrder => t.shape.toList
  | .inReverseOrder => t.shape.toList.reverse

/-- Every traversal of fewer than 2^32 elements visits them all, in order. -/
theorem avlTree_traversals (t : AvlSearchTree α) (hcount : t.shape.toList.length < 2 ^ 32) :
    (t.listing .inOrder).Pairwise (fun a b => t.tree.compareFunction a b < 0) ∧
      (∀ {σ : Type} (order : TreeEnumerationOrder) (callback : AvlRef α → σ → Bool × σ)
        (context : σ),
        Answers (fun fuel => phEnumAvlTree fuel t.tree order callback context)
          fun r => r = callUntil callback (t.listing order) context) ∧
      Answers (fun fuel => iterateForward fuel t.tree)
        (fun r => r = (t.listing .inOrder).map .element) ∧
      Answers (fun fuel => iterateBackward fuel t.tree)
        (fun r => r = (t.listing .inReverseOrder).map .element) ∧
      (∀ a ∈ t.shape.toList, ∀ b ∈ t.shape.toList, t.tree.compareFunction a b < 0 →
        ∃ n,
          Answers (fun fuel => phSuccessorElementAvlTree fuel t.tree.heap (.element a))
            (fun r => r = some n) ∧
          Answers (fun fuel => phPredecessorElementAvlTree fuel t.tree.heap n)
            (fun r => r = some (.element a))) ∧
      ∀ a ∈ t.shape.toList, ∀ b ∈ t.shape.toList, t.tree.compareFunction b a < 0 →
        ∃ n,
          Answers (fun fuel => phPredecessorElementAvlTree fuel t.tree.heap (.element a))
            (fun r => r = some n) ∧
          Answers (fun fuel => phSuccessorElementAvlTree fuel t.tree.heap n)
            (fun r => r = some (.element a)) := by
  have hlisting : ∀ order, t.shape.listFrom order.side = t.listing order := by
    intro order
    cases order <;> rfl
  refine ⟨t.rep.ordered, fun order callback context => ?_, ?_, ?_, fun a ha b hb hab => ?_,
    fun a ha b hb hba => ?_⟩
  · exact ⟨_, _, fun fuel hfuel => phEnumAvlTree_eq t hcount order callback context hfuel,
      by rw [hlisting]⟩
  · exact ⟨_, _, fun fuel hfuel => iterateForward_eq t hfuel, rfl⟩
  · exact ⟨_, _, fun fuel hfuel => iterateBackward_eq t hfuel, rfl⟩
  · obtain ⟨xs, n, ys, hlist⟩ := t.exists_after ha hb hab
    exact ⟨.element n, neighbours_inverse t hlist⟩
  · obtain ⟨xs, n, ys, hlist⟩ := t.exists_before ha hb hba
    exact ⟨.element n, (neighbours_inverse t hlist).symm⟩

def threeTree : AvlSearchTree Nat where
  tree :=
    { heap := fun
        | .root => ⟨none, none, some (.element 2), 0⟩
        | .element 1 => ⟨some (.element 2), none, none, 0⟩
        | .element 2 => ⟨some .root, some (.element 1), some (.element 3), 0⟩
        | .element 3 => ⟨some (.element 2), none, none, 0⟩
        | .element _ => ⟨none, none, none, 0⟩
      count := 3
      compareFunction := compareNat }
  shape := .node (.node .nil 1 0 .nil) 2 0 (.node .nil 3 0 .nil)
  compares := compareNat_total
  rep :=
    { linked := ⟨rfl, rfl, ⟨rfl, trivial, trivial⟩, rfl, trivial, trivial⟩
      balanced := by simp [BTree.Balanced, BTree.height]
      ordered := by simp [Ordered, BTree.toList, compareNat] }

theorem avlTree_traversals_three :
    Answers (fun fuel => iterateBackward fuel threeTree.tree)
      fun r => r = [.element 3, .element 2, .element 1] :=
  (avlTree_traversals threeTree (by decide)).2.2.2.1

end SystemInformer.PhLib
