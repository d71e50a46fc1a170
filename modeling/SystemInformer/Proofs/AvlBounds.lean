import SystemInformer.PhLib.AvlQueries
import SystemInformer.Proofs.AvlTree

/-!
# The bounds of an AVL tree

Seen from the side where a search sets `closest`, the elements at which it does are the last ones:
beyond the first of them there are no others. So the path of the search is right whatever the tree
is, and what it remembers is the first such element (`boundLoop_eq`). The four functions only
differ in the side and in where an element that compares equal belongs.
-/

namespace SystemInformer.PhLib

open BalTree

variable {α : Type}

/-- A tree in memory whose balances are right and whose elements are in order. -/
structure AvlSearchTree (α : Type) where
  tree : AvlTree α
  shape : BTree α
  compares : ComparesTotally tree.compareFunction
  rep : AvlRep tree shape

/-- With enough fuel a run has one result, and the result is as told. -/
def Answers {β : Type} (run : Nat → Option β) (p : β → Prop) : Prop :=
  ∃ n r, (∀ fuel > n, run fuel = some r) ∧ p r

/-! ## The search -/

/-- Where the search for a bound of `e` turns at an element. -/
def turnAt (tree : AvlTree α) (e : α) (right : Int → Bool) (a : α) : Side :=
  if right (tree.compareFunction e a) then .right else .left

/-- The elements with a turn to the side are the last ones from that side. -/
def TurnsLast (tree : AvlTree α) (e : α) (right : Int → Bool) (s : Side) (t : BTree α) : Prop :=
  (t.listFrom s).Pairwise fun a b => turnAt tree e right a = s → turnAt tree e right b = s

theorem boundLoop_eq {tree : AvlTree α} {e : α} {right : Int → Bool} {s : Side} {t : BTree α} :
    ∀ {p : AvlRef α} {fuel : Nat} {closest : Option (AvlRef α)}, Linked tree.heap p t →
      TurnsLast tree e right s t → t.height < fuel →
      boundLoop tree e right s fuel (ptr t) closest =
        some ((((t.listFrom s).find? fun a => turnAt tree e right a = s).map .element).or
          closest) := by
  induction t using BTree.join_induction s with
  | nil =>
      intro p fuel closest _ _ hfuel
      obtain ⟨fuel, rfl⟩ : ∃ n, fuel = n + 1 := ⟨fuel - 1, by omega⟩
      rw [ptr_nil, boundLoop, BTree.listFrom_nil]
      rfl
  | join x a b y ihx ihy =>
      intro p fuel closest hlinked hturns hfuel
      obtain ⟨fuel, rfl⟩ : ∃ n, fuel = n + 1 := ⟨fuel - 1, by omega⟩
      obtain ⟨ha, hx, hy⟩ := linked_join.mp hlinked
      rw [BTree.height_join] at hfuel
      rw [TurnsLast, BTree.listFrom_join, List.pairwise_append, List.pairwise_cons] at hturns
      obtain ⟨hturnsx, ⟨-, hturnsy⟩, hbefore⟩ := hturns
      rw [ptr_join, boundLoop, BTree.listFrom_join, List.find?_append, ha]
      change boundLoop tree e right s fuel
        ((AvlLinks.sided _ s (ptr x) (ptr y) b).child (turnAt tree e right a))
        (if turnAt tree e right a = s then _ else _) = _
      by_cases hturn : turnAt tree e right a = s
      · have hpos : (a :: y.listFrom s).find? (fun a => turnAt tree e right a = s) = some a :=
          List.find?_cons_of_pos (decide_eq_true hturn)
        rw [if_pos hturn, hturn, AvlLinks.child_sided, ihx hx hturnsx (by omega), hpos]
        cases List.find? _ (x.listFrom s) <;> rfl
      · have hopp : turnAt tree e right a = s.opp := by
          revert hturn
          cases turnAt tree e right a <;> cases s <;> simp [Side.opp]
        have hnone : (x.listFrom s).find? (fun a => turnAt tree e right a = s) = none := by
          refine List.find?_eq_none.mpr fun c hc hcs => hturn ?_
          exact hbefore c hc a List.mem_cons_self (of_decide_eq_true hcs)
        have hneg : (a :: y.listFrom s).find? (fun a => turnAt tree e right a = s) =
            (y.listFrom s).find? (fun a => turnAt tree e right a = s) :=
          List.find?_cons_of_neg (by rw [decide_eq_true_eq]; exact hturn)
        rw [if_neg hturn, hopp, AvlLinks.child_opp_sided, ihy hy hturnsy (by omega), hnone, hneg]
        rfl

/-! ## What the bounds are -/

namespace AvlSearchTree

variable (t : AvlSearchTree α)

/-- The least element with a property, or null when there is none. -/
def LeastWith (p : α → Prop) (r : Option (AvlRef α)) : Prop :=
  (r = none ∧ ∀ b ∈ t.shape.toList, ¬ p b) ∨
    ∃ a ∈ t.shape.toList, r = some (.element a) ∧ p a ∧
      ∀ b ∈ t.shape.toList, p b → t.tree.compareFunction a b ≤ 0

/-- The greatest element with a property, or null when there is none. -/
def GreatestWith (p : α → Prop) (r : Option (AvlRef α)) : Prop :=
  (r = none ∧ ∀ b ∈ t.shape.toList, ¬ p b) ∨
    ∃ a ∈ t.shape.toList, r = some (.element a) ∧ p a ∧
      ∀ b ∈ t.shape.toList, p b → t.tree.compareFunction b a ≤ 0

end AvlSearchTree

theorem find?_cases (q : α → Bool) (l : List α) :
    (l.find? q = none ∧ ∀ b ∈ l, q b = false) ∨
      ∃ a before after, l = before ++ a :: after ∧ l.find? q = some a ∧ q a = true ∧
        ∀ b ∈ before, q b = false := by
  cases hfind : l.find? q with
  | none => exact .inl ⟨rfl, fun b hb => Bool.eq_false_iff.mpr (List.find?_eq_none.mp hfind b hb)⟩
  | some a =>
      obtain ⟨hpass, before, after, hl, hbefore⟩ := List.find?_eq_some_iff_append.mp hfind
      exact .inr ⟨a, before, after, hl, rfl, hpass,
        fun b hb => (Bool.not_eq_true' _).mp (hbefore b hb)⟩

variable {t : AvlSearchTree α} {e : α} {right : Int → Bool}

/-- What leads to the right at an element does so at every smaller one. -/
def LeadsDown (t : AvlSearchTree α) (e : α) (right : Int → Bool) : Prop :=
  ∀ a b, t.tree.compareFunction a b < 0 → right (t.tree.compareFunction e b) = true →
    right (t.tree.compareFunction e a) = true

theorem leadsDown_pos (t : AvlSearchTree α) (e : α) : LeadsDown t e fun result => result > 0 := by
  intro a b hab hright
  have hb := of_decide_eq_true hright
  exact decide_eq_true ((t.compares.swap a e).mp
    (t.compares.lt_trans hab ((t.compares.swap b e).mpr hb)))

theorem leadsDown_nonneg (t : AvlSearchTree α) (e : α) :
    LeadsDown t e fun result => result ≥ 0 := by
  intro a b hab hright
  have hb := of_decide_eq_true hright
  have hbe : t.tree.compareFunction b e ≤ 0 := by
    have := (t.compares.swap e b).not
    omega
  exact decide_eq_true
    (le_of_lt ((t.compares.swap a e).mp (t.compares.lt_of_lt_of_le hab hbe)))

theorem LeadsDown.turnsLast (h : LeadsDown t e right) (s : Side) :
    TurnsLast t.tree e right s t.shape := by
  have hturn : ∀ {a b}, t.tree.compareFunction a b < 0 →
      turnAt t.tree e right b = .right → turnAt t.tree e right a = .right := by
    intro a b hab hb
    have hright : right (t.tree.compareFunction e b) = true := by
      by_contra hno
      rw [turnAt, if_neg hno] at hb
      cases hb
    exact if_pos (h a b hab hright)
  have hleft : ∀ a, turnAt t.tree e right a ≠ .right ↔ turnAt t.tree e right a = .left := by
    intro a
    cases turnAt t.tree e right a <;> simp
  cases s with
  | left =>
      refine List.Pairwise.imp (fun {a b} hab ha => ?_) t.rep.ordered
      exact (hleft b).mp fun hb => (hleft a).mpr ha (hturn hab hb)
  | right =>
      refine List.pairwise_reverse.mpr (List.Pairwise.imp (fun {a b} hab => ?_) t.rep.ordered)
      exact hturn hab

theorem boundElement_eq (h : LeadsDown t e right) (s : Side) {fuel : Nat}
    (hfuel : t.shape.height < fuel) :
    boundElement right s fuel t.tree e = some
      (((t.shape.listFrom s).find? fun a => turnAt t.tree e right a = s).map .element) := by
  have hroot : phRootElementAvlTree t.tree = ptr t.shape := by
    rw [phRootElementAvlTree, t.rep.linked.1]
  rw [boundElement, hroot, boundLoop_eq t.rep.linked.2 (h.turnsLast s) hfuel, Option.or_none]

theorem boundElement_least (h : LeadsDown t e right) :
    Answers (fun fuel => boundElement right .left fuel t.tree e)
      (t.LeastWith fun a => right (t.tree.compareFunction e a) = false) := by
  refine ⟨_, _, fun fuel hfuel => boundElement_eq h .left hfuel, ?_⟩
  have hturn : ∀ a, turnAt t.tree e right a = .left ↔
      right (t.tree.compareFunction e a) = false := by
    intro a
    rw [turnAt]
    cases right (t.tree.compareFunction e a) <;> simp
  rcases find?_cases (fun a => turnAt t.tree e right a = Side.left) (t.shape.listFrom .left) with
    ⟨hfind, hnone⟩ | ⟨a, before, after, hl, hfind, hpass, hbefore⟩
  · rw [hfind]
    exact .inl ⟨rfl, fun b hb hp => of_decide_eq_false (hnone b hb) ((hturn b).mpr hp)⟩
  · rw [hfind]
    have hord := t.rep.ordered
    have hlist : t.shape.toList = before ++ a :: after := hl
    rw [Ordered, hlist] at hord
    refine .inr ⟨a, ?_, rfl, (hturn a).mp (of_decide_eq_true hpass), fun b hb hp => ?_⟩
    · rw [hlist]
      exact List.mem_append_right _ List.mem_cons_self
    · rw [hlist] at hb
      rcases List.mem_append.mp hb with hb | hb
      · exact absurd ((hturn b).mpr hp) (of_decide_eq_false (hbefore b hb))
      · rcases List.mem_cons.mp hb with rfl | hb
        · exact (t.compares.refl b).le
        · exact ((List.pairwise_cons.mp (List.pairwise_append.mp hord).2.1).1 b hb).le

theorem boundElement_greatest (h : LeadsDown t e right) :
    Answers (fun fuel => boundElement right .right fuel t.tree e)
      (t.GreatestWith fun a => right (t.tree.compareFunction e a) = true) := by
  refine ⟨_, _, fun fuel hfuel => boundElement_eq h .right hfuel, ?_⟩
  have hturn : ∀ a, turnAt t.tree e right a = .right ↔
      right (t.tree.compareFunction e a) = true := by
    intro a
    rw [turnAt]
    cases right (t.tree.compareFunction e a) <;> simp
  rcases find?_cases (fun a => turnAt t.tree e right a = Side.right) (t.shape.listFrom .right) with
    ⟨hfind, hnone⟩ | ⟨a, before, after, hl, hfind, hpass, hbefore⟩
  · rw [hfind]
    exact .inl ⟨rfl, fun b hb hp =>
      of_decide_eq_false (hnone b (List.mem_reverse.mpr hb)) ((hturn b).mpr hp)⟩
  · rw [hfind]
    have hlist : t.shape.toList.reverse = before ++ a :: after := hl
    have hord := List.pairwise_reverse.mpr t.rep.ordered
    rw [hlist] at hord
    have hmem : ∀ b, b ∈ t.shape.toList ↔ b ∈ before ++ a :: after := fun b => by
      rw [← hlist, List.mem_reverse]
    refine .inr ⟨a, (hmem a).mpr (List.mem_append_right _ List.mem_cons_self), rfl,
      (hturn a).mp (of_decide_eq_true hpass), fun b hb hp => ?_⟩
    rcases List.mem_append.mp ((hmem b).mp hb) with hb | hb
    · exact absurd ((hturn b).mpr hp) (of_decide_eq_false (hbefore b hb))
    · rcases List.mem_cons.mp hb with rfl | hb
      · exact (t.compares.refl b).le
      · exact ((List.pairwise_cons.mp (List.pairwise_append.mp hord).2.1).1 b hb).le

theorem phFindElementAvlTree_finds (t : AvlSearchTree α) (e : α) :
    Answers (fun fuel => phFindElementAvlTree fuel t.tree e) fun r =>
      (r = none ∧ ∀ b ∈ t.shape.toList, t.tree.compareFunction e b ≠ 0) ∨
        ∃ a ∈ t.shape.toList, r = some (.element a) ∧ t.tree.compareFunction e a = 0 := by
  by_cases hex : ∃ b ∈ t.shape.toList, t.tree.compareFunction e b = 0
  · obtain ⟨b, hb, heb⟩ := hex
    refine ⟨t.shape.height, some (.element b), fun fuel hfuel => ?_, .inr ⟨b, hb, rfl, heb⟩⟩
    have hfinds := phpFindElementAvlTree_spec (e := e) t.compares hfuel.le t.rep.linked
      t.rep.ordered
    show phFindElementAvlTree fuel t.tree e = _
    rw [phFindElementAvlTree, hfinds.of_compare t.compares t.rep.ordered hb heb]
    rfl
  · have hno : ∀ b ∈ t.shape.toList, t.tree.compareFunction e b ≠ 0 := fun b hb heb =>
      hex ⟨b, hb, heb⟩
    refine ⟨t.shape.height, none, fun fuel hfuel => ?_, .inl ⟨rfl, hno⟩⟩
    rcases phpFindElementAvlTree_spec (e := e) t.compares hfuel.le t.rep.linked t.rep.ordered with
      ⟨a, ha, hea, -⟩ | ⟨c, -, -, hfind⟩
    · exact absurd hea (hno a ha)
    · have hsign : (hole c).side.sign ≠ 0 := by
        rcases (hole c).side.sign_eq with hs | hs <;> omega
      show phFindElementAvlTree fuel t.tree e = _
      rw [phFindElementAvlTree, hfind]
      exact congrArg some (if_neg hsign)

/-- The searches answer what they are named for. -/
theorem avlTree_bounds (t : AvlSearchTree α) (e : α) :
    (Answers (fun fuel => phFindElementAvlTree fuel t.tree e) fun r =>
        (r = none ∧ ∀ b ∈ t.shape.toList, t.tree.compareFunction e b ≠ 0) ∨
          ∃ a ∈ t.shape.toList, r = some (.element a) ∧ t.tree.compareFunction e a = 0) ∧
      Answers (fun fuel => phLowerBoundElementAvlTree fuel t.tree e)
        (t.LeastWith fun a => t.tree.compareFunction e a ≤ 0) ∧
      Answers (fun fuel => phUpperBoundElementAvlTree fuel t.tree e)
        (t.LeastWith fun a => t.tree.compareFunction e a < 0) ∧
      Answers (fun fuel => phLowerDualBoundElementAvlTree fuel t.tree e)
        (t.GreatestWith fun a => t.tree.compareFunction a e < 0) ∧
      Answers (fun fuel => phUpperDualBoundElementAvlTree fuel t.tree e)
        (t.GreatestWith fun a => t.tree.compareFunction a e ≤ 0) := by
  have hlt : ∀ a, t.tree.compareFunction a e < 0 ↔ 0 < t.tree.compareFunction e a := fun a =>
    t.compares.swap a e
  have hle : ∀ a, t.tree.compareFunction a e ≤ 0 ↔ 0 ≤ t.tree.compareFunction e a := fun a => by
    have := (t.compares.swap e a).not
    omega
  refine ⟨phFindElementAvlTree_finds t e, ?_, ?_, ?_, ?_⟩
  · have h := boundElement_least (leadsDown_pos t e)
    simp only [gt_iff_lt, decide_eq_false_iff_not, not_lt] at h
    exact h
  · have h := boundElement_least (leadsDown_nonneg t e)
    simp only [ge_iff_le, decide_eq_false_iff_not, not_le] at h
    exact h
  · have h := boundElement_greatest (leadsDown_pos t e)
    simp only [gt_iff_lt, decide_eq_true_eq, ← hlt] at h
    exact h
  · have h := boundElement_greatest (leadsDown_nonneg t e)
    simp only [ge_iff_le, decide_eq_true_eq, ← hle] at h
    exact h

end SystemInformer.PhLib
