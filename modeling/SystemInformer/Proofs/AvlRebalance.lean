import SystemInformer.Proofs.AvlLinks

/-!
# Rebalancing, and the loops that trace upwards

The two loops are inductions on the context above the subtree that changed. For
an addition the subtree is one higher than its context was balanced for, and
not in balance itself (or the new element alone), so that a rotation always
brings the old height back and the loop may stop. For a removal it is one
lower, and every outcome occurs: the loop stops when a node in balance takes
up the difference or when the heavy sibling was in balance.
-/

namespace SystemInformer.PhLib

open BalTree AvlHeap

variable {α : Type} [DecidableEq α]

/-! ## Rebalancing -/

/-- A node heavier on the far side of `d` is rebalanced by the rotations towards
`d`. -/
theorem phpRebalanceAvlLinks_eq {d : Side} {h : AvlHeap α} {slot : AvlSlot α} {P : AvlRef α}
    (hslot : (h slot.owner).child slot.side = some P) (hP : (h P).balance = d.opp.sign) :
    phpRebalanceAvlLinks h slot =
      rebalanceSide d.opp (rotateAvlLinks d) (rotateTwiceAvlLinks d) h slot P := by
  unfold phpRebalanceAvlLinks
  rw [hslot]
  simp only [Option.bind_eq_bind, Option.bind_some, hP]
  cases d with
  | left => rfl
  | right => rfl

theorem setBalance_rotated (b₁ b₂ : Int) {d : Side} {h : AvlHeap α} {c : Ctx α}
    {x y z : BTree α} {p q : α} {bp bq : Int}
    (hT : TreeLinked h (plug c (BTree.join d (BTree.join d z p bp y) q bq x)))
    (hn : (plug c (BTree.join d (BTree.join d z p bp y) q bq x)).toList.Nodup) :
    TreeLinked (setBalance (setBalance h (.element p) b₁) (.element q) b₂)
      (plug c (BTree.join d (BTree.join d z p b₁ y) q b₂ x)) := by
  have hinner := setBalance_linked (⟨d, q, bq, x⟩ :: c) b₁ hT hn
  have hlist : (plug c (BTree.join d (BTree.join d z p b₁ y) q bq x)).toList =
      (plug c (BTree.join d (BTree.join d z p bp y) q bq x)).toList :=
    toList_plug_congr (c := ⟨d, q, bq, x⟩ :: c) (by cases d <;> rfl)
  exact setBalance_linked c b₂ hinner (hlist ▸ hn)

theorem setBalance_rotatedTwice (b₁ b₂ b₃ : Int) {d : Side} {h : AvlHeap α} {c : Ctx α}
    {w x y z : BTree α} {p q r : α} {bp bq br : Int}
    (hT : TreeLinked h
      (plug c (BTree.join d (BTree.join d z p bp y) r br (BTree.join d x q bq w))))
    (hn : (plug c
      (BTree.join d (BTree.join d z p bp y) r br (BTree.join d x q bq w))).toList.Nodup) :
    TreeLinked (setBalance (setBalance (setBalance h (.element p) b₁) (.element q) b₂)
        (.element r) b₃)
      (plug c (BTree.join d (BTree.join d z p b₁ y) r b₃ (BTree.join d x q b₂ w))) := by
  have hnear := setBalance_linked (⟨d, r, br, BTree.join d x q bq w⟩ :: c) b₁ hT hn
  have hlist : (plug c (BTree.join d.opp (BTree.join d x q bq w) r br
      (BTree.join d z p b₁ y))).toList =
      (plug c (BTree.join d (BTree.join d z p bp y) r br (BTree.join d x q bq w))).toList :=
    toList_plug_congr (by cases d <;> rfl)
  -- The far subtree is the focus of the context through the other side.
  have hnear' : TreeLinked (setBalance h (.element p) b₁)
      (plug c (BTree.join d.opp (BTree.join d x q bq w) r br (BTree.join d z p b₁ y))) := by
    rw [BTree.join_opp]
    exact hnear
  have hfar := setBalance_linked (⟨d.opp, r, br, BTree.join d z p b₁ y⟩ :: c) b₂ hnear'
    (hlist ▸ hn)
  have hlist' : (plug c (BTree.join d.opp (BTree.join d x q b₂ w) r br
      (BTree.join d z p b₁ y))).toList =
      (plug c (BTree.join d (BTree.join d z p bp y) r br (BTree.join d x q bq w))).toList :=
    toList_plug_congr (by cases d <;> rfl)
  have hroot := setBalance_linked c b₃ hfar (hlist' ▸ hn)
  rw [BTree.join_opp] at hroot
  exact hroot

/-- What rebalancing promises about a node `p` whose subtree `u` on the far side
of `d` has become two higher than the other: only when `u` is in balance does
the height stay as it is. -/
def Rebalances (d : Side) (h : AvlHeap α) (c : Ctx α) (z u : BTree α) (p : α) : Prop :=
  ∃ h' code t, phpRebalanceAvlLinks h (hole c) = some (h', code) ∧
    TreeLinked h' (plug c t) ∧ t.Balanced ∧
    t.toList = (BTree.join d z p d.opp.sign u).toList ∧
    (code = 3 ↔ u.balance = 0) ∧
    (u.balance ≠ 0 → (h' (.element p)).parent = ptr t) ∧
    t.height = if u.balance = 0 then u.height + 1 else u.height

section Rebalance

variable {d : Side} {h : AvlHeap α} {c : Ctx α} {x y z : BTree α} {p q : α} {bq : Int}
  (hT : TreeLinked h (plug c (BTree.join d z p d.opp.sign (BTree.join d y q bq x))))
  (hn : (plug c (BTree.join d z p d.opp.sign (BTree.join d y q bq x))).toList.Nodup)

include hT in
theorem rebalance_reads :
    phpRebalanceAvlLinks h (hole c) = rebalanceSide d.opp (rotateAvlLinks d)
      (rotateTwiceAvlLinks d) h (hole c) (.element p) ∧
    (h (.element p)).child d.opp = some (.element q) ∧
    h (.element q) = AvlLinks.sided (some (.element p)) d (ptr y) (ptr x) bq := by
  rw [treeLinked_plug, ptr_join, linked_join, ptr_join, linked_join] at hT
  obtain ⟨hc, hp, -, hq, -, -⟩ := hT
  refine ⟨phpRebalanceAvlLinks_eq hc.child_hole ?_, ?_, hq⟩
  · rw [hp, AvlLinks.balance_sided]
  · rw [hp, AvlLinks.child_opp_sided]

include hT hn

theorem rebalance_single (hbq : bq = d.opp.sign) (hz : z.Balanced) (hx : x.Balanced)
    (hy : y.Balanced) (hxh : x.height = z.height + 1) (hyh : y.height = z.height) :
    Rebalances d h c z (BTree.join d y q bq x) p := by
  obtain ⟨heq, hchild, hq⟩ := rebalance_reads hT
  obtain ⟨h₁, hrun, h₁T⟩ := rotate_linked hT hn
  have hlist : (plug c (BTree.join d (BTree.join d z p d.opp.sign y) q bq x)).toList =
      (plug c (BTree.join d z p d.opp.sign (BTree.join d y q bq x))).toList :=
    toList_plug_congr (BTree.toList_rotate ..)
  have h₂T := setBalance_rotated 0 0 h₁T (hlist ▸ hn)
  refine ⟨_, 1, _, ?_, h₂T, ?_, BTree.toList_rotate .., ?_, fun _ => ?_, ?_⟩
  · rw [heq, rebalanceSide, hchild]
    simp only [Option.bind_eq_bind, Option.bind_some, hq, AvlLinks.balance_sided, hbq,
      if_true, hrun]
  · simp only [BTree.balanced_join, BTree.height_join]
    refine ⟨by omega, by omega, by omega, ⟨by omega, by omega, by omega, hz, hy⟩, hx⟩
  · rw [BTree.balance_join, hbq]
    cases d <;> decide
  · rw [treeLinked_plug, linked_join, linked_join] at h₂T
    rw [h₂T.2.2.1.1, AvlLinks.parent_sided, ptr_join]
  · rw [BTree.balance_join, if_neg (by rw [hbq]; cases d <;> decide)]
    simp only [BTree.height_join]
    omega

theorem rebalance_special (hbq : bq = 0) (hz : z.Balanced) (hx : x.Balanced)
    (hy : y.Balanced) (hxh : x.height = z.height + 1) (hyh : y.height = z.height + 1) :
    Rebalances d h c z (BTree.join d y q bq x) p := by
  obtain ⟨heq, hchild, hq⟩ := rebalance_reads hT
  obtain ⟨h₁, hrun, h₁T⟩ := rotate_linked hT hn
  have hlist : (plug c (BTree.join d (BTree.join d z p d.opp.sign y) q bq x)).toList =
      (plug c (BTree.join d z p d.opp.sign (BTree.join d y q bq x))).toList :=
    toList_plug_congr (BTree.toList_rotate ..)
  have h₂T := setBalance_linked c d.sign h₁T (hlist ▸ hn)
  have hne : (0 : Int) ≠ d.opp.sign ∧ (0 : Int) ≠ d.opp.opp.sign := by cases d <;> decide
  refine ⟨_, 3, _, ?_, h₂T, ?_, BTree.toList_rotate .., ?_, fun hbal => ?_, ?_⟩
  · rw [heq, rebalanceSide, hchild]
    simp only [Option.bind_eq_bind, Option.bind_some, hq, AvlLinks.balance_sided, hbq,
      if_neg hne.1, if_neg hne.2, hrun]
    rw [Side.opp_opp]
  · simp only [BTree.balanced_join, BTree.height_join, Side.sign_opp]
    cases d with
    | left =>
        simp only [Side.sign]
        exact ⟨by omega, by omega, by omega, ⟨by omega, by omega, by omega, hz, hy⟩, hx⟩
    | right =>
        simp only [Side.sign]
        exact ⟨by omega, by omega, by omega, ⟨by omega, by omega, by omega, hz, hy⟩, hx⟩
  · rw [BTree.balance_join, hbq]
    decide
  · exact absurd hbq (by simpa using hbal)
  · rw [BTree.balance_join, if_pos hbq]
    simp only [BTree.height_join]
    omega

end Rebalance

theorem rebalance_double {d : Side} {h : AvlHeap α} {c : Ctx α} {w x y z : BTree α}
    {p q r : α} {bq br : Int}
    (hT : TreeLinked h (plug c (BTree.join d z p d.opp.sign
      (BTree.join d (BTree.join d y r br x) q bq w))))
    (hn : (plug c (BTree.join d z p d.opp.sign
      (BTree.join d (BTree.join d y r br x) q bq w))).toList.Nodup)
    (hbq : bq = d.sign) (hz : z.Balanced) (hr : (BTree.join d y r br x).Balanced)
    (hw : w.Balanced) (hrh : (BTree.join d y r br x).height = z.height + 1)
    (hwh : w.height = z.height) :
    Rebalances d h c z (BTree.join d (BTree.join d y r br x) q bq w) p := by
  obtain ⟨heq, hchild, hq⟩ := rebalance_reads hT
  obtain ⟨h₁, hrun, h₁T⟩ := rotateTwice_linked hT hn
  have hlist : (plug c (BTree.join d (BTree.join d z p d.opp.sign y) r br
      (BTree.join d x q bq w))).toList =
      (plug c (BTree.join d z p d.opp.sign
        (BTree.join d (BTree.join d y r br x) q bq w))).toList :=
    toList_plug_congr (BTree.toList_rotateTwice ..)
  have hbr : (h₁ (.element r)).balance = br := by
    have hlinks := h₁T
    rw [treeLinked_plug, linked_join] at hlinks
    rw [hlinks.2.1, AvlLinks.balance_sided]
  rw [BTree.balanced_join] at hr
  rw [BTree.height_join] at hrh
  -- The balances stored for `p` and `q`, by the balance of `r`.
  obtain ⟨b₁, b₂, hset, hb₁, hb₂⟩ : ∃ b₁ b₂ : Int,
      (if br = d.opp.sign then
          setBalance (setBalance h₁ (.element p) d.opp.opp.sign) (.element q) 0
        else if br = d.opp.opp.sign then
          setBalance (setBalance h₁ (.element p) 0) (.element q) d.opp.sign
        else setBalance (setBalance h₁ (.element p) 0) (.element q) 0) =
        setBalance (setBalance h₁ (.element p) b₁) (.element q) b₂ ∧
      (d.sign * b₁ = (z.height : Int) - y.height ∧ -1 ≤ b₁ ∧ b₁ ≤ 1) ∧
      (d.sign * b₂ = (x.height : Int) - w.height ∧ -1 ≤ b₂ ∧ b₂ ≤ 1) := by
    obtain ⟨hbr', hlo, hhi, -, -⟩ := hr
    split
    · next hbr =>
        refine ⟨_, _, rfl, ?_, ?_⟩ <;>
          (cases d <;> simp only [Side.sign, Side.opp] at * <;> omega)
    · next hbr =>
        split
        · next hbr' =>
            refine ⟨_, _, rfl, ?_, ?_⟩ <;>
              (cases d <;> simp only [Side.sign, Side.opp] at * <;> omega)
        · refine ⟨_, _, rfl, ?_, ?_⟩ <;>
            (cases d <;> simp only [Side.sign, Side.opp] at * <;> omega)
  have h₂T := setBalance_rotatedTwice b₁ b₂ 0 h₁T (hlist ▸ hn)
  have hne : d.sign ≠ d.opp.sign := by cases d <;> decide
  refine ⟨_, 2, _, ?_, h₂T, ?_, BTree.toList_rotateTwice .., ?_, fun _ => ?_, ?_⟩
  · rw [heq, rebalanceSide, hchild]
    simp only [Option.bind_eq_bind, Option.bind_some, hq, AvlLinks.balance_sided, hbq,
      if_neg hne, Side.opp_opp, if_true, AvlLinks.child_sided, ptr_join, hrun, hbr]
    rw [← hset, Side.opp_opp]
  · simp only [BTree.balanced_join, BTree.height_join]
    obtain ⟨hbr', hlo, hhi, hy, hx⟩ := hr
    refine ⟨?_, by omega, by omega, ⟨hb₁.1, hb₁.2.1, hb₁.2.2, hz, hy⟩,
      hb₂.1, hb₂.2.1, hb₂.2.2, hx, hw⟩
    rw [hwh]
    omega
  · rw [BTree.balance_join, hbq]
    cases d <;> decide
  · rw [treeLinked_plug, linked_join, linked_join] at h₂T
    rw [h₂T.2.2.1.1, AvlLinks.parent_sided, ptr_join]
  · rw [BTree.balance_join, if_neg (by rw [hbq]; cases d <;> decide)]
    simp only [BTree.height_join]
    omega

theorem rebalance_linked {d : Side} {h : AvlHeap α} {c : Ctx α} {z u : BTree α} {p : α}
    (hT : TreeLinked h (plug c (BTree.join d z p d.opp.sign u)))
    (hn : (plug c (BTree.join d z p d.opp.sign u)).toList.Nodup)
    (hz : z.Balanced) (hu : u.Balanced) (hh : u.height = z.height + 2) :
    Rebalances d h c z u p := by
  obtain ⟨y, q, bq, x, rfl⟩ := u.exists_join d (by omega)
  have hbal := hu
  rw [BTree.balanced_join] at hbal
  rw [BTree.height_join] at hh
  obtain ⟨hbq, hlo, hhi, hy, hx⟩ := hbal
  obtain hfar | hnear | hzero : bq = d.opp.sign ∨ bq = d.sign ∨ bq = 0 := by
    cases d <;> simp only [Side.sign, Side.opp] <;> omega
  · have hdiff : (y.height : Int) - x.height = -1 := by
      rw [← hbq, hfar]
      cases d <;> decide
    exact rebalance_single hT hn hfar hz hx hy (by omega) (by omega)
  · have hdiff : (y.height : Int) - x.height = 1 := by
      rw [← hbq, hnear]
      cases d <;> decide
    obtain ⟨y', r, br, x', rfl⟩ := y.exists_join d (by omega)
    exact rebalance_double hT hn hnear hz hy hx (by omega) (by omega)
  · have hdiff : (y.height : Int) - x.height = 0 := by rw [← hbq, hzero, Int.mul_zero]
    exact rebalance_special hT hn hzero hz hx hy (by omega) (by omega)

/-! ## Tracing upwards -/

theorem slotOf_eq_hole {h : AvlHeap α} {c : Ctx α} {t : BTree α} {P : AvlRef α}
    (hT : TreeLinked h (plug c t)) (hn : (plug c t).toList.Nodup) (hP : ptr t = some P) :
    slotOf h (holder c) P = hole c := by
  rw [treeLinked_plug] at hT
  obtain ⟨hc, -⟩ := hT
  unfold slotOf
  cases c with
  | nil =>
      have hroot : h .root = ⟨none, none, ptr t, 0⟩ := hc
      rw [show holder ([] : Ctx α) = .root from rfl, hroot, if_neg (by simp)]
      rfl
  | cons f c =>
      rw [show holder (f :: c) = .element f.elem from rfl, hc.1, hP]
      obtain ⟨-, -, hdisj⟩ := nodup_plug.mp hn
      obtain ⟨a, ha, rfl⟩ := exists_of_ptr hP
      have hsib : ptr f.sibling ≠ some (.element a) := by
        intro hptr
        exact hdisj a ha (List.mem_cons_of_mem _ (List.mem_append.mpr (Or.inl (ptr_mem hptr))))
      rw [hole]
      cases f.side with
      | left => rw [AvlLinks.sided, if_pos rfl]
      | right => rw [AvlLinks.sided, if_neg hsib]

/-- After an addition: the subtree `t` in the hole has grown by one, and it is not
in balance unless it is the new element alone. The loop ends with every balance
right. -/
theorem addLoop_spec {c : Ctx α} : ∀ {fuel : Nat} {h : AvlHeap α} {t : BTree α}
    {P rootElement : AvlRef α}, c.length < fuel → TreeLinked h (plug c t) →
    (plug c t).toList.Nodup → ptr t = some P → ptr (plug c t) = some rootElement →
    t.Balanced → t.balance ≠ 0 ∨ t.height = 1 → BalancedAt c (t.height - 1) →
    ∃ h' t', addLoop rootElement fuel h P = some h' ∧ TreeLinked h' t' ∧ t'.Balanced ∧
      t'.toList = (plug c t).toList := by
  induction c with
  | nil =>
      intro fuel h t P rootElement hfuel hT hn hP hroot ht _ _
      obtain ⟨fuel, rfl⟩ := Nat.exists_eq_add_of_lt hfuel
      have heq : P = rootElement := by
        rw [plug, hP] at hroot
        injection hroot
      refine ⟨h, t, ?_, hT, ht, rfl⟩
      rw [addLoop, if_pos heq]
  | cons f c ih =>
      intro fuel h t P rootElement hfuel hT hn hP hroot ht hgrown hbal
      obtain ⟨fuel, rfl⟩ : ∃ n, fuel = n + 1 := ⟨fuel - 1, by simp at hfuel; omega⟩
      have hpos : t.height ≠ 0 := by
        intro h0
        cases t with
        | nil => cases hP
        | node l a b r => cases h0
      have hne : P ≠ rootElement := by
        intro heq
        obtain ⟨a, ha, hptr⟩ := ptr_plug_cons f c t
        rw [hroot, ← heq, ← hP] at hptr
        exact (nodup_plug.mp hn).2.2 a (ptr_mem hptr) ha
      have hslot := slotOf_eq_hole hT hn hP
      obtain ⟨hc, hl⟩ := treeLinked_plug.mp hT
      have hparent := hl.parent_eq hP
      obtain ⟨hbf, hlo, hhi, hsib, hrest⟩ := hbal
      -- The focus moves up by one frame.
      have hT' : TreeLinked h (plug c (BTree.join f.side t f.elem f.balance f.sibling)) := hT
      have hn' : (plug c (BTree.join f.side t f.elem f.balance f.sibling)).toList.Nodup := hn
      have hbalance : (h (.element f.elem)).balance = f.balance := by
        rw [hc.1, AvlLinks.balance_sided]
      rw [addLoop, if_neg hne, hparent]
      simp only [Option.bind_eq_bind, Option.bind_some, hslot]
      rw [show holder (f :: c) = .element f.elem from rfl, hbalance,
        show (hole (f :: c)).side = f.side from rfl]
      have hptr : ∀ b, ptr (BTree.join f.side t f.elem b f.sibling) =
          ptr (BTree.join f.side t f.elem f.balance f.sibling) :=
        fun b => by rw [ptr_join, ptr_join]
      have hlist : ∀ b, (plug c (BTree.join f.side t f.elem b f.sibling)).toList =
          (plug (f :: c) t).toList :=
        fun b => toList_plug_congr (by cases f.side <;> rfl)
      split
      · next hzero =>
          rw [hzero, Int.mul_zero] at hbf
          have hbal : (BTree.join f.side t f.elem f.side.sign f.sibling).Balanced := by
            rw [BTree.balanced_join]
            rcases f.side.sign_eq with hs | hs
            · rw [hs]
              exact ⟨by omega, by omega, by omega, ht, hsib⟩
            · rw [hs]
              exact ⟨by omega, by omega, by omega, ht, hsib⟩
          have hgrown : (BTree.join f.side t f.elem f.side.sign f.sibling).balance ≠ 0 := by
            rw [BTree.balance_join]
            rcases f.side.sign_eq with hs | hs <;> omega
          have hrest' : BalancedAt c
              ((BTree.join f.side t f.elem f.side.sign f.sibling).height - 1) := by
            rw [BTree.height_join]
            rwa [show max t.height f.sibling.height + 1 - 1 =
              max (t.height - 1) f.sibling.height + 1 by omega]
          obtain ⟨h', t', hrun, hT'', hb, hl⟩ := ih (by simpa using hfuel)
            (setBalance_linked c f.side.sign hT' hn') (hlist f.side.sign ▸ hn) (ptr_join ..)
            ((ptr_plug_congr (hptr _)).trans hroot) hbal (Or.inl hgrown) hrest'
          exact ⟨h', t', hrun, hT'', hb, hl.trans (hlist f.side.sign)⟩
      · next hzero =>
          split
          · next hopp =>
              refine ⟨_, _, rfl, setBalance_linked c 0 hT' hn', ?_, hlist 0⟩
              have hheight : f.sibling.height = t.height := by
                rcases f.side.sign_eq with hs | hs <;> rw [hs] at hbf hopp <;> omega
              rw [balanced_plug, BTree.balanced_join, BTree.height_join]
              refine ⟨⟨by omega, by omega, by omega, ht, hsib⟩, ?_⟩
              rwa [show max t.height f.sibling.height + 1 =
                max (t.height - 1) f.sibling.height + 1 by omega]
          · next hsame =>
              rw [Decidable.not_not] at hsame
              have hheight : t.height = f.sibling.height + 2 := by
                rcases f.side.sign_eq with hs | hs <;> rw [hs] at hbf hsame <;> omega
              have hup := (treeLinked_plug.mp hT').2.parent_eq (ptr_join ..)
              have hslot' := slotOf_eq_hole hT' hn' (ptr_join ..)
              rw [hup]
              simp only [Option.bind_some, hslot']
              -- The grown subtree is the heavy one, seen from the other side.
              have hjoin : BTree.join f.side t f.elem f.balance f.sibling =
                  BTree.join f.side.opp f.sibling f.elem f.side.opp.opp.sign t := by
                rw [BTree.join_opp, Side.opp_opp, hsame]
              rw [hjoin] at hT' hn'
              obtain ⟨h', code, t', hrun, hT'', hb, hl, -, -, hh⟩ :=
                rebalance_linked hT' hn' hsib ht hheight
              rw [hrun]
              refine ⟨h', _, rfl, hT'', ?_, ?_⟩
              · rw [balanced_plug]
                refine ⟨hb, ?_⟩
                rw [hh, if_neg (hgrown.resolve_right (by omega))]
                rwa [show t.height = max (t.height - 1) f.sibling.height + 1 by omega]
              · rw [toList_plug_congr hl, ← hjoin]
                rfl

/-- After a removal: the subtree `t` in the hole has shrunk by one. The loop ends
with every balance right. -/
theorem removeLoop_spec {c : Ctx α} : ∀ {fuel : Nat} {h : AvlHeap α} {t : BTree α},
    c.length < fuel → TreeLinked h (plug c t) → (plug c t).toList.Nodup → t.Balanced →
    BalancedAt c (t.height + 1) →
    ∃ h' t', removeLoop fuel h (holder c) (hole c).side.sign = some h' ∧
      TreeLinked h' t' ∧ t'.Balanced ∧ t'.toList = (plug c t).toList := by
  induction c with
  | nil =>
      intro fuel h t hfuel hT _ ht _
      obtain ⟨fuel, rfl⟩ : ∃ n, fuel = n + 1 := ⟨fuel - 1, by simp at hfuel; omega⟩
      exact ⟨h, t, rfl, hT, ht, rfl⟩
  | cons f c ih =>
      intro fuel h t hfuel hT hn ht hbal
      obtain ⟨fuel, rfl⟩ : ∃ n, fuel = n + 1 := ⟨fuel - 1, by simp at hfuel; omega⟩
      obtain ⟨hbf, hlo, hhi, hsib, hrest⟩ := hbal
      have hT' : TreeLinked h (plug c (BTree.join f.side t f.elem f.balance f.sibling)) := hT
      have hn' : (plug c (BTree.join f.side t f.elem f.balance f.sibling)).toList.Nodup := hn
      have hbalance : (h (.element f.elem)).balance = f.balance := by
        rw [(treeLinked_plug.mp hT).1.1, AvlLinks.balance_sided]
      have hlist : ∀ b, (plug c (BTree.join f.side t f.elem b f.sibling)).toList =
          (plug (f :: c) t).toList :=
        fun b => toList_plug_congr (by cases f.side <;> rfl)
      -- One more turn of the loop, from any subtree that is one lower than before.
      have htrace : ∀ {h₁ : AvlHeap α} {t₁ : BTree α} {P : AvlRef α},
          TreeLinked h₁ (plug c t₁) → (plug c t₁).toList = (plug (f :: c) t).toList →
          ptr t₁ = some P → t₁.Balanced →
          t₁.height + 1 = max (t.height + 1) f.sibling.height + 1 →
          ∃ h' t', (do
            let parent ← (h₁ P).parent
            removeLoop fuel h₁ parent (slotOf h₁ parent P).side.sign) = some h' ∧
            TreeLinked h' t' ∧ t'.Balanced ∧ t'.toList = (plug (f :: c) t).toList := by
        intro h₁ t₁ P h₁T hl₁ hP hb₁ hh₁
        have hslot := slotOf_eq_hole h₁T (hl₁ ▸ hn) hP
        rw [(treeLinked_plug.mp h₁T).2.parent_eq hP]
        simp only [Option.bind_eq_bind, Option.bind_some, hslot]
        obtain ⟨h', t', hrun, hT'', hb, hl⟩ := ih (by simpa using hfuel) h₁T (hl₁ ▸ hn) hb₁
          (hh₁ ▸ hrest)
        exact ⟨h', t', hrun, hT'', hb, hl.trans hl₁⟩
      rw [removeLoop, show holder (f :: c) = .element f.elem from rfl, hbalance,
        show (hole (f :: c)).side = f.side from rfl]
      simp only [reduceCtorEq, if_false]
      split
      · next hsame =>
          have hheight : f.sibling.height = t.height := by
            rcases f.side.sign_eq with hs | hs <;> rw [hs] at hbf hsame <;> rw [hsame] at hbf <;>
              omega
          refine htrace (setBalance_linked c 0 hT' hn') (hlist 0) (ptr_join ..) ?_ ?_
          · rw [BTree.balanced_join]
            exact ⟨by omega, by omega, by omega, ht, hsib⟩
          · rw [BTree.height_join]
            omega
      · next hsame =>
          split
          · next hzero =>
              rw [hzero, Int.mul_zero] at hbf
              refine ⟨_, _, rfl, setBalance_linked c (-f.side.sign) hT' hn', ?_, hlist _⟩
              rw [balanced_plug, BTree.balanced_join, BTree.height_join]
              refine ⟨?_, ?_⟩
              · rcases f.side.sign_eq with hs | hs
                · rw [hs]
                  exact ⟨by omega, by omega, by omega, ht, hsib⟩
                · rw [hs]
                  exact ⟨by omega, by omega, by omega, ht, hsib⟩
              · rwa [show max t.height f.sibling.height + 1 =
                  max (t.height + 1) f.sibling.height + 1 by omega]
          · next hzero =>
              have hopp : f.balance = f.side.opp.sign := by
                rw [Side.sign_opp]
                rcases f.side.sign_eq with hs | hs <;> rw [hs] at hbf hsame ⊢ <;> omega
              have hheight : f.sibling.height = t.height + 2 := by
                rw [Side.sign_opp] at hopp
                rcases f.side.sign_eq with hs | hs <;> rw [hs] at hbf hopp <;> omega
              have hup := (treeLinked_plug.mp hT').2.parent_eq (ptr_join ..)
              have hslot := slotOf_eq_hole hT' hn' (ptr_join ..)
              rw [hup]
              simp only [Option.bind_eq_bind, Option.bind_some, hslot]
              rw [hopp] at hT' hn'
              obtain ⟨h', code, t', hrun, hT'', hb, hl, hcode, hparent, hh⟩ :=
                rebalance_linked hT' hn' ht hsib hheight
              have hl' : (plug c t').toList = (plug (f :: c) t).toList :=
                (toList_plug_congr hl).trans (hlist _)
              rw [hrun]
              simp only [Option.bind_some]
              split
              · next hthree =>
                  rw [if_pos (hcode.mp hthree)] at hh
                  refine ⟨h', plug c t', rfl, hT'', ?_, hl'⟩
                  rw [balanced_plug, hh]
                  exact ⟨hb, by rwa [show max (t.height + 1) f.sibling.height =
                    f.sibling.height by omega] at hrest⟩
              · next hthree =>
                  have hbal : f.sibling.balance ≠ 0 := fun heq => hthree (hcode.mpr heq)
                  rw [if_neg hbal] at hh
                  rw [hparent hbal]
                  obtain ⟨P, hP⟩ : ∃ P, ptr t' = some P := by
                    cases t' with
                    | nil => exact absurd hh (by simp [BTree.height]; omega)
                    | node l a b r => exact ⟨_, rfl⟩
                  rw [hP]
                  exact htrace hT'' hl' hP hb (by omega)

end SystemInformer.PhLib
