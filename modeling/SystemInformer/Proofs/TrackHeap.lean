import SystemInformer.Driver.CidTracking
import SystemInformer.Lib.Census

/-!
# The references to context objects

The count of an object is the number of references to it: from the CID table, from a
thread list, from an `InitialThread`, from the thread contexts of a process, and from
hands, which are the callers and the routines in progress. A field that is set takes a
reference out of a hand and a field that is cleared puts one there; only
`KphReferenceObject` and `KphDereferenceObject` change the count, and with it what is in
hands. Each operation on the objects is put together from these.
-/

set_option linter.unusedSectionVars false

namespace SystemInformer.Driver

variable {κ : Type} [DecidableEq κ]

namespace TrackHeap

def tableRef (h : TrackHeap κ) (o : κ) : Nat := if h.entry (h.id o) = some o then 1 else 0

def listRef (h : TrackHeap κ) (o : κ) : Nat := if h.inThreadList o = true then 1 else 0

def initialRef (h : TrackHeap κ) (o : κ) : Nat :=
  if (h.processContext o).bind h.initialThread = some o then 1 else 0

/-- The thread contexts of a process. -/
def backRefs (h : TrackHeap κ) (o : κ) : Nat :=
  (h.live.filter fun x => h.processContext x = some o).card

end TrackHeap

structure HeapInv (h : TrackHeap κ) (hand : κ → Nat) : Prop where
  counts : ∀ o, h.pointerCount o =
    h.tableRef o + h.listRef o + h.initialRef o + h.backRefs o + hand o
  dead : ∀ o, o ∉ h.live → h.pointerCount o = 0
  condemned : ∀ o, o ∈ h.condemned ↔ o ∈ h.live ∧ h.pointerCount o = 0
  nodup : h.condemned.Nodup
  entry : ∀ i o, h.entry i = some o → h.id o = i
  context : ∀ o ∈ h.live, ∀ p, h.processContext o = some p →
    h.type o = .thread ∧ h.type p = .process
  lists : ∀ p o, o ∈ h.threadList p ↔
    o ∈ h.live ∧ h.processContext o = some p ∧ h.inThreadList o = true
  listed : ∀ o, h.inThreadList o = true → ∃ p, h.processContext o = some p
  listNodup : ∀ p, (h.threadList p).Nodup
  number : ∀ p, h.numberOfThreads p = (h.threadList p).length
  initial : ∀ p o, h.initialThread p = some o → o ∈ h.live ∧ h.processContext o = some p

section

variable {h : TrackHeap κ} {hand : κ → Nat} {o p : κ}

theorem HeapInv.live_of_pos (H : HeapInv h hand) (hpos : 0 < h.pointerCount o) : o ∈ h.live := by
  by_contra hdead
  have := H.dead o hdead
  omega

theorem HeapInv.pos_of_hand (H : HeapInv h hand) (hpos : 0 < hand o) : 0 < h.pointerCount o := by
  have := H.counts o
  omega

theorem tableRef_of_entry {i : Nat} (H : HeapInv h hand) (hentry : h.entry i = some o) :
    h.tableRef o = 1 := by
  rw [TrackHeap.tableRef, H.entry i o hentry, if_pos hentry]

theorem HeapInv.pos_of_entry {i : Nat} (H : HeapInv h hand) (hentry : h.entry i = some o) :
    0 < h.pointerCount o := by
  have := H.counts o
  have := tableRef_of_entry H hentry
  omega

theorem backRefs_pos (hlive : o ∈ h.live) (hcontext : h.processContext o = some p) :
    0 < h.backRefs p :=
  Finset.card_pos.mpr ⟨o, Finset.mem_filter.mpr ⟨hlive, hcontext⟩⟩

theorem HeapInv.pos_of_context (H : HeapInv h hand) (hlive : o ∈ h.live)
    (hcontext : h.processContext o = some p) : 0 < h.pointerCount p := by
  have := H.counts p
  have := backRefs_pos hlive hcontext
  omega

/-! ## The count -/

theorem HeapInv.reference (H : HeapInv h hand) (hpos : 0 < h.pointerCount o) :
    HeapInv (h.kphReferenceObject o) (hand + Pi.single o 1) := by
  have hcount : ∀ x, (h.kphReferenceObject o).pointerCount x =
      h.pointerCount x + (Pi.single o 1 : κ → Nat) x := by
    intro x
    by_cases hx : x = o
    · subst hx
      rw [Pi.single_eq_same]
      exact Function.update_self ..
    · rw [Pi.single_eq_of_ne hx]
      exact Function.update_of_ne hx ..
  refine ⟨fun x => ?_, fun x hx => ?_, fun x => ?_, H.nodup, H.entry, H.context, H.lists, H.listed,
    H.listNodup, H.number, H.initial⟩
  · have := H.counts x
    rw [hcount, Pi.add_apply]
    show _ = h.tableRef x + h.listRef x + h.initialRef x + h.backRefs x + _
    omega
  · have hne : x ≠ o := by
      rintro rfl
      exact hx (H.live_of_pos hpos)
    rw [hcount, Pi.single_eq_of_ne hne, Nat.add_zero, H.dead x hx]
  · show x ∈ h.condemned ↔ x ∈ h.live ∧ _
    rw [H.condemned, hcount]
    by_cases hx : x = o
    · subst hx
      rw [Pi.single_eq_same]
      exact ⟨fun hboth => absurd hboth.2 (by omega), fun hboth => absurd hboth.2 (by omega)⟩
    · rw [Pi.single_eq_of_ne hx]
      exact Iff.rfl

theorem HeapInv.dereference (H : HeapInv h (hand + Pi.single o 1)) :
    HeapInv (h.kphDereferenceObject o) hand := by
  have hpos : 0 < h.pointerCount o := by
    refine H.pos_of_hand ?_
    rw [Pi.add_apply, Pi.single_eq_same]
    omega
  have hcount : ∀ x, (h.kphDereferenceObject o).pointerCount x + (Pi.single o 1 : κ → Nat) x =
      h.pointerCount x := by
    intro x
    by_cases hx : x = o
    · subst hx
      rw [Pi.single_eq_same]
      have : (h.kphDereferenceObject x).pointerCount x = h.pointerCount x - 1 :=
        Function.update_self ..
      omega
    · rw [Pi.single_eq_of_ne hx]
      exact Function.update_of_ne hx ..
  have hlive := H.live_of_pos hpos
  have hfresh : o ∉ h.condemned := by
    rw [H.condemned]
    exact fun hboth => absurd hboth.2 (by omega)
  have hself := hcount o
  rw [Pi.single_eq_same] at hself
  have hwaiting : (h.kphDereferenceObject o).condemned =
      if h.pointerCount o - 1 = 0 then o :: h.condemned else h.condemned := rfl
  refine ⟨fun x => ?_, fun x hx => ?_, fun x => ?_, ?_, H.entry, H.context, H.lists, H.listed,
    H.listNodup, H.number, H.initial⟩
  · have hold := H.counts x
    have := hcount x
    rw [Pi.add_apply] at hold
    show _ = h.tableRef x + h.listRef x + h.initialRef x + h.backRefs x + _
    omega
  · have := hcount x
    have := H.dead x hx
    omega
  · rw [hwaiting]
    show _ ↔ x ∈ h.live ∧ _
    by_cases hx : x = o
    · subst hx
      split
      · next hzero => exact ⟨fun _ => ⟨hlive, by omega⟩, fun _ => List.mem_cons_self⟩
      · next hzero => exact ⟨fun hmem => absurd hmem hfresh, fun hboth => absurd hboth.2 (by omega)⟩
    · have hsame : x ∈ (if h.pointerCount o - 1 = 0 then o :: h.condemned else h.condemned) ↔
          x ∈ h.condemned := by
        split
        · rw [List.mem_cons]
          exact or_iff_right hx
        · exact Iff.rfl
      have hval := hcount x
      rw [Pi.single_eq_of_ne hx] at hval
      rw [hsame, H.condemned, ← hval]
      exact Iff.rfl
  · rw [hwaiting]
    split
    · exact List.nodup_cons.mpr ⟨hfresh, H.nodup⟩
    · exact H.nodup

/-! ## The CID table -/

theorem tableRef_setEntry_none {i : Nat} (H : HeapInv h hand) (hentry : h.entry i = some o)
    (x : κ) : (h.setEntry i none).tableRef x + (Pi.single o 1 : κ → Nat) x = h.tableRef x := by
  have hvalue : (h.setEntry i none).tableRef x =
      if Function.update h.entry i none (h.id x) = some x then 1 else 0 := rfl
  rw [hvalue]
  by_cases hx : x = o
  · subst hx
    rw [H.entry i x hentry, Function.update_self, if_neg (by simp), Pi.single_eq_same,
      tableRef_of_entry H hentry]
  · rw [Pi.single_eq_of_ne hx, Nat.add_zero]
    by_cases hid : h.id x = i
    · have hother : h.entry (h.id x) ≠ some x := by
        rw [hid, hentry]
        exact fun heq => hx (Option.some.inj heq).symm
      rw [hid, Function.update_self, if_neg (by simp), TrackHeap.tableRef, if_neg hother]
    · rw [Function.update_of_ne hid]
      rfl

theorem HeapInv.clearEntry {i : Nat} (H : HeapInv h hand) (hentry : h.entry i = some o) :
    HeapInv (h.setEntry i none) (hand + Pi.single o 1) := by
  refine ⟨fun x => ?_, H.dead, H.condemned, H.nodup, fun j x hx => ?_, H.context, H.lists, H.listed,
    H.listNodup, H.number, H.initial⟩
  · have := H.counts x
    have := tableRef_setEntry_none H hentry x
    rw [Pi.add_apply]
    show h.pointerCount x = (h.setEntry i none).tableRef x + h.listRef x + h.initialRef x +
      h.backRefs x + _
    omega
  · have hx : Function.update h.entry i none j = some x := hx
    by_cases hj : j = i
    · rw [hj, Function.update_self] at hx
      cases hx
    · rw [Function.update_of_ne hj] at hx
      exact H.entry j x hx

theorem HeapInv.clearEntry_none {i : Nat} (H : HeapInv h hand) (hentry : h.entry i = none) :
    HeapInv (h.setEntry i none) hand := by
  have hsame : h.setEntry i none = h := by
    have heta : h.setEntry i none = { h with entry := Function.update h.entry i none } := rfl
    rw [heta, ← hentry, Function.update_eq_self]
  rwa [hsame]

theorem HeapInv.fillEntry {i : Nat} (H : HeapInv h (hand + Pi.single o 1))
    (hentry : h.entry i = none) (hid : h.id o = i) : HeapInv (h.setEntry i (some o)) hand := by
  refine ⟨fun x => ?_, H.dead, H.condemned, H.nodup, fun j x hx => ?_, H.context, H.lists, H.listed,
    H.listNodup, H.number, H.initial⟩
  · have hold := H.counts x
    have hvalue : (h.setEntry i (some o)).tableRef x =
        if Function.update h.entry i (some o) (h.id x) = some x then 1 else 0 := rfl
    have htable : (h.setEntry i (some o)).tableRef x =
        h.tableRef x + (Pi.single o 1 : κ → Nat) x := by
      rw [hvalue, TrackHeap.tableRef]
      by_cases hx : x = o
      · subst hx
        rw [hid, Function.update_self, if_pos rfl, hentry, if_neg (by simp), Pi.single_eq_same]
      · rw [Pi.single_eq_of_ne hx, Nat.add_zero]
        by_cases hxid : h.id x = i
        · rw [hxid, Function.update_self, if_neg fun heq => hx (Option.some.inj heq).symm, hentry,
            if_neg (by simp)]
        · rw [Function.update_of_ne hxid]
    rw [Pi.add_apply] at hold
    show h.pointerCount x = (h.setEntry i (some o)).tableRef x + h.listRef x + h.initialRef x +
      h.backRefs x + _
    omega
  · have hx : Function.update h.entry i (some o) j = some x := hx
    by_cases hj : j = i
    · rw [hj, Function.update_self] at hx
      obtain rfl := Option.some.inj hx
      exact hid.trans hj.symm
    · rw [Function.update_of_ne hj] at hx
      exact H.entry j x hx

theorem HeapInv.assign_some {i : Nat} (H : HeapInv h hand) (hhand : 0 < hand o)
    (hentry : h.entry i = none) (hid : h.id o = i) :
    HeapInv (h.kphCidAssignObject i (some o)) hand := by
  have hstep : h.kphCidAssignObject i (some o) = (h.kphReferenceObject o).setEntry i (some o) := by
    simp only [TrackHeap.kphCidAssignObject, hentry]
  rw [hstep]
  exact (H.reference (H.pos_of_hand hhand)).fillEntry hentry hid

theorem HeapInv.assign_none {i : Nat} (H : HeapInv h hand) :
    HeapInv (h.kphCidAssignObject i none) hand := by
  cases hentry : h.entry i with
  | none =>
      have hstep : h.kphCidAssignObject i none = h.setEntry i none := by
        simp only [TrackHeap.kphCidAssignObject, hentry]
      rw [hstep]
      exact H.clearEntry_none hentry
  | some previous =>
      have hstep : h.kphCidAssignObject i none =
          (h.setEntry i none).kphDereferenceObject previous := by
        simp only [TrackHeap.kphCidAssignObject, hentry]
      rw [hstep]
      exact (H.clearEntry hentry).dereference

/-! ## The back reference -/

theorem initialRef_of_none (hcontext : h.processContext o = none) : h.initialRef o = 0 := by
  rw [TrackHeap.initialRef, hcontext]
  exact if_neg (by simp)

theorem initialRef_of_context (hcontext : h.processContext o = some p) :
    h.initialRef o = if h.initialThread p = some o then 1 else 0 := by
  rw [TrackHeap.initialRef, hcontext]
  rfl

theorem HeapInv.not_initial_of_none (H : HeapInv h hand) (hcontext : h.processContext o = none)
    (p : κ) : h.initialThread p ≠ some o := by
  intro hinitial
  have := (H.initial p o hinitial).2
  rw [hcontext] at this
  cases this

theorem HeapInv.not_listed_of_none (H : HeapInv h hand) (hcontext : h.processContext o = none) :
    h.inThreadList o = false := by
  refine Bool.eq_false_iff.mpr fun hlisted => ?_
  obtain ⟨p, hp⟩ := H.listed o hlisted
  rw [hcontext] at hp
  cases hp

theorem HeapInv.setProcess (H : HeapInv h (hand + Pi.single p 1)) (hlive : o ∈ h.live)
    (hcontext : h.processContext o = none) (htype : h.type o = .thread)
    (hprocess : h.type p = .process) : HeapInv (h.setProcessContext o p) hand := by
  have hself : (h.setProcessContext o p).processContext o = some p := Function.update_self ..
  have hother : ∀ x, x ≠ o → (h.setProcessContext o p).processContext x = h.processContext x :=
    fun x hx => Function.update_of_ne hx ..
  have hnot := H.not_listed_of_none hcontext
  refine ⟨fun x => ?_, H.dead, H.condemned, H.nodup, H.entry, fun x hx q hq => ?_, fun q x => ?_,
    fun x hx => ?_, H.listNodup, H.number, fun q x hx => ?_⟩
  · have hold := H.counts x
    rw [Pi.add_apply] at hold
    have hinitial : (h.setProcessContext o p).initialRef x = h.initialRef x := by
      by_cases hx : x = o
      · subst hx
        rw [initialRef_of_none hcontext, initialRef_of_context hself]
        exact if_neg (H.not_initial_of_none hcontext p)
      · rw [TrackHeap.initialRef, hother x hx]
        rfl
    have hback : (h.setProcessContext o p).backRefs x =
        h.backRefs x + (Pi.single p 1 : κ → Nat) x := by
      by_cases hx : x = p
      · subst hx
        rw [Pi.single_eq_same]
        have hinsert : ((h.setProcessContext o x).live.filter fun y =>
            (h.setProcessContext o x).processContext y = some x) =
            insert o (h.live.filter fun y => h.processContext y = some x) := by
          ext y
          by_cases hy : y = o
          · subst hy
            simp only [Finset.mem_filter, Finset.mem_insert, hself, true_or, and_true, iff_true]
            exact hlive
          · simp only [Finset.mem_filter, Finset.mem_insert, hother y hy, hy, false_or]
            exact Iff.rfl
        rw [TrackHeap.backRefs, hinsert, Finset.card_insert_of_notMem]
        · rfl
        · simp [hcontext]
      · rw [Pi.single_eq_of_ne hx, Nat.add_zero]
        have hsame : ((h.setProcessContext o p).live.filter fun y =>
            (h.setProcessContext o p).processContext y = some x) =
            h.live.filter fun y => h.processContext y = some x := by
          ext y
          by_cases hy : y = o
          · subst hy
            simp only [Finset.mem_filter, hself, hcontext, Option.some.injEq]
            constructor
            · exact fun hboth => absurd hboth.2.symm hx
            · exact fun hboth => absurd hboth.2 (by simp)
          · simp only [Finset.mem_filter, hother y hy]
            exact Iff.rfl
        rw [TrackHeap.backRefs, hsame]
        rfl
    rw [hinitial, hback]
    show h.pointerCount x = h.tableRef x + h.listRef x + _ + _ + _
    omega
  · by_cases hxo : x = o
    · subst hxo
      obtain rfl := Option.some.inj (hself.symm.trans hq)
      exact ⟨htype, hprocess⟩
    · rw [hother x hxo] at hq
      exact H.context x hx q hq
  · show x ∈ h.threadList q ↔ x ∈ h.live ∧ _ ∧ h.inThreadList x = true
    rw [H.lists q x]
    by_cases hxo : x = o
    · subst hxo
      rw [hnot]
      simp
    · rw [hother x hxo]
  · by_cases hxo : x = o
    · subst hxo
      exact ⟨p, hself⟩
    · rw [hother x hxo]
      exact H.listed x hx
  · have hxo : x ≠ o := by
      rintro rfl
      exact H.not_initial_of_none hcontext q hx
    rw [hother x hxo]
    exact H.initial q x hx

/-! ## The initial thread -/

theorem initialRef_setInitialThread {thread : Option κ} {x : κ}
    (hx : thread ≠ some x ∧ h.initialThread p ≠ some x) :
    (h.setInitialThread p thread).initialRef x = h.initialRef x := by
  cases hcontext : h.processContext x with
  | none =>
      rw [initialRef_of_none hcontext]
      exact initialRef_of_none hcontext
  | some q =>
      have hcontext' : (h.setInitialThread p thread).processContext x = some q := hcontext
      have hvalue : (h.setInitialThread p thread).initialThread q =
          Function.update h.initialThread p thread q := rfl
      rw [initialRef_of_context hcontext, initialRef_of_context hcontext', hvalue]
      by_cases hq : q = p
      · rw [hq, Function.update_self, if_neg hx.1, if_neg hx.2]
      · rw [Function.update_of_ne hq]

theorem HeapInv.clearInitial (H : HeapInv h hand) (hinitial : h.initialThread p = some o) :
    HeapInv (h.setInitialThread p none) (hand + Pi.single o 1) := by
  have hcontext := (H.initial p o hinitial).2
  have hself : (h.setInitialThread p none).initialThread p = none := Function.update_self ..
  refine ⟨fun x => ?_, H.dead, H.condemned, H.nodup, H.entry, H.context, H.lists, H.listed,
    H.listNodup, H.number, fun q x hx => ?_⟩
  · have hold := H.counts x
    have hrole : (h.setInitialThread p none).initialRef x + (Pi.single o 1 : κ → Nat) x =
        h.initialRef x := by
      by_cases hx : x = o
      · subst hx
        rw [Pi.single_eq_same, initialRef_of_context hcontext, if_pos hinitial,
          initialRef_of_context (show (h.setInitialThread p none).processContext x = some p from
            hcontext), hself, if_neg (by simp)]
      · rw [Pi.single_eq_of_ne hx, Nat.add_zero]
        refine initialRef_setInitialThread ⟨by simp, ?_⟩
        rw [hinitial]
        exact fun heq => hx (Option.some.inj heq).symm
    rw [Pi.add_apply]
    show h.pointerCount x = h.tableRef x + h.listRef x + (h.setInitialThread p none).initialRef x +
      h.backRefs x + _
    omega
  · have hx : Function.update h.initialThread p none q = some x := hx
    by_cases hq : q = p
    · rw [hq, Function.update_self] at hx
      cases hx
    · rw [Function.update_of_ne hq] at hx
      exact H.initial q x hx

theorem HeapInv.fillInitial (H : HeapInv h (hand + Pi.single o 1)) (hlive : o ∈ h.live)
    (hinitial : h.initialThread p = none) (hcontext : h.processContext o = some p) :
    HeapInv (h.setInitialThread p (some o)) hand := by
  have hself : (h.setInitialThread p (some o)).initialThread p = some o := Function.update_self ..
  refine ⟨fun x => ?_, H.dead, H.condemned, H.nodup, H.entry, H.context, H.lists, H.listed,
    H.listNodup, H.number, fun q x hx => ?_⟩
  · have hold := H.counts x
    have hrole : (h.setInitialThread p (some o)).initialRef x =
        h.initialRef x + (Pi.single o 1 : κ → Nat) x := by
      by_cases hx : x = o
      · subst hx
        rw [Pi.single_eq_same, initialRef_of_context hcontext, hinitial, if_neg (by simp),
          initialRef_of_context (show (h.setInitialThread p (some x)).processContext x = some p from
            hcontext), hself, if_pos rfl]
      · rw [Pi.single_eq_of_ne hx, Nat.add_zero]
        refine initialRef_setInitialThread ⟨fun heq => hx (Option.some.inj heq).symm, ?_⟩
        rw [hinitial]
        simp
    rw [Pi.add_apply] at hold
    show h.pointerCount x = h.tableRef x + h.listRef x +
      (h.setInitialThread p (some o)).initialRef x + h.backRefs x + _
    omega
  · have hx : Function.update h.initialThread p (some o) q = some x := hx
    by_cases hq : q = p
    · rw [hq, Function.update_self] at hx
      obtain rfl := Option.some.inj hx
      exact ⟨hlive, hq ▸ hcontext⟩
    · rw [Function.update_of_ne hq] at hx
      exact H.initial q x hx

/-! ## The thread list -/

theorem listRef_update {b : Bool} {h' : TrackHeap κ}
    (hflag : h'.inThreadList = Function.update h.inThreadList o b) (x : κ) :
    h'.listRef x = if x = o then (if b = true then 1 else 0) else h.listRef x := by
  rw [TrackHeap.listRef, hflag]
  by_cases hx : x = o
  · subst hx
    rw [Function.update_self, if_pos rfl]
  · rw [Function.update_of_ne hx, if_neg hx]
    rfl

theorem HeapInv.insertThread (H : HeapInv h (hand + Pi.single o 1)) (hlive : o ∈ h.live)
    (hcontext : h.processContext o = some p) (hnot : h.inThreadList o = false) :
    HeapInv (h.insertThread p o) hand := by
  have hself : (h.insertThread p o).threadList p = h.threadList p ++ [o] := Function.update_self ..
  have hother : ∀ q, q ≠ p → (h.insertThread p o).threadList q = h.threadList q :=
    fun q hq => Function.update_of_ne hq ..
  have hflag : (h.insertThread p o).inThreadList = Function.update h.inThreadList o true := rfl
  have habsent : o ∉ h.threadList p := by
    rw [H.lists, hnot]
    simp
  refine ⟨fun x => ?_, H.dead, H.condemned, H.nodup, H.entry, H.context, fun q x => ?_, fun x hx => ?_,
    fun q => ?_, fun q => ?_, H.initial⟩
  · have hold := H.counts x
    have hlist : (h.insertThread p o).listRef x = h.listRef x + (Pi.single o 1 : κ → Nat) x := by
      rw [listRef_update hflag]
      by_cases hx : x = o
      · subst hx
        rw [if_pos rfl, if_pos rfl, Pi.single_eq_same, TrackHeap.listRef, hnot, if_neg (by simp)]
      · rw [if_neg hx, Pi.single_eq_of_ne hx, Nat.add_zero]
    rw [Pi.add_apply] at hold
    show h.pointerCount x = h.tableRef x + (h.insertThread p o).listRef x + h.initialRef x +
      h.backRefs x + _
    omega
  · show _ ↔ x ∈ h.live ∧ h.processContext x = some q ∧ (h.insertThread p o).inThreadList x = true
    rw [hflag]
    by_cases hx : x = o
    · subst hx
      rw [Function.update_self]
      by_cases hq : q = p
      · subst hq
        rw [hself]
        simp [hlive, hcontext]
      · rw [hother q hq, H.lists, hnot, hcontext]
        simp [Ne.symm hq]
    · rw [Function.update_of_ne hx, ← H.lists]
      by_cases hq : q = p
      · subst hq
        rw [hself]
        simp [hx]
      · rw [hother q hq]
  · rw [hflag] at hx
    by_cases hxo : x = o
    · exact ⟨p, hxo ▸ hcontext⟩
    · rw [Function.update_of_ne hxo] at hx
      exact H.listed x hx
  · by_cases hq : q = p
    · subst hq
      rw [hself]
      exact (H.listNodup q).append (List.nodup_singleton o) (List.disjoint_singleton.mpr habsent)
    · rw [hother q hq]
      exact H.listNodup q
  · have hnumber : (h.insertThread p o).numberOfThreads q =
        Function.update h.numberOfThreads p (h.numberOfThreads p + 1) q := rfl
    rw [hnumber]
    by_cases hq : q = p
    · subst hq
      rw [hself, Function.update_self, H.number q, List.length_append]
      rfl
    · rw [hother q hq, Function.update_of_ne hq]
      exact H.number q

theorem HeapInv.removeThread (H : HeapInv h hand) (hcontext : h.processContext o = some p)
    (hlisted : h.inThreadList o = true) (hlive : o ∈ h.live) :
    HeapInv (h.removeThread p o) (hand + Pi.single o 1) := by
  have hself : (h.removeThread p o).threadList p = (h.threadList p).erase o :=
    Function.update_self ..
  have hother : ∀ q, q ≠ p → (h.removeThread p o).threadList q = h.threadList q :=
    fun q hq => Function.update_of_ne hq ..
  have hflag : (h.removeThread p o).inThreadList = Function.update h.inThreadList o false := rfl
  have hmem : o ∈ h.threadList p := (H.lists p o).mpr ⟨hlive, hcontext, hlisted⟩
  refine ⟨fun x => ?_, H.dead, H.condemned, H.nodup, H.entry, H.context, fun q x => ?_, fun x hx => ?_,
    fun q => ?_, fun q => ?_, H.initial⟩
  · have hold := H.counts x
    have hlist : (h.removeThread p o).listRef x + (Pi.single o 1 : κ → Nat) x = h.listRef x := by
      rw [listRef_update hflag]
      by_cases hx : x = o
      · subst hx
        rw [if_pos rfl, if_neg (by simp), Pi.single_eq_same, TrackHeap.listRef, if_pos hlisted]
      · rw [if_neg hx, Pi.single_eq_of_ne hx, Nat.add_zero]
    rw [Pi.add_apply]
    show h.pointerCount x = h.tableRef x + (h.removeThread p o).listRef x + h.initialRef x +
      h.backRefs x + _
    omega
  · show _ ↔ x ∈ h.live ∧ h.processContext x = some q ∧ (h.removeThread p o).inThreadList x = true
    rw [hflag]
    by_cases hx : x = o
    · subst hx
      rw [Function.update_self]
      have habsent : x ∉ (h.removeThread p x).threadList q := by
        by_cases hq : q = p
        · subst hq
          rw [hself]
          exact (H.listNodup q).not_mem_erase
        · rw [hother q hq, H.lists, hcontext]
          simp [Ne.symm hq]
      simp [habsent]
    · rw [Function.update_of_ne hx, ← H.lists]
      by_cases hq : q = p
      · subst hq
        rw [hself]
        exact List.mem_erase_of_ne hx
      · rw [hother q hq]
  · rw [hflag] at hx
    by_cases hxo : x = o
    · exact ⟨p, hxo ▸ hcontext⟩
    · rw [Function.update_of_ne hxo] at hx
      exact H.listed x hx
  · by_cases hq : q = p
    · subst hq
      rw [hself]
      exact (H.listNodup q).erase o
    · rw [hother q hq]
      exact H.listNodup q
  · have hnumber : (h.removeThread p o).numberOfThreads q =
        Function.update h.numberOfThreads p (h.numberOfThreads p - 1) q := rfl
    rw [hnumber]
    by_cases hq : q = p
    · subst hq
      rw [hself, Function.update_self, H.number q, List.length_erase_of_mem hmem]
    · rw [hother q hq, Function.update_of_ne hq]
      exact H.number q

/-! ## The critical sections -/

theorem HeapInv.pos_of_initial (H : HeapInv h hand) (hinitial : h.initialThread p = some o) :
    0 < h.pointerCount o := by
  have := H.counts o
  have hrole := initialRef_of_context (H.initial p o hinitial).2
  rw [if_pos hinitial] at hrole
  omega

theorem HeapInv.pos_of_listed (H : HeapInv h hand) (hlisted : h.inThreadList o = true) :
    0 < h.pointerCount o := by
  have := H.counts o
  have hlist : h.listRef o = 1 := if_pos hlisted
  omega

theorem HeapInv.join (H : HeapInv h hand) (hhand : 0 < hand o)
    (hcontext : h.processContext o = some p) (hnot : h.inThreadList o = false) :
    HeapInv (h.joinProcess p o) hand := by
  have hpos := H.pos_of_hand hhand
  have hlive := H.live_of_pos hpos
  cases hinitial : h.initialThread p with
  | none =>
      have hstep : h.joinProcess p o =
          (((h.kphReferenceObject o).setInitialThread p (some o)).kphReferenceObject o).insertThread
            p o := by
        simp only [TrackHeap.joinProcess, hinitial]
        rfl
      rw [hstep]
      have H₁ := (H.reference hpos).fillInitial hlive hinitial hcontext
      exact (H₁.reference (H₁.pos_of_hand hhand)).insertThread hlive hcontext hnot
  | some first =>
      have hstep : h.joinProcess p o = (h.kphReferenceObject o).insertThread p o := by
        simp only [TrackHeap.joinProcess, hinitial]
        rfl
      rw [hstep]
      exact (H.reference hpos).insertThread hlive hcontext hnot

/-- A thread context is in no list and no `InitialThread`. -/
structure TrackHeap.Apart (h : TrackHeap κ) (o : κ) : Prop where
  list : h.inThreadList o = false
  initial : ∀ p, h.initialThread p ≠ some o

theorem HeapInv.leave (H : HeapInv h hand) (hcontext : h.processContext o = some p) :
    HeapInv (h.leaveProcess p o) hand ∧ (h.leaveProcess p o).Apart o := by
  -- Out of the list, and then out of `InitialThread`.
  have hlist : ∃ h₁ : TrackHeap κ, HeapInv h₁ hand ∧ h₁.inThreadList o = false ∧
      h₁.processContext o = some p ∧ h₁.initialThread = h.initialThread ∧
      h.leaveProcess p o = if h.initialThread p = some o then
        (h₁.setInitialThread p none).kphDereferenceObject o else h₁ := by
    cases hlisted : h.inThreadList o with
    | false => exact ⟨h, H, hlisted, hcontext, rfl, by simp [TrackHeap.leaveProcess, hlisted]⟩
    | true =>
        refine ⟨(h.removeThread p o).kphDereferenceObject o, ?_, Function.update_self .., hcontext,
          rfl, by simp only [TrackHeap.leaveProcess, hlisted, if_true]; rfl⟩
        exact (H.removeThread hcontext hlisted (H.live_of_pos (H.pos_of_listed hlisted))).dereference
  obtain ⟨h₁, H₁, hnot, hcontext₁, hsame, hstep⟩ := hlist
  have honly : ∀ q, q ≠ p → h.initialThread q ≠ some o := by
    intro q hq hinitial
    have := (H.initial q o hinitial).2
    exact hq (Option.some.inj (this.symm.trans hcontext))
  rw [hstep]
  split
  · next hinitial =>
      refine ⟨(H₁.clearInitial (hsame ▸ hinitial)).dereference, hnot, fun q => ?_⟩
      have hvalue : ((h₁.setInitialThread p none).kphDereferenceObject o).initialThread =
          Function.update h₁.initialThread p none := rfl
      rw [hvalue, hsame]
      by_cases hq : q = p
      · rw [hq, Function.update_self]
        simp
      · rw [Function.update_of_ne hq]
        exact honly q hq
  · next hinitial =>
      refine ⟨H₁, hnot, fun q => ?_⟩
      rw [hsame]
      by_cases hq : q = p
      · rw [hq]
        exact hinitial
      · exact honly q hq

theorem HeapInv.unlinked (H : HeapInv h hand) (n : κ → Nat) :
    HeapInv { h with numberOfUnlinkedThreads := n } hand :=
  ⟨H.counts, H.dead, H.condemned, H.nodup, H.entry, H.context, H.lists, H.listed, H.listNodup,
    H.number, H.initial⟩

theorem HeapInv.unlinkThreads (H : HeapInv h hand) (p : κ) (n : Nat) :
    HeapInv (TrackHeap.unlinkThreads p n h) hand := by
  induction n generalizing h with
  | zero => exact H
  | succ n ih =>
      unfold TrackHeap.unlinkThreads
      split
      · exact H
      · next thread rest hlist =>
          obtain ⟨hlive, hcontext, hlisted⟩ := (H.lists p thread).mp (hlist ▸ List.mem_cons_self)
          exact ih ((H.removeThread hcontext hlisted hlive).unlinked _).dereference

theorem HeapInv.unlink (H : HeapInv h hand) (p : κ) :
    HeapInv (h.kphpUnlinkProcessContextThreadContexts p) hand := by
  have H₁ := H.unlinkThreads p (h.threadList p).length
  generalize hh₁ : TrackHeap.unlinkThreads p (h.threadList p).length h = h₁ at H₁
  cases hinitial : h₁.initialThread p with
  | none =>
      have hstep : h.kphpUnlinkProcessContextThreadContexts p = h₁ := by
        simp only [TrackHeap.kphpUnlinkProcessContextThreadContexts, hh₁, hinitial]
      rw [hstep]
      exact H₁
  | some thread =>
      have hstep : h.kphpUnlinkProcessContextThreadContexts p =
          (h₁.setInitialThread p none).kphDereferenceObject thread := by
        simp only [TrackHeap.kphpUnlinkProcessContextThreadContexts, hh₁, hinitial]
        rfl
      rw [hstep]
      exact (H₁.clearInitial hinitial).dereference

theorem HeapInv.apart_of_process (H : HeapInv h hand) (hlive : o ∈ h.live)
    (htype : h.type o = .process) : h.Apart o := by
  have hnone : h.processContext o = none := by
    refine Option.eq_none_iff_forall_ne_some.mpr fun p hcontext => ?_
    exact absurd (htype.symm.trans (H.context o hlive p hcontext).1) (by decide)
  exact ⟨H.not_listed_of_none hnone, H.not_initial_of_none hnone⟩

theorem leave_entry (h : TrackHeap κ) (p o : κ) :
    (h.leaveProcess p o).entry = h.entry ∧ (h.leaveProcess p o).entryGot = h.entryGot := by
  unfold TrackHeap.leaveProcess
  cases h.inThreadList o with
  | false =>
      simp only [Bool.false_eq_true, if_false]
      split
      · exact ⟨rfl, rfl⟩
      · exact ⟨rfl, rfl⟩
  | true =>
      simp only [if_true]
      split
      · exact ⟨rfl, rfl⟩
      · exact ⟨rfl, rfl⟩

theorem unlinkThreads_entry (p : κ) (n : Nat) (h : TrackHeap κ) :
    (TrackHeap.unlinkThreads p n h).entry = h.entry ∧
      (TrackHeap.unlinkThreads p n h).entryGot = h.entryGot := by
  induction n generalizing h with
  | zero => exact ⟨rfl, rfl⟩
  | succ n ih =>
      unfold TrackHeap.unlinkThreads
      split
      · exact ⟨rfl, rfl⟩
      · next thread rest hlist => exact ih _

theorem unlink_entry (h : TrackHeap κ) (p : κ) :
    (h.kphpUnlinkProcessContextThreadContexts p).entry = h.entry ∧
      (h.kphpUnlinkProcessContextThreadContexts p).entryGot = h.entryGot := by
  obtain ⟨hentry, hgot⟩ := unlinkThreads_entry p (h.threadList p).length h
  unfold TrackHeap.kphpUnlinkProcessContextThreadContexts
  simp only
  split
  · exact ⟨hentry, hgot⟩
  · exact ⟨hentry, hgot⟩

/-! ## Creation and deletion -/

theorem HeapInv.not_live (H : HeapInv h hand) (hdead : o ∉ h.live) :
    hand o = 0 ∧ (∀ i, h.entry i ≠ some o) ∧ h.Apart o ∧
      (∀ x ∈ h.live, h.processContext x ≠ some o) ∧ h.threadList o = [] ∧
        h.initialThread o = none := by
  have hzero := H.dead o hdead
  have hcounts := H.counts o
  have hnot : ∀ x ∈ h.live, h.processContext x ≠ some o := by
    intro x hx hcontext
    have := H.pos_of_context hx hcontext
    omega
  refine ⟨by omega, fun i hentry => ?_, ⟨?_, fun p hinitial => ?_⟩, hnot, ?_, ?_⟩
  · have := H.pos_of_entry hentry
    omega
  · refine Bool.eq_false_iff.mpr fun hlisted => ?_
    have := H.pos_of_listed hlisted
    omega
  · exact hdead (H.initial p o hinitial).1
  · refine List.eq_nil_iff_forall_not_mem.mpr fun x hx => ?_
    obtain ⟨hlive, hcontext, -⟩ := (H.lists o x).mp hx
    exact hnot x hlive hcontext
  · refine Option.eq_none_iff_forall_ne_some.mpr fun x hx => ?_
    obtain ⟨hlive, hcontext⟩ := H.initial o x hx
    exact hnot x hlive hcontext

theorem HeapInv.create (H : HeapInv h hand) (hdead : o ∉ h.live) (type : ContextType) (id : Nat) :
    HeapInv (h.kphCreateObject o type id) (hand + Pi.single o 1) := by
  obtain ⟨hhand, hentry, hapart, hback, hlist, hinitial⟩ := H.not_live hdead
  generalize hh' : h.kphCreateObject o type id = h'
  have hlive' : h'.live = insert o h.live := by rw [← hh']; rfl
  have hcondemned' : h'.condemned = h.condemned := by rw [← hh']; rfl
  have hentry' : h'.entry = h.entry := by rw [← hh']; rfl
  have hcount' : h'.pointerCount = Function.update h.pointerCount o 1 := by rw [← hh']; rfl
  have htype' : h'.type = Function.update h.type o type := by rw [← hh']; rfl
  have hid' : h'.id = Function.update h.id o id := by rw [← hh']; rfl
  have hcontext' : h'.processContext = Function.update h.processContext o none := by
    rw [← hh']; rfl
  -- What the creation resets is as it was.
  have hflag' : h'.inThreadList = h.inThreadList := by
    rw [← hh']
    show Function.update h.inThreadList o false = _
    rw [← hapart.list, Function.update_eq_self]
  have hlist' : h'.threadList = h.threadList := by
    rw [← hh']
    show Function.update h.threadList o [] = _
    rw [← hlist, Function.update_eq_self]
  have hinitial' : h'.initialThread = h.initialThread := by
    rw [← hh']
    show Function.update h.initialThread o none = _
    rw [← hinitial, Function.update_eq_self]
  have hnumber' : h'.numberOfThreads = h.numberOfThreads := by
    rw [← hh']
    show Function.update h.numberOfThreads o 0 = _
    have hzero : h.numberOfThreads o = 0 := by rw [H.number, hlist]; rfl
    rw [← hzero, Function.update_eq_self]
  refine ⟨fun x => ?_, fun x hx => ?_, fun x => ?_, hcondemned' ▸ H.nodup, fun i x hx => ?_,
    fun x hx q hq => ?_, fun q x => ?_, fun x hx => ?_, fun q => ?_, fun q => ?_, fun q x hx => ?_⟩
  · have hold := H.counts x
    have htable : h'.tableRef x = h.tableRef x := by
      rw [TrackHeap.tableRef, TrackHeap.tableRef, hentry', hid']
      by_cases hx : x = o
      · subst hx
        rw [if_neg (hentry _), if_neg (hentry _)]
      · rw [Function.update_of_ne hx]
    have hrole : h'.initialRef x = h.initialRef x := by
      by_cases hx : x = o
      · subst hx
        have hnone : h'.processContext x = none := by rw [hcontext', Function.update_self]
        have := H.dead x hdead
        have := H.counts x
        rw [initialRef_of_none hnone]
        omega
      · rw [TrackHeap.initialRef, TrackHeap.initialRef, hcontext', Function.update_of_ne hx, hinitial']
    have hrefs : h'.backRefs x = h.backRefs x := by
      have hfilter : (h'.live.filter fun y => h'.processContext y = some x) =
          h.live.filter fun y => h.processContext y = some x := by
        ext y
        rw [Finset.mem_filter, Finset.mem_filter, hlive', hcontext', Finset.mem_insert]
        by_cases hy : y = o
        · subst hy
          rw [Function.update_self]
          simp [hdead]
        · rw [Function.update_of_ne hy]
          simp [hy]
      rw [TrackHeap.backRefs, hfilter]
      rfl
    have hlists : h'.listRef x = h.listRef x := by
      rw [TrackHeap.listRef, hflag']
      rfl
    rw [htable, hrole, hrefs, hlists, hcount', Pi.add_apply]
    by_cases hx : x = o
    · subst hx
      have := H.dead x hdead
      rw [Function.update_self, Pi.single_eq_same]
      omega
    · rw [Function.update_of_ne hx, Pi.single_eq_of_ne hx]
      omega
  · rw [hlive', Finset.mem_insert, not_or] at hx
    rw [hcount', Function.update_of_ne hx.1]
    exact H.dead x hx.2
  · rw [hcondemned', hlive', hcount', H.condemned, Finset.mem_insert]
    by_cases hx : x = o
    · subst hx
      rw [Function.update_self]
      simp [hdead]
    · rw [Function.update_of_ne hx]
      simp [hx]
  · rw [hentry'] at hx
    have hxo : x ≠ o := by
      rintro rfl
      exact hentry i hx
    rw [hid', Function.update_of_ne hxo]
    exact H.entry i x hx
  · rw [hcontext'] at hq
    have hxo : x ≠ o := by
      rintro rfl
      rw [Function.update_self] at hq
      cases hq
    rw [Function.update_of_ne hxo] at hq
    rw [hlive', Finset.mem_insert, or_iff_right hxo] at hx
    have hqo : q ≠ o := by
      rintro rfl
      exact hback x hx hq
    rw [htype', Function.update_of_ne hxo, Function.update_of_ne hqo]
    exact H.context x hx q hq
  · rw [hlist', hlive', hcontext', hflag', H.lists, Finset.mem_insert]
    by_cases hx : x = o
    · subst hx
      rw [Function.update_self]
      simp [hdead]
    · rw [Function.update_of_ne hx]
      simp [hx]
  · rw [hflag'] at hx
    have hxo : x ≠ o := by
      rintro rfl
      exact absurd (hapart.list.symm.trans hx) (by decide)
    rw [hcontext', Function.update_of_ne hxo]
    exact H.listed x hx
  · rw [hlist']
    exact H.listNodup q
  · rw [hlist', hnumber']
    exact H.number q
  · rw [hinitial'] at hx
    have hxo : x ≠ o := by
      rintro rfl
      exact hapart.initial q hx
    rw [hlive', hcontext', Function.update_of_ne hxo, Finset.mem_insert]
    exact ⟨.inr (H.initial q x hx).1, (H.initial q x hx).2⟩

theorem HeapInv.delete (H : HeapInv h hand) (hmem : o ∈ h.condemned) :
    HeapInv (h.delete o) hand := by
  obtain ⟨hlive, hzero⟩ := (H.condemned o).mp hmem
  have hcounts := H.counts o
  generalize hd : ({ h with live := h.live.erase o, condemned := h.condemned.erase o } :
    TrackHeap κ) = d
  have hdlive : d.live = h.live.erase o := by rw [← hd]
  have hdcontext : d.processContext = h.processContext := by rw [← hd]
  have hnot : h.inThreadList o = false := by
    refine Bool.eq_false_iff.mpr fun hlisted => ?_
    have := H.pos_of_listed hlisted
    omega
  -- The back reference of the object is in the hand of its deletion.
  have hdeleted : HeapInv d (hand + fun x => if h.processContext o = some x then 1 else 0) := by
    refine ⟨fun x => ?_, fun x hx => ?_, fun x => ?_, ?_, ?_, fun x hx q hq => ?_, fun q x => ?_, ?_,
      ?_, ?_, fun q x hx => ?_⟩
    · have hold := H.counts x
      have hback : d.backRefs x + (if h.processContext o = some x then 1 else 0) = h.backRefs x := by
        rw [TrackHeap.backRefs, TrackHeap.backRefs, hdlive, hdcontext, Finset.filter_erase]
        split
        · next hcontext =>
            have hin : o ∈ h.live.filter fun y => h.processContext y = some x :=
              Finset.mem_filter.mpr ⟨hlive, hcontext⟩
            have := Finset.card_pos.mpr ⟨o, hin⟩
            rw [Finset.card_erase_of_mem hin]
            omega
        · next hcontext =>
            rw [Finset.erase_eq_of_notMem (by simp [hcontext])]
            rfl
      rw [Pi.add_apply, ← hd]
      rw [← hd] at hback
      show h.pointerCount x = h.tableRef x + h.listRef x + h.initialRef x + _ + _
      omega
    · rw [hdlive, Finset.mem_erase, not_and_or, not_not] at hx
      rw [← hd]
      rcases hx with rfl | hx
      · exact hzero
      · exact H.dead x hx
    · rw [← hd]
      show x ∈ h.condemned.erase o ↔ x ∈ h.live.erase o ∧ h.pointerCount x = 0
      rw [H.nodup.mem_erase_iff, Finset.mem_erase, H.condemned, and_assoc]
    · rw [← hd]
      exact H.nodup.erase o
    · rw [← hd]
      exact H.entry
    · rw [hdlive, Finset.mem_erase] at hx
      rw [← hd] at hq ⊢
      exact H.context x hx.2 q hq
    · rw [← hd]
      show x ∈ h.threadList q ↔ x ∈ h.live.erase o ∧ h.processContext x = some q ∧
        h.inThreadList x = true
      rw [H.lists, Finset.mem_erase]
      by_cases hx : x = o
      · subst hx
        simp [hnot]
      · simp [hx]
    · rw [← hd]
      exact H.listed
    · rw [← hd]
      exact H.listNodup
    · rw [← hd]
      exact H.number
    · rw [← hd] at hx
      have hxo : x ≠ o := by
        rintro rfl
        have := H.pos_of_initial hx
        omega
      rw [hdlive, hdcontext, Finset.mem_erase]
      exact ⟨⟨hxo, (H.initial q x hx).1⟩, (H.initial q x hx).2⟩
  cases hcontext : h.processContext o with
  | none =>
      have hstep : h.delete o = d := by
        simp only [TrackHeap.delete, hcontext]
        exact hd
      have hhand : (hand + fun x => if h.processContext o = some x then 1 else 0) = hand := by
        funext x
        rw [Pi.add_apply, hcontext, if_neg (by simp), Nat.add_zero]
      rw [hstep, ← hhand]
      exact hdeleted
  | some process =>
      have hstep : h.delete o = d.kphDereferenceObject process := by
        simp only [TrackHeap.delete, hcontext]
        rw [hd]
      have hhand : (hand + fun x => if h.processContext o = some x then 1 else 0) =
          hand + Pi.single process 1 := by
        funext x
        rw [Pi.add_apply, Pi.add_apply, hcontext, Pi.single_apply]
        simp only [Option.some.injEq, eq_comm]
      rw [hstep]
      exact (hhand ▸ hdeleted).dereference

/-! ## What an operation keeps -/

/-- What an operation keeps of the objects: their types and ids, and of all but `x` the
back reference, and that they are in no list and no `InitialThread`. -/
structure Keeps (h h' : TrackHeap κ) (x : Option κ) : Prop where
  type : ∀ o ∈ h.live, h'.type o = h.type o
  id : ∀ o ∈ h.live, h'.id o = h.id o
  context : ∀ o ∈ h.live, x ≠ some o → h'.processContext o = h.processContext o
  apart : ∀ o, x ≠ some o → h.Apart o → h'.Apart o

theorem Keeps.refl (h : TrackHeap κ) (x : Option κ) : Keeps h h x :=
  ⟨fun _ _ => rfl, fun _ _ => rfl, fun _ _ _ => rfl, fun _ _ hapart => hapart⟩

theorem keeps_of_eq (h h' : TrackHeap κ) (htype : h'.type = h.type) (hid : h'.id = h.id)
    (hcontext : h'.processContext = h.processContext) (hflag : h'.inThreadList = h.inThreadList)
    (hinitial : h'.initialThread = h.initialThread) (x : Option κ) : Keeps h h' x := by
  refine ⟨fun o _ => by rw [htype], fun o _ => by rw [hid], fun o _ _ => by rw [hcontext],
    fun o _ hapart => ⟨?_, fun p => ?_⟩⟩
  · rw [hflag]
    exact hapart.list
  · rw [hinitial]
    exact hapart.initial p

theorem keeps_assign (h : TrackHeap κ) (i : Nat) (object : Option κ) (x : Option κ) :
    Keeps h (h.kphCidAssignObject i object) x := by
  unfold TrackHeap.kphCidAssignObject
  cases object <;> cases h.entry i <;> refine keeps_of_eq h _ ?_ ?_ ?_ ?_ ?_ x <;> rfl

theorem keeps_delete (h : TrackHeap κ) (o : κ) (x : Option κ) : Keeps h (h.delete o) x := by
  unfold TrackHeap.delete
  cases h.processContext o <;> refine keeps_of_eq h _ ?_ ?_ ?_ ?_ ?_ x <;> rfl

theorem keeps_create (hdead : o ∉ h.live) (type : ContextType) (id : Nat) :
    Keeps h (h.kphCreateObject o type id) none := by
  have hne : ∀ x ∈ h.live, x ≠ o := by
    rintro x hx rfl
    exact hdead hx
  refine ⟨fun x hx => Function.update_of_ne (hne x hx) .., fun x hx =>
    Function.update_of_ne (hne x hx) .., fun x hx _ => Function.update_of_ne (hne x hx) ..,
    fun x _ hapart => ⟨?_, fun p => ?_⟩⟩
  · show Function.update h.inThreadList o false x = false
    by_cases hx : x = o
    · rw [hx, Function.update_self]
    · rw [Function.update_of_ne hx]
      exact hapart.list
  · show Function.update h.initialThread o none p ≠ some x
    by_cases hp : p = o
    · rw [hp, Function.update_self]
      simp
    · rw [Function.update_of_ne hp]
      exact hapart.initial p

theorem keeps_setProcessContext (h : TrackHeap κ) (o p : κ) :
    Keeps h (h.setProcessContext o p) (some o) :=
  ⟨fun _ _ => rfl, fun _ _ => rfl,
    fun _ _ hx => Function.update_of_ne (fun heq => hx (congrArg some heq.symm)) ..,
    fun _ _ hapart => ⟨hapart.list, hapart.initial⟩⟩

theorem keeps_join (h : TrackHeap κ) (p o : κ) : Keeps h (h.joinProcess p o) (some o) := by
  have hflag : (h.joinProcess p o).inThreadList = Function.update h.inThreadList o true := by
    unfold TrackHeap.joinProcess
    cases h.initialThread p <;> rfl
  have hinitial : (h.joinProcess p o).initialThread = h.initialThread ∨
      (h.joinProcess p o).initialThread = Function.update h.initialThread p (some o) := by
    unfold TrackHeap.joinProcess
    cases h.initialThread p with
    | none => exact .inr rfl
    | some first => exact .inl rfl
  have hrest : (h.joinProcess p o).type = h.type ∧ (h.joinProcess p o).id = h.id ∧
      (h.joinProcess p o).processContext = h.processContext := by
    unfold TrackHeap.joinProcess
    cases h.initialThread p <;> exact ⟨rfl, rfl, rfl⟩
  refine ⟨fun x _ => by rw [hrest.1], fun x _ => by rw [hrest.2.1], fun x _ _ => by rw [hrest.2.2],
    fun _ hx hapart => ⟨?_, fun q => ?_⟩⟩
  · rw [hflag, Function.update_of_ne fun heq => hx (congrArg some heq.symm)]
    exact hapart.list
  · rcases hinitial with hsame | hset
    · rw [hsame]
      exact hapart.initial q
    · rw [hset]
      by_cases hq : q = p
      · rw [hq, Function.update_self]
        exact hx
      · rw [Function.update_of_ne hq]
        exact hapart.initial q

theorem Keeps.trans {h₁ h₂ : TrackHeap κ} {x : Option κ} (hk : Keeps h h₁ x)
    (hk' : Keeps h₁ h₂ x) (hlive : h₁.live = h.live) : Keeps h h₂ x :=
  ⟨fun o ho => (hk'.type o (hlive ▸ ho)).trans (hk.type o ho),
    fun o ho => (hk'.id o (hlive ▸ ho)).trans (hk.id o ho),
    fun o ho hx => (hk'.context o (hlive ▸ ho) hx).trans (hk.context o ho hx),
    fun o hx hapart => hk'.apart o hx (hk.apart o hx hapart)⟩

theorem keeps_removeThread (h : TrackHeap κ) (p o : κ) (x : Option κ) :
    Keeps h (h.removeThread p o) x := by
  refine ⟨fun _ _ => rfl, fun _ _ => rfl, fun _ _ _ => rfl, fun y _ hapart =>
    ⟨?_, hapart.initial⟩⟩
  show Function.update h.inThreadList o false y = false
  by_cases hy : y = o
  · rw [hy, Function.update_self]
  · rw [Function.update_of_ne hy]
    exact hapart.list

theorem keeps_clearInitial (h : TrackHeap κ) (p : κ) (x : Option κ) :
    Keeps h (h.setInitialThread p none) x := by
  refine ⟨fun _ _ => rfl, fun _ _ => rfl, fun _ _ _ => rfl, fun y _ hapart =>
    ⟨hapart.list, fun q => ?_⟩⟩
  show Function.update h.initialThread p none q ≠ some y
  by_cases hq : q = p
  · rw [hq, Function.update_self]
    simp
  · rw [Function.update_of_ne hq]
    exact hapart.initial q

theorem keeps_dereference (h : TrackHeap κ) (o : κ) (x : Option κ) :
    Keeps h (h.kphDereferenceObject o) x :=
  keeps_of_eq h (h.kphDereferenceObject o) rfl rfl rfl rfl rfl x

theorem keeps_unlinked (h : TrackHeap κ) (n : κ → Nat) (x : Option κ) :
    Keeps h { h with numberOfUnlinkedThreads := n } x :=
  keeps_of_eq h { h with numberOfUnlinkedThreads := n } rfl rfl rfl rfl rfl x

theorem keeps_leave (h : TrackHeap κ) (p o : κ) (x : Option κ) :
    Keeps h (h.leaveProcess p o) x := by
  have hlist : ∃ h₁ : TrackHeap κ, Keeps h h₁ x ∧ h₁.live = h.live ∧
      h.leaveProcess p o = if h₁.initialThread p = some o then
        (h₁.setInitialThread p none).kphDereferenceObject o else h₁ := by
    cases hlisted : h.inThreadList o with
    | false => exact ⟨h, Keeps.refl h x, rfl, by simp [TrackHeap.leaveProcess, hlisted]⟩
    | true =>
        exact ⟨(h.removeThread p o).kphDereferenceObject o,
          (keeps_removeThread h p o x).trans (keeps_dereference _ o x) rfl, rfl,
          by simp only [TrackHeap.leaveProcess, hlisted, if_true]⟩
  obtain ⟨h₁, hkeeps, hlive, hstep⟩ := hlist
  rw [hstep]
  split
  · exact hkeeps.trans ((keeps_clearInitial _ p x).trans (keeps_dereference _ o x) rfl) hlive
  · exact hkeeps

theorem keeps_unlinkThreads (p : κ) (n : Nat) (h : TrackHeap κ) (x : Option κ) :
    Keeps h (TrackHeap.unlinkThreads p n h) x ∧ (TrackHeap.unlinkThreads p n h).live = h.live := by
  induction n generalizing h with
  | zero => exact ⟨Keeps.refl h x, rfl⟩
  | succ n ih =>
      unfold TrackHeap.unlinkThreads
      split
      · exact ⟨Keeps.refl h x, rfl⟩
      · next thread rest hlist =>
          obtain ⟨hkeeps, hlive⟩ := ih _
          refine ⟨Keeps.trans ?_ hkeeps rfl, hlive⟩
          exact (((keeps_removeThread h p thread x).trans (keeps_unlinked _ _ x) rfl).trans
            (keeps_dereference _ thread x) rfl)

theorem keeps_unlink (h : TrackHeap κ) (p : κ) (x : Option κ) :
    Keeps h (h.kphpUnlinkProcessContextThreadContexts p) x := by
  obtain ⟨hkeeps, hlive⟩ := keeps_unlinkThreads p (h.threadList p).length h x
  unfold TrackHeap.kphpUnlinkProcessContextThreadContexts
  simp only
  split
  · next thread hinitial =>
      exact hkeeps.trans ((keeps_dereference _ thread x).trans (keeps_clearInitial _ p x) rfl) hlive
  · exact hkeeps

end

end SystemInformer.Driver
