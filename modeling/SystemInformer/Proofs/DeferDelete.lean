import SystemInformer.PhLib.DeferDelete
import SystemInformer.Lib.Census
import SystemInformer.Lib.Runs

/-!
# Deferred deletion frees every object once

An object without references is in one place: with the thread that is deferring it, on the
list, or with the worker that has flushed it. Its header is written by whoever has it, so what
was saved of it stays until it is restored. While it is on a list the link stands where the
type index and the flags were; they are restored after the link has been read.

A list that is not empty needs a work item that has not flushed yet, or a thread that is
about to queue one. A thread that found the list empty queues one. A thread that did not
relies on the item that was there then, and if that item has flushed before the thread
pushes its object, nothing is left that would free it.
-/

set_option linter.unusedSectionVars false

namespace SystemInformer.PhLib

def ListFrom (header : ULongPtr → ObjectHeader) : ULongPtr → List ULongPtr → Prop
  | entry, [] => entry = 0
  | entry, a :: l => entry = a ∧ a ≠ 0 ∧ ListFrom header (header a).link l

theorem ListFrom.congr {header header' : ULongPtr → ObjectHeader} {entry : ULongPtr}
    {l : List ULongPtr} (h : ListFrom header entry l)
    (hsame : ∀ a ∈ l, (header' a).link = (header a).link) : ListFrom header' entry l := by
  induction l generalizing entry with
  | nil => exact h
  | cons a l ih =>
      obtain ⟨hentry, hne, hrest⟩ := h
      refine ⟨hentry, hne, ?_⟩
      rw [hsame a List.mem_cons_self]
      exact ih hrest fun b hb => hsame b (List.mem_cons_of_mem _ hb)

theorem ListFrom.eq_nil {header : ULongPtr → ObjectHeader} {l : List ULongPtr}
    (h : ListFrom header 0 l) : l = [] := by
  cases l with
  | nil => rfl
  | cons a l => exact absurd h.1.symm h.2.1

theorem ListFrom.exists_cons {header : ULongPtr → ObjectHeader} {entry : ULongPtr}
    {l : List ULongPtr} (h : ListFrom header entry l) (hne : entry ≠ 0) :
    ∃ rest, l = entry :: rest ∧ ListFrom header (header entry).link rest := by
  cases l with
  | nil => exact absurd h hne
  | cons a l =>
      obtain ⟨rfl, -, hrest⟩ := h
      exact ⟨l, rfl, hrest⟩

/-! ## The header -/

namespace ObjectHeader

def saved (h : ObjectHeader) : ObjectKind := ⟨h.savedTypeIndex, h.savedFlags⟩

theorem savedTypeIndex_setSavedTypeIndex (h : ObjectHeader) (x : BitVec 16) :
    (h.setSavedTypeIndex x).savedTypeIndex = x := BitField.get_put (by decide) x _

theorem savedFlags_setSavedFlags (h : ObjectHeader) (x : BitVec 8) :
    (h.setSavedFlags x).savedFlags = x := BitField.get_put (by decide) x _

theorem savedTypeIndex_setSavedFlags (h : ObjectHeader) (x : BitVec 8) :
    (h.setSavedFlags x).savedTypeIndex = h.savedTypeIndex :=
  BitField.get_put_of_disjoint (by decide) x _ (.inl (by decide))

theorem typeIndex_setTypeIndex (h : ObjectHeader) (x : BitVec 16) :
    (h.setTypeIndex x).typeIndex = x := BitField.get_put (by decide) x _

theorem flags_setFlags (h : ObjectHeader) (x : BitVec 8) : (h.setFlags x).flags = x :=
  BitField.get_put (by decide) x _

theorem typeIndex_setFlags (h : ObjectHeader) (x : BitVec 8) :
    (h.setFlags x).typeIndex = h.typeIndex :=
  BitField.get_put_of_disjoint (by decide) x _ (.inl (by decide))

theorem flags_setTypeIndex (h : ObjectHeader) (x : BitVec 16) :
    (h.setTypeIndex x).flags = h.flags :=
  BitField.get_put_of_disjoint (by decide) x _ (.inr (by decide))

end ObjectHeader

/-- The object that a thread is about to defer, or to free. -/
def DeferPc.object : DeferPc → Option ULongPtr
  | .markDeferDelete object => some object
  | .saveTypeIndex object => some object
  | .saveFlags object => some object
  | .firstEntry object => some object
  | .push object _ => some object
  | .restoreTypeIndex object _ => some object
  | .restoreFlags object _ => some object
  | .free object _ => some object
  | _ => none

/-- The list that a thread has flushed and not freed yet. -/
def DeferPc.Walks (header : ULongPtr → ObjectHeader) (l : List ULongPtr) : DeferPc → Prop
  | .walk listEntry => ListFrom header listEntry l
  | .restoreTypeIndex _ listEntry => ListFrom header listEntry l
  | .restoreFlags _ listEntry => ListFrom header listEntry l
  | .free _ listEntry => ListFrom header listEntry l
  | _ => l = []

/-- What is in the header of the object that a thread works on; `kind` is what it was
created with. -/
def DeferPc.Place (header : ObjectHeader) (kind : Option ObjectKind) : DeferPc → Prop
  | .markDeferDelete _ => kind = some header.kind
  | .saveTypeIndex _ => kind = some header.kind
  | .saveFlags _ => kind = some header.kind ∧ header.savedTypeIndex = header.typeIndex
  | .firstEntry _ => kind = some header.saved
  | .push _ _ => kind = some header.saved
  | .restoreTypeIndex _ _ => kind = some header.saved
  | .restoreFlags _ _ => kind = some header.saved ∧ header.typeIndex = header.savedTypeIndex
  | .free _ _ => kind = some header.kind
  | _ => True

section

variable {τ : Type} [Fintype τ] [DecidableEq τ]

def DeferState.kindAt (s : DeferState τ) (a : ULongPtr) : Option ObjectKind :=
  (s.id a).bind fun i => s.created[i]?

/-- How often an address is among what a thread has. -/
def holds (a : ULongPtr) (x : DeferPc × List ULongPtr) : Nat :=
  x.2.count a + if x.1.object = some a then 1 else 0

theorem count_le_holds (a : ULongPtr) (pc : DeferPc) (l : List ULongPtr) :
    l.count a ≤ holds a (pc, l) := Nat.le_add_right ..

/-- The list is `l`, and `w` is what each thread has flushed. -/
structure DeferInv (s : DeferState τ) (l : List ULongPtr) (w : τ → List ULongPtr) : Prop where
  chain : ListFrom s.header s.listHead l
  walks : ∀ t, (s.pc t).Walks s.header (w t)
  places : ∀ a, l.count a + Census.total (holds a) (fun t => (s.pc t, w t)) =
    if (s.id a).isSome ∧ s.owned a = 0 then 1 else 0
  null : s.id 0 = none
  valid : ∀ a i, s.id a = some i → i < s.created.length
  distinct : ∀ a b i, s.id a = some i → s.id b = some i → a = b
  counted : ∀ a, 0 < s.owned a →
    (s.header a).refCount.toNat = s.owned a ∧ s.owned a < 2 ^ 31 ∧
      s.kindAt a = some (s.header a).kind
  listed : ∀ a ∈ l, s.kindAt a = some (s.header a).saved
  walked : ∀ t, ∀ a ∈ w t, s.kindAt a = some (s.header a).saved
  place : ∀ t a, (s.pc t).object = some a → (s.pc t).Place (s.header a) (s.kindAt a)
  freed : ∀ x ∈ s.freed, s.created[x.1]? = some x.2 ∧ ∀ a, s.id a ≠ some x.1
  once : (s.freed.map Prod.fst).Nodup

variable {s : DeferState τ} {l : List ULongPtr} {w : τ → List ULongPtr}

theorem DeferInv.places_le
    (h : DeferInv s l w) (a : ULongPtr) :
    l.count a + Census.total (holds a) (fun t => (s.pc t, w t)) ≤ 1 := by
  rw [h.places a]
  split <;> decide

variable {t : τ} {a : ULongPtr}

theorem DeferInv.alone
    (h : DeferInv s l w) (ht : (s.pc t).object = some a) :
    a ∉ l ∧ (∀ u, a ∉ w u) ∧ (∀ u, u ≠ t → (s.pc u).object ≠ some a) ∧
      (s.id a).isSome = true ∧ s.owned a = 0 := by
  have hle := h.places_le a
  have hown : holds a (s.pc t, w t) = (w t).count a + 1 := by rw [holds, if_pos ht]
  have htotal := Census.le_total (holds a) (fun t => (s.pc t, w t)) t
  have htotal' : (w t).count a + 1 ≤ Census.total (holds a) (fun t => (s.pc t, w t)) := hown ▸ htotal
  have hother : ∀ u, u ≠ t → holds a (s.pc u, w u) = 0 := by
    intro u hu
    have hsum := Census.add_le_total (holds a) (fun t => (s.pc t, w t)) hu
    have hsum' : (w t).count a + 1 + holds a (s.pc u, w u) ≤
        Census.total (holds a) (fun t => (s.pc t, w t)) := hown ▸ hsum
    omega
  refine ⟨List.count_eq_zero.mp (by omega), fun u => ?_, fun u hu hobject => ?_, ?_⟩
  · by_cases hu : u = t
    · rw [hu]
      exact List.count_eq_zero.mp (by omega)
    · have hle := count_le_holds a (s.pc u) (w u)
      rw [hother u hu] at hle
      exact List.count_eq_zero.mp (Nat.le_zero.mp hle)
  · have hzero := hother u hu
    rw [holds, if_pos hobject] at hzero
    omega
  · have hplaces := h.places a
    split at hplaces
    · next hcond => exact hcond
    · omega

theorem not_mem_of_places
    (h : DeferInv s l w) (ha : ¬((s.id a).isSome ∧ s.owned a = 0)) :
    a ∉ l ∧ (∀ u, a ∉ w u) ∧ ∀ u, (s.pc u).object ≠ some a := by
  have hplaces := h.places a
  rw [if_neg ha] at hplaces
  have htotal : Census.total (holds a) (fun u => (s.pc u, w u)) = 0 := by omega
  have hzero : ∀ u, holds a (s.pc u, w u) = 0 := Census.eq_zero_of_total htotal
  refine ⟨List.count_eq_zero.mp (by omega), fun u => ?_, fun u hobject => ?_⟩
  · have hle := count_le_holds a (s.pc u) (w u)
    rw [hzero u] at hle
    exact List.count_eq_zero.mp (Nat.le_zero.mp hle)
  · have hu := hzero u
    rw [holds, if_pos hobject] at hu
    omega

theorem DeferPc.Walks.congr {header header' : ULongPtr → ObjectHeader}
    {pc : DeferPc} (h : pc.Walks header l) (hsame : ∀ a ∈ l, (header' a).link = (header a).link) :
    pc.Walks header' l := by
  cases pc with
  | walk listEntry => exact ListFrom.congr h hsame
  | restoreTypeIndex object listEntry => exact ListFrom.congr h hsame
  | restoreFlags object listEntry => exact ListFrom.congr h hsame
  | free object listEntry => exact ListFrom.congr h hsame
  | _ => exact h

theorem holds_update (s : DeferState τ) (w : τ → List ULongPtr) (t : τ) (pc : DeferPc)
    (l : List ULongPtr) (a : ULongPtr) :
    Census.total (holds a) (fun u => (Function.update s.pc t pc u, Function.update w t l u)) +
        holds a (s.pc t, w t) =
      Census.total (holds a) (fun u => (s.pc u, w u)) + holds a (pc, l) := by
  have hpair : (fun u => (Function.update s.pc t pc u, Function.update w t l u)) =
      Function.update (fun u => (s.pc u, w u)) t (pc, l) := by
    funext u
    by_cases hu : u = t
    · subst hu
      rw [Function.update_self, Function.update_self, Function.update_self]
    · rw [Function.update_of_ne hu, Function.update_of_ne hu, Function.update_of_ne hu]
  rw [hpair]
  exact Census.total_update (holds a) (fun u => (s.pc u, w u)) t (pc, l)

/-- A thread goes on; it writes no header but that of its object, and what it has more is
less on the list. -/
theorem DeferInv.move {s s' : DeferState τ} {l l' : List ULongPtr}
    {pc : DeferPc} {lt : List ULongPtr} (h : DeferInv s l w)
    (hpc : s'.pc = Function.update s.pc t pc) (hid : s'.id = s.id) (howned : s'.owned = s.owned)
    (hcreated : s'.created = s.created) (hfreed : s'.freed = s.freed)
    (hheader : ∀ b, (s.pc t).object ≠ some b → s'.header b = s.header b)
    (hchain : ListFrom s'.header s'.listHead l') (hwalks : pc.Walks s'.header lt)
    (hplaces : ∀ b, l'.count b + holds b (pc, lt) = l.count b + holds b (s.pc t, w t))
    (hlisted : ∀ b ∈ l', s.kindAt b = some (s'.header b).saved)
    (hwalked : ∀ b ∈ lt, s.kindAt b = some (s'.header b).saved)
    (hplace : ∀ b, pc.object = some b → pc.Place (s'.header b) (s.kindAt b)) :
    DeferInv s' l' (Function.update w t lt) := by
  have hkind : s'.kindAt = s.kindAt := by
    funext b
    rw [DeferState.kindAt, DeferState.kindAt, hid, hcreated]
  have hown : ∀ b, (s.pc t).object = some b → (∀ u, b ∉ w u) ∧
      (∀ u, u ≠ t → (s.pc u).object ≠ some b) ∧ s.owned b = 0 := by
    intro b hb
    obtain ⟨-, hwalk, hother, -, hzero⟩ := h.alone hb
    exact ⟨hwalk, hother, hzero⟩
  refine ⟨hchain, fun u => ?_, fun b => ?_, hid ▸ h.null, ?_, hid ▸ h.distinct, fun b hb => ?_,
    fun b hb => ?_, fun u b hb => ?_, fun u b hb => ?_, ?_, hfreed ▸ h.once⟩
  · rw [hpc]
    by_cases hu : u = t
    · rw [hu, Function.update_self, Function.update_self]
      exact hwalks
    · rw [Function.update_of_ne hu, Function.update_of_ne hu]
      refine (h.walks u).congr fun b hb => ?_
      rw [hheader b fun hobject => (hown b hobject).1 u hb]
  · have hupdate := holds_update s w t pc lt b
    have hb := hplaces b
    have hold := h.places b
    rw [hpc, hid, howned]
    omega
  · rw [hid, hcreated]
    exact h.valid
  · rw [howned] at hb ⊢
    rw [hkind, hheader b fun hobject => absurd (hown b hobject).2.2 (Nat.pos_iff_ne_zero.mp hb)]
    exact h.counted b hb
  · rw [hkind]
    exact hlisted b hb
  · rw [hkind]
    by_cases hu : u = t
    · rw [hu, Function.update_self] at hb
      exact hwalked b hb
    · rw [Function.update_of_ne hu] at hb
      rw [hheader b fun hobject => (hown b hobject).1 u hb]
      exact h.walked u b hb
  · rw [hkind]
    rw [hpc] at hb ⊢
    by_cases hu : u = t
    · rw [hu, Function.update_self] at hb ⊢
      exact hplace b hb
    · rw [Function.update_of_ne hu] at hb ⊢
      rw [hheader b fun hobject => (hown b hobject).2.1 u hu hb]
      exact h.place u b hb
  · rw [hfreed, hcreated, hid]
    exact h.freed

theorem DeferInv.write {header : ObjectHeader} {pc old : DeferPc} (h : DeferInv s l w)
    (hold : s.pc t = old) (ht : old.object = some a) (hobject : pc.object = some a)
    (hwalks : old.Walks s.header (w t) → pc.Walks s.header (w t))
    (hplace : old.Place (s.header a) (s.kindAt a) → pc.Place header (s.kindAt a)) :
    DeferInv ((s.setHeader a header).goto t pc) l w := by
  subst hold
  obtain ⟨hlist, hwalk, -, -, -⟩ := h.alone ht
  have hsame : ∀ b, b ≠ a → ((s.setHeader a header).goto t pc).header b = s.header b :=
    fun b hb => Function.update_of_ne hb ..
  have hheader : ((s.setHeader a header).goto t pc).header a = header := Function.update_self ..
  rw [← Function.update_eq_self t w]
  refine h.move rfl rfl rfl rfl rfl (fun b hb => hsame b ?_) (h.chain.congr fun b hb => ?_)
    ((hwalks (h.walks t)).congr fun b hb => ?_) (fun b => ?_) (fun b hb => ?_) (fun b hb => ?_)
    fun b hb => ?_
  · rintro rfl
    exact hb ht
  · rw [hsame b (ne_of_mem_of_not_mem hb hlist)]
  · rw [hsame b (ne_of_mem_of_not_mem hb (hwalk t))]
  · rw [holds, holds, hobject, ht]
  · rw [hsame b (ne_of_mem_of_not_mem hb hlist)]
    exact h.listed b hb
  · rw [hsame b (ne_of_mem_of_not_mem hb (hwalk t))]
    exact h.walked t b hb
  · obtain rfl : b = a := Option.some.inj (hb.symm.trans hobject)
    rw [hheader]
    exact hplace (h.place t b ht)

theorem DeferInv.goto
    {pc old : DeferPc} {queued : Nat} (h : DeferInv s l w) (hold : s.pc t = old)
    (hobject : pc.object = old.object) (hwalks : old.Walks s.header (w t) → pc.Walks s.header (w t))
    (hplace : ∀ a, old.Place (s.header a) (s.kindAt a) → pc.Place (s.header a) (s.kindAt a)) :
    DeferInv ({ s with queued := queued }.goto t pc) l w := by
  subst hold
  rw [← Function.update_eq_self t w]
  refine h.move rfl rfl rfl rfl rfl (fun _ _ => rfl) h.chain (hwalks (h.walks t)) (fun b => ?_)
    h.listed (h.walked t) fun b hb => ?_
  · rw [holds, holds, hobject]
  · exact hplace b (h.place t b (hobject ▸ hb))

/-! ## The steps of `PhpDeferDeleteObject` -/

theorem DeferInv.saveTypeIndex (h : DeferInv s l w) (hpc : s.pc t = .saveTypeIndex a) :
    DeferInv ((s.setHeader a ((s.header a).setSavedTypeIndex (s.header a).typeIndex)).goto t
      (.saveFlags a)) l w := by
  refine h.write hpc rfl rfl id fun hkind => ⟨hkind, ?_⟩
  exact ObjectHeader.savedTypeIndex_setSavedTypeIndex ..

theorem DeferInv.saveFlags (h : DeferInv s l w) (hpc : s.pc t = .saveFlags a) :
    DeferInv ((s.setHeader a ((s.header a).setSavedFlags (s.header a).flags)).goto t
      (.firstEntry a)) l w := by
  refine h.write hpc rfl rfl id fun hplace => ?_
  obtain ⟨hkind, hsaved⟩ := hplace
  show s.kindAt a = some ⟨_, _⟩
  rw [hkind, ObjectHeader.savedTypeIndex_setSavedFlags, ObjectHeader.savedFlags_setSavedFlags, hsaved]
  rfl

theorem DeferInv.push {a oldFirstEntry : ULongPtr} {pc : DeferPc} (h : DeferInv s l w)
    (hpc : s.pc t = .push a oldFirstEntry) (hobject : pc.object = none)
    (hwalks : ∀ header, pc.Walks header []) :
    DeferInv ({ s.setHeader a { s.header a with link := s.listHead } with listHead := a }.goto t pc)
      (a :: l) w := by
  obtain ⟨hlist, hwalk, -, hsome, -⟩ := h.alone (t := t) (a := a) (by rw [hpc]; rfl)
  have hne : a ≠ 0 := by
    rintro rfl
    rw [h.null] at hsome
    cases hsome
  have hempty : w t = [] := by
    have hold := h.walks t
    rw [hpc] at hold
    exact hold
  have hsame : ∀ b, b ≠ a →
      ({ s.setHeader a { s.header a with link := s.listHead } with listHead := a }.goto t pc).header
        b = s.header b := fun b hb => Function.update_of_ne hb ..
  have hheader :
      ({ s.setHeader a { s.header a with link := s.listHead } with listHead := a }.goto t pc).header
        a = { s.header a with link := s.listHead } := Function.update_self ..
  rw [← Function.update_eq_self t w]
  refine h.move rfl rfl rfl rfl rfl (fun b hb => hsame b ?_) ⟨rfl, hne, ?_⟩ ?_ (fun b => ?_)
    (fun b hb => ?_) (fun b hb => ?_) fun b hb => ?_
  · rintro rfl
    rw [hpc] at hb
    exact hb rfl
  · rw [hheader]
    exact h.chain.congr fun b hb => by rw [hsame b (ne_of_mem_of_not_mem hb hlist)]
  · rw [hempty]
    exact hwalks _
  · rw [hpc, holds, holds, hobject, List.count_cons]
    by_cases hb : a = b
    · subst hb
      simp [DeferPc.object]
      omega
    · simp [DeferPc.object, hb]
  · rcases List.mem_cons.mp hb with rfl | hb
    · rw [hheader]
      have hplace := h.place t b (by rw [hpc]; rfl)
      rw [hpc] at hplace
      exact hplace
    · rw [hsame b (ne_of_mem_of_not_mem hb hlist)]
      exact h.listed b hb
  · rw [hempty] at hb
    cases hb
  · rw [hobject] at hb
    cases hb

/-! ## The steps of `PhpDeferDeleteObjectRoutine` -/

theorem DeferInv.flush (h : DeferInv s l w) (hpc : s.pc t = .flush) :
    DeferInv ({ s with listHead := 0 }.goto t (.walk s.listHead)) [] (Function.update w t l) := by
  have hempty : w t = [] := by
    have hold := h.walks t
    rw [hpc] at hold
    exact hold
  refine h.move rfl rfl rfl rfl rfl (fun _ _ => rfl) rfl h.chain (fun b => ?_)
    (fun b hb => (by cases hb)) h.listed fun b hb => (by cases hb)
  rw [hpc, hempty, holds, holds]
  simp [DeferPc.object]

theorem DeferInv.walk (h : DeferInv s l w) (hpc : s.pc t = .walk a) (hne : a ≠ 0) :
    ∃ rest, DeferInv (s.goto t (.restoreTypeIndex a (s.header a).link)) l
      (Function.update w t rest) := by
  have hwalks := h.walks t
  rw [hpc] at hwalks
  obtain ⟨rest, hrest, hlinked⟩ := ListFrom.exists_cons hwalks hne
  have hwalked := h.walked t
  rw [hrest] at hwalked
  refine ⟨rest, h.move rfl rfl rfl rfl rfl (fun _ _ => rfl) h.chain hlinked (fun b => ?_) h.listed
    (fun b hb => hwalked b (List.mem_cons_of_mem _ hb)) fun b hb => ?_⟩
  · rw [hpc, hrest, holds, holds, List.count_cons]
    by_cases hb : a = b
    · simp [DeferPc.object, hb]
    · simp [DeferPc.object, hb]
  · cases hb
    exact hwalked a List.mem_cons_self

theorem DeferInv.restoreTypeIndex {a listEntry : ULongPtr} (h : DeferInv s l w)
    (hpc : s.pc t = .restoreTypeIndex a listEntry) :
    DeferInv ((s.setHeader a ((s.header a).setTypeIndex (s.header a).savedTypeIndex)).goto t
      (.restoreFlags a listEntry)) l w := by
  refine h.write hpc rfl rfl id fun hkind => ⟨hkind, ?_⟩
  exact ObjectHeader.typeIndex_setTypeIndex ..

theorem DeferInv.restoreFlags {a listEntry : ULongPtr} (h : DeferInv s l w)
    (hpc : s.pc t = .restoreFlags a listEntry) :
    DeferInv ((s.setHeader a ((s.header a).setFlags (s.header a).savedFlags)).goto t
      (.free a listEntry)) l w := by
  refine h.write hpc rfl rfl id fun hplace => ?_
  obtain ⟨hkind, htype⟩ := hplace
  show s.kindAt a = some ⟨_, _⟩
  rw [hkind, ObjectHeader.typeIndex_setFlags, ObjectHeader.flags_setFlags, htype]
  rfl

theorem DeferInv.freed_cons {i : Nat} {kind : ObjectKind} (h : DeferInv s l w) (hid : s.id a = some i)
    (hkind : s.created[i]? = some kind) :
    (∀ x ∈ (i, kind) :: s.freed, s.created[x.1]? = some x.2 ∧
      ∀ b, Function.update s.id a none b ≠ some x.1) ∧
      (((i, kind) :: s.freed).map Prod.fst).Nodup := by
  have hgone : ∀ x ∈ (i, kind) :: s.freed, ∀ b, Function.update s.id a none b ≠ some x.1 := by
    intro x hx b hb
    have hba : b ≠ a := by
      rintro rfl
      rw [Function.update_self] at hb
      cases hb
    rw [Function.update_of_ne hba] at hb
    rcases List.mem_cons.mp hx with rfl | hx
    · exact hba (h.distinct b a i hb hid)
    · exact (h.freed x hx).2 b hb
  refine ⟨fun x hx => ⟨?_, hgone x hx⟩, List.nodup_cons.mpr ⟨fun hmem => ?_, h.once⟩⟩
  · rcases List.mem_cons.mp hx with rfl | hx
    · exact hkind
    · exact (h.freed x hx).1
  · obtain ⟨x, hx, rfl⟩ := List.mem_map.mp hmem
    exact (h.freed x hx).2 a hid

theorem DeferState.kindAt_eq_some {kind : ObjectKind}
    (h : s.kindAt a = some kind) : ∃ i, s.id a = some i ∧ s.created[i]? = some kind :=
  Option.bind_eq_some_iff.mp h

theorem DeferState.phpFreeObject_eq {i : Nat}
    (hid : s.id a = some i) : s.phpFreeObject a =
      { s with id := Function.update s.id a none, freed := (i, (s.header a).kind) :: s.freed } := by
  rw [DeferState.phpFreeObject, hid]
  rfl

theorem DeferInv.elsewhere {s s' : DeferState τ} (h : DeferInv s l w) (hlistHead : s'.listHead = s.listHead)
    (hid : ∀ b, b ≠ a → s'.id b = s.id b) (howned : ∀ b, b ≠ a → s'.owned b = s.owned b)
    (hheader : ∀ b, b ≠ a → s'.header b = s.header b)
    (hkind : ∀ b, b ≠ a → s'.kindAt b = s.kindAt b) (hlist : a ∉ l) (hwalk : ∀ u, a ∉ w u)
    (hpcs : ∀ u, (s'.pc u = s.pc u ∧ (s.pc u).object ≠ some a) ∨
      ((∀ b, b ≠ a → (s'.pc u).object ≠ some b ∧ (s.pc u).object ≠ some b) ∧
        (s'.pc u).Walks s.header (w u)))
    (hplaces : Census.total (holds a) (fun u => (s'.pc u, w u)) =
      if (s'.id a).isSome ∧ s'.owned a = 0 then 1 else 0)
    (hplace : ∀ u, (s'.pc u).object = some a → (s'.pc u).Place (s'.header a) (s'.kindAt a))
    (hcounted : 0 < s'.owned a → (s'.header a).refCount.toNat = s'.owned a ∧ s'.owned a < 2 ^ 31 ∧
      s'.kindAt a = some (s'.header a).kind)
    (hnull : s'.id 0 = none) (hvalid : ∀ b i, s'.id b = some i → i < s'.created.length)
    (hdistinct : ∀ b c i, s'.id b = some i → s'.id c = some i → b = c)
    (hfreed : ∀ x ∈ s'.freed, s'.created[x.1]? = some x.2 ∧ ∀ b, s'.id b ≠ some x.1)
    (honce : (s'.freed.map Prod.fst).Nodup) : DeferInv s' l w := by
  have hlinks : ∀ m : List ULongPtr, a ∉ m → ∀ b ∈ m, (s'.header b).link = (s.header b).link := by
    intro m hm b hb
    rw [hheader b (ne_of_mem_of_not_mem hb hm)]
  refine ⟨?_, fun u => ?_, fun b => ?_, hnull, hvalid, hdistinct, fun b hb => ?_, fun b hb => ?_,
    fun u b hb => ?_, fun u b hb => ?_, hfreed, honce⟩
  · rw [hlistHead]
    exact h.chain.congr (hlinks l hlist)
  · rcases hpcs u with ⟨hsame, -⟩ | ⟨-, hwalks⟩
    · rw [hsame]
      exact (h.walks u).congr (hlinks _ (hwalk u))
    · exact hwalks.congr (hlinks _ (hwalk u))
  · by_cases hb : b = a
    · rw [hb, hplaces, List.count_eq_zero.mpr hlist, Nat.zero_add]
    · rw [hid b hb, howned b hb, ← h.places b]
      refine congrArg (l.count b + ·) (Finset.sum_congr rfl fun u _ => ?_)
      rcases hpcs u with ⟨hsame, -⟩ | ⟨hobjects, -⟩
      · show holds b (s'.pc u, w u) = holds b (s.pc u, w u)
        rw [hsame]
      · obtain ⟨hnew, hold⟩ := hobjects b hb
        show holds b (s'.pc u, w u) = holds b (s.pc u, w u)
        rw [holds, holds]
        exact congrArg _ ((if_neg hnew).trans (if_neg hold).symm)
  · by_cases hba : b = a
    · rw [hba] at hb ⊢
      exact hcounted hb
    · rw [howned b hba] at hb ⊢
      rw [hheader b hba, hkind b hba]
      exact h.counted b hb
  · have hba := ne_of_mem_of_not_mem hb hlist
    rw [hheader b hba, hkind b hba]
    exact h.listed b hb
  · have hba := ne_of_mem_of_not_mem hb (hwalk u)
    rw [hheader b hba, hkind b hba]
    exact h.walked u b hb
  · by_cases hba : b = a
    · rw [hba] at hb ⊢
      exact hplace u hb
    · rcases hpcs u with ⟨hsame, -⟩ | ⟨hobjects, -⟩
      · rw [hsame] at hb ⊢
        rw [hheader b hba, hkind b hba]
        exact h.place u b hb
      · exact absurd hb (hobjects b hba).1

theorem update_none_eq_some {id : ULongPtr → Option Nat} {a b : ULongPtr} {i : Nat}
    (h : Function.update id a none b = some i) : b ≠ a ∧ id b = some i := by
  have hne : b ≠ a := by
    rintro rfl
    rw [Function.update_self] at h
    cases h
  rw [Function.update_of_ne hne] at h
  exact ⟨hne, h⟩

theorem DeferInv.gone {s s' : DeferState τ} {i : Nat} {kind : ObjectKind} (h : DeferInv s l w) (hid : s.id a = some i)
    (hkind : s.created[i]? = some kind) (hids : s'.id = Function.update s.id a none)
    (hfreed : s'.freed = (i, kind) :: s.freed) (hcreated : s'.created = s.created)
    (hlistHead : s'.listHead = s.listHead) (howned : ∀ b, b ≠ a → s'.owned b = s.owned b)
    (hzero : s'.owned a = 0) (hheader : ∀ b, b ≠ a → s'.header b = s.header b) (hlist : a ∉ l)
    (hwalk : ∀ u, a ∉ w u)
    (hpcs : ∀ u, (s'.pc u = s.pc u ∧ (s.pc u).object ≠ some a) ∨
      ((∀ b, b ≠ a → (s'.pc u).object ≠ some b ∧ (s.pc u).object ≠ some b) ∧
        (s'.pc u).Walks s.header (w u)))
    (hnobody : ∀ u, (s'.pc u).object ≠ some a) : DeferInv s' l w := by
  obtain ⟨hfreed', honce⟩ := h.freed_cons hid hkind
  refine h.elsewhere hlistHead (fun b hb => ?_) howned hheader (fun b hb => ?_) hlist hwalk hpcs ?_
    (fun u hu => absurd hu (hnobody u)) (fun hpos => ?_) ?_ (fun b j hb => ?_) (fun b c j hb hc => ?_)
    ?_ ?_
  · rw [hids, Function.update_of_ne hb]
  · rw [DeferState.kindAt, DeferState.kindAt, hids, hcreated, Function.update_of_ne hb]
  · rw [hids, Function.update_self, if_neg fun hno => (by cases hno.1)]
    refine Census.total_eq_zero fun u => ?_
    rw [holds]
    exact Nat.add_eq_zero_iff.mpr ⟨List.count_eq_zero.mpr (hwalk u), if_neg (hnobody u)⟩
  · rw [hzero] at hpos
    exact absurd hpos (Nat.lt_irrefl 0)
  · rw [hids]
    by_cases hb : (0 : ULongPtr) = a
    · rw [← hb, Function.update_self]
    · rw [Function.update_of_ne hb]
      exact h.null
  · rw [hids] at hb
    rw [hcreated]
    exact h.valid b j (update_none_eq_some hb).2
  · rw [hids] at hb hc
    exact h.distinct b c j (update_none_eq_some hb).2 (update_none_eq_some hc).2
  · rw [hfreed, hcreated, hids]
    exact hfreed'
  · rw [hfreed]
    exact honce

theorem DeferInv.free {a listEntry : ULongPtr} (h : DeferInv s l w) (hpc : s.pc t = .free a listEntry) :
    DeferInv ((s.phpFreeObject a).goto t (.walk listEntry)) l w := by
  have hobject : (s.pc t).object = some a := by rw [hpc]; rfl
  obtain ⟨hlist, hwalk, hother, -, hzero⟩ := h.alone hobject
  have hplace := h.place t a hobject
  have hwalks := h.walks t
  rw [hpc] at hplace hwalks
  obtain ⟨i, hid, hkind⟩ := DeferState.kindAt_eq_some hplace
  rw [DeferState.phpFreeObject_eq hid]
  have hself : Function.update s.pc t (.walk listEntry) t = .walk listEntry := Function.update_self ..
  have hsame : ∀ u, u ≠ t → Function.update s.pc t (.walk listEntry) u = s.pc u :=
    fun u hu => Function.update_of_ne hu ..
  refine h.gone hid hkind rfl rfl rfl rfl (fun _ _ => rfl) hzero (fun _ _ => rfl) hlist hwalk
    (fun u => ?_) fun u => ?_
  · show (Function.update s.pc t _ u = _ ∧ _) ∨ (∀ b, b ≠ a →
      (Function.update s.pc t _ u).object ≠ some b ∧ _) ∧
        (Function.update s.pc t _ u).Walks s.header (w u)
    by_cases hu : u = t
    · subst hu
      rw [hself, hobject]
      exact .inr ⟨fun b hb => ⟨fun hno => (by cases hno), fun hno => hb (Option.some.inj hno).symm⟩,
        hwalks⟩
    · exact .inl ⟨hsame u hu, hother u hu⟩
  · show (Function.update s.pc t _ u).object ≠ some a
    by_cases hu : u = t
    · subst hu
      rw [hself]
      exact fun hno => (by cases hno)
    · rw [hsame u hu]
      exact hother u hu

/-! ## References -/

theorem DeferInv.recount {refCount : ULong} {owned : Nat} (h : DeferInv s l w) (hsome : 0 < s.owned a)
    (hcount : refCount.toNat = owned) (hpos : 0 < owned) (hroom : owned < 2 ^ 31) :
    DeferInv { s.setHeader a { s.header a with refCount := refCount } with
      owned := Function.update s.owned a owned } l w := by
  have hout : ¬((s.id a).isSome ∧ s.owned a = 0) := fun hno => by omega
  obtain ⟨hlist, hwalk, hnobody⟩ := not_mem_of_places h hout
  obtain ⟨-, -, hkind⟩ := h.counted a hsome
  have hself : Function.update s.owned a owned a = owned := Function.update_self ..
  have hheader : Function.update s.header a { s.header a with refCount := refCount } a =
      { s.header a with refCount := refCount } := Function.update_self ..
  refine h.elsewhere rfl (fun _ _ => rfl) (fun b hb => Function.update_of_ne hb ..)
    (fun b hb => Function.update_of_ne hb ..) (fun _ _ => rfl) hlist hwalk
    (fun u => .inl ⟨rfl, hnobody u⟩) ?_ (fun u hu => absurd hu (hnobody u)) (fun _ => ?_) h.null
    h.valid h.distinct h.freed h.once
  · have hnone : ¬((s.id a).isSome ∧ Function.update s.owned a owned a = 0) := fun hno => by
      rw [hself] at hno
      omega
    refine Eq.trans (Census.total_eq_zero fun u => ?_) (if_neg hnone).symm
    rw [holds]
    exact Nat.add_eq_zero_iff.mpr ⟨List.count_eq_zero.mpr (hwalk u), if_neg (hnobody u)⟩
  · show (Function.update s.header a _ a).refCount.toNat = Function.update s.owned a owned a ∧
      Function.update s.owned a owned a < _ ∧ s.kindAt a = some (Function.update s.header a _ a).kind
    rw [hself, hheader]
    exact ⟨hcount, hroom, hkind⟩

theorem DeferInv.reference {refCount : Nat} (h : DeferInv s l w) (hsome : 0 < s.owned a)
    (hroom : s.owned a + refCount < 2 ^ 31) : DeferInv (s.phReferenceObjectEx a refCount) l w := by
  obtain ⟨hcount, hlt, -⟩ := h.counted a hsome
  refine h.recount hsome ?_ (by omega) hroom
  rw [BitVec.toNat_add, BitVec.toNat_ofNat, hcount]
  omega

theorem toNat_removed {refCount : ULong} {owned removed : Nat} (hcount : refCount.toNat = owned)
    (hroom : owned < 2 ^ 31) (hle : removed ≤ owned) :
    (refCount - BitVec.ofNat 32 removed).toNat = owned - removed := by
  rw [BitVec.toNat_sub, BitVec.toNat_ofNat, hcount]
  omega

theorem DeferInv.deferred {refCount : ULong} {owned : Nat} (h : DeferInv s l w)
    (hidle : s.pc t = .idle) (hsome : 0 < s.owned a) (hzero : owned = 0) :
    DeferInv ({ s.setHeader a { s.header a with refCount := refCount } with
      owned := Function.update s.owned a owned }.goto t (.markDeferDelete a)) l w := by
  have hout : ¬((s.id a).isSome ∧ s.owned a = 0) := fun hno => by omega
  obtain ⟨hlist, hwalk, hnobody⟩ := not_mem_of_places h hout
  obtain ⟨-, -, hkind⟩ := h.counted a hsome
  have hheader : Function.update s.header a { s.header a with refCount := refCount } a =
      { s.header a with refCount := refCount } := Function.update_self ..
  have hself : Function.update s.pc t (.markDeferDelete a) t = .markDeferDelete a :=
    Function.update_self ..
  have hsame : ∀ u, u ≠ t → Function.update s.pc t (.markDeferDelete a) u = s.pc u :=
    fun u hu => Function.update_of_ne hu ..
  have hempty := h.walks t
  rw [hidle] at hempty
  refine h.elsewhere rfl (fun _ _ => rfl) (fun b hb => Function.update_of_ne hb ..)
    (fun b hb => Function.update_of_ne hb ..) (fun _ _ => rfl) hlist hwalk (fun u => ?_) ?_
    (fun u hu => ?_) (fun hpos => ?_) h.null h.valid h.distinct h.freed h.once
  · show (Function.update s.pc t _ u = _ ∧ _) ∨ (∀ b, b ≠ a →
      (Function.update s.pc t _ u).object ≠ some b ∧ _) ∧
        (Function.update s.pc t _ u).Walks s.header (w u)
    by_cases hu : u = t
    · subst hu
      rw [hself, hidle]
      exact .inr ⟨fun b hb => ⟨fun hno => hb (Option.some.inj hno).symm, fun hno => (by cases hno)⟩,
        hempty⟩
    · exact .inl ⟨hsame u hu, hnobody u⟩
  · have hupdate := holds_update s w t (.markDeferDelete a) (w t) a
    rw [Function.update_eq_self, hidle, holds, holds, hempty] at hupdate
    have hplaces := h.places a
    rw [if_neg hout] at hplaces
    have hone : (s.id a).isSome ∧ Function.update s.owned a owned a = 0 := by
      obtain ⟨i, hid, -⟩ := DeferState.kindAt_eq_some hkind
      rw [hid, Function.update_self]
      exact ⟨rfl, hzero⟩
    refine Eq.trans ?_ (if_pos hone).symm
    simp only [DeferPc.object, List.count_nil] at hupdate
    show Census.total (holds a) (fun u => (Function.update s.pc t (.markDeferDelete a) u, w u)) = 1
    simp at hupdate
    omega
  · obtain rfl : u = t := by
      by_contra hut
      exact hnobody u (hsame u hut ▸ hu)
    show (Function.update s.pc u (.markDeferDelete a) u).Place (Function.update s.header a _ a) _
    rw [hself, hheader]
    exact hkind
  · have hpos' : 0 < Function.update s.owned a owned a := hpos
    rw [Function.update_self] at hpos'
    omega

theorem DeferInv.dereference {refCount : Nat} {deferDelete : Bool} (h : DeferInv s l w)
    (hidle : s.pc t = .idle) (hsome : 0 < s.owned a) (hle : refCount ≤ s.owned a) :
    DeferInv (s.phDereferenceObjectEx t a refCount deferDelete) l w := by
  obtain ⟨hcount, hlt, hkind⟩ := h.counted a hsome
  have hremoved := toNat_removed hcount hlt hle
  obtain ⟨i, hid, hcreated⟩ := DeferState.kindAt_eq_some hkind
  have hout : ¬((s.id a).isSome ∧ s.owned a = 0) := fun hno => by omega
  obtain ⟨hlist, hwalk, hnobody⟩ := not_mem_of_places h hout
  rw [DeferState.phDereferenceObjectEx]
  split
  · next hnew =>
      have hzero : s.owned a - refCount = 0 := by
        rw [← hremoved, hnew]
        rfl
      cases deferDelete with
      | true => exact h.deferred hidle hsome hzero
      | false =>
          rw [if_neg Bool.false_ne_true]
          refine h.gone hid hcreated rfl ?_ rfl rfl
            (fun b hb => Function.update_of_ne hb ..) ?_ (fun b hb => Function.update_of_ne hb ..)
            hlist hwalk (fun u => .inl ⟨rfl, hnobody u⟩) hnobody
          · show (s.id a).elim s.freed (fun i => (i, (Function.update s.header a _ a).kind) :: s.freed) = _
            rw [hid, Function.update_self]
            rfl
          · show Function.update s.owned a _ a = 0
            rw [Function.update_self, hzero]
  · next hnew =>
      have hpos : s.owned a - refCount ≠ 0 := fun hzero => by
        refine hnew (BitVec.eq_of_toNat_eq ?_)
        rw [hremoved, hzero]
        rfl
      exact h.recount hsome hremoved (Nat.pos_of_ne_zero hpos) (by omega)

theorem DeferInv.create {kind : ObjectKind} (h : DeferInv s l w) (hnull : a ≠ 0)
    (hfree : s.id a = none) : DeferInv (s.phCreateObject a kind) l w := by
  have hout : ¬((s.id a).isSome ∧ s.owned a = 0) := fun hno => by
    rw [hfree] at hno
    cases hno.1
  obtain ⟨hlist, hwalk, hnobody⟩ := not_mem_of_places h hout
  have hself : (s.phCreateObject a kind).id a = some s.created.length := Function.update_self ..
  have hids : ∀ b, b ≠ a → (s.phCreateObject a kind).id b = s.id b :=
    fun b hb => Function.update_of_ne hb ..
  have howned : (s.phCreateObject a kind).owned a = 1 := Function.update_self ..
  have hheader : (s.phCreateObject a kind).header a =
      { ((s.header a).setFlags kind.flags).setTypeIndex kind.typeIndex with refCount := 1 } :=
    Function.update_self ..
  have hcreated : (s.phCreateObject a kind).created = s.created ++ [kind] := rfl
  have hkind : (s.phCreateObject a kind).kindAt a = some kind := by
    rw [DeferState.kindAt, hself, hcreated]
    exact List.getElem?_concat_length
  have hlater : ∀ b i, b ≠ a → s.id b = some i → i ≠ s.created.length :=
    fun b i _ hb => Nat.ne_of_lt (h.valid b i hb)
  refine h.elsewhere rfl hids (fun b hb => Function.update_of_ne hb ..)
    (fun b hb => Function.update_of_ne hb ..) (fun b hb => ?_) hlist hwalk
    (fun u => .inl ⟨rfl, hnobody u⟩) ?_ (fun u hu => absurd hu (hnobody u)) (fun _ => ?_) ?_
    (fun b i hb => ?_) (fun b c i hb hc => ?_) (fun x hx => ⟨?_, fun b hb => ?_⟩) h.once
  · rw [DeferState.kindAt, DeferState.kindAt, hids b hb, hcreated]
    cases hid : s.id b with
    | none => rfl
    | some i => exact List.getElem?_append_left (h.valid b i hid)
  · have hplaces := h.places a
    rw [if_neg hout] at hplaces
    rw [howned, if_neg fun hno => absurd hno.2 (by decide)]
    exact (Nat.add_eq_zero_iff.mp hplaces).2
  · rw [hheader, howned, hkind]
    refine ⟨rfl, by decide, congrArg some ?_⟩
    show kind = ⟨(ObjectHeader.setTypeIndex _ _).typeIndex, (ObjectHeader.setTypeIndex _ _).flags⟩
    rw [ObjectHeader.typeIndex_setTypeIndex, ObjectHeader.flags_setTypeIndex,
      ObjectHeader.flags_setFlags]
  · rw [hids 0 (Ne.symm hnull)]
    exact h.null
  · rw [hcreated, List.length_append]
    by_cases hba : b = a
    · rw [hba, hself] at hb
      cases hb
      exact Nat.lt_succ_self _
    · rw [hids b hba] at hb
      exact Nat.lt_succ_of_lt (h.valid b i hb)
  · by_cases hba : b = a
    · by_cases hca : c = a
      · rw [hba, hca]
      · rw [hba, hself] at hb
        rw [hids c hca] at hc
        exact absurd (Option.some.inj hb).symm (hlater c i hca hc)
    · by_cases hca : c = a
      · rw [hca, hself] at hc
        rw [hids b hba] at hb
        exact absurd (Option.some.inj hc).symm (hlater b i hba hb)
      · rw [hids b hba] at hb
        rw [hids c hca] at hc
        exact h.distinct b c i hb hc
  · obtain ⟨hold, -⟩ := h.freed x hx
    rw [hcreated]
    exact (List.getElem?_append_left (List.getElem?_eq_some_iff.mp hold).1).trans hold
  · obtain ⟨hold, hgone⟩ := h.freed x hx
    by_cases hba : b = a
    · rw [hba, hself] at hb
      have hlt := (List.getElem?_eq_some_iff.mp hold).1
      rw [← Option.some.inj hb] at hlt
      exact Nat.lt_irrefl _ hlt
    · rw [hids b hba] at hb
      exact hgone b hb

/-! ## Runs -/

theorem DeferInv.advance
    (h : DeferInv s l w) (t : τ) : ∃ l' w', DeferInv (s.advance t) l' w' := by
  cases hpc : s.pc t with
  | idle =>
      rw [DeferState.advance, hpc]
      exact ⟨l, w, h⟩
  | markDeferDelete object =>
      rw [DeferState.advance, hpc]
      exact ⟨l, w, h.write hpc rfl rfl id id⟩
  | saveTypeIndex object =>
      rw [DeferState.advance, hpc]
      exact ⟨l, w, h.saveTypeIndex hpc⟩
  | saveFlags object =>
      rw [DeferState.advance, hpc]
      exact ⟨l, w, h.saveFlags hpc⟩
  | firstEntry object =>
      rw [DeferState.advance, hpc]
      exact ⟨l, w, h.goto hpc rfl id fun _ => id⟩
  | push object oldFirstEntry =>
      rw [DeferState.advance, hpc]
      refine ⟨object :: l, w, h.push hpc ?_ fun header => ?_⟩
      · split <;> rfl
      · split <;> rfl
  | queueItem =>
      rw [DeferState.advance, hpc]
      exact ⟨l, w, h.goto hpc rfl id fun _ => id⟩
  | flush =>
      rw [DeferState.advance, hpc]
      exact ⟨_, _, h.flush hpc⟩
  | walk listEntry =>
      rw [DeferState.advance, hpc]
      show ∃ l' w', DeferInv (if listEntry = 0 then _ else _) l' w'
      by_cases hnull : listEntry = 0
      · rw [if_pos hnull]
        exact ⟨l, w, h.goto hpc rfl (fun hwalks => (hnull ▸ hwalks).eq_nil) fun _ _ => trivial⟩
      · rw [if_neg hnull]
        obtain ⟨rest, hrest⟩ := h.walk hpc hnull
        exact ⟨l, _, hrest⟩
  | restoreTypeIndex object listEntry =>
      rw [DeferState.advance, hpc]
      exact ⟨l, w, h.restoreTypeIndex hpc⟩
  | restoreFlags object listEntry =>
      rw [DeferState.advance, hpc]
      exact ⟨l, w, h.restoreFlags hpc⟩
  | free object listEntry =>
      rw [DeferState.advance, hpc]
      exact ⟨l, w, h.free hpc⟩

theorem DeferInv.step {allowed : DeferState τ → τ → Prop} {s s' : DeferState τ} (h : DeferInv s l w)
    (hstep : DeferStep allowed (· < 2 ^ 31) s s') : ∃ l' w', DeferInv s' l' w' := by
  cases hstep with
  | advance t => exact h.advance t
  | create object kind hnull hfree => exact ⟨l, w, h.create hnull hfree⟩
  | reference object refCount hsome hroom => exact ⟨l, w, h.reference hsome hroom⟩
  | dereference t object refCount deferDelete hidle hsome hle =>
      exact ⟨l, w, h.dereference hidle hsome hle⟩
  | run t hidle hqueued => exact ⟨l, w, h.goto hidle rfl id fun _ => id⟩

theorem deferInv_start (header : ULongPtr → ObjectHeader) :
    DeferInv (DeferState.start header : DeferState τ) [] fun _ => [] where
  chain := rfl
  walks _ := rfl
  places a := by
    rw [if_neg fun hno => (by cases hno.1)]
    exact (Nat.zero_add _).trans (Census.total_eq_zero fun _ => rfl)
  null := rfl
  valid _ _ hid := by cases hid
  distinct _ _ _ hid := by cases hid
  counted _ hpos := absurd hpos (Nat.lt_irrefl 0)
  listed _ hmem := by cases hmem
  walked _ _ hmem := by cases hmem
  place _ _ hobject := by cases hobject
  freed _ hmem := by cases hmem
  once := List.nodup_nil

/-! ## The work item -/

/-- The thread found the list empty and is about to queue the work item. -/
def DeferPc.Queues : DeferPc → Prop
  | .push _ oldFirstEntry => oldFirstEntry = 0
  | .queueItem => True
  | _ => False

/-- Inside `PhpDeferDeleteObject`. -/
def DeferPc.Defers : DeferPc → Prop
  | .markDeferDelete _ => True
  | .saveTypeIndex _ => True
  | .saveFlags _ => True
  | .firstEntry _ => True
  | .push _ _ => True
  | .queueItem => True
  | _ => False

/-- There will be a flush: a work item has not flushed yet, or a thread is about to queue one. -/
def DeferState.Pending (s : DeferState τ) : Prop :=
  0 < s.queued ∨ ∃ t, s.pc t = .flush ∨ (s.pc t).Queues

/-- A thread that read a list that was not empty pushes onto one that is not empty, or before
the work item that it relies on has flushed. -/
def DeferState.Sound (s : DeferState τ) (t : τ) : Prop :=
  ∀ object oldFirstEntry, s.pc t = .push object oldFirstEntry → oldFirstEntry ≠ 0 →
    s.listHead = 0 → s.Pending

theorem DeferState.Pending.goto {s s' : DeferState τ} {pc old : DeferPc} (h : s.Pending)
    (hold : s.pc t = old) (hqueued : s.queued ≤ s'.queued)
    (hpc : s'.pc = Function.update s.pc t pc) (hflush : old ≠ .flush)
    (hqueues : old.Queues → pc.Queues) : s'.Pending := by
  subst hold
  rcases h with hpos | ⟨u, hu⟩
  · exact .inl (Nat.lt_of_lt_of_le hpos hqueued)
  · refine .inr ⟨u, ?_⟩
    rw [hpc]
    by_cases hut : u = t
    · subst hut
      rw [Function.update_self]
      exact .inr (hqueues (hu.resolve_left hflush))
    · rw [Function.update_of_ne hut]
      exact hu

theorem DeferState.pending_advance (hsound : s.Sound t)
    (h : s.listHead ≠ 0 → s.Pending) : (s.advance t).listHead ≠ 0 → (s.advance t).Pending := by
  have hgo : ∀ {s' : DeferState τ} {pc old : DeferPc}, s.pc t = old → s'.listHead = s.listHead →
      s.queued ≤ s'.queued → s'.pc = Function.update s.pc t pc → old ≠ .flush →
      (old.Queues → pc.Queues) → s'.listHead ≠ 0 → s'.Pending := by
    intro s' pc old hold hlist hqueued hpc hflush hqueues hne
    exact (h (hlist ▸ hne)).goto hold hqueued hpc hflush hqueues
  cases hpc : s.pc t with
  | idle =>
      rw [DeferState.advance, hpc]
      exact h
  | markDeferDelete object =>
      rw [DeferState.advance, hpc]
      exact hgo hpc rfl (Nat.le_refl _) rfl (fun hno => nomatch hno) False.elim
  | saveTypeIndex object =>
      rw [DeferState.advance, hpc]
      exact hgo hpc rfl (Nat.le_refl _) rfl (fun hno => nomatch hno) False.elim
  | saveFlags object =>
      rw [DeferState.advance, hpc]
      exact hgo hpc rfl (Nat.le_refl _) rfl (fun hno => nomatch hno) False.elim
  | firstEntry object =>
      rw [DeferState.advance, hpc]
      exact hgo hpc rfl (Nat.le_refl _) rfl (fun hno => nomatch hno) False.elim
  | push object oldFirstEntry =>
      rw [DeferState.advance, hpc]
      intro _
      by_cases hnull : oldFirstEntry = 0
      · refine .inr ⟨t, .inr ?_⟩
        show DeferPc.Queues (Function.update s.pc t (if oldFirstEntry = 0 then _ else _) t)
        rw [Function.update_self, if_pos hnull]
        exact trivial
      · have hpending : s.Pending := by
          by_cases hempty : s.listHead = 0
          · exact hsound object oldFirstEntry hpc hnull hempty
          · exact h hempty
        exact hpending.goto hpc (Nat.le_refl _) rfl (fun hno => nomatch hno)
          fun hqueues => absurd hqueues hnull
  | queueItem =>
      rw [DeferState.advance, hpc]
      exact fun _ => .inl (Nat.succ_pos s.queued)
  | flush =>
      rw [DeferState.advance, hpc]
      exact fun hne => absurd rfl hne
  | walk listEntry =>
      rw [DeferState.advance, hpc]
      show (if listEntry = 0 then _ else _ : DeferState τ).listHead ≠ 0 →
        (if listEntry = 0 then _ else _ : DeferState τ).Pending
      split
      · exact hgo hpc rfl (Nat.le_refl _) rfl (fun hno => nomatch hno) False.elim
      · exact hgo hpc rfl (Nat.le_refl _) rfl (fun hno => nomatch hno) False.elim
  | restoreTypeIndex object listEntry =>
      rw [DeferState.advance, hpc]
      exact hgo hpc rfl (Nat.le_refl _) rfl (fun hno => nomatch hno) False.elim
  | restoreFlags object listEntry =>
      rw [DeferState.advance, hpc]
      exact hgo hpc rfl (Nat.le_refl _) rfl (fun hno => nomatch hno) False.elim
  | free object listEntry =>
      rw [DeferState.advance, hpc]
      exact hgo hpc rfl (Nat.le_refl _) rfl (fun hno => nomatch hno) False.elim

theorem DeferState.pending_dereference {refCount : Nat}
    {deferDelete : Bool} (hidle : s.pc t = .idle) (h : s.listHead ≠ 0 → s.Pending) :
    (s.phDereferenceObjectEx t a refCount deferDelete).listHead ≠ 0 →
      (s.phDereferenceObjectEx t a refCount deferDelete).Pending := by
  rw [DeferState.phDereferenceObjectEx]
  split
  · cases deferDelete with
    | true =>
        intro hne
        exact (h hne).goto hidle (Nat.le_refl _) rfl (fun hno => nomatch hno) False.elim
    | false => exact h
  · exact h

theorem DeferStep.pending {s s' : DeferState τ} {room : Nat → Prop}
    (hstep : DeferStep DeferState.Sound room s s') (h : s.listHead ≠ 0 → s.Pending) :
    s'.listHead ≠ 0 → s'.Pending := by
  cases hstep with
  | advance t hsound => exact DeferState.pending_advance hsound h
  | create object kind hnull hfree => exact h
  | reference object refCount hsome hroom => exact h
  | dereference t object refCount deferDelete hidle hsome hle =>
      exact DeferState.pending_dereference hidle h
  | run t hidle hqueued => exact fun _ => .inr ⟨t, .inl (Function.update_self ..)⟩

/-- In every run whose pushes come in time, an object is freed once, with what it was created
with, and a list that is not empty has a work item. -/
theorem phpDeferDeleteObject_neverLost {header : ULongPtr → ObjectHeader} {s : DeferState τ}
    (hrun : Relation.ReflTransGen (DeferStep DeferState.Sound (· < 2 ^ 31))
      (DeferState.start header) s) :
    (s.freed.map Prod.fst).Nodup ∧
      (∀ i kind, (i, kind) ∈ s.freed → s.created[i]? = some kind) ∧
      (s.listHead ≠ 0 → (∀ t, ¬(s.pc t).Defers) → 0 < s.queued ∨ ∃ t, s.pc t = .flush) := by
  have hinv : (∃ l w, DeferInv s l w) ∧ (s.listHead ≠ 0 → s.Pending) := by
    induction hrun with
    | refl => exact ⟨⟨_, _, deferInv_start header⟩, fun hne => absurd rfl hne⟩
    | tail _ hstep ih =>
        obtain ⟨⟨l, w, h⟩, hpending⟩ := ih
        exact ⟨h.step hstep, hstep.pending hpending⟩
  obtain ⟨⟨l, w, h⟩, hpending⟩ := hinv
  refine ⟨h.once, fun i kind hmem => (h.freed _ hmem).1, fun hne hnone => ?_⟩
  rcases hpending hne with hqueued | ⟨t, hflush | hqueues⟩
  · exact .inl hqueued
  · exact .inr ⟨t, hflush⟩
  · refine absurd ?_ (hnone t)
    cases hpc : s.pc t with
    | push object oldFirstEntry => exact trivial
    | queueItem => exact trivial
    | _ =>
        rw [hpc] at hqueues
        exact absurd hqueues id

end

/-! ## An object that is freed, and one that is lost -/

/-- The thread has read a list that was not empty. -/
def DeferPc.relies : DeferPc → Bool
  | .push _ oldFirstEntry => oldFirstEntry != 0
  | _ => false

theorem DeferState.sound_of_relies {s : DeferState (Fin 2)} {t : Fin 2}
    (h : (s.pc t).relies = false) : s.Sound t := by
  intro object oldFirstEntry hpc hne _
  rw [hpc] at h
  exact absurd (bne_eq_false_iff_eq.mp h) hne

def DeferState.goOn (s : DeferState (Fin 2)) (t : Fin 2) (n : Nat) : DeferState (Fin 2) :=
  (fun s => s.advance t)^[n] s

theorem DeferState.goOn_sound (s : DeferState (Fin 2)) (t : Fin 2) (n : Nat)
    (h : ∀ k < n, ((s.goOn t k).pc t).relies = false) :
    Relation.ReflTransGen (DeferStep DeferState.Sound (· < 2 ^ 31)) s (s.goOn t n) :=
  Runs.iterate_run_of fun k hk => .advance t (DeferState.sound_of_relies (h k hk))

theorem DeferState.goOn_run (s : DeferState (Fin 2)) (t : Fin 2) (n : Nat) :
    Relation.ReflTransGen (DeferStep (fun _ _ => True) (· < 2 ^ 31)) s (s.goOn t n) :=
  Runs.iterate_run (fun _ => .advance t trivial) n s

def DeferState.beginRun (s : DeferState (Fin 2)) (t : Fin 2) : DeferState (Fin 2) :=
  { s with queued := s.queued - 1 }.goto t .flush

/-- Two objects, each with one reference. -/
def twoObjects : DeferState (Fin 2) :=
  ((DeferState.start fun _ => ⟨0, 0⟩).phCreateObject 16 ⟨3, 1⟩).phCreateObject 32 ⟨5, 2⟩

theorem twoObjects_run (allowed : DeferState (Fin 2) → Fin 2 → Prop) :
    Relation.ReflTransGen (DeferStep allowed (· < 2 ^ 31)) (DeferState.start fun _ => ⟨0, 0⟩)
      twoObjects := by
  have hfirst : (DeferState.start (τ := Fin 2) fun _ => ⟨0, 0⟩).id 16 = none := rfl
  have hsecond : ((DeferState.start (τ := Fin 2) fun _ => ⟨0, 0⟩).phCreateObject 16 ⟨3, 1⟩).id 32 =
      none := by decide
  exact .tail (.tail .refl (.create 16 ⟨3, 1⟩ (by decide) hfirst))
    (.create 32 ⟨5, 2⟩ (by decide) hsecond)

section

local instance deferDeleteThreads : NeZero 2 := ⟨by decide⟩

/-- The first object waits on the list, and a work item is queued. -/
def firstDeferred : DeferState (Fin 2) := (twoObjects.phDereferenceObjectEx 0 16 1 true).goOn 0 6

def firstFreed : DeferState (Fin 2) := (firstDeferred.beginRun 0).goOn 0 7

/-- Another thread defers the second object, and has found the first on the list. -/
def secondDelayed : DeferState (Fin 2) :=
  (firstDeferred.phDereferenceObjectEx 1 32 1 true).goOn 1 4

/-- The work item runs to its end before that thread goes on. -/
def secondLost : DeferState (Fin 2) := ((secondDelayed.beginRun 0).goOn 0 7).goOn 1 1

end

theorem firstFreed_run : Relation.ReflTransGen (DeferStep DeferState.Sound (· < 2 ^ 31))
    (DeferState.start fun _ => ⟨0, 0⟩) firstFreed := by
  have hdereference : DeferStep DeferState.Sound (· < 2 ^ 31) twoObjects
      (twoObjects.phDereferenceObjectEx 0 16 1 true) :=
    .dereference 0 16 1 true rfl (by decide) (by decide)
  have hdefers := DeferState.goOn_sound (twoObjects.phDereferenceObjectEx 0 16 1 true) 0 6
    (by decide)
  have hrun : DeferStep DeferState.Sound (· < 2 ^ 31) firstDeferred (firstDeferred.beginRun 0) :=
    .run 0 (by decide) (by decide)
  have hfrees := DeferState.goOn_sound (firstDeferred.beginRun 0) 0 7 (by decide)
  exact (twoObjects_run _).trans (.head hdereference (hdefers.trans (.head hrun hfrees)))

theorem phpDeferDeleteObject_neverLost_freed : firstFreed.freed = [(0, ⟨3, 1⟩)] ∧
    (firstFreed.freed.map Prod.fst).Nodup ∧
      (∀ i kind, (i, kind) ∈ firstFreed.freed → firstFreed.created[i]? = some kind) ∧
      (firstFreed.listHead ≠ 0 → (∀ t, ¬(firstFreed.pc t).Defers) →
        0 < firstFreed.queued ∨ ∃ t, firstFreed.pc t = .flush) :=
  ⟨by decide, phpDeferDeleteObject_neverLost firstFreed_run⟩

theorem secondLost_run : Relation.ReflTransGen (DeferStep (fun _ _ => True) (· < 2 ^ 31))
    (DeferState.start fun _ => ⟨0, 0⟩) secondLost := by
  have hfirst : DeferStep (fun _ _ => True) (· < 2 ^ 31) twoObjects
      (twoObjects.phDereferenceObjectEx 0 16 1 true) :=
    .dereference 0 16 1 true rfl (by decide) (by decide)
  have hdeferred := (twoObjects_run _).trans (.head hfirst (DeferState.goOn_run _ 0 6))
  have hsecond : DeferStep (fun _ _ => True) (· < 2 ^ 31) firstDeferred
      (firstDeferred.phDereferenceObjectEx 1 32 1 true) :=
    .dereference 1 32 1 true (by decide) (by decide) (by decide)
  have hdelayed := hdeferred.trans (.head hsecond (DeferState.goOn_run _ 1 4))
  have hrun : DeferStep (fun _ _ => True) (· < 2 ^ 31) secondDelayed (secondDelayed.beginRun 0) :=
    .run 0 (by decide) (by decide)
  exact hdelayed.trans (.head hrun ((DeferState.goOn_run _ 0 7).trans (DeferState.goOn_run _ 1 1)))

/-- The second object stays on the list, and no work item is there to free it. -/
theorem phpDeferDeleteObject_loses : ∃ s : DeferState (Fin 2),
    Relation.ReflTransGen (DeferStep (fun _ _ => True) (· < 2 ^ 31))
      (DeferState.start fun _ => ⟨0, 0⟩) s ∧
      s.listHead ≠ 0 ∧ (∀ t, s.pc t = .idle) ∧ s.queued = 0 :=
  ⟨secondLost, secondLost_run, by decide, by decide, by decide⟩

end SystemInformer.PhLib
