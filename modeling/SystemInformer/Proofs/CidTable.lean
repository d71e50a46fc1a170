import SystemInformer.Proofs.CidTree

/-!
# The CID table under concurrency

Only the holder of the spin lock changes the table, and whatever it does, the tree grows:
what a lookup would have found before it would find after. A lookup without the lock that
has read a root, or a slot of it, is still on its way in the tree of any later time, so it
finds what the tree has or nothing.

When the holder puts a block into a slot, the slot is empty, because it has looked the id
up under the lock in vain. A block that it allocated is in the tree with the next store;
an allocation that fails leaves the tree as it is.
-/

set_option linter.unusedSectionVars false

namespace SystemInformer.Driver

def CidPc.locked : CidPc → Bool
  | .idle => false
  | .lookup locked => locked
  | .lookupL2 locked _ => locked
  | .lookupL1 locked _ _ _ => locked
  | .acquire => false
  | _ => true

/-- The block that the thread is about to put into the tree. -/
def CidPc.block : CidPc → Option ULongPtr
  | .linkRoot _ _ block => some block
  | .publishRoot _ block => some block
  | .storeL1 _ block => some block
  | .storeL0 _ _ _ block => some block
  | _ => none

theorem CidPc.locked_of_block {pc : CidPc} {block : ULongPtr} (h : pc.block = some block) :
    pc.locked = true := by
  cases pc with
  | linkRoot level table block => rfl
  | publishRoot level block => rfl
  | storeL1 tableL2 block => rfl
  | storeL0 tableL1 index offset block => rfl
  | _ => cases h

/-- The slot of a level one block where the level zero block of `id` is. -/
def CidMem.Place (m : CidMem) (id : Nat) (tableL1 : ULongPtr) (index offset : Nat) : Prop :=
  m.mid (id / 512 / 512) = some tableL1 ∧ index = id / 512 % 512 ∧ offset = id % 512

/-- The table has no entry for `id` yet. -/
def CidMem.Missing (m : CidMem) (id : Nat) : Prop := id < cidMax ∧ m.leaf (id / 512) = none

def CidPc.Looking (m : CidMem) (id : Nat) : CidPc → Prop
  | .lookupL2 _ tableL2 => id < cidMax ∧ m.level = cidTableL2 ∧ m.root = tableL2
  | .lookupL1 _ tableL1 index offset => id < cidMax ∧ m.Place id tableL1 index offset
  | .acquire => id < cidMax
  | _ => True

/-- What the place of the holder of the lock says of the tree. -/
def CidPc.Holding (m : CidMem) (id : Nat) : CidPc → Prop
  | .expand => m.Quiet ∧ m.Missing id
  | .allocateRoot level table =>
      m.Quiet ∧ m.Missing id ∧ table = m.table ∧ LevelAbove level m.level
  | .linkRoot level table block =>
      m.Quiet ∧ m.Missing id ∧ table = m.table ∧ LevelAbove level m.level ∧ m.Spare level block
  | .publishRoot level block => m.Missing id ∧ m.Linked level block
  | .levelTwo table => m.Quiet ∧ m.Missing id ∧ table = m.table ∧ m.level = cidTableL2
  | .allocateL1 tableL2 =>
      m.Quiet ∧ m.Missing id ∧ m.level = cidTableL2 ∧ tableL2 = m.root ∧
        m.slot tableL2 (id / cidMaxL1) = 0
  | .storeL1 tableL2 block =>
      m.Quiet ∧ m.Missing id ∧ m.level = cidTableL2 ∧ tableL2 = m.root ∧
        m.slot tableL2 (id / cidMaxL1) = 0 ∧ (block = 0 ∨ m.Spare cidTableL1 block)
  | .loadL1 tableL2 =>
      m.Quiet ∧ m.Missing id ∧ m.level = cidTableL2 ∧ tableL2 = m.root
  | .allocateL0 tableL1 index offset =>
      m.Quiet ∧ m.Missing id ∧ m.Place id tableL1 index offset
  | .storeL0 tableL1 index offset block =>
      m.Quiet ∧ m.Missing id ∧ m.Place id tableL1 index offset ∧
        (block = 0 ∨ m.Spare cidTableL0 block)
  | .loadL0 tableL1 index offset =>
      m.Quiet ∧ id < cidMax ∧ m.Place id tableL1 index offset
  | .release entry => m.Quiet ∧ ∀ e, entry = some e → m.resolve id = some e
  | _ => m.Quiet ∧ id < cidMax

/-- An entry that is known for the id is what a lookup without the lock will find. -/
def CidMem.Keeps (m : CidMem) (id : Nat) (known : Option Nat) (locked : Bool) : Prop :=
  ∀ e, known = some e → locked = false ∧ m.resolve id = some e

def CidPc.Known (m : CidMem) (id : Nat) (known : Option Nat) : CidPc → Prop
  | .idle => True
  | .lookup locked => m.Keeps id known locked
  | .lookupL2 locked _ => m.Keeps id known locked
  | .lookupL1 locked _ _ _ => m.Keeps id known locked
  | _ => known = none

theorem CidPc.Looking.grows {m m' : CidMem} {id : Nat} {pc : CidPc} (h : pc.Looking m id)
    (hgrows : Grows m m') : pc.Looking m' id := by
  cases pc with
  | lookupL2 locked tableL2 =>
      obtain ⟨hid, hlevel, hroot⟩ := h
      obtain ⟨hlevel', hroot'⟩ := hgrows.top hlevel
      exact ⟨hid, hlevel', hroot'.trans hroot⟩
  | lookupL1 locked tableL1 index offset =>
      obtain ⟨hid, hmid, hrest⟩ := h
      exact ⟨hid, hgrows.mid _ _ hmid, hrest⟩
  | acquire => exact h
  | _ => trivial

theorem CidMem.Keeps.grows {m m' : CidMem} {id : Nat} {known : Option Nat} {locked : Bool}
    (h : m.Keeps id known locked) (hgrows : Grows m m') : m'.Keeps id known locked :=
  fun e he => ⟨(h e he).1, hgrows.resolve (h e he).2⟩

theorem CidMem.keeps_locked {m : CidMem} {id : Nat} {known : Option Nat} :
    m.Keeps id known true ↔ known = none := by
  refine ⟨fun h => ?_, fun h e he => ?_⟩
  · refine Option.eq_none_iff_forall_ne_some.mpr fun e he => ?_
    exact absurd (h e he).1 (by decide)
  · rw [h] at he
    cases he

theorem CidPc.Known.grows {m m' : CidMem} {id : Nat} {known : Option Nat} {pc : CidPc}
    (h : pc.Known m id known) (hgrows : Grows m m') : pc.Known m' id known := by
  cases pc with
  | lookup locked => exact CidMem.Keeps.grows h hgrows
  | lookupL2 locked tableL2 => exact CidMem.Keeps.grows h hgrows
  | lookupL1 locked tableL1 index offset => exact CidMem.Keeps.grows h hgrows
  | _ => exact h

theorem CidPc.known_of_locked {m : CidMem} {id : Nat} {known : Option Nat} {pc : CidPc}
    (hlocked : pc.locked = true) : pc.Known m id known ↔ known = none := by
  cases pc with
  | idle => cases hlocked
  | lookup locked =>
      obtain rfl : locked = true := hlocked
      exact CidMem.keeps_locked
  | lookupL2 locked tableL2 =>
      obtain rfl : locked = true := hlocked
      exact CidMem.keeps_locked
  | lookupL1 locked tableL1 index offset =>
      obtain rfl : locked = true := hlocked
      exact CidMem.keeps_locked
  | _ => rfl

section

variable {τ : Type} [DecidableEq τ]

/-- A return is right: the entry is the one of its id, and it is the one that was known. -/
def CidReturn.Right (m : CidMem) (r : CidReturn) : Prop :=
  (∀ e, r.entry = some e → m.resolve (kphpCidToId r.call.cid) = some e) ∧
    ∀ e, r.call.known = some e → r.entry = some e

structure CidInv (s : CidState τ) : Prop where
  shape : CidShape s.mem
  owner : ∀ t, (s.pc t).locked = true ↔ s.lock = some t
  quiet : s.lock = none → s.mem.Quiet
  looking : ∀ t, (s.pc t).Looking s.mem (s.id t)
  holding : ∀ t, (s.pc t).locked = true → (s.pc t).Holding s.mem (s.id t)
  known : ∀ t, (s.pc t).Known s.mem (s.id t) (s.call t).known
  lookups : ∀ x ∈ s.lookups, ∀ e, x.2 = some e → s.mem.resolve (kphpCidToId x.1) = some e
  returned : ∀ r ∈ s.returned, r.Right s.mem
  reach : ∀ x ∈ s.mem.allocated, s.mem.Reaches x.1 ∨ ∃ t, (s.pc t).block = some x.1

structure CidNext (s s' : CidState τ) : Prop where
  inv : CidInv s'
  grows : Grows s.mem s'.mem

variable {t : τ}

theorem CidInv.move {s s' : CidState τ} {pc : CidPc} (h : CidInv s)
    (hpc : s'.pc = Function.update s.pc t pc) (hcall : s'.call = s.call)
    (howner : ∀ u, (s'.pc u).locked = true ↔ s'.lock = some u)
    (hquiet : s'.lock = none → s'.mem.Quiet)
    (hmem : s'.mem = s.mem ∨ (s.pc t).locked = true)
    (hshape : CidShape s'.mem) (hgrows : Grows s.mem s'.mem)
    (hlooking : pc.Looking s'.mem (s.id t))
    (hholding : pc.locked = true → pc.Holding s'.mem (s.id t))
    (hknown : pc.Known s'.mem (s.id t) (s.call t).known)
    (hlookups : ∀ x ∈ s'.lookups, x ∈ s.lookups ∨
      ∀ e, x.2 = some e → s.mem.resolve (kphpCidToId x.1) = some e)
    (hreturned : ∀ r ∈ s'.returned, r ∈ s.returned ∨ r.Right s.mem)
    (halloc : ∀ x ∈ s'.mem.allocated, x ∈ s.mem.allocated ∨ pc.block = some x.1)
    (hblock : ∀ b, b ≠ 0 → (s.pc t).block = some b → s'.mem.Reaches b ∨ pc.block = some b) :
    CidNext s s' := by
  have hid : s'.id = s.id := by
    funext u
    rw [CidState.id, CidState.id, hcall]
  have hself : s'.pc t = pc := by rw [hpc, Function.update_self]
  have hother : ∀ u, u ≠ t → s'.pc u = s.pc u := by
    intro u hu
    rw [hpc, Function.update_of_ne hu]
  -- The memory is the same for another holder of the lock.
  have hsame : s.lock ≠ some t → s'.mem = s.mem := by
    intro hne
    rcases hmem with hmem | hheld
    · exact hmem
    · exact absurd ((h.owner t).mp hheld) hne
  refine ⟨⟨hshape, howner, hquiet, fun u => ?_, fun u hu => ?_, fun u => ?_,
    fun x hx e he => ?_, fun r hr => ?_, fun x hx => ?_⟩, hgrows⟩
  · rw [hid]
    by_cases hu : u = t
    · rw [hu, hself]
      exact hlooking
    · rw [hother u hu]
      exact (h.looking u).grows hgrows
  · rw [hid]
    by_cases hut : u = t
    · rw [hut, hself] at hu ⊢
      exact hholding hu
    · rw [hother u hut] at hu ⊢
      have hheld := (h.owner u).mp hu
      rw [hsame fun hno => hut (Option.some.inj (hheld.symm.trans hno))]
      exact h.holding u hu
  · rw [hid, hcall]
    by_cases hu : u = t
    · rw [hu, hself]
      exact hknown
    · rw [hother u hu]
      exact (h.known u).grows hgrows
  · rcases hlookups x hx with hold | hnew
    · exact hgrows.resolve (h.lookups x hold e he)
    · exact hgrows.resolve (hnew e he)
  · have hright : r.Right s.mem := by
      rcases hreturned r hr with hold | hnew
      · exact h.returned r hold
      · exact hnew
    exact ⟨fun e he => hgrows.resolve (hright.1 e he), hright.2⟩
  · rcases halloc x hx with hold | hnew
    · rcases h.reach x hold with hreach | ⟨u, hu⟩
      · exact .inl (hgrows.reaches _ hreach)
      · by_cases hut : u = t
        · subst hut
          rcases hblock x.1 (hshape.blocks x hx).1 hu with hreach | hstill
          · exact .inl hreach
          · exact .inr ⟨u, by rw [hself]; exact hstill⟩
        · exact .inr ⟨u, by rw [hother u hut]; exact hu⟩
    · exact .inr ⟨t, by rw [hself]; exact hnew⟩

variable {s : CidState τ}

theorem CidInv.owner_keep {pc : CidPc} (h : CidInv s)
    (hlocked : pc.locked = (s.pc t).locked) (u : τ) :
    (Function.update s.pc t pc u).locked = true ↔ s.lock = some u := by
  rw [← h.owner u]
  by_cases hu : u = t
  · rw [hu, Function.update_self, hlocked]
  · rw [Function.update_of_ne hu]

theorem CidInv.goto {pc : CidPc} (h : CidInv s)
    (hlocked : pc.locked = (s.pc t).locked) (hblock : (s.pc t).block = none)
    (hlooking : pc.Looking s.mem (s.id t))
    (hholding : pc.locked = true → pc.Holding s.mem (s.id t))
    (hknown : pc.Known s.mem (s.id t) (s.call t).known) : CidNext s (s.goto t pc) :=
  h.move rfl rfl (h.owner_keep hlocked) h.quiet (.inl rfl) h.shape (Grows.refl _) hlooking hholding
    hknown (fun _ hx => .inl hx) (fun _ hr => .inl hr) (fun _ hx => .inl hx)
    fun b _ hb => absurd (hblock.symm.trans hb) (by simp)

variable {m : CidMem}

theorem CidInv.store {pc : CidPc} (h : CidInv s)
    (hheld : (s.pc t).locked = true) (hlocked : pc.locked = true)
    (hshape : CidShape m) (hgrows : Grows s.mem m) (hlooking : pc.Looking m (s.id t))
    (hholding : pc.Holding m (s.id t))
    (halloc : ∀ x ∈ m.allocated, x ∈ s.mem.allocated ∨ pc.block = some x.1)
    (hblock : ∀ b, b ≠ 0 → (s.pc t).block = some b → m.Reaches b ∨ pc.block = some b) :
    CidNext s ({ s with mem := m }.goto t pc) := by
  have hnone := (CidPc.known_of_locked hheld).mp (h.known t)
  refine h.move rfl rfl (h.owner_keep (hlocked.trans hheld.symm)) (fun hno => ?_) (.inr hheld)
    hshape hgrows hlooking (fun _ => hholding) ((CidPc.known_of_locked hlocked).mpr hnone)
    (fun _ hx => .inl hx) (fun _ hr => .inl hr) halloc hblock
  exact absurd (((h.owner t).mp hheld).symm.trans hno) (by simp)

/-! ## Lookups -/

theorem div_cidMaxL1 (id : Nat) : id / cidMaxL1 = id / 512 / 512 := by
  rw [Nat.div_div_eq_div_mul]
  rfl

theorem mod_cidMaxL1_div (id : Nat) : id % cidMaxL1 / cidMaxL0 = id / 512 % 512 := by
  have hone : cidMaxL1 = 512 * 512 := rfl
  have hzero : cidMaxL0 = 512 := rfl
  rw [hone, hzero]
  omega

theorem mod_cidMaxL1_mod (id : Nat) : id % cidMaxL1 % cidMaxL0 = id % 512 := by
  have hone : cidMaxL1 = 512 * 512 := rfl
  have hzero : cidMaxL0 = 512 := rfl
  rw [hone, hzero]
  omega

theorem mid_level {i : Nat} {b : ULongPtr} (hmid : m.mid i = some b) :
    m.level ≠ cidTableL0 := by
  intro hl
  rw [CidMem.mid, if_neg (by rw [hl]; decide), if_neg (by rw [hl]; decide)] at hmid
  cases hmid

variable {id : Nat}

theorem resolve_eq_none (h : m.leaf (id / 512) = none) :
    m.resolve id = none := by
  unfold CidMem.resolve
  split
  · rw [h]
    rfl
  · rfl

variable {tableL1 : ULongPtr} {index offset : Nat}

theorem resolve_of_place
    (hid : id < cidMax) (hplace : m.Place id tableL1 index offset) :
    m.resolve id = (notNull (m.slot tableL1 index)).map fun b => cidEntry b offset := by
  obtain ⟨hmid, rfl, rfl⟩ := hplace
  rw [CidMem.resolve, if_pos hid, leaf_of_level (mid_level hmid), hmid]
  rfl

theorem place_of_slot (hl : m.level = cidTableL2)
    (hslot : m.slot m.root (id / cidMaxL1) ≠ 0) :
    m.Place id (m.slot m.root (id / cidMaxL1)) (id % cidMaxL1 / cidMaxL0)
      (id % cidMaxL1 % cidMaxL0) := by
  refine ⟨?_, mod_cidMaxL1_div id, mod_cidMaxL1_mod id⟩
  rw [mid_of_level_two hl, div_cidMaxL1] at *
  exact notNull_eq_some.mpr ⟨rfl, hslot⟩

theorem CidMem.Missing.slot_eq_zero (h : m.Missing id) (hplace : m.Place id tableL1 index offset) :
    m.slot tableL1 index = 0 := by
  obtain ⟨hmid, rfl, rfl⟩ := hplace
  have hleaf := h.2
  rw [leaf_of_level (mid_level hmid), hmid] at hleaf
  exact notNull_eq_none.mp hleaf

theorem CidMem.Spare.quiet_setSlot {level block b : ULongPtr} {i : Nat}
    (hspare : m.Spare level block) (hquiet : m.Quiet) : (m.setSlot b i block).Quiet := by
  intro b' j
  rw [setSlot_slot]
  split
  · exact hspare.notRoot
  · exact hquiet b' j

theorem missing_of_resolve (hid : id < cidMax)
    (h : m.resolve id = none) : m.Missing id := by
  refine ⟨hid, ?_⟩
  rw [CidMem.resolve, if_pos hid] at h
  exact Option.map_eq_none_iff.mp h

theorem CidInv.answer {locked : Bool} {entry : Option Nat} (h : CidInv s)
    (hlocked : (s.pc t).locked = locked) (hblock : (s.pc t).block = none)
    (hheld : locked = true → s.mem.Quiet ∧ s.id t < cidMax)
    (hknown : s.mem.Keeps (s.id t) (s.call t).known locked)
    (hentry : entry = s.mem.resolve (s.id t)) : CidNext s (s.answer t locked entry) := by
  cases locked with
  | true =>
      obtain ⟨hquiet, hid⟩ := hheld rfl
      cases entry with
      | some e =>
          refine h.goto hlocked.symm hblock trivial (fun _ => ⟨hquiet, fun e' he => ?_⟩)
            (CidMem.keeps_locked.mp hknown)
          exact hentry.symm.trans he
      | none =>
          refine h.goto hlocked.symm hblock trivial (fun _ => ⟨hquiet, ?_⟩)
            (CidMem.keeps_locked.mp hknown)
          exact missing_of_resolve hid hentry.symm
  | false =>
      have hnoblock : ∀ b, b ≠ 0 → (s.pc t).block = some b →
          s.mem.Reaches b ∨ CidPc.block .idle = some b := by
        intro b _ hb
        rw [hblock] at hb
        cases hb
      have hlookups : ∀ x ∈ ((s.call t).cid, entry) :: s.lookups, x ∈ s.lookups ∨
          ∀ e, x.2 = some e → s.mem.resolve (kphpCidToId x.1) = some e := by
        intro x hx
        rcases List.mem_cons.mp hx with rfl | hx
        · exact .inr fun e he => hentry.symm.trans he
        · exact .inl hx
      have hreturned : ∀ r ∈ (⟨s.call t, entry⟩ : CidReturn) :: s.returned,
          r ∈ s.returned ∨ r.Right s.mem := by
        intro r hr
        rcases List.mem_cons.mp hr with rfl | hr
        · exact .inr ⟨fun e he => hentry.symm.trans he, fun e he => hentry.trans (hknown e he).2⟩
        · exact .inl hr
      cases entry with
      | some e =>
          exact h.move rfl rfl (h.owner_keep hlocked.symm) h.quiet (.inl rfl) h.shape
            (Grows.refl _) trivial (fun hno => (by cases hno)) trivial hlookups hreturned
            (fun _ hx => .inl hx) hnoblock
      | none =>
          have hnone : (s.call t).known = none := by
            refine Option.eq_none_iff_forall_ne_some.mpr fun e he => ?_
            exact absurd (hentry.trans (hknown e he).2) (by simp)
          by_cases hid : s.id t ≥ cidMax
          · have hstep : s.answer t false none =
                { s with lookups := ((s.call t).cid, none) :: s.lookups }.finish t none := if_pos hid
            rw [hstep]
            exact h.move rfl rfl (h.owner_keep hlocked.symm) h.quiet (.inl rfl) h.shape
              (Grows.refl _) trivial (fun hno => (by cases hno)) trivial hlookups hreturned
              (fun _ hx => .inl hx) hnoblock
          · have hstep : s.answer t false none =
                { s with lookups := ((s.call t).cid, none) :: s.lookups }.goto t .acquire := if_neg hid
            rw [hstep]
            exact h.move rfl rfl (h.owner_keep hlocked.symm) h.quiet (.inl rfl)
              h.shape (Grows.refl _) (Nat.lt_of_not_le hid) (fun hno => (by cases hno)) hnone hlookups
              (fun _ hr => .inl hr) (fun _ hx => .inl hx) hnoblock

theorem CidInv.lookup {locked : Bool} (h : CidInv s)
    (hpc : s.pc t = .lookup locked) (alloc : Option ULongPtr) : CidNext s (s.advance t alloc) := by
  have hlocked : (s.pc t).locked = locked := by rw [hpc]; rfl
  have hblock : (s.pc t).block = none := by rw [hpc]; rfl
  have hknown := h.known t
  have hheld := h.holding t
  rw [hpc] at hknown hheld
  have hmaxL0 : cidMaxL0 = 512 := rfl
  have hmaxL1 : cidMaxL1 = 512 * 512 := rfl
  have hmax : cidMax = 64 * (512 * 512) := rfl
  have hmaxL2 : cidMaxL2 = cidMax := rfl
  have hlevel : cidLevel s.mem.table = s.mem.level := rfl
  simp only [CidState.advance, hpc, hlevel]
  rcases h.shape.levels with hl | hl | hl
  · rw [if_pos hl]
    split
    · next hid =>
        refine h.answer hlocked hblock hheld hknown ?_
        rw [resolve_eq_none]
        rw [leaf_of_level_zero hl, if_neg (by omega)]
    · next hid =>
        refine h.answer hlocked hblock hheld hknown ?_
        rw [CidMem.resolve, if_pos (by omega), leaf_of_level_zero hl, if_pos (by omega),
          Nat.mod_eq_of_lt (by omega)]
        rfl
  · rw [if_neg (by rw [hl]; decide), if_pos hl]
    split
    · next hid =>
        refine h.answer hlocked hblock hheld hknown ?_
        rw [resolve_eq_none]
        rw [leaf_of_level (by rw [hl]; decide), mid_of_level_one hl, if_neg (by omega)]
        rfl
    · next hid =>
        have hplace : s.mem.Place (s.id t) (cidPointer s.mem.table) (s.id t / cidMaxL0)
            (s.id t % cidMaxL0) := by
          refine ⟨?_, by rw [hmaxL0]; omega, rfl⟩
          rw [mid_of_level_one hl, if_pos (by omega)]
          rfl
        exact h.goto hlocked.symm hblock ⟨by omega, hplace⟩ hheld hknown
  · rw [if_neg (by rw [hl]; decide), if_neg (by rw [hl]; decide), if_pos hl]
    split
    · next hid =>
        refine h.answer hlocked hblock hheld hknown ?_
        rw [CidMem.resolve, if_neg (by omega)]
    · next hid =>
        exact h.goto hlocked.symm hblock ⟨by omega, hl, rfl⟩ hheld hknown

theorem CidInv.lookupL2 {locked : Bool} {tableL2 : ULongPtr}
    (h : CidInv s) (hpc : s.pc t = .lookupL2 locked tableL2) (alloc : Option ULongPtr) :
    CidNext s (s.advance t alloc) := by
  have hlocked : (s.pc t).locked = locked := by rw [hpc]; rfl
  have hblock : (s.pc t).block = none := by rw [hpc]; rfl
  have hlooking := h.looking t
  have hknown := h.known t
  have hheld := h.holding t
  rw [hpc] at hlooking hknown hheld
  obtain ⟨hid, hl, rfl⟩ := hlooking
  simp only [CidState.advance, hpc]
  split
  · next hslot =>
      refine h.answer hlocked hblock hheld hknown ?_
      rw [resolve_eq_none]
      rw [div_cidMaxL1] at hslot
      rw [leaf_of_level (by rw [hl]; decide), mid_of_level_two hl, hslot]
      rfl
  · next hslot =>
      exact h.goto hlocked.symm hblock ⟨hid, place_of_slot hl hslot⟩ hheld hknown

theorem CidInv.lookupL1 {locked : Bool} (h : CidInv s) (hpc : s.pc t = .lookupL1 locked tableL1 index offset)
    (alloc : Option ULongPtr) : CidNext s (s.advance t alloc) := by
  have hlocked : (s.pc t).locked = locked := by rw [hpc]; rfl
  have hblock : (s.pc t).block = none := by rw [hpc]; rfl
  have hlooking := h.looking t
  have hknown := h.known t
  have hheld := h.holding t
  rw [hpc] at hlooking hknown hheld
  obtain ⟨hid, hplace⟩ := hlooking
  have hresolve := resolve_of_place hid hplace
  simp only [CidState.advance, hpc]
  split
  · next hslot =>
      refine h.answer hlocked hblock hheld hknown ?_
      rw [hresolve, hslot]
      rfl
  · next hslot =>
      refine h.answer hlocked hblock hheld hknown ?_
      rw [hresolve, notNull_eq_some.mpr ⟨rfl, hslot⟩]
      rfl

/-! ## The lock -/

theorem CidInv.acquire (h : CidInv s) (hpc : s.pc t = .acquire)
    (alloc : Option ULongPtr) : CidNext s (s.advance t alloc) := by
  have hlooking := h.looking t
  have hknown := h.known t
  rw [hpc] at hlooking hknown
  simp only [CidState.advance, hpc]
  split
  · next hlock =>
      have howner : ∀ u, (Function.update s.pc t (.lookup true) u).locked = true ↔
          some t = some u := by
        intro u
        by_cases hu : u = t
        · rw [hu, Function.update_self]
          exact ⟨fun _ => rfl, fun _ => rfl⟩
        · rw [Function.update_of_ne hu, h.owner u, hlock]
          exact ⟨fun hno => (by cases hno), fun heq => absurd (Option.some.inj heq).symm hu⟩
      refine h.move rfl rfl howner (fun hno => (by cases hno)) (.inl rfl) h.shape (Grows.refl _)
        trivial (fun _ => ⟨h.quiet hlock, hlooking⟩) (CidMem.keeps_locked.mpr hknown)
        (fun _ hx => .inl hx) (fun _ hr => .inl hr) (fun _ hx => .inl hx) fun b _ hb => ?_
      rw [hpc] at hb
      cases hb
  · exact ⟨h, Grows.refl _⟩

theorem CidInv.release {entry : Option Nat} (h : CidInv s)
    (hpc : s.pc t = .release entry) (alloc : Option ULongPtr) : CidNext s (s.advance t alloc) := by
  have hlocked : (s.pc t).locked = true := by rw [hpc]; rfl
  have hlock := (h.owner t).mp hlocked
  have hholding := h.holding t hlocked
  have hknown := h.known t
  rw [hpc] at hholding hknown
  obtain ⟨hquiet, hentry⟩ := hholding
  have hnone : (s.call t).known = none := hknown
  simp only [CidState.advance, hpc]
  have howner : ∀ u, (Function.update s.pc t .idle u).locked = true ↔ none = some u := by
    intro u
    by_cases hu : u = t
    · rw [hu, Function.update_self]
      exact ⟨fun hno => (by cases hno), fun hno => (by cases hno)⟩
    · rw [Function.update_of_ne hu, h.owner u, hlock]
      exact ⟨fun heq => absurd (Option.some.inj heq).symm hu, fun hno => (by cases hno)⟩
  refine h.move rfl rfl howner (fun _ => hquiet) (.inl rfl) h.shape (Grows.refl _)
    trivial (fun hno => (by cases hno)) trivial (fun _ hx => .inl hx) (fun r hr => ?_)
    (fun _ hx => .inl hx) fun b _ hb => ?_
  · rcases List.mem_cons.mp hr with rfl | hr
    · refine .inr ⟨hentry, fun e he => ?_⟩
      exact absurd (hnone.symm.trans he) (by simp)
    · exact .inl hr
  · rw [hpc] at hb
    cases hb

/-! ## The expansion -/

theorem missing_congr {m m' : CidMem} (hleaf : m'.leaf = m.leaf) (h : m.Missing id) :
    m'.Missing id :=
  ⟨h.1, by rw [hleaf]; exact h.2⟩

variable {level block : ULongPtr}

theorem CidShape.allocate_quiet (h : CidShape m)
    (hfresh : m.Fresh level block) (hquiet : m.Quiet) :
    (m.kphpCidAllocateTable level (some block)).Quiet := by
  intro b i
  rw [h.allocate_slot hfresh]
  exact hquiet b i

theorem CidShape.allocate_missing (h : CidShape m)
    (hfresh : m.Fresh level block) (hmissing : m.Missing id) :
    (m.kphpCidAllocateTable level (some block)).Missing id := by
  have hleaf : (m.kphpCidAllocateTable level (some block)).leaf = m.leaf :=
    leaf_congr rfl (h.allocate_slot hfresh)
  exact missing_congr hleaf hmissing

theorem holding_cidLevelOne (hquiet : m.Quiet) (hmissing : m.Missing id)
    (hl : m.level = cidTableL1) :
    (cidLevelOne id m.table).locked = true ∧ (cidLevelOne id m.table).block = none ∧
      (cidLevelOne id m.table).Looking m id ∧ (cidLevelOne id m.table).Holding m id := by
  have hmaxL0 : cidMaxL0 = 512 := rfl
  have hmaxL1 : cidMaxL1 = 512 * 512 := rfl
  unfold cidLevelOne
  split
  · next hid =>
      refine ⟨rfl, rfl, trivial, hquiet, hmissing, ?_, by rw [hmaxL0]; omega, rfl⟩
      rw [mid_of_level_one hl, if_pos (by omega)]
      rfl
  · exact ⟨rfl, rfl, trivial, hquiet, hmissing, rfl, .inr ⟨rfl, hl⟩⟩

theorem CidInv.goto_locked {pc : CidPc} (h : CidInv s)
    (hheld : (s.pc t).locked = true) (hlocked : pc.locked = true) (hblock : (s.pc t).block = none)
    (hlooking : pc.Looking s.mem (s.id t)) (hholding : pc.Holding s.mem (s.id t)) :
    CidNext s (s.goto t pc) := by
  have hnone := (CidPc.known_of_locked hheld).mp (h.known t)
  exact h.goto (hlocked.trans hheld.symm) hblock hlooking (fun _ => hholding)
    ((CidPc.known_of_locked hlocked).mpr hnone)

theorem CidInv.expand (h : CidInv s) (hpc : s.pc t = .expand)
    (alloc : Option ULongPtr) : CidNext s (s.advance t alloc) := by
  have hheld : (s.pc t).locked = true := by rw [hpc]; rfl
  have hblock : (s.pc t).block = none := by rw [hpc]; rfl
  have hholding := h.holding t hheld
  rw [hpc] at hholding
  obtain ⟨hquiet, hmissing⟩ := hholding
  have hlevel : cidLevel s.mem.table = s.mem.level := rfl
  simp only [CidState.advance, hpc, hlevel]
  rcases h.shape.levels with hl | hl | hl
  · rw [if_pos hl]
    exact h.goto_locked hheld rfl hblock trivial ⟨hquiet, hmissing, rfl, .inl ⟨rfl, hl⟩⟩
  · rw [if_neg (by rw [hl]; decide), if_pos hl]
    obtain ⟨hlocked, -, hlooking, hholding⟩ := holding_cidLevelOne hquiet hmissing hl
    exact h.goto_locked hheld hlocked hblock hlooking hholding
  · rw [if_neg (by rw [hl]; decide), if_neg (by rw [hl]; decide)]
    exact h.goto_locked hheld rfl hblock trivial ⟨hquiet, hmissing, rfl, hl⟩

theorem CidInv.allocate {pc : CidPc}
    (h : CidInv s) (hheld : (s.pc t).locked = true) (hlocked : pc.locked = true)
    (hblock : (s.pc t).block = none) (hfresh : s.mem.Fresh level block)
    (hnew : pc.block = some block)
    (hlooking : pc.Looking (s.mem.kphpCidAllocateTable level (some block)) (s.id t))
    (hholding : pc.Holding (s.mem.kphpCidAllocateTable level (some block)) (s.id t)) :
    CidNext s ({ s with mem := s.mem.kphpCidAllocateTable level (some block) }.goto t pc) := by
  have hslot := h.shape.allocate_slot hfresh
  refine h.store hheld hlocked (h.shape.allocate hfresh) (grows_of_eq rfl hslot) hlooking hholding
    (fun x hx => ?_) fun b _ hb => ?_
  · rcases List.mem_cons.mp hx with rfl | hx
    · exact .inr hnew
    · exact .inl hx
  · rw [hblock] at hb
    cases hb

theorem CidInv.allocateRoot {level table : ULongPtr} (h : CidInv s)
    (hpc : s.pc t = .allocateRoot level table) (alloc : Option ULongPtr)
    (hfresh : ∀ block, alloc = some block → s.mem.Fresh level block) :
    CidNext s (s.advance t alloc) := by
  have hheld : (s.pc t).locked = true := by rw [hpc]; rfl
  have hblock : (s.pc t).block = none := by rw [hpc]; rfl
  have hholding := h.holding t hheld
  rw [hpc] at hholding
  obtain ⟨hquiet, hmissing, rfl, habove⟩ := hholding
  simp only [CidState.advance, hpc]
  cases alloc with
  | none =>
      exact h.goto_locked hheld rfl hblock trivial ⟨hquiet, fun e he => (by cases he)⟩
  | some block =>
      have hfresh := hfresh block rfl
      exact h.allocate hheld rfl hblock hfresh rfl trivial
        ⟨h.shape.allocate_quiet hfresh hquiet, h.shape.allocate_missing hfresh hmissing, rfl, habove,
          h.shape.spare hfresh⟩

theorem CidInv.linkRoot {level table block : ULongPtr} (h : CidInv s)
    (hpc : s.pc t = .linkRoot level table block) (alloc : Option ULongPtr) :
    CidNext s (s.advance t alloc) := by
  have hheld : (s.pc t).locked = true := by rw [hpc]; rfl
  have hholding := h.holding t hheld
  rw [hpc] at hholding
  obtain ⟨hquiet, hmissing, rfl, habove, hspare⟩ := hholding
  simp only [CidState.advance, hpc]
  have hshape := h.shape.setSlot 0 habove hspare.mem h.shape.root hquiet
  have hleaf := (h.shape.setSlot_spare 0 s.mem.root hspare).2
  refine h.store hheld rfl hshape (h.shape.grows_link hspare) trivial
    ⟨missing_congr hleaf hmissing, hspare.linked habove⟩ (fun _ hx => .inl hx) fun b _ hb => .inr ?_
  rw [hpc] at hb
  exact hb

theorem CidInv.publishRoot (h : CidInv s)
    (hpc : s.pc t = .publishRoot level block) (alloc : Option ULongPtr) :
    CidNext s (s.advance t alloc) := by
  have hheld : (s.pc t).locked = true := by rw [hpc]; rfl
  have hholding := h.holding t hheld
  rw [hpc] at hholding
  obtain ⟨hmissing, hlinked⟩ := hholding
  simp only [CidState.advance, hpc]
  have hshape := h.shape.publish hlinked
  have hgrows := h.shape.grows_publish hlinked
  have hquiet := h.shape.publish_quiet hlinked
  have hlevel := hlinked.level_publish h.shape
  have hmissing' := missing_congr (h.shape.publish_maps hlinked).2 hmissing
  have hroot := hlinked.root_publish h.shape
  have hreach : ∀ b, b ≠ 0 → (s.pc t).block = some b →
      ({ s.mem with table := block ||| level } : CidMem).Reaches b := by
    intro b _ hb
    rw [hpc] at hb
    obtain rfl := Option.some.inj hb
    rw [CidMem.Reaches, hroot]
  rcases hlinked.above.root with rfl | rfl
  · rw [if_pos rfl]
    obtain ⟨hlocked, -, hlooking, hholding⟩ := holding_cidLevelOne hquiet hmissing' hlevel
    exact h.store hheld hlocked hshape hgrows hlooking hholding (fun _ hx => .inl hx)
      fun b hne hb => .inl (hreach b hne hb)
  · rw [if_neg (by decide)]
    exact h.store hheld rfl hshape hgrows trivial ⟨hquiet, hmissing', rfl, hlevel⟩
      (fun _ hx => .inl hx) fun b hne hb => .inl (hreach b hne hb)

theorem CidInv.levelTwo {table : ULongPtr} (h : CidInv s)
    (hpc : s.pc t = .levelTwo table) (alloc : Option ULongPtr) : CidNext s (s.advance t alloc) := by
  have hheld : (s.pc t).locked = true := by rw [hpc]; rfl
  have hblock : (s.pc t).block = none := by rw [hpc]; rfl
  have hholding := h.holding t hheld
  rw [hpc] at hholding
  obtain ⟨hquiet, hmissing, rfl, hl⟩ := hholding
  have hroot : cidPointer s.mem.table = s.mem.root := rfl
  simp only [CidState.advance, hpc, hroot]
  split
  · next hslot =>
      exact h.goto_locked hheld rfl hblock trivial ⟨hquiet, hmissing, hl, rfl, hslot⟩
  · next hslot =>
      exact h.goto_locked hheld rfl hblock trivial ⟨hquiet, hmissing, place_of_slot hl hslot⟩

theorem CidInv.allocateL1 {tableL2 : ULongPtr} (h : CidInv s)
    (hpc : s.pc t = .allocateL1 tableL2) (alloc : Option ULongPtr)
    (hfresh : ∀ block, alloc = some block → s.mem.Fresh cidTableL1 block) :
    CidNext s (s.advance t alloc) := by
  have hheld : (s.pc t).locked = true := by rw [hpc]; rfl
  have hblock : (s.pc t).block = none := by rw [hpc]; rfl
  have hholding := h.holding t hheld
  rw [hpc] at hholding
  obtain ⟨hquiet, hmissing, hl, rfl, hslot⟩ := hholding
  simp only [CidState.advance, hpc]
  cases alloc with
  | none =>
      exact h.goto_locked hheld rfl hblock trivial ⟨hquiet, hmissing, hl, rfl, hslot, .inl rfl⟩
  | some block =>
      have hfresh := hfresh block rfl
      have hslot' : (s.mem.kphpCidAllocateTable cidTableL1 (some block)).slot s.mem.root
          (s.id t / cidMaxL1) = 0 := by
        rw [h.shape.allocate_slot hfresh]
        exact hslot
      exact h.allocate hheld rfl hblock hfresh rfl trivial
        ⟨h.shape.allocate_quiet hfresh hquiet, h.shape.allocate_missing hfresh hmissing, hl, rfl,
          hslot', .inr (h.shape.spare hfresh)⟩

theorem CidInv.storeL1 {tableL2 block : ULongPtr} (h : CidInv s)
    (hpc : s.pc t = .storeL1 tableL2 block) (alloc : Option ULongPtr) :
    CidNext s (s.advance t alloc) := by
  have hheld : (s.pc t).locked = true := by rw [hpc]; rfl
  have hholding := h.holding t hheld
  rw [hpc] at hholding
  obtain ⟨hquiet, hmissing, hl, rfl, hslot, hnew⟩ := hholding
  simp only [CidState.advance, hpc]
  rcases hnew with rfl | hspare
  · rw [setSlot_eq_self hslot]
    refine h.store hheld rfl h.shape (Grows.refl _) trivial ⟨hquiet, hmissing, hl, rfl⟩
      (fun _ hx => .inl hx) fun b hne hb => ?_
    rw [hpc] at hb
    exact absurd (Option.some.inj hb).symm hne
  · have hshape := h.shape.setSlot (s.id t / cidMaxL1) (.inr ⟨rfl, rfl⟩) (hl ▸ h.shape.root)
      hspare.mem hspare.orphan
    have hleaf := (h.shape.setSlot_root hl hslot hspare).2
    refine h.store hheld rfl hshape (h.shape.grows_root hl hslot hspare) trivial
      ⟨hspare.quiet_setSlot hquiet, missing_congr hleaf hmissing, hl, rfl⟩ (fun _ hx => .inl hx)
      fun b hne hb => .inl ?_
    rw [hpc] at hb
    obtain rfl := Option.some.inj hb
    exact reaches_stored hslot .refl hne

theorem CidInv.loadL1 {tableL2 : ULongPtr} (h : CidInv s)
    (hpc : s.pc t = .loadL1 tableL2) (alloc : Option ULongPtr) : CidNext s (s.advance t alloc) := by
  have hheld : (s.pc t).locked = true := by rw [hpc]; rfl
  have hblock : (s.pc t).block = none := by rw [hpc]; rfl
  have hholding := h.holding t hheld
  rw [hpc] at hholding
  obtain ⟨hquiet, hmissing, hl, rfl⟩ := hholding
  simp only [CidState.advance, hpc]
  split
  · exact h.goto_locked hheld rfl hblock trivial ⟨hquiet, fun e he => (by cases he)⟩
  · next hslot =>
      exact h.goto_locked hheld rfl hblock trivial ⟨hquiet, hmissing, place_of_slot hl hslot⟩

theorem CidInv.allocateL0
    (h : CidInv s) (hpc : s.pc t = .allocateL0 tableL1 index offset) (alloc : Option ULongPtr)
    (hfresh : ∀ block, alloc = some block → s.mem.Fresh cidTableL0 block) :
    CidNext s (s.advance t alloc) := by
  have hheld : (s.pc t).locked = true := by rw [hpc]; rfl
  have hblock : (s.pc t).block = none := by rw [hpc]; rfl
  have hholding := h.holding t hheld
  rw [hpc] at hholding
  obtain ⟨hquiet, hmissing, hplace⟩ := hholding
  simp only [CidState.advance, hpc]
  cases alloc with
  | none =>
      exact h.goto_locked hheld rfl hblock trivial ⟨hquiet, hmissing, hplace, .inl rfl⟩
  | some block =>
      have hfresh := hfresh block rfl
      have hmid : (s.mem.kphpCidAllocateTable cidTableL0 (some block)).mid = s.mem.mid :=
        mid_congr rfl (h.shape.allocate_slot hfresh)
      exact h.allocate hheld rfl hblock hfresh rfl trivial
        ⟨h.shape.allocate_quiet hfresh hquiet, h.shape.allocate_missing hfresh hmissing,
          ⟨by rw [hmid]; exact hplace.1, hplace.2⟩, .inr (h.shape.spare hfresh)⟩

theorem CidInv.storeL0
    {block : ULongPtr} (h : CidInv s) (hpc : s.pc t = .storeL0 tableL1 index offset block)
    (alloc : Option ULongPtr) : CidNext s (s.advance t alloc) := by
  have hheld : (s.pc t).locked = true := by rw [hpc]; rfl
  have hholding := h.holding t hheld
  rw [hpc] at hholding
  obtain ⟨hquiet, hmissing, hplace, hnew⟩ := hholding
  have hslot := hmissing.slot_eq_zero hplace
  simp only [CidState.advance, hpc]
  rcases hnew with rfl | hspare
  · rw [setSlot_eq_self hslot]
    refine h.store hheld rfl h.shape (Grows.refl _) trivial ⟨hquiet, hmissing.1, hplace⟩
      (fun _ hx => .inl hx) fun b hne hb => ?_
    rw [hpc] at hb
    exact absurd (Option.some.inj hb).symm hne
  · have hshape := h.shape.setSlot index (.inl ⟨rfl, rfl⟩) (h.shape.mid_spec hplace.1).1
      hspare.mem hspare.orphan
    have hindex : index < 512 := by
      rw [hplace.2.1]
      exact Nat.mod_lt _ (by decide)
    have hmid := (h.shape.setSlot_mid hplace.1 hspare hindex).1
    refine h.store hheld rfl hshape (h.shape.grows_mid hplace.1 hspare hindex hslot) trivial
      ⟨hspare.quiet_setSlot hquiet, hmissing.1, by rw [hmid]; exact hplace.1, hplace.2⟩
      (fun _ hx => .inl hx) fun b hne hb => .inl ?_
    rw [hpc] at hb
    obtain rfl := Option.some.inj hb
    exact reaches_stored hslot (h.shape.reaches_mid hplace.1) hne

theorem CidInv.loadL0
    (h : CidInv s) (hpc : s.pc t = .loadL0 tableL1 index offset) (alloc : Option ULongPtr) :
    CidNext s (s.advance t alloc) := by
  have hheld : (s.pc t).locked = true := by rw [hpc]; rfl
  have hblock : (s.pc t).block = none := by rw [hpc]; rfl
  have hholding := h.holding t hheld
  rw [hpc] at hholding
  obtain ⟨hquiet, hid, hplace⟩ := hholding
  simp only [CidState.advance, hpc]
  split
  · exact h.goto_locked hheld rfl hblock trivial ⟨hquiet, fun e he => (by cases he)⟩
  · next hslot =>
      refine h.goto_locked hheld rfl hblock trivial ⟨hquiet, fun e he => ?_⟩
      rw [resolve_of_place hid hplace, notNull_eq_some.mpr ⟨rfl, hslot⟩]
      exact he

/-! ## Runs -/

theorem CidInv.advance {alloc : Option ULongPtr} (h : CidInv s)
    (hfresh : ∀ level block, (s.pc t).allocates = some level → alloc = some block →
      s.mem.Fresh level block) : CidNext s (s.advance t alloc) := by
  cases hpc : s.pc t with
  | idle =>
      simp only [CidState.advance, hpc]
      exact ⟨h, Grows.refl _⟩
  | lookup locked => exact h.lookup hpc alloc
  | lookupL2 locked tableL2 => exact h.lookupL2 hpc alloc
  | lookupL1 locked tableL1 index offset => exact h.lookupL1 hpc alloc
  | acquire => exact h.acquire hpc alloc
  | expand => exact h.expand hpc alloc
  | allocateRoot level table =>
      exact h.allocateRoot hpc alloc fun block => hfresh level block (by rw [hpc]; rfl)
  | linkRoot level table block => exact h.linkRoot hpc alloc
  | publishRoot level block => exact h.publishRoot hpc alloc
  | levelTwo table => exact h.levelTwo hpc alloc
  | allocateL1 tableL2 =>
      exact h.allocateL1 hpc alloc fun block => hfresh cidTableL1 block (by rw [hpc]; rfl)
  | storeL1 tableL2 block => exact h.storeL1 hpc alloc
  | loadL1 tableL2 => exact h.loadL1 hpc alloc
  | allocateL0 tableL1 index offset =>
      exact h.allocateL0 hpc alloc fun block => hfresh cidTableL0 block (by rw [hpc]; rfl)
  | storeL0 tableL1 index offset block => exact h.storeL0 hpc alloc
  | loadL0 tableL1 index offset => exact h.loadL0 hpc alloc
  | release entry => exact h.release hpc alloc

theorem known_spec {cid e : Nat} (h : s.known cid = some e) :
    ∃ r ∈ s.returned, kphpCidToId r.call.cid = kphpCidToId cid ∧ r.entry = some e := by
  obtain ⟨r, hfind, hentry⟩ := Option.bind_eq_some_iff.mp h
  have hsat := List.find?_some hfind
  simp only [Bool.and_eq_true, decide_eq_true_eq] at hsat
  exact ⟨r, List.mem_of_find?_eq_some hfind, hsat.1, hentry⟩

theorem known_isSome {cid e : Nat} {r : CidReturn} (hr : r ∈ s.returned)
    (hid : kphpCidToId r.call.cid = kphpCidToId cid) (hentry : r.entry = some e) :
    ∃ e', s.known cid = some e' := by
  cases hfind : s.returned.find? fun r =>
      decide (kphpCidToId r.call.cid = kphpCidToId cid) && r.entry.isSome with
  | none =>
      have := List.find?_eq_none.mp hfind r hr
      simp [hid, hentry] at this
  | some r' =>
      have hsat := List.find?_some hfind
      simp only [Bool.and_eq_true, decide_eq_true_eq] at hsat
      obtain ⟨e', he'⟩ := Option.isSome_iff_exists.mp hsat.2
      refine ⟨e', ?_⟩
      rw [CidState.known, hfind]
      exact he'

theorem CidInv.resolve_known (h : CidInv s) {cid e : Nat}
    (hknown : s.known cid = some e) : s.mem.resolve (kphpCidToId cid) = some e := by
  obtain ⟨r, hr, hid, hentry⟩ := known_spec hknown
  rw [← hid]
  exact (h.returned r hr).1 e hentry

theorem CidInv.call {cid : Nat} (h : CidInv s) (hpc : s.pc t = .idle) :
    CidNext s
      { s.goto t (.lookup false) with
        call := Function.update s.call t ⟨cid, s.known cid⟩ } := by
  generalize hs' : ({ s.goto t (.lookup false) with
    call := Function.update s.call t ⟨cid, s.known cid⟩ } : CidState τ) = s'
  have hself : s'.pc t = .lookup false := by rw [← hs']; exact Function.update_self ..
  have hcall : s'.call t = ⟨cid, s.known cid⟩ := by rw [← hs']; exact Function.update_self ..
  have hother : ∀ u, u ≠ t → s'.pc u = s.pc u ∧ s'.call u = s.call u := by
    intro u hu
    rw [← hs']
    exact ⟨Function.update_of_ne hu .., Function.update_of_ne hu ..⟩
  have hid : ∀ u, u ≠ t → s'.id u = s.id u := by
    intro u hu
    rw [CidState.id, CidState.id, (hother u hu).2]
  have howner : ∀ u, (s'.pc u).locked = true ↔ s'.lock = some u := by
    rw [← hs']
    exact h.owner_keep (by rw [hpc]; rfl)
  have hmem : s'.mem = s.mem := by rw [← hs']; rfl
  have hlookups : s'.lookups = s.lookups := by rw [← hs']; rfl
  have hreturned : s'.returned = s.returned := by rw [← hs']; rfl
  refine ⟨⟨?_, howner, fun hno => ?_, fun u => ?_, fun u hu => ?_, fun u => ?_, ?_, ?_,
    fun x hx => ?_⟩, ?_⟩
  · rw [hmem]
    exact h.shape
  · rw [hmem]
    rw [← hs'] at hno
    exact h.quiet hno
  · by_cases hu : u = t
    · rw [hu, hself]
      trivial
    · rw [(hother u hu).1, hid u hu, hmem]
      exact h.looking u
  · by_cases hut : u = t
    · rw [hut, hself] at hu
      cases hu
    · rw [(hother u hut).1] at hu ⊢
      rw [hid u hut, hmem]
      exact h.holding u hu
  · by_cases hu : u = t
    · rw [hu, hself, hcall, hmem, CidState.id, hcall]
      exact fun e he => ⟨rfl, h.resolve_known he⟩
    · rw [(hother u hu).1, (hother u hu).2, hid u hu, hmem]
      exact h.known u
  · rw [hlookups, hmem]
    exact h.lookups
  · rw [hreturned, hmem]
    exact h.returned
  · rw [hmem] at hx ⊢
    rcases h.reach x hx with hreach | ⟨u, hu⟩
    · exact .inl hreach
    · refine .inr ⟨u, ?_⟩
      have hut : u ≠ t := by
        rintro rfl
        rw [hpc] at hu
        cases hu
      rw [(hother u hut).1]
      exact hu
  · rw [hmem]
    exact Grows.refl _

theorem CidStep.next {s s' : CidState τ} (h : CidInv s) (hstep : CidStep s s') : CidNext s s' := by
  cases hstep with
  | advance t alloc hfresh => exact h.advance hfresh
  | kphCidGetEntry t cid hpc => exact h.call hpc

theorem cidShape_created {block : ULongPtr} (hnull : block ≠ 0)
    (haligned : block &&& cidTableLevelMask = 0) :
    CidShape (CidState.created block : CidState τ).mem := by
  have hlevel : (CidState.created block : CidState τ).mem.level = cidTableL0 := haligned
  have hroot : (CidState.created block : CidState τ).mem.root = block :=
    cidPointer_of_aligned haligned
  refine ⟨.inl hlevel, ?_, fun x hx => ?_, List.pairwise_singleton .., fun b i hne => ?_,
    fun b i b' i' _ hne => ?_⟩
  · rw [hlevel, hroot]
    exact List.mem_singleton.mpr rfl
  · obtain rfl := List.mem_singleton.mp hx
    exact ⟨hnull, haligned⟩
  · exact absurd rfl hne
  · exact absurd rfl hne

theorem cidInv_created {block : ULongPtr} (hnull : block ≠ 0)
    (haligned : block &&& cidTableLevelMask = 0) :
    CidInv (CidState.created block : CidState τ) := by
  have hroot : (CidState.created block : CidState τ).mem.root = block :=
    cidPointer_of_aligned haligned
  refine ⟨cidShape_created hnull haligned, fun t => ?_, fun _ b i => ?_, fun t => trivial,
    fun t hno => (by cases hno), fun t => trivial, fun x hx => (by cases hx),
    fun r hr => (by cases hr), fun x hx => .inl ?_⟩
  · exact ⟨fun hno => (by cases hno), fun hno => (by cases hno)⟩
  · rw [hroot]
    exact hnull.symm
  · obtain rfl := List.mem_singleton.mp hx
    rw [CidMem.Reaches, hroot]

theorem CidInv.run {s s' : CidState τ} (h : CidInv s) (hrun : Relation.ReflTransGen CidStep s s') :
    CidNext s s' := by
  induction hrun with
  | refl => exact ⟨h, Grows.refl _⟩
  | tail _ hstep ih =>
      obtain ⟨hinv, hgrows⟩ := hstep.next ih.inv
      exact ⟨hinv, ih.grows.trans hgrows⟩

/-- In any run the entries of two ids are the same only if the ids are, an entry that was
returned for an id is what every later call for it returns, a lookup without the lock finds
it or nothing, and every block is found from the root, but for the one that the holder of
the lock is about to put there. -/
theorem kphCidGetEntry_stable {block : ULongPtr} (hnull : block ≠ 0)
    (haligned : block &&& cidTableLevelMask = 0) {s s' : CidState τ}
    (hrun : Relation.ReflTransGen CidStep (CidState.created block) s)
    (hlater : Relation.ReflTransGen CidStep s s') :
    (∀ r ∈ s'.returned, ∀ r' ∈ s'.returned, ∀ e e', r.entry = some e → r'.entry = some e' →
      (e = e' ↔ kphpCidToId r.call.cid = kphpCidToId r'.call.cid)) ∧
    (∀ r ∈ s'.returned, ∀ e, r.entry = some e → ∀ cid,
      kphpCidToId cid = kphpCidToId r.call.cid → s'.known cid = some e) ∧
    (∀ r ∈ s'.returned, ∀ e, r.call.known = some e → r.entry = some e) ∧
    (∀ x ∈ s'.lookups, ∀ r ∈ s'.returned, ∀ e e', x.2 = some e → r.entry = some e' →
      (e = e' ↔ kphpCidToId x.1 = kphpCidToId r.call.cid)) ∧
    (∀ b, s.mem.Reaches b → s'.mem.Reaches b) ∧
    ∀ x ∈ s'.mem.allocated, s'.mem.Reaches x.1 ∨
      ∃ t, s'.lock = some t ∧ (s'.pc t).block = some x.1 := by
  have hinv := ((cidInv_created hnull haligned).run hrun).inv
  obtain ⟨h, hgrows⟩ := hinv.run hlater
  have hsame : ∀ {id id' e e' : Nat}, s'.mem.resolve id = some e → s'.mem.resolve id' = some e' →
      (e = e' ↔ id = id') := by
    intro id id' e e' he he'
    refine ⟨?_, ?_⟩
    · rintro rfl
      exact h.shape.resolve_injective he he'
    · rintro rfl
      exact Option.some.inj (he.symm.trans he')
  refine ⟨fun r hr r' hr' e e' he he' => ?_, fun r hr e he cid hid => ?_, fun r hr => ?_,
    fun x hx r hr e e' he he' => ?_, hgrows.reaches, fun x hx => ?_⟩
  · exact hsame ((h.returned r hr).1 e he) ((h.returned r' hr').1 e' he')
  · obtain ⟨e', hknown⟩ := known_isSome hr hid.symm he
    have hresolve := h.resolve_known hknown
    rw [hid] at hresolve
    rw [hknown, (hsame hresolve ((h.returned r hr).1 e he)).mpr rfl]
  · exact (h.returned r hr).2
  · exact hsame (h.lookups x hx e he) ((h.returned r hr).1 e' he')
  · rcases h.reach x hx with hreach | ⟨t, ht⟩
    · exact .inl hreach
    · refine .inr ⟨t, (h.owner t).mp ?_, ht⟩
      exact CidPc.locked_of_block ht

end

def goOn (n : Nat) (s : CidState Unit) : CidState Unit := (fun s => s.advance () none)^[n] s

theorem goOn_reachable (n : Nat) (s : CidState Unit) :
    Relation.ReflTransGen CidStep s (goOn n s) := by
  induction n generalizing s with
  | zero => exact .refl
  | succ n ih =>
      exact .head (.advance () none fun _ _ _ hno => (by cases hno)) (ih (s.advance () none))

def calling (s : CidState Unit) (cid : Nat) : CidState Unit :=
  { s.goto () (.lookup false) with call := Function.update s.call () ⟨cid, s.known cid⟩ }

theorem advance_some_reachable {s : CidState Unit} (level : ULongPtr) {block : ULongPtr}
    (hpc : (s.pc ()).allocates = some level) (hfresh : s.mem.Fresh level block) :
    Relation.ReflTransGen CidStep s (s.advance () (some block)) := by
  refine .single (.advance () (some block) fun level' block' hlevel hblock => ?_)
  obtain rfl := Option.some.inj (hpc.symm.trans hlevel)
  obtain rfl := Option.some.inj hblock
  exact hfresh

def firstState : CidState Unit := goOn 1 (calling (.created 0x1000) 4)

/-- After it a call for an id that takes a level one table. -/
def expandedState : CidState Unit :=
  let first := (goOn 4 (calling firstState 2400)).advance () (some 0x2000)
  let second := (goOn 2 first).advance () (some 0x3000)
  goOn 3 second

theorem firstState_reachable :
    Relation.ReflTransGen CidStep (CidState.created 0x1000) firstState :=
  .head (.kphCidGetEntry () 4 rfl) (goOn_reachable 1 _)

theorem expandedState_reachable : Relation.ReflTransGen CidStep firstState expandedState := by
  have hcall : CidStep firstState (calling firstState 2400) := .kphCidGetEntry () 2400 rfl
  refine .head hcall (.trans (goOn_reachable 4 _) (.trans (advance_some_reachable cidTableL1 ?_ ?_)
    (.trans (goOn_reachable 2 _) (.trans (advance_some_reachable cidTableL0 ?_ ?_)
    (goOn_reachable 3 _)))))
  · decide
  · refine ⟨by decide, by decide, by decide, fun other hmem => ?_⟩
    have hlist : (goOn 4 (calling firstState 2400)).mem.allocated = [(0x1000, cidTableL0)] := rfl
    rw [hlist] at hmem
    obtain rfl := List.mem_singleton.mp hmem
    exact .inr (by decide)
  · decide
  · refine ⟨by decide, by decide, by decide, fun other hmem => ?_⟩
    have hlist : (goOn 2 ((goOn 4 (calling firstState 2400)).advance () (some 0x2000))).mem.allocated =
        [(0x2000, cidTableL1), (0x1000, cidTableL0)] := rfl
    rw [hlist] at hmem
    rcases List.mem_cons.mp hmem with rfl | hmem
    · exact .inr (by decide)
    · obtain rfl := List.mem_singleton.mp hmem
      exact .inr (by decide)

theorem kphCidGetEntry_stable_expanded :
    expandedState.returned.map CidReturn.entry = [some (0x3000 + 704), some (0x1000 + 8)] ∧
      ∀ x ∈ expandedState.mem.allocated, expandedState.mem.Reaches x.1 ∨
        ∃ t, expandedState.lock = some t ∧ (expandedState.pc t).block = some x.1 :=
  ⟨by decide, (kphCidGetEntry_stable (by decide) (by decide) firstState_reachable
    expandedState_reachable).2.2.2.2.2⟩

end SystemInformer.Driver
