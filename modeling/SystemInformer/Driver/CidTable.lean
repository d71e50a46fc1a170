import SystemInformer.Driver.AtomicRef

/-!
# The CID table (`cid_table.c`)

The table is a tree of up to three levels. `Table->Table` is the address of its root with
the level in the two low bits; a root of level one is an array of addresses of level zero
blocks, and a root of level two an array of addresses of level one blocks.
`KphCidGetEntry` first looks up without a lock and then, under the spin lock, looks up
again and expands the tree: it puts a new root above the old one, or adds a block.

A step of a thread is one read or write of `Table->Table` or of a slot, one allocation, or
taking or giving up the lock. A block is told by its address, and `slot` is the memory of
the blocks of addresses; the entries of level zero blocks are only addressed here. `τ` are
the threads.
-/

namespace SystemInformer.Driver

def cidTableLevelMask : ULongPtr := 3
def cidTableL0 : ULongPtr := 0
def cidTableL1 : ULongPtr := 1
def cidTableL2 : ULongPtr := 2

def cidLimit : Nat := 2 ^ 24

/-- `PAGE_SIZE / sizeof(KPH_CID_TABLE_ENTRY)` and so on. -/
def cidL0Count : Nat := 512
def cidL1Count : Nat := 512
def cidL2Count : Nat := cidLimit / (cidL0Count * cidL1Count)

def cidMaxL0 : Nat := cidL0Count
def cidMaxL1 : Nat := cidL1Count * cidL0Count
def cidMaxL2 : Nat := cidL2Count * cidL1Count * cidL0Count
def cidMax : Nat := cidMaxL2

def kphpCidToId (cid : Nat) : Nat := cid / 4

def cidLevel (table : ULongPtr) : ULongPtr := table &&& cidTableLevelMask

def cidPointer (table : ULongPtr) : ULongPtr := table &&& ~~~cidTableLevelMask

/-- `&tableL0[i]`. -/
def cidEntry (tableL0 : ULongPtr) (i : Nat) : Nat := tableL0.toNat + 8 * i

def cidBlockSize (level : ULongPtr) : Nat :=
  if level = cidTableL2 then 8 * cidL2Count else 4096

/-- Where a thread is in `KphCidGetEntry`. -/
inductive CidPc where
  | idle
  /-- `KphpCidLookupEntry`, without the lock or with it. -/
  | lookup (locked : Bool)
  | lookupL2 (locked : Bool) (tableL2 : ULongPtr)
  | lookupL1 (locked : Bool) (tableL1 : ULongPtr) (index offset : Nat)
  /-- `KphpCidExpandTableFor`. -/
  | acquire
  | expand
  | allocateRoot (level table : ULongPtr)
  | linkRoot (level table block : ULongPtr)
  | publishRoot (level block : ULongPtr)
  | levelTwo (table : ULongPtr)
  | allocateL1 (tableL2 : ULongPtr)
  | storeL1 (tableL2 block : ULongPtr)
  | loadL1 (tableL2 : ULongPtr)
  | allocateL0 (tableL1 : ULongPtr) (index offset : Nat)
  | storeL0 (tableL1 : ULongPtr) (index offset : Nat) (block : ULongPtr)
  | loadL0 (tableL1 : ULongPtr) (index offset : Nat)
  | release (entry : Option Nat)

/-- A call: its argument, and an entry that an earlier call returned for the same id. -/
structure CidCall where
  cid : Nat
  known : Option Nat

structure CidReturn where
  call : CidCall
  entry : Option Nat

structure CidMem where
  /-- `Table->Table`. -/
  table : ULongPtr
  slot : ULongPtr → Nat → ULongPtr
  allocated : List (ULongPtr × ULongPtr)

structure CidState (τ : Type) where
  mem : CidMem
  /-- `Table->Lock`. -/
  lock : Option τ
  pc : τ → CidPc
  call : τ → CidCall
  /-- What lookups without the lock found, and what calls returned. -/
  lookups : List (Nat × Option Nat)
  returned : List CidReturn

namespace CidMem

def setSlot (m : CidMem) (block : ULongPtr) (i : Nat) (value : ULongPtr) : CidMem :=
  { m with slot := Function.update m.slot block (Function.update (m.slot block) i value) }

/-- `KphpCidAllocateTable`: the block is zeroed. -/
def kphpCidAllocateTable (m : CidMem) (level : ULongPtr) : Option ULongPtr → CidMem
  | none => m
  | some block =>
      { m with
        allocated := (block, level) :: m.allocated
        slot := Function.update m.slot block fun _ => 0 }

/-- An allocation gets a block that is aligned, not null and apart from all others. -/
structure Fresh (m : CidMem) (level block : ULongPtr) : Prop where
  notNull : block ≠ 0
  aligned : block &&& cidTableLevelMask = 0
  inside : block.toNat + cidBlockSize level ≤ 2 ^ 64
  disjoint : ∀ other ∈ m.allocated, block.toNat + cidBlockSize level ≤ other.1.toNat ∨
    other.1.toNat + cidBlockSize other.2 ≤ block.toNat

end CidMem

section

variable {τ : Type} [DecidableEq τ]

namespace CidState

def goto (s : CidState τ) (t : τ) (pc : CidPc) : CidState τ :=
  { s with pc := Function.update s.pc t pc }

def id (s : CidState τ) (t : τ) : Nat := kphpCidToId (s.call t).cid

def finish (s : CidState τ) (t : τ) (entry : Option Nat) : CidState τ :=
  { s.goto t .idle with returned := ⟨s.call t, entry⟩ :: s.returned }

/-- A lookup is over. Without the lock an id over the maximum is given up on. -/
def answer (s : CidState τ) (t : τ) (locked : Bool) (entry : Option Nat) : CidState τ :=
  if locked then
    match entry with
    | some entry => s.goto t (.release (some entry))
    | none => s.goto t .expand
  else
    let s := { s with lookups := ((s.call t).cid, entry) :: s.lookups }
    match entry with
    | some entry => s.finish t (some entry)
    | none => if s.id t ≥ cidMax then s.finish t none else s.goto t .acquire

end CidState

/-- Level one expansion: a new block in the table, or another level. -/
def cidLevelOne (id : Nat) (table : ULongPtr) : CidPc :=
  if id < cidMaxL1 then .allocateL0 (cidPointer table) (id / cidMaxL0) (id % cidMaxL0)
  else .allocateRoot cidTableL2 table

namespace CidState

/-- The next step of a thread; `alloc` is the block that an allocation gets, if it gets
one. -/
def advance (s : CidState τ) (t : τ) (alloc : Option ULongPtr) : CidState τ :=
  let id := s.id t
  match s.pc t with
  | .idle => s
  | .lookup locked =>
      let table := s.mem.table
      if cidLevel table = cidTableL0 then
        if id ≥ cidMaxL0 then s.answer t locked none
        else s.answer t locked (some (cidEntry (cidPointer table) id))
      else if cidLevel table = cidTableL1 then
        if id ≥ cidMaxL1 then s.answer t locked none
        else s.goto t (.lookupL1 locked (cidPointer table) (id / cidMaxL0) (id % cidMaxL0))
      else if cidLevel table = cidTableL2 then
        if id ≥ cidMaxL2 then s.answer t locked none
        else s.goto t (.lookupL2 locked (cidPointer table))
      else s.answer t locked none
  | .lookupL2 locked tableL2 =>
      let tableL1 := s.mem.slot tableL2 (id / cidMaxL1)
      if tableL1 = 0 then s.answer t locked none
      else s.goto t
        (.lookupL1 locked tableL1 (id % cidMaxL1 / cidMaxL0) (id % cidMaxL1 % cidMaxL0))
  | .lookupL1 locked tableL1 index offset =>
      let tableL0 := s.mem.slot tableL1 index
      if tableL0 = 0 then s.answer t locked none
      else s.answer t locked (some (cidEntry tableL0 offset))
  | .acquire => if s.lock = none then { s.goto t (.lookup true) with lock := some t } else s
  | .expand =>
      let table := s.mem.table
      if cidLevel table = cidTableL0 then s.goto t (.allocateRoot cidTableL1 table)
      else if cidLevel table = cidTableL1 then s.goto t (cidLevelOne id table)
      else s.goto t (.levelTwo table)
  | .allocateRoot level table =>
      match alloc with
      | none => s.goto t (.release none)
      | some block =>
          { s with mem := s.mem.kphpCidAllocateTable level (some block) }.goto t
            (.linkRoot level table block)
  | .linkRoot level table block =>
      { s with mem := s.mem.setSlot block 0 (cidPointer table) }.goto t (.publishRoot level block)
  | .publishRoot level block =>
      let table := block ||| level
      { s with mem := { s.mem with table := table } }.goto t
        (if level = cidTableL1 then cidLevelOne id table else .levelTwo table)
  | .levelTwo table =>
      let tableL2 := cidPointer table
      let tableL1 := s.mem.slot tableL2 (id / cidMaxL1)
      if tableL1 = 0 then s.goto t (.allocateL1 tableL2)
      else s.goto t (.allocateL0 tableL1 (id % cidMaxL1 / cidMaxL0) (id % cidMaxL1 % cidMaxL0))
  | .allocateL1 tableL2 =>
      { s with mem := s.mem.kphpCidAllocateTable cidTableL1 alloc }.goto t
        (.storeL1 tableL2 (alloc.getD 0))
  | .storeL1 tableL2 block =>
      { s with mem := s.mem.setSlot tableL2 (id / cidMaxL1) block }.goto t (.loadL1 tableL2)
  | .loadL1 tableL2 =>
      let tableL1 := s.mem.slot tableL2 (id / cidMaxL1)
      if tableL1 = 0 then s.goto t (.release none)
      else s.goto t (.allocateL0 tableL1 (id % cidMaxL1 / cidMaxL0) (id % cidMaxL1 % cidMaxL0))
  | .allocateL0 tableL1 index offset =>
      { s with mem := s.mem.kphpCidAllocateTable cidTableL0 alloc }.goto t
        (.storeL0 tableL1 index offset (alloc.getD 0))
  | .storeL0 tableL1 index offset block =>
      { s with mem := s.mem.setSlot tableL1 index block }.goto t (.loadL0 tableL1 index offset)
  | .loadL0 tableL1 index offset =>
      let tableL0 := s.mem.slot tableL1 index
      if tableL0 = 0 then s.goto t (.release none)
      else s.goto t (.release (some (cidEntry tableL0 offset)))
  | .release entry => { s with lock := none }.finish t entry

/-- An entry that was returned for the id of `cid`. -/
def known (s : CidState τ) (cid : Nat) : Option Nat :=
  (s.returned.find? fun r => decide (kphpCidToId r.call.cid = kphpCidToId cid) && r.entry.isSome).bind
    CidReturn.entry

end CidState

/-- The level of the block that a thread is about to allocate. -/
def CidPc.allocates : CidPc → Option ULongPtr
  | .allocateRoot level _ => some level
  | .allocateL1 _ => some cidTableL1
  | .allocateL0 _ _ _ => some cidTableL0
  | _ => none

inductive CidStep : CidState τ → CidState τ → Prop where
  | advance {s : CidState τ} (t : τ) (alloc : Option ULongPtr)
      (hfresh : ∀ level block, (s.pc t).allocates = some level → alloc = some block →
        s.mem.Fresh level block) : CidStep s (s.advance t alloc)
  | kphCidGetEntry {s : CidState τ} (t : τ) (cid : Nat) (hpc : s.pc t = .idle) :
      CidStep s
        { s.goto t (.lookup false) with
          call := Function.update s.call t ⟨cid, s.known cid⟩ }

/-- `KphCidTableCreate`, with the block it got. -/
def CidState.created (block : ULongPtr) : CidState τ where
  mem := ⟨block, fun _ _ => 0, [(block, cidTableL0)]⟩
  lock := none
  pc := fun _ => .idle
  call := fun _ => ⟨0, none⟩
  lookups := []
  returned := []

end

end SystemInformer.Driver
