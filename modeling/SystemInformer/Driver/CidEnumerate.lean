import SystemInformer.Driver.CidTable
import SystemInformer.Lib.Loops

/-!
# Enumeration, rundown and deletion of a CID table (`cid_table.c`)

A table is used by calls of `KphCidGetEntry` and by calls of `KphCidAssignObject` with the
entries they returned. `object` has the object reference of each entry by the address of the
entry; the blocks are allocated zeroed. What is done to the references of objects, and each
call of a callback, is an event; `references` counts the references of each object that the
table took and has not released.

The traversals run when no call of `KphCidGetEntry` is under way, and their callbacks leave
the table alone. A callback works on a state of its own.
-/

namespace SystemInformer.Driver

open Loops

inductive CidEvent (ω : Type) where
  | kphReferenceObject (object : ω)
  | kphDereferenceObject (object : ω)
  | callback (object : ω)
  deriving DecidableEq

/-- The callback of `KphpCidEnumerate`, with the state `σ` it keeps. -/
inductive CidCallback (ω σ : Type) where
  | enumerate (callback : σ → ω → σ × Bool)
  | rundown (callback : σ → ω → σ)

structure CidVisit (ω σ : Type) where
  object : Nat → Option ω
  events : List (CidEvent ω)
  parameter : σ

variable {ω σ : Type}

def kphpCidEnumerateInvokeCallback (callback : CidCallback ω σ) (entry : Nat) (v : CidVisit ω σ) :
    Bool × CidVisit ω σ :=
  match callback with
  | .enumerate callback =>
      match v.object entry with
      | none => (false, v)
      | some object =>
          let (parameter, res) := callback v.parameter object
          (res,
            { v with
              events := v.events ++
                [.kphReferenceObject object, .callback object, .kphDereferenceObject object]
              parameter := parameter })
  | .rundown callback =>
      -- KphAtomicMoveObjectReference
      let object := v.object entry
      let v := { v with object := Function.update v.object entry none }
      match object with
      | none => (false, v)
      | some object =>
          (false,
            { v with
              events := v.events ++ [.callback object, .kphDereferenceObject object]
              parameter := callback v.parameter object })

namespace CidMem

def enumerateL0 (callback : CidCallback ω σ) (tableL0 : ULongPtr) :
    CidVisit ω σ → Bool × CidVisit ω σ :=
  untilStop (fun i => kphpCidEnumerateInvokeCallback callback (cidEntry tableL0 i))
    (List.range cidL0Count)

def enumerateL1 (m : CidMem) (callback : CidCallback ω σ) (tableL1 : ULongPtr) :
    CidVisit ω σ → Bool × CidVisit ω σ :=
  untilStop
    (fun i v =>
      let tableL0 := m.slot tableL1 i
      if tableL0 = 0 then (false, v) else enumerateL0 callback tableL0 v)
    (List.range cidL1Count)

def enumerateL2 (m : CidMem) (callback : CidCallback ω σ) (tableL2 : ULongPtr) :
    CidVisit ω σ → Bool × CidVisit ω σ :=
  untilStop
    (fun i v =>
      let tableL1 := m.slot tableL2 i
      if tableL1 = 0 then (false, v) else m.enumerateL1 callback tableL1 v)
    (List.range cidL2Count)

def kphpCidEnumerate (m : CidMem) (callback : CidCallback ω σ) (v : CidVisit ω σ) : CidVisit ω σ :=
  if m.table = 0 then v
  else if cidLevel m.table = cidTableL0 then (enumerateL0 callback (cidPointer m.table) v).2
  else if cidLevel m.table = cidTableL1 then (m.enumerateL1 callback (cidPointer m.table) v).2
  else if cidLevel m.table = cidTableL2 then (m.enumerateL2 callback (cidPointer m.table) v).2
  else v

def kphCidEnumerate (m : CidMem) (callback : σ → ω → σ × Bool) (v : CidVisit ω σ) : CidVisit ω σ :=
  m.kphpCidEnumerate (.enumerate callback) v

def kphCidRundown (m : CidMem) (callback : σ → ω → σ) (v : CidVisit ω σ) : CidVisit ω σ :=
  m.kphpCidEnumerate (.rundown callback) v

/-- What `KphCidTableDelete` frees for a level one block. -/
def freeL1 (m : CidMem) (tableL1 : ULongPtr) : List ULongPtr :=
  ((List.range cidL1Count).flatMap fun i =>
    if m.slot tableL1 i ≠ 0 then [m.slot tableL1 i] else []) ++ [tableL1]

/-- What `KphCidTableDelete` frees, in that order. -/
def kphCidTableDelete (m : CidMem) : List ULongPtr :=
  if m.table = 0 then []
  else if cidLevel m.table = cidTableL0 then [cidPointer m.table]
  else if cidLevel m.table = cidTableL1 then m.freeL1 (cidPointer m.table)
  else if cidLevel m.table = cidTableL2 then
    ((List.range cidL2Count).flatMap fun i =>
      let tableL1 := m.slot (cidPointer m.table) i
      if tableL1 = 0 then [] else m.freeL1 tableL1) ++ [cidPointer m.table]
  else []

/-- `KphpCidLookupEntry` when nothing else runs. -/
def kphpCidLookupEntry (m : CidMem) (cid : Nat) : Option Nat :=
  let id := kphpCidToId cid
  if cidLevel m.table = cidTableL0 then
    if id ≥ cidMaxL0 then none else some (cidEntry (cidPointer m.table) id)
  else if cidLevel m.table = cidTableL1 then
    if id ≥ cidMaxL1 then none
    else
      let tableL0 := m.slot (cidPointer m.table) (id / cidMaxL0)
      if tableL0 = 0 then none else some (cidEntry tableL0 (id % cidMaxL0))
  else if cidLevel m.table = cidTableL2 then
    if id ≥ cidMaxL2 then none
    else
      let tableL1 := m.slot (cidPointer m.table) (id / cidMaxL1)
      if tableL1 = 0 then none
      else
        let tableL0 := m.slot tableL1 (id % cidMaxL1 / cidMaxL0)
        if tableL0 = 0 then none else some (cidEntry tableL0 (id % cidMaxL1 % cidMaxL0))
  else none

end CidMem

structure CidTable (τ ω : Type) where
  state : CidState τ
  object : Nat → Option ω
  references : ω → Int

section

variable {τ : Type} [DecidableEq τ] [DecidableEq ω]

def zeroEntries (object : Nat → Option ω) (block level : ULongPtr) : Nat → Option ω :=
  fun entry =>
    if block.toNat ≤ entry ∧ entry < block.toNat + cidBlockSize level then none else object entry

namespace CidTable

def count (references : ω → Int) (object : Option ω) (change : Int) : ω → Int :=
  match object with
  | none => references
  | some object => Function.update references object (references object + change)

/-- A thread goes on in `KphCidGetEntry`. -/
def advance (w : CidTable τ ω) (t : τ) (alloc : Option ULongPtr) : CidTable τ ω :=
  { w with
    state := w.state.advance t alloc
    object :=
      match (w.state.pc t).allocates, alloc with
      | some level, some block => zeroEntries w.object block level
      | _, _ => w.object }

/-- The new object is referenced, and what the entry had is dereferenced. -/
def kphCidAssignObject (w : CidTable τ ω) (entry : Nat) (object : Option ω) : CidTable τ ω :=
  { w with
    object := Function.update w.object entry object
    references := count (count w.references object 1) (w.object entry) (-1) }

/-- `KphCidTableCreate`, with the block it got and what other memory holds. -/
def kphCidTableCreate (block : ULongPtr) (memory : Nat → Option ω) : CidTable τ ω where
  state := .created block
  object := zeroEntries memory block cidTableL0
  references _ := 0

end CidTable

inductive CidTableStep : CidTable τ ω → CidTable τ ω → Prop where
  | advance {w : CidTable τ ω} (t : τ) (alloc : Option ULongPtr)
      (hfresh : ∀ level block, (w.state.pc t).allocates = some level → alloc = some block →
        w.state.mem.Fresh level block) : CidTableStep w (w.advance t alloc)
  | kphCidGetEntry {w : CidTable τ ω} (t : τ) (cid : Nat) (hpc : w.state.pc t = .idle) :
      CidTableStep w
        { w with
          state := { w.state.goto t (.lookup false) with
            call := Function.update w.state.call t ⟨cid, w.state.known cid⟩ } }
  | kphCidAssignObject {w : CidTable τ ω} (r : CidReturn) (entry : Nat) (object : Option ω)
      (hreturned : r ∈ w.state.returned) (hentry : r.entry = some entry) :
      CidTableStep w (w.kphCidAssignObject entry object)

end

end SystemInformer.Driver
