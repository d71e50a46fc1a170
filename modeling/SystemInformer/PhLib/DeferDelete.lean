import SystemInformer.Base.Words
import SystemInformer.Lib.BitField

/-!
# Deferred deletion of objects (`ref.c`)

An object whose last reference goes away may be freed later, by a work item. It waits on a
list that is linked through its header, over the type index and the flags; these are saved
in the place of the reference count before. A work item flushes the list and frees what was
on it. It is queued by the thread that found the list empty before it pushed its object.

A step is one read or write of a header, one operation on the list, or one on the work queue;
freeing an object is one step. `id` tells which object lives at an address, numbered as they
are created, and `owned` how many references to it there are; `freed` has the objects that were
freed, with the type index and the flags they were freed with. `τ` are the threads, and the
workers are among them.
-/

namespace SystemInformer.PhLib

/-- The header of an object: the type index and the flags, or the link of the list, and the
reference count, or the saved type index and flags. -/
structure ObjectHeader where
  link : ULongPtr
  refCount : ULong

namespace ObjectHeader

def typeIndex (h : ObjectHeader) : BitVec 16 := BitField.get 0 16 h.link

def flags (h : ObjectHeader) : BitVec 8 := BitField.get 16 8 h.link

def savedTypeIndex (h : ObjectHeader) : BitVec 16 := BitField.get 0 16 h.refCount

def savedFlags (h : ObjectHeader) : BitVec 8 := BitField.get 16 8 h.refCount

def setTypeIndex (h : ObjectHeader) (typeIndex : BitVec 16) : ObjectHeader :=
  { h with link := BitField.put 0 typeIndex h.link }

def setFlags (h : ObjectHeader) (flags : BitVec 8) : ObjectHeader :=
  { h with link := BitField.put 16 flags h.link }

def setSavedTypeIndex (h : ObjectHeader) (typeIndex : BitVec 16) : ObjectHeader :=
  { h with refCount := BitField.put 0 typeIndex h.refCount }

def setSavedFlags (h : ObjectHeader) (flags : BitVec 8) : ObjectHeader :=
  { h with refCount := BitField.put 16 flags h.refCount }

def setDeferDelete (h : ObjectHeader) : ObjectHeader :=
  { h with refCount := BitField.put 31 (1 : BitVec 1) h.refCount }

end ObjectHeader

structure ObjectKind where
  typeIndex : BitVec 16
  flags : BitVec 8
deriving DecidableEq

def ObjectHeader.kind (h : ObjectHeader) : ObjectKind := ⟨h.typeIndex, h.flags⟩

/-- Where a thread is, with the header it works on. -/
inductive DeferPc where
  | idle
  /-- `PhpDeferDeleteObject`. -/
  | markDeferDelete (object : ULongPtr)
  | saveTypeIndex (object : ULongPtr)
  | saveFlags (object : ULongPtr)
  | firstEntry (object : ULongPtr)
  | push (object oldFirstEntry : ULongPtr)
  | queueItem
  /-- `PhpDeferDeleteObjectRoutine`. -/
  | flush
  | walk (listEntry : ULongPtr)
  | restoreTypeIndex (object listEntry : ULongPtr)
  | restoreFlags (object listEntry : ULongPtr)
  | free (object listEntry : ULongPtr)
deriving DecidableEq

structure DeferState (τ : Type) where
  header : ULongPtr → ObjectHeader
  id : ULongPtr → Option Nat
  owned : ULongPtr → Nat
  created : List ObjectKind
  listHead : ULongPtr
  queued : Nat
  freed : List (Nat × ObjectKind)
  pc : τ → DeferPc

section

variable {τ : Type} [DecidableEq τ]

namespace DeferState

def goto (s : DeferState τ) (t : τ) (pc : DeferPc) : DeferState τ :=
  { s with pc := Function.update s.pc t pc }

def setHeader (s : DeferState τ) (object : ULongPtr) (header : ObjectHeader) : DeferState τ :=
  { s with header := Function.update s.header object header }

def phpFreeObject (s : DeferState τ) (object : ULongPtr) : DeferState τ :=
  { s with
    id := Function.update s.id object none
    freed := (s.id object).elim s.freed fun i => (i, (s.header object).kind) :: s.freed }

/-- `PhCreateObject`, at an address that is not in use. -/
def phCreateObject (s : DeferState τ) (object : ULongPtr) (kind : ObjectKind) : DeferState τ :=
  { s.setHeader object
      { ((s.header object).setFlags kind.flags).setTypeIndex kind.typeIndex with refCount := 1 } with
    id := Function.update s.id object (some s.created.length)
    owned := Function.update s.owned object 1
    created := s.created ++ [kind] }

def phReferenceObjectEx (s : DeferState τ) (object : ULongPtr) (refCount : Nat) : DeferState τ :=
  { s.setHeader object
      { s.header object with refCount := (s.header object).refCount + BitVec.ofNat 32 refCount } with
    owned := Function.update s.owned object (s.owned object + refCount) }

def phDereferenceObjectEx (s : DeferState τ) (t : τ) (object : ULongPtr) (refCount : Nat)
    (deferDelete : Bool) : DeferState τ :=
  let newRefCount := (s.header object).refCount - BitVec.ofNat 32 refCount
  let s' : DeferState τ :=
    { s.setHeader object { s.header object with refCount := newRefCount } with
      owned := Function.update s.owned object (s.owned object - refCount) }
  if newRefCount = 0 then
    if deferDelete then s'.goto t (.markDeferDelete object) else s'.phpFreeObject object
  else s'

def advance (s : DeferState τ) (t : τ) : DeferState τ :=
  match s.pc t with
  | .idle => s
  | .markDeferDelete object =>
      (s.setHeader object (s.header object).setDeferDelete).goto t (.saveTypeIndex object)
  | .saveTypeIndex object =>
      (s.setHeader object ((s.header object).setSavedTypeIndex (s.header object).typeIndex)).goto t
        (.saveFlags object)
  | .saveFlags object =>
      (s.setHeader object ((s.header object).setSavedFlags (s.header object).flags)).goto t
        (.firstEntry object)
  | .firstEntry object => s.goto t (.push object s.listHead)
  | .push object oldFirstEntry =>
      { s.setHeader object { s.header object with link := s.listHead } with
        listHead := object }.goto t (if oldFirstEntry = 0 then .queueItem else .idle)
  | .queueItem => { s with queued := s.queued + 1 }.goto t .idle
  | .flush => { s with listHead := 0 }.goto t (.walk s.listHead)
  | .walk listEntry =>
      if listEntry = 0 then s.goto t .idle
      else s.goto t (.restoreTypeIndex listEntry (s.header listEntry).link)
  | .restoreTypeIndex object listEntry =>
      (s.setHeader object ((s.header object).setTypeIndex (s.header object).savedTypeIndex)).goto t
        (.restoreFlags object listEntry)
  | .restoreFlags object listEntry =>
      (s.setHeader object ((s.header object).setFlags (s.header object).savedFlags)).goto t
        (.free object listEntry)
  | .free object listEntry => (s.phpFreeObject object).goto t (.walk listEntry)

def start (header : ULongPtr → ObjectHeader) : DeferState τ where
  header := header
  id := fun _ => none
  owned := fun _ => 0
  created := []
  listHead := 0
  queued := 0
  freed := []
  pc := fun _ => .idle

end DeferState

/-- The steps of the threads; `allowed` tells which may go on, and `room` which references
may be taken. Only references that there are can be added to or removed. -/
inductive DeferStep (allowed : DeferState τ → τ → Prop) (room : Nat → Prop) :
    DeferState τ → DeferState τ → Prop where
  | advance {s : DeferState τ} (t : τ) (hallowed : allowed s t) :
      DeferStep allowed room s (s.advance t)
  | create {s : DeferState τ} (object : ULongPtr) (kind : ObjectKind) (hnull : object ≠ 0)
      (hfree : s.id object = none) : DeferStep allowed room s (s.phCreateObject object kind)
  | reference {s : DeferState τ} (object : ULongPtr) (refCount : Nat) (hsome : 0 < s.owned object)
      (hroom : room (s.owned object + refCount)) :
      DeferStep allowed room s (s.phReferenceObjectEx object refCount)
  | dereference {s : DeferState τ} (t : τ) (object : ULongPtr) (refCount : Nat)
      (deferDelete : Bool) (hidle : s.pc t = .idle) (hsome : 0 < s.owned object)
      (hle : refCount ≤ s.owned object) :
      DeferStep allowed room s (s.phDereferenceObjectEx t object refCount deferDelete)
  | run {s : DeferState τ} (t : τ) (hidle : s.pc t = .idle) (hqueued : 0 < s.queued) :
      DeferStep allowed room s ({ s with queued := s.queued - 1 }.goto t .flush)

end

end SystemInformer.PhLib
