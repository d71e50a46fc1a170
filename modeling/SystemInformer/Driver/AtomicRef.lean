import SystemInformer.Base.Nt

/-!
# Objects and atomic object references (`kphobject.c`)

An object has a reference count. An atomic object reference is one word: the address of
the object it manages, with a lock in the four low bits, three of them a count of shared
holders and the fourth the exclusive flag. `KphAtomicReferenceObject` holds the lock
shared while it reads the address and references the object;
`KphpAtomicStoreObjectReference` holds it exclusively while it exchanges the address.

A step of a thread is one access to a word or one update of a count. `τ` are the threads
and `ρ` the atomic references. A thread owns references to objects: it gives one away when
it stores an object, and gets one for the object it took out. An object whose count has
dropped to zero is condemned, and is deleted later, by the same thread or by the worker of
the deferred deletions. The memory of a deleted object may be used for another.
-/

namespace SystemInformer.Driver

abbrev ULongPtr := BitVec 64

def atomicObjectRefSharedMax : ULongPtr := 7
def atomicObjectRefLockMask : ULongPtr := 0x000000000000000f
def atomicObjectRefObjectMask : ULongPtr := 0xfffffffffffffff0
def atomicObjectRefExclusiveFlag : ULongPtr := 8

/-- Where a thread is. The routines are inlined into each other as the source calls them;
`assign` tells `KphAtomicAssignObjectReference` from `KphAtomicMoveObjectReference`. -/
inductive RefPc (ρ : Type) where
  | idle
  /-- `KphpAtomicAcquireObjectLockShared`: the read, and the exchange of what was read. -/
  | sharedRead (ref : ρ)
  | sharedExchange (ref : ρ) (object : ULongPtr)
  /-- `KphAtomicReferenceObject` under the lock. -/
  | referenceLoad (ref : ρ)
  | referenceIncrement (ref : ρ) (object : ULongPtr)
  /-- `KphpAtomicReleaseObjectLockShared`, with the object to return and its count before
  it was incremented. -/
  | sharedRelease (ref : ρ) (object : ULongPtr) (before : Int)
  | assignIncrement (ref : ρ) (object : ULongPtr)
  /-- `KphpAtomicAcquireObjectLockExclusive`: the read, the exchange of what was read, and
  the wait for the shared holders with the word last read. -/
  | exclusiveRead (ref : ρ) (object : ULongPtr) (assign : Bool)
  | exclusiveExchange (ref : ρ) (object : ULongPtr) (assign : Bool) (expected : ULongPtr)
  | exclusiveWait (ref : ρ) (object : ULongPtr) (assign : Bool) (read : ULongPtr)
  /-- `KphpAtomicStoreObjectReference` under the lock. -/
  | storeLoad (ref : ρ) (object : ULongPtr) (assign : Bool)
  | storeExchange (ref : ρ) (object : ULongPtr) (assign : Bool) (previous : ULongPtr)
  | exclusiveRelease (ref : ρ) (assign : Bool) (previous : ULongPtr)
  | dereference (object : ULongPtr)

structure RefState (τ ρ : Type) where
  /-- `ObjectRef->Object`. -/
  word : ρ → ULongPtr
  /-- `PointerCount`. -/
  pointerCount : ULongPtr → Int
  pc : τ → RefPc ρ
  owned : τ → ULongPtr → Nat
  condemned : List ULongPtr
  live : ULongPtr → Bool
  /-- How many objects were created and deleted at an address. -/
  created : ULongPtr → Nat
  deleted : ULongPtr → Nat

section

variable {τ ρ : Type} [DecidableEq τ] [DecidableEq ρ]

namespace RefState

def goto (s : RefState τ ρ) (t : τ) (pc : RefPc ρ) : RefState τ ρ :=
  { s with pc := Function.update s.pc t pc }

def setWord (s : RefState τ ρ) (ref : ρ) (word : ULongPtr) : RefState τ ρ :=
  { s with word := Function.update s.word ref word }

/-- The thread comes to own one reference more; to null there are none. -/
def take (s : RefState τ ρ) (t : τ) (object : ULongPtr) : RefState τ ρ :=
  if object = 0 then s
  else
    { s with
      owned := Function.update s.owned t
        (Function.update (s.owned t) object (s.owned t object + 1)) }

def give (s : RefState τ ρ) (t : τ) (object : ULongPtr) : RefState τ ρ :=
  if object = 0 then s
  else
    { s with
      owned := Function.update s.owned t
        (Function.update (s.owned t) object (s.owned t object - 1)) }

def kphReferenceObject (s : RefState τ ρ) (t : τ) (object : ULongPtr) : RefState τ ρ :=
  { s.take t object with
    pointerCount := Function.update s.pointerCount object (s.pointerCount object + 1) }

def kphDereferenceObject (s : RefState τ ρ) (t : τ) (object : ULongPtr) : RefState τ ρ :=
  let refCount := s.pointerCount object - 1
  { s.give t object with
    pointerCount := Function.update s.pointerCount object refCount
    condemned := if refCount > 0 then s.condemned else object :: s.condemned }

def advance (s : RefState τ ρ) (t : τ) : RefState τ ρ :=
  match s.pc t with
  | .idle => s
  | .sharedRead ref =>
      let object := s.word ref
      if object &&& atomicObjectRefLockMask ≥ atomicObjectRefSharedMax then s
      else s.goto t (.sharedExchange ref object)
  | .sharedExchange ref object =>
      if s.word ref = object then (s.setWord ref (object + 1)).goto t (.referenceLoad ref)
      else s.goto t (.sharedRead ref)
  | .referenceLoad ref =>
      let object := s.word ref &&& atomicObjectRefObjectMask
      if object ≠ 0 then s.goto t (.referenceIncrement ref object)
      else s.goto t (.sharedRelease ref 0 0)
  | .referenceIncrement ref object =>
      (s.kphReferenceObject t object).goto t (.sharedRelease ref object (s.pointerCount object))
  | .sharedRelease ref _ _ => (s.setWord ref (s.word ref - 1)).goto t .idle
  | .assignIncrement ref object =>
      (s.kphReferenceObject t object).goto t (.exclusiveRead ref object true)
  | .exclusiveRead ref object assign =>
      let read := s.word ref
      if read &&& atomicObjectRefExclusiveFlag ≠ 0 then s
      else s.goto t (.exclusiveExchange ref object assign read)
  | .exclusiveExchange ref object assign expected =>
      if s.word ref = expected then
        (s.setWord ref (expected ||| atomicObjectRefExclusiveFlag)).goto t
          (.exclusiveWait ref object assign expected)
      else s.goto t (.exclusiveRead ref object assign)
  | .exclusiveWait ref object assign read =>
      if read &&& atomicObjectRefSharedMax ≠ 0 then
        s.goto t (.exclusiveWait ref object assign (s.word ref))
      else s.goto t (.storeLoad ref object assign)
  | .storeLoad ref object assign =>
      s.goto t (.storeExchange ref object assign (s.word ref &&& atomicObjectRefObjectMask))
  | .storeExchange ref object assign previous =>
      (((s.setWord ref (object ||| atomicObjectRefExclusiveFlag)).give t object).take t
        previous).goto t (.exclusiveRelease ref assign previous)
  | .exclusiveRelease ref assign previous =>
      (s.setWord ref (s.word ref &&& ~~~atomicObjectRefExclusiveFlag)).goto t
        (if assign ∧ previous ≠ 0 then .dereference previous else .idle)
  | .dereference object => (s.kphDereferenceObject t object).goto t .idle

end RefState

/-- A thread goes on, calls a routine, creates an object, or a condemned object is
deleted. A routine is called for an object that the caller owns a reference to. -/
inductive RefStep : RefState τ ρ → RefState τ ρ → Prop where
  | advance {s : RefState τ ρ} (t : τ) : RefStep s (s.advance t)
  | kphAtomicReferenceObject {s : RefState τ ρ} (t : τ) (ref : ρ) (hpc : s.pc t = .idle) :
      RefStep s (s.goto t (.sharedRead ref))
  | kphAtomicAssignObjectReference {s : RefState τ ρ} (t : τ) (ref : ρ) (object : ULongPtr)
      (hpc : s.pc t = .idle) (howned : object = 0 ∨ 0 < s.owned t object) :
      RefStep s (s.goto t
        (if object ≠ 0 then .assignIncrement ref object else .exclusiveRead ref 0 true))
  | kphAtomicMoveObjectReference {s : RefState τ ρ} (t : τ) (ref : ρ) (object : ULongPtr)
      (hpc : s.pc t = .idle) (howned : object = 0 ∨ 0 < s.owned t object) :
      RefStep s (s.goto t (.exclusiveRead ref object false))
  | kphReferenceObject {s : RefState τ ρ} (t : τ) (object : ULongPtr) (hpc : s.pc t = .idle)
      (howned : 0 < s.owned t object) (hobject : object ≠ 0) :
      RefStep s (s.kphReferenceObject t object)
  | kphDereferenceObject {s : RefState τ ρ} (t : τ) (object : ULongPtr) (hpc : s.pc t = .idle)
      (howned : 0 < s.owned t object) (hobject : object ≠ 0) :
      RefStep s (s.goto t (.dereference object))
  | create {s : RefState τ ρ} (t : τ) (object : ULongPtr) (hpc : s.pc t = .idle)
      (hobject : object ≠ 0) (haligned : object &&& atomicObjectRefLockMask = 0)
      (hfree : s.live object = false) :
      RefStep s
        { s.take t object with
          pointerCount := Function.update s.pointerCount object 1
          live := Function.update s.live object true
          created := Function.update s.created object (s.created object + 1) }
  | delete {s : RefState τ ρ} (object : ULongPtr) (hmem : object ∈ s.condemned) :
      RefStep s
        { s with
          condemned := s.condemned.erase object
          live := Function.update s.live object false
          deleted := Function.update s.deleted object (s.deleted object + 1) }

/-- No objects, and every reference null. -/
def RefState.start : RefState τ ρ where
  word := fun _ => 0
  pointerCount := fun _ => 0
  pc := fun _ => .idle
  owned := fun _ _ => 0
  condemned := []
  live := fun _ => false
  created := fun _ => 0
  deleted := fun _ => 0

end

end SystemInformer.Driver
