import SystemInformer.Base.Words

/-!
# Names of file objects (`informer_filenc.c`)

The name of a file object is put together from the name of its volume and its own name, and is
kept in one of three places: in an object of the file name cache, which is a list under a spin
lock; in a stream handle context, which the filter manager keeps; or in memory of the caller. The
length of the two names is a `ULONG`, and the size of the string that is to hold them a `USHORT`.

A step of a thread is one critical section under `KphpFileNameCacheLock`, one update of a reference
count, or one call that makes an object, a context or a copy. `τ` are the threads, `φ` the file
objects, `ι` the instances of the filter and `κ` the addresses of cached names, where a name may be
stored after another one was freed. The cache is cleaned up after the filter was unregistered,
which waits for the calls in progress.
-/

namespace SystemInformer.Driver

open PhLib (WChar)

/-! ## Putting a name together -/

/-- The names of file objects and of their volumes, which are strings of a counted length.
`FltGetVolumeName` may leave anything in a string that is too small for the volume's name. -/
structure FltNames (φ : Type) where
  volumeName : φ → List WChar
  fileName : φ → List WChar
  tooSmall : φ → UInt16 → List WChar
  volumeName_lt : ∀ f, 2 * (volumeName f).length < 2 ^ 16
  fileName_lt : ∀ f, 2 * (fileName f).length < 2 ^ 16
  tooSmall_le : ∀ f maximumLength, 2 * (tooSmall f maximumLength).length ≤ maximumLength.toNat

namespace FltNames

variable {φ : Type} (names : FltNames φ)

/-- `FltGetVolumeName` with a string of a size. -/
def fltGetVolumeName (f : φ) (maximumLength : UInt16) : List WChar :=
  if 2 * (names.volumeName f).length ≤ maximumLength.toNat then names.volumeName f
  else names.tooSmall f maximumLength

end FltNames

/-- `RtlAppendUnicodeStringToString`: a string that is too small is left as it is. -/
def rtlAppendUnicodeStringToString (destination : List WChar) (maximumLength : UInt16)
    (source : List WChar) : List WChar :=
  if 2 * source.length + 2 * destination.length ≤ maximumLength.toNat then destination ++ source
  else destination

namespace FltNames

variable {φ : Type} (names : FltNames φ)

def kphpFltNameCacheFileNameLength (f : φ) : UInt32 :=
  UInt32.ofNat (2 * (names.volumeName f).length) + UInt32.ofNat (2 * (names.fileName f).length)

def kphpFltNameCacheCopyFileName (f : φ) (maximumLength : UInt16) : List WChar :=
  rtlAppendUnicodeStringToString (names.fltGetVolumeName f maximumLength) maximumLength
    (names.fileName f)

/-- The name that is made for a file object: `MaximumLength` is `(USHORT)length`. -/
def makeFileName (f : φ) : List WChar :=
  names.kphpFltNameCacheCopyFileName f (names.kphpFltNameCacheFileNameLength f).toUInt16

end FltNames

/-! ## Cached names -/

/-- The objects of `KphpCachedFileNameType`: their file objects and names, and their reference
counts; and how many were created and freed at an address. -/
structure NameObjects (κ φ : Type) where
  entry : κ → Option (φ × List WChar)
  pointerCount : κ → Nat
  created : κ → Nat
  freed : κ → Nat

namespace NameObjects

variable {κ φ : Type} [DecidableEq κ]

/-- `FileObject` of a cached name. -/
def fileObject (h : NameObjects κ φ) (e : κ) : Option φ := (h.entry e).map Prod.fst

/-- `KphCreateObject`, with what is stored before the name is listed. -/
def kphCreateObject (h : NameObjects κ φ) (e : κ) (f : φ) (name : List WChar) :
    NameObjects κ φ where
  entry := Function.update h.entry e (some (f, name))
  pointerCount := Function.update h.pointerCount e 1
  created := Function.update h.created e (h.created e + 1)
  freed := h.freed

def kphReferenceObject (h : NameObjects κ φ) (e : κ) : NameObjects κ φ :=
  { h with pointerCount := Function.update h.pointerCount e (h.pointerCount e + 1) }

/-- `KphDereferenceObject`; the type has no deferred deletion. -/
def kphDereferenceObject (h : NameObjects κ φ) (e : κ) : NameObjects κ φ :=
  let refCount := h.pointerCount e - 1
  if refCount > 0 then
    { h with pointerCount := Function.update h.pointerCount e refCount }
  else
    { h with
      entry := Function.update h.entry e none
      pointerCount := Function.update h.pointerCount e refCount
      freed := Function.update h.freed e (h.freed e + 1) }

end NameObjects

/-! ## The system -/

/-- `KPH_FLT_FILE_NAME`. -/
inductive FltFileName (κ : Type) where
  | nameCache (e : κ)
  | context (name : List WChar)
  | fileName (name : List WChar)
  deriving DecidableEq

/-- A call that gets the name of a file object, or reaps it. -/
inductive NameCall (φ ι : Type) where
  | useNameCache (f : φ)
  | useContext (i : ι) (f : φ)
  | copy (f : φ)
  | reap (f : φ)

inductive NamePc (κ φ ι : Type) where
  | idle
  | call (call : NameCall φ ι)
  /-- `KphpFltGetFileNameUseNameCache`, after it has not found an entry. -/
  | cacheCreate (f : φ)
  | cacheInsert (f : φ) (e : κ)
  | cacheDrop (f : φ) (e existing : κ)
  /-- `KphpFltGetFileNameUseContext`, after it has not found a context. -/
  | contextAllocate (i : ι) (f : φ)
  | contextSet (i : ι) (f : φ) (name : List WChar)
  /-- `KphpFltReapFileNameCache`, with the entry it has unlinked. -/
  | reapDrop (e : κ)
  | cleanup
  | cleanupDrop (e : κ)

/-- A thread, with the names that it has got and not released. -/
structure NameThread (κ φ ι : Type) where
  pc : NamePc κ φ ι
  names : List (φ × FltFileName κ)

structure NameState (τ κ φ ι : Type) where
  objects : NameObjects κ φ
  /-- `KphpFileNameCacheList`. -/
  list : List κ
  context : ι → φ → Option (List WChar)
  threads : τ → NameThread κ φ ι
  filtering : Bool

section

variable {τ κ φ ι : Type} [DecidableEq τ] [DecidableEq κ] [DecidableEq φ] [DecidableEq ι]

namespace NameThread

def goto (th : NameThread κ φ ι) (pc : NamePc κ φ ι) : NameThread κ φ ι := { th with pc := pc }

/-- `STATUS_SUCCESS`, with a name. -/
def return' (th : NameThread κ φ ι) (f : φ) (name : FltFileName κ) : NameThread κ φ ι where
  pc := .idle
  names := (f, name) :: th.names

end NameThread

namespace NameState

def set (s : NameState τ κ φ ι) (t : τ) (th : NameThread κ φ ι) : NameState τ κ φ ι :=
  { s with threads := Function.update s.threads t th }

def goto (s : NameState τ κ φ ι) (t : τ) (pc : NamePc κ φ ι) : NameState τ κ φ ι :=
  s.set t ((s.threads t).goto pc)

def return' (s : NameState τ κ φ ι) (t : τ) (f : φ) (name : FltFileName κ) :
    NameState τ κ φ ι :=
  s.set t ((s.threads t).return' f name)

def kphReferenceObject (s : NameState τ κ φ ι) (e : κ) : NameState τ κ φ ι :=
  { s with objects := s.objects.kphReferenceObject e }

def kphDereferenceObject (s : NameState τ κ φ ι) (e : κ) : NameState τ κ φ ι :=
  { s with objects := s.objects.kphDereferenceObject e }

/-- The loops over the list: the first entry of a file object. -/
def findEntry (s : NameState τ κ φ ι) (f : φ) : Option κ :=
  s.list.find? fun e => s.objects.fileObject e = some f

def setContext (s : NameState τ κ φ ι) (i : ι) (f : φ) (context : Option (List WChar)) :
    NameState τ κ φ ι :=
  { s with context := Function.update s.context i (Function.update (s.context i) f context) }

/-- The next step of a thread. `succeeds` tells whether what the step calls does not fail for other
reasons, and `e` is the address of an object that it creates, where no other one is. -/
def advance (names : FltNames φ) (s : NameState τ κ φ ι) (t : τ) (succeeds : Bool) (e : κ) :
    NameState τ κ φ ι :=
  match (s.threads t).pc with
  | .idle => s
  | .call (.useNameCache f) =>
      match s.findEntry f with
      | some cacheEntry => (s.kphReferenceObject cacheEntry).return' t f (.nameCache cacheEntry)
      | none => s.goto t (.cacheCreate f)
  | .cacheCreate f =>
      if succeeds then
        { s with objects := s.objects.kphCreateObject e f (names.makeFileName f) }.goto t
          (.cacheInsert f e)
      else s.goto t .idle
  | .cacheInsert f cacheEntry =>
      match s.findEntry f with
      | some existing =>
          (s.kphReferenceObject existing).goto t (.cacheDrop f cacheEntry existing)
      | none =>
          { s.kphReferenceObject cacheEntry with list := cacheEntry :: s.list }.return' t f
            (.nameCache cacheEntry)
  | .cacheDrop f cacheEntry existing =>
      (s.kphDereferenceObject cacheEntry).return' t f (.nameCache existing)
  | .call (.useContext i f) =>
      match s.context i f, succeeds with
      | some name, true => s.return' t f (.context name)
      | _, _ => s.goto t (.contextAllocate i f)
  | .contextAllocate i f =>
      if succeeds then s.goto t (.contextSet i f (names.makeFileName f)) else s.goto t .idle
  | .contextSet i f name =>
      if succeeds then
        match s.context i f with
        | some oldContext => s.return' t f (.context oldContext)
        | none => (s.setContext i f (some name)).return' t f (.context name)
      else s.goto t .idle
  | .call (.copy f) =>
      if succeeds then s.return' t f (.fileName (names.makeFileName f)) else s.goto t .idle
  | .call (.reap f) =>
      match s.findEntry f with
      | some cacheEntry =>
          { s with list := s.list.erase cacheEntry }.goto t (.reapDrop cacheEntry)
      | none => s.goto t .idle
  | .reapDrop cacheEntry => (s.kphDereferenceObject cacheEntry).goto t .idle
  | .cleanup =>
      match s.list with
      | [] => s.goto t .idle
      | cacheEntry :: rest => { s with list := rest }.goto t (.cleanupDrop cacheEntry)
  | .cleanupDrop cacheEntry => (s.kphDereferenceObject cacheEntry).goto t .cleanup

/-- `KphpFltReleaseFileName` of a name that a thread has got. -/
def kphpFltReleaseFileName (s : NameState τ κ φ ι) (t : τ) (f : φ) (name : FltFileName κ) :
    NameState τ κ φ ι :=
  let released := s.set t { s.threads t with names := (s.threads t).names.erase (f, name) }
  match name with
  | .nameCache e => released.kphDereferenceObject e
  | .context _ | .fileName _ => released

def text (s : NameState τ κ φ ι) : FltFileName κ → Option (List WChar)
  | .nameCache e => (s.objects.entry e).map Prod.snd
  | .context name => some name
  | .fileName name => some name

end NameState

inductive NameStep (names : FltNames φ) : NameState τ κ φ ι → NameState τ κ φ ι → Prop where
  | call {s : NameState τ κ φ ι} (t : τ) (call : NameCall φ ι) (hidle : (s.threads t).pc = .idle)
      (hfiltering : s.filtering = true) : NameStep names s (s.goto t (.call call))
  | advance {s : NameState τ κ φ ι} (t : τ) (succeeds : Bool) (e : κ)
      (hfree : ∀ f, (s.threads t).pc = .cacheCreate f → s.objects.entry e = none) :
      NameStep names s (s.advance names t succeeds e)
  | release {s : NameState τ κ φ ι} (t : τ) (f : φ) (name : FltFileName κ)
      (hidle : (s.threads t).pc = .idle) (hname : (f, name) ∈ (s.threads t).names) :
      NameStep names s (s.kphpFltReleaseFileName t f name)
  | deleteContext {s : NameState τ κ φ ι} (i : ι) (f : φ) :
      NameStep names s (s.setContext i f none)
  /-- `FltUnregisterFilter`. -/
  | unregister {s : NameState τ κ φ ι} (hidle : ∀ t, (s.threads t).pc = .idle) :
      NameStep names s { s with filtering := false }
  /-- `KphpFltCleanupFileNameCache`. -/
  | cleanup {s : NameState τ κ φ ι} (t : τ) (hidle : ∀ t, (s.threads t).pc = .idle)
      (hfiltering : s.filtering = false) : NameStep names s (s.goto t .cleanup)

/-- After `KphpFltInitializeFileNameCache`. -/
def NameState.start : NameState τ κ φ ι where
  objects := ⟨fun _ => none, fun _ => 0, fun _ => 0, fun _ => 0⟩
  list := []
  context _ _ := none
  threads _ := ⟨.idle, []⟩
  filtering := true

end

end SystemInformer.Driver
