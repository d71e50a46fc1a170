import SystemInformer.Base.Words
import SystemInformer.Lib.Reconcile

/-!
# Hash sets (`phbasesup.h`)

A hash set is an array of buckets, and a bucket is a chain of entries that are part of the items
of the caller. The array knows neither how many buckets it has nor how many entries; the callers
keep both, and `HashItems` is what they keep. The handle provider makes its array twice as large
when there are more items than buckets.

An entry that is to be removed is searched by its address. Here it is searched by what it is,
which is the same wherever the items of a set have different keys.
-/

namespace SystemInformer.PhLib

/-- A `PH_HASH_ENTRY` and the item it is part of. -/
structure PhHashEntry (ι : Type) where
  hash : ULong
  item : ι
  deriving DecidableEq

/-- The buckets, each with its chain. -/
abbrev PhHashSet (ι : Type) := List (List (PhHashEntry ι))

variable {ι : Type}

def phCreateHashSet (numberOfBuckets : Nat) : PhHashSet ι := List.replicate numberOfBuckets []

namespace PhHashSet

def index (buckets : PhHashSet ι) (hash : ULong) : Nat := hash.toNat &&& (buckets.length - 1)

def phAddEntryHashSet (buckets : PhHashSet ι) (entry : PhHashEntry ι) : PhHashSet ι :=
  buckets.modify (buckets.index entry.hash) (entry :: ·)

def phFindEntryHashSet (buckets : PhHashSet ι) (hash : ULong) : List (PhHashEntry ι) :=
  buckets.getD (buckets.index hash) []

/-- `none` when the entry is not there and the status is raised. -/
def phRemoveEntryHashSet [DecidableEq ι] (buckets : PhHashSet ι) (entry : PhHashEntry ι) :
    Option (PhHashSet ι) :=
  if entry ∈ buckets.phFindEntryHashSet entry.hash then
    some (buckets.modify (buckets.index entry.hash) (·.erase entry))
  else none

def phDistributeHashSet (newBuckets oldBuckets : PhHashSet ι) : PhHashSet ι :=
  oldBuckets.foldl (fun newBuckets chain => chain.foldl phAddEntryHashSet newBuckets) newBuckets

def phResizeHashSet (buckets : PhHashSet ι) (newNumberOfBuckets : Nat) : PhHashSet ι :=
  phDistributeHashSet (phCreateHashSet newNumberOfBuckets) buckets

end PhHashSet

structure HashItems (ι : Type) where
  hashSet : PhHashSet ι
  count : Nat

namespace HashItems

def create (numberOfBuckets : Nat) : HashItems ι := ⟨phCreateHashSet numberOfBuckets, 0⟩

variable {κ : Type} [DecidableEq ι] [DecidableEq κ] (key : ι → κ) (hash : κ → ULong)

/-- `PhpLookupProcessItem`, `PhpLookupHandleItem`. -/
def lookup (s : HashItems ι) (k : κ) : Option ι :=
  ((s.hashSet.phFindEntryHashSet (hash k)).map (·.item)).find? (key · = k)

/-- `PhpAddProcessItem`, and `PhpAddHandleItem`, which resizes. -/
def add (resizes : Bool) (s : HashItems ι) (item : ι) : HashItems ι :=
  let hashSet :=
    if resizes && s.hashSet.length < s.count + 1 then
      s.hashSet.phResizeHashSet (s.hashSet.length * 2)
    else s.hashSet
  ⟨hashSet.phAddEntryHashSet ⟨hash (key item), item⟩, s.count + 1⟩

/-- `PhpRemoveProcessItem`, `PhpRemoveHandleItem`. -/
def remove (s : HashItems ι) (item : ι) : Option (HashItems ι) :=
  (s.hashSet.phRemoveEntryHashSet ⟨hash (key item), item⟩).map (⟨·, s.count - 1⟩)

def replaced (item item' : ι) (e : PhHashEntry ι) : PhHashEntry ι :=
  if e.item = item then ⟨e.hash, item'⟩ else e

def set (s : HashItems ι) (item item' : ι) : HashItems ι :=
  { s with hashSet := s.hashSet.map (·.map (replaced item item')) }

/-- The items as a collection, until something raises. -/
def collection (resizes : Bool) : Reconcile.Collection (Option (HashItems ι)) ι κ where
  key := key
  items s := s.elim [] fun s => s.hashSet.flatten.map (·.item)
  lookup s k := s.bind (lookup key hash · k)
  add s item := s.map (add key hash resizes · item)
  remove s item := s.bind (remove key hash · item)
  set s item item' := s.map (set · item item')

end HashItems

end SystemInformer.PhLib
