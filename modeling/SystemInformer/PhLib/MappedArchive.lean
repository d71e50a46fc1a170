import SystemInformer.PhLib.MappedImage
import SystemInformer.PhLib.StringCopy
import SystemInformer.PhLib.StringInteger

/-!
# Archives (`maplib.c`)

An archive is a view with a signature and members, each a header of 60 bytes, which are text, and as
many bytes of data as the header says. The first two members are linker members; the third may hold
the names that do not fit in a header, and a header then has a slash and an offset for its name.

A member is filled in step by step, so what is left of it when a check fails matters: the third
member is filled in where later members look for the long names, and it is there before it is known
what kind of member it is.

A probe that fails is caught in the function that makes it, so a status is a result like any other.
Where characters are copied up to a limit, all of them count as read.
-/

namespace SystemInformer.PhLib

open Bytes

def imageArchiveStart : List UInt8 := [0x21, 0x3c, 0x61, 0x72, 0x63, 0x68, 0x3e, 0x0a]

def imageArchiveStartSize : Nat := 8

def sizeofImageArchiveMemberHeader : Nat := 60

/-- The offset of `Size` in a header. -/
def offsetMemberSize : Nat := 48

inductive PhMappedArchiveMemberType where
  | normal
  | linker
  | longnames
  deriving DecidableEq, Repr

/-- Where `Name` points to. -/
inductive MemberName where
  | nameBuffer
  | pointer (address : Nat)
  deriving DecidableEq, Repr

structure PhMappedArchiveMember where
  type : PhMappedArchiveMemberType
  name : MemberName
  size : Nat
  data : Nat
  header : Nat
  nameBuffer : Vector UInt8 20
  deriving DecidableEq

def zeroMember : PhMappedArchiveMember := ⟨.normal, .pointer 0, 0, 0, 0, Vector.replicate 20 0⟩

/-- `PH_MAPPED_ARCHIVE`, with what `LastStandardMember` points to. -/
structure PhMappedArchive where
  view : ImageView
  firstLinkerMember : PhMappedArchiveMember
  secondLinkerMember : PhMappedArchiveMember
  longnamesMember : PhMappedArchiveMember
  hasLongnamesMember : Bool
  lastStandardMember : PhMappedArchiveMember
  deriving DecidableEq

/-- Reads `n` bytes. -/
def bytesAt (a n : Nat) : ImageReader (Vector UInt8 n) :=
  fun m => ([⟨.record, a, n⟩], .ok ⟨(load m a n).toArray, by simp⟩)

def isdigit (c : UInt8) : Bool := 0x30 ≤ c && c ≤ 0x39

def iswdigit (c : WChar) : Bool := 0x30 ≤ c && c ≤ 0x39

/-- The characters of a field of a header, as they are copied. -/
def fieldInput {n : Nat} (text : Vector UInt8 n) (hn : n ≤ 16) : CopyInput UInt8 1 where
  before := []
  memory := text.toList
  inputCount := n
  inputCount_le := hn.trans (by decide)
  readable := Or.inr ⟨Nat.ne_of_lt (Nat.lt_of_le_of_lt hn (by decide)), by simp⟩
  memory_fits := by
    rw [Nat.one_mul, Vector.length_toList]
    exact hn.trans (by decide)
  before_lt := by decide

/-- Some digits that a terminator has been written behind. -/
def digitsInput (digits : List UInt8) (h : digits.length ≤ 20) : CopyInput UInt8 1 where
  before := []
  memory := digits ++ [0]
  inputCount := sizeMax
  inputCount_le := le_refl _
  readable := Or.inl (List.mem_append_right _ List.mem_cons_self)
  memory_fits := by
    rw [Nat.one_mul, List.length_append]
    exact (Nat.add_le_add_right h 1).trans (by decide)
  before_lt := by decide

/-- `PhCopyStringZFromBytes(..., integerString, 11, NULL)`. -/
def integerStringOf (input : CopyInput UInt8 1) : Option (List WChar) :=
  let copy := phCopyStringZFromBytes input
    ⟨some (List.replicate 11 0), 11, false, fun _ h => Option.some.inj h ▸ List.length_replicate⟩
  if copy.copied then copy.buffer else none

/-- `PhStringToInteger64(..., 10, ...)`. -/
def integer64Of (string : List WChar) : Option Nat :=
  match phStringToInteger64 string 10 with
  | (true, some integer) => some integer.toNat
  | _ => none

/-- The number in the `Size` field. -/
def memberSizeOf (text : Vector UInt8 10) : Option Nat :=
  match integerStringOf (fieldInput text (by decide)) with
  | none => none
  | some integerString => integer64Of (integerString.takeWhile iswdigit)

/-- `NameBuffer` with a copy of the `Name` field. -/
def nameBufferOf (text : Vector UInt8 16) : Option (Vector UInt8 20) :=
  let copy := phCopyBytesZ (fieldInput text (le_refl _))
    ⟨some (List.replicate 20 0), 20, false, fun _ h => Option.some.inj h ▸ List.length_replicate⟩
  if copy.copied then some (Vector.ofFn fun i => (copy.buffer.getD []).getD i 0) else none

/-- `strchr(NameBuffer, '/')`. -/
def slashOf (nameBuffer : Vector UInt8 20) : Option Nat :=
  (nameBuffer.toList.takeWhile (· ≠ 0)).findIdx? (· == 0x2f)

def digitsBehind (nameBuffer : Vector UInt8 20) (slash : Nat) : List UInt8 :=
  (nameBuffer.toList.drop (slash + 1)).takeWhile isdigit

theorem digitsBehind_length (nameBuffer : Vector UInt8 20) (slash : Nat) :
    (digitsBehind nameBuffer slash).length ≤ 20 :=
  ((List.takeWhile_prefix _).length_le.trans (List.drop_suffix _ _).length_le).trans
    (Nat.le_of_eq nameBuffer.length_toList)

/-- The name of a member that is filled in but for it; `longnamesMember` is what the archive has
for it, which may be the member itself. -/
def parseMemberName (longnamesMember member : PhMappedArchiveMember) (text : Vector UInt8 16) :
    NtStatus × PhMappedArchiveMember :=
  match nameBufferOf text with
  | none => (statusInvalidParameter, member)
  | some nameBuffer =>
      let member := { member with nameBuffer, name := .nameBuffer }
      match slashOf nameBuffer with
      | none => (statusInvalidParameter, member)
      | some slash =>
          if slash = 0 then
            if nameBuffer[1] = 0x2f then
              (statusSuccess,
                { member with
                  nameBuffer := (nameBuffer.setIfInBounds 0 0x2f).setIfInBounds 1 0
                  type := .longnames })
            else
              (statusSuccess,
                { member with nameBuffer := nameBuffer.setIfInBounds 0 0, type := .linker })
          else if isdigit (nameBuffer.toList.getD (slash + 1) 0) then
            if longnamesMember.header = 0 then (statusInvalidParameter, member)
            else
              let digits := digitsBehind nameBuffer slash
              let member := { member with
                nameBuffer := nameBuffer.setIfInBounds (slash + 1 + digits.length) 0 }
              match integerStringOf (digitsInput digits (digitsBehind_length nameBuffer slash)) with
              | none => (statusInvalidParameter, member)
              | some integerString =>
                  match integer64Of (integerString.takeWhile (· ≠ 0)) with
                  | none => (statusInvalidParameter, member)
                  | some offset64 =>
                      let offset := offset64 % 2 ^ 32
                      if offset ≥ longnamesMember.size then (statusInvalidParameter, member)
                      else
                        (statusSuccess,
                          { member with
                            name := .pointer (ptrAddOffset longnamesMember.data offset) })
          else
            (statusSuccess, { member with nameBuffer := nameBuffer.setIfInBounds slash 0 })

/-- `PhpGetMappedArchiveMemberFromHeader`. The long names are those of the archive, unless it is
there that the member is filled in. -/
def phpGetMappedArchiveMemberFromHeader (view : ImageView)
    (longnamesMember : Option PhMappedArchiveMember) (header : Nat)
    (member : PhMappedArchiveMember) : ImageReader (NtStatus × PhMappedArchiveMember) :=
  if header ≥ view.base + view.size then pure (statusNoMoreEntries, member)
  else if ¬ view.Probes header sizeofImageArchiveMemberHeader then
    pure (statusAccessViolation, member)
  else do
    let data := ptrAddOffset header sizeofImageArchiveMemberHeader
    let text ← bytesAt (header + offsetMemberSize) 10
    match memberSizeOf text with
    | none => pure (statusInvalidParameter, { member with header, data, type := .normal })
    | some size => do
        let member := { member with header, data, type := .normal, size := size % 2 ^ 32 }
        if ¬ view.Probes data (size % 2 ^ 32) then pure (statusAccessViolation, member)
        else do
          let name ← bytesAt header 16
          pure (parseMemberName (longnamesMember.getD member) member name)

/-- Where the next header is, behind the data and at an even address. -/
def nextHeader (member : PhMappedArchiveMember) : Nat :=
  let nextHeader := ptrAddOffset member.data member.size
  if nextHeader % 2 = 1 then ptrAddOffset nextHeader 1 else nextHeader

def phInitializeMappedArchive (view : ImageView) : ImageReader PhMappedArchive := do
  Checked.require (view.Probes view.base imageArchiveStartSize) statusAccessViolation
  let start ← bytesAt view.base imageArchiveStartSize
  Checked.require (start.toList = imageArchiveStart) statusInvalidImageFormat
  let first ← phpGetMappedArchiveMemberFromHeader view (some zeroMember)
    (ptrAddOffset view.base imageArchiveStartSize) zeroMember
  Checked.require (ntSuccess first.1 = true) first.1
  Checked.require (first.2.type = .linker) statusInvalidParameter
  let second ← phpGetMappedArchiveMemberFromHeader view (some zeroMember) (nextHeader first.2)
    zeroMember
  Checked.require (ntSuccess second.1 = true) second.1
  Checked.require (second.2.type = .linker ∨ second.2.type = .normal) statusInvalidParameter
  let third ← phpGetMappedArchiveMemberFromHeader view none (nextHeader second.2) zeroMember
  let hasLongnamesMember := ntSuccess third.1 && third.2.type == .longnames
  pure
    { view
      firstLinkerMember := first.2
      secondLinkerMember := second.2
      longnamesMember := third.2
      hasLongnamesMember
      lastStandardMember := if hasLongnamesMember then third.2 else second.2 }

/-- `PhGetNextMappedArchiveMember`, of a member of an archive that has been initialized. -/
def phGetNextMappedArchiveMember (archive : PhMappedArchive)
    (member nextMember : PhMappedArchiveMember) : ImageReader (NtStatus × PhMappedArchiveMember) :=
  phpGetMappedArchiveMemberFromHeader archive.view (some archive.longnamesMember)
    (nextHeader member) nextMember

end SystemInformer.PhLib
