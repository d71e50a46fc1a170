import SystemInformer.PhLib.StringRef

/-!
# Trimming and splitting at a set of characters (`basesup.c`)

`PhTrimStringRef` and `PhSplitStringRefEx` look characters up in a table with an entry for each low
byte. The table is complete when no character of the set is above 255; both functions have a text
of their own for a set of one character, which builds no table.

A `PH_STRINGREF` that a function stores is told by where its buffer is in that of the input and by
its length in bytes.
-/

namespace SystemInformer.PhLib

/-- `charSetTable` and `charSetTableComplete`. -/
structure CharSetTable where
  table : UInt8 → Bool
  complete : Bool

/-- `c & 0xff`. -/
def lowByte (c : WChar) : UInt8 := UInt8.ofNat c.toNat

/-- The loop that builds the table, of characters that `fold` is applied to. -/
def charSetTable (fold : WChar → WChar) (charSet : List WChar) : CharSetTable :=
  charSet.foldl (fun t c =>
    ⟨Function.update t.table (lowByte (fold c)) true,
      if 256 ≤ (fold c).toNat then false else t.complete⟩) ⟨fun _ => false, true⟩

/-! ## Trimming -/

/-- What `PhTrimStringRef` makes of a string: `skipped` characters are cut off its start, and it
has `length` characters then. -/
structure TrimmedRef where
  skipped : Nat
  length : Nat
deriving DecidableEq

/-- The loop from the start, with `count` characters left from `s` on. -/
def trimCountStart (keeps : WChar → Bool) (string : List WChar) : Nat → Nat → Nat → Nat
  | 0, _, trimCount => trimCount
  | count + 1, s, trimCount =>
      if !keeps (string.getD s 0) then trimCount
      else trimCountStart keeps string count (s + 1) (trimCount + 1)

/-- The loop from the end, with `count` characters left, of which `s` is the last one. -/
def trimCountEnd (keeps : WChar → Bool) (string : List WChar) : Nat → Nat → Nat → Nat
  | 0, _, trimCount => trimCount
  | count + 1, s, trimCount =>
      if !keeps (string.getD s 0) then trimCount
      else trimCountEnd keeps string count (s - 1) (trimCount + 1)

/-- The two loops, which in both texts differ only in the test of a character. -/
def trimEnds (keeps : WChar → Bool) (endOnly startOnly : Bool) (chars : List WChar) : TrimmedRef :=
  let length := chars.length
  let skipped := if endOnly then 0 else trimCountStart keeps chars length 0 0
  let rest := chars.drop skipped
  let trimmed := if startOnly then 0
    else trimCountEnd keeps rest rest.length (rest.length - 1) 0
  ⟨skipped, rest.length - trimmed⟩

/-- The test of a character against the table and the set. -/
def trimsChar (charSet : List WChar) (c : WChar) : Bool :=
  let t := charSetTable id charSet
  if !t.table (lowByte c) then false
  else if !t.complete then charSet.any (· == c)
  else true

def phTrimStringRef (string : PhStringRef) (charSet : List WChar) (endOnly startOnly : Bool) :
    TrimmedRef :=
  if string.hasBuffer = false ∨ string.chars = [] ∨ charSet = [] then ⟨0, string.chars.length⟩
  else
    match charSet with
    | [c] => trimEnds (· == c) endOnly startOnly string.chars
    | charSet => trimEnds (trimsChar charSet) endOnly startOnly string.chars

/-! ## Splitting -/

/-- `PH_SPLIT_*`, but for the way of splitting. -/
structure SplitFlags where
  caseInsensitive : Bool
  complementCharSet : Bool
  startAtEnd : Bool
  charSetIsUppercase : Bool

/-- The way of splitting, with what `Separator` is then. -/
inductive SplitSeparator where
  | charSet (separator : List WChar)
  | string (separator : List WChar)
  | range (buffer length : Nat)

/-- A `PH_STRINGREF`: the place of its buffer from that of the input on, in characters, and its
length in bytes. -/
structure RefValue where
  buffer : Option Nat
  length : Nat
deriving DecidableEq

/-- `*Input`. -/
def PhStringRef.value (string : PhStringRef) : RefValue :=
  ⟨if string.hasBuffer then some 0 else none, 2 * string.chars.length⟩

variable (processor : Processor) (phUpcaseUnicodeChar : WChar → WChar)

def splitFold (flags : SplitFlags) (c : WChar) : WChar :=
  if flags.caseInsensitive then phUpcaseUnicodeChar c else c

def inCharSet (flags : SplitFlags) (charSet : List WChar) (c : WChar) : Bool :=
  if !flags.caseInsensitive || flags.charSetIsUppercase then charSet.any (· == c)
  else charSet.any fun m => phUpcaseUnicodeChar m == c

/-- Whether the search goes to `CharFound` at a character. -/
def splitsAtChar (flags : SplitFlags) (charSet : List WChar) (char : WChar) : Bool :=
  let t := charSetTable (splitFold phUpcaseUnicodeChar flags) charSet
  let c := splitFold phUpcaseUnicodeChar flags char
  if c.toNat < 256 ∧ t.complete = true then
    if !flags.complementCharSet then t.table (lowByte c) else !t.table (lowByte c)
  else if !flags.complementCharSet then
    if t.table (lowByte c) then inCharSet phUpcaseUnicodeChar flags charSet c else false
  else
    if t.table (lowByte c) then !inCharSet phUpcaseUnicodeChar flags charSet c else true

/-- The loop from the start, with `i` characters left from `s` on. -/
def splitLoopStart (stops : WChar → Bool) (string : List WChar) : Nat → Nat → Option Nat
  | 0, _ => none
  | i + 1, s =>
      if stops (string.getD s 0) then some s else splitLoopStart stops string i (s + 1)

def splitLoopEnd (stops : WChar → Bool) (string : List WChar) : Nat → Nat → Option Nat
  | 0, _ => none
  | i + 1, s =>
      if stops (string.getD s 0) then some s else splitLoopEnd stops string i (s - 1)

/-- `separatorIndex` and `separatorLength`, in bytes, at `SeparatorFound`. -/
def splitSearch (input : PhStringRef) (separator : SplitSeparator) (flags : SplitFlags) :
    Option (Nat × Nat) :=
  match separator with
  | .range buffer length => if buffer = 2 ^ 64 - 1 then none else some (buffer, length)
  | .string separator =>
      if flags.startAtEnd then none
      else
        (phFindStringInStringRef processor phUpcaseUnicodeChar input.chars separator
          flags.caseInsensitive).map (·, 2 * separator.length)
  | .charSet separator =>
      if flags.complementCharSet = false ∧ separator.length = 1 then
        (if flags.startAtEnd = false then
            phFindCharInStringRef processor phUpcaseUnicodeChar input (separator.headD 0)
              flags.caseInsensitive
          else
            phFindLastCharInStringRef processor phUpcaseUnicodeChar input (separator.headD 0)
              flags.caseInsensitive).map (·, 2)
      else if input.chars = [] then none
      else
        let stops := splitsAtChar phUpcaseUnicodeChar flags separator
        (if flags.startAtEnd = false then splitLoopStart stops input.chars input.chars.length 0
          else
            splitLoopEnd stops input.chars input.chars.length (input.chars.length - 1)).map (·, 2)

/-- The strings that the pointers of a call lead to. The outputs stand at places of their own, but
each may stand where the input does. -/
structure SplitCall where
  refs : Nat → RefValue
  inputPlace : Nat
  firstPart : Nat
  secondPart : Nat
  separatorPart : Option Nat
  input : PhStringRef
  input_value : refs inputPlace = input.value
  input_fits : 2 * input.chars.length < 2 ^ 64
  second_ne : secondPart ≠ firstPart
  separator_ne : ∀ part, separatorPart = some part → part ≠ firstPart ∧ part ≠ secondPart

def SplitCall.storeParts (call : SplitCall) (first second separator : RefValue) :
    Nat → RefValue :=
  let refs := Function.update call.refs call.firstPart first
  let refs := Function.update refs call.secondPart second
  match call.separatorPart with
  | some part => Function.update refs part separator
  | none => refs

/-- `PhSplitStringRefEx`; the input is copied before anything is stored. -/
def phSplitStringRefEx (call : SplitCall) (separator : SplitSeparator) (flags : SplitFlags) :
    Bool × (Nat → RefValue) :=
  let input := call.refs call.inputPlace
  match splitSearch processor phUpcaseUnicodeChar call.input separator flags with
  | some (separatorIndex, separatorLength) =>
      (true, call.storeParts
        ⟨input.buffer, separatorIndex * 2 % 2 ^ 64⟩
        ⟨input.buffer.map (· + (separatorIndex + separatorLength / 2)),
          (input.length + (2 ^ 64 - separatorIndex * 2 % 2 ^ 64) +
            (2 ^ 64 - separatorLength)) % 2 ^ 64⟩
        ⟨input.buffer.map (· + separatorIndex), separatorLength⟩)
  | none => (false, call.storeParts input ⟨none, 0⟩ ⟨none, 0⟩)

end SystemInformer.PhLib
