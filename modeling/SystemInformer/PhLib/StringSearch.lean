import Mathlib

/-!
# Searching a buffer for strings (`strsrch.c`)

`PhpSearchStrings` goes through a buffer once, with a table of states over the last two bytes and
the current one. One counter and one buffer of characters serve narrow strings and wide strings;
where a result lies is computed back from the counter.
-/

namespace SystemInformer.PhLib

def phCharIsPrintable (byte : UInt8) : Bool :=
  byte = 9 ∨ byte = 10 ∨ byte = 13 ∨ (32 ≤ byte.toNat ∧ byte.toNat < 127)

def phCharIsPrintableEx (byte : UInt8) : Bool := phCharIsPrintable byte ∨ 161 ≤ byte.toNat

/-- `RTL_NUMBER_OF(Context->Buffer)`. -/
def searchBufferLength : Nat := 4096 * 2

/-- What `PhSearchStrings` puts into a `PH_STRING_SEARCH_CONEXT`; it refuses zero. -/
structure StringSearchContext where
  minimumLength : Nat
  extendedCharSet : Bool
  minimumLength_pos : 0 < minimumLength
  minimumLength_lt : minimumLength < 2 ^ 32

/-- `PH_STRING_SEARCH_RESULT`; the address is told from that of the buffer on. -/
structure StringSearchResult where
  unicode : Bool
  address : Int
  length : Nat
  string : List UInt8
deriving DecidableEq

structure StringSearchState where
  byte1 : UInt8
  byte2 : UInt8
  printable1 : Bool
  printable2 : Bool
  length : Nat
  buffer : Nat → UInt8

def StringSearchState.init : StringSearchState := ⟨0, 0, false, false, 0, fun _ => 0⟩

variable (context : StringSearchContext)

/-- The lookup by `ExtendedCharSet`. -/
def StringSearchContext.isPrintable (byte : UInt8) : Bool :=
  if context.extendedCharSet then phCharIsPrintableEx byte else phCharIsPrintable byte

/-- The counter and the buffer behind the table of states, and whether it goes to `CreateResult`. -/
structure StringSearchStep where
  length : Nat
  buffer : Nat → UInt8
  creates : Bool

/-- `if (length < RTL_NUMBER_OF(Context->Buffer)) Context->Buffer[length++] = byte`. -/
def StringSearchState.append (s : StringSearchState) (byte : UInt8) : StringSearchStep :=
  if s.length < searchBufferLength then
    ⟨s.length + 1, Function.update s.buffer s.length byte, false⟩
  else ⟨s.length, s.buffer, false⟩

def searchTable (s : StringSearchState) (byte : UInt8) : StringSearchStep :=
  match s.printable2, s.printable1, context.isPrintable byte with
  | true, true, true => s.append byte
  | true, true, false =>
      if context.minimumLength ≤ s.length then ⟨s.length, s.buffer, true⟩
      else if byte = 0 then ⟨1, Function.update s.buffer 0 s.byte1, false⟩
      else ⟨0, s.buffer, false⟩
  | true, false, true =>
      if s.length = 0 ∨ s.byte1 = 0 then s.append byte else ⟨0, s.buffer, false⟩
  | true, false, false =>
      if context.minimumLength ≤ s.length then ⟨s.length, s.buffer, true⟩
      else ⟨0, s.buffer, false⟩
  | false, true, true =>
      if (context.minimumLength + 1) % 2 ^ 32 ≤ s.length then
        ⟨(s.length + (2 ^ 32 - 1)) % 2 ^ 32, s.buffer, true⟩
      else ⟨2, Function.update (Function.update s.buffer 0 s.byte1) 1 byte, false⟩
  | false, true, false =>
      if s.byte2 = 0 ∧ byte = 0 then ⟨s.length, s.buffer, false⟩
      else if s.length = 1 ∧ byte = 0 then ⟨s.length, s.buffer, false⟩
      else ⟨0, s.buffer, false⟩
  | false, false, true => s.append byte
  | false, false, false => ⟨s.length, s.buffer, false⟩

/-- `CreateResult`, at the index `i`. -/
def createResult (printable1 printable : Bool) (i : Nat) (step : StringSearchStep) :
    StringSearchResult :=
  let isWide := printable1 == printable
  let lengthInBytes := if isWide then step.length * 2 % 2 ^ 32 else step.length
  let bias := if printable then 1 else 0
  ⟨isWide, (i : Int) - (bias : Nat) - lengthInBytes, lengthInBytes,
    (List.range (min step.length searchBufferLength)).map step.buffer⟩

/-- A round, with the result that is given to the callback. -/
def searchRound (i : Nat) (byte : UInt8) (s : StringSearchState) :
    StringSearchState × Option StringSearchResult :=
  let printable := context.isPrintable byte
  let step := searchTable context s byte
  (⟨byte, s.byte1, printable, s.printable1, if step.creates then 0 else step.length, step.buffer⟩,
    if step.creates then some (createResult s.printable1 printable i step) else none)

/-- The loop from `i` on. The callback is asked after each result whether the search is finished,
and may answer by all that it has been given. -/
def searchLoop (callback : List StringSearchResult → Bool) :
    Nat → List UInt8 → StringSearchState → List StringSearchResult →
    Bool × List StringSearchResult
  | _, [], _, results => (false, results)
  | i, byte :: rest, s, results =>
      match searchRound context i byte s with
      | (s, none) => searchLoop callback (i + 1) rest s results
      | (s, some result) =>
          let results := results ++ [result]
          if callback results then (true, results)
          else searchLoop callback (i + 1) rest s results

/-- `PhpSearchStrings`, with the results that the callback is given. -/
def phpSearchStrings (callback : List StringSearchResult → Bool) (buffer : List UInt8) :
    Bool × List StringSearchResult :=
  searchLoop context callback 0 buffer .init []

end SystemInformer.PhLib
