import SystemInformer.Lib.Loops
import SystemInformer.PhLib.StringRef

/-!
# Command lines (`util.c`)

A part of a command line ends at a space outside of quotation marks. Backslashes are counted
until it shows what follows them: before a quotation mark every second one escapes, elsewhere
they are characters like any other. The counter is a `ULONG`. `PhEscapeCommandLinePart` writes
what is read back between two quotation marks.

The parser of a whole command line goes on as long as there are characters and the callback
wants more; it is given as many rounds as there are characters and one, and no result is that
they did not do. What a callback knows is its context.

`iswalnum` belongs to the C runtime and is a parameter.
-/

namespace SystemInformer.PhLib

open Loops

/-- `OBJ_NAME_PATH_SEPARATOR`. -/
def backslash : WChar := 0x5c

def quotationMark : WChar := 0x22

def space : WChar := 0x20

def dash : WChar := 0x2d

/-- The variables of the loop in `PhParseCommandLinePart`. -/
structure PartState where
  i : Nat
  stringBuilder : List WChar
  numberOfBackslashes : ULong
  inQuote : Bool

/-- One character, and whether it is the end of the value. -/
def parsePartChar (c : WChar) (s : PartState) : Bool × PartState :=
  if c = backslash then
    (false, { s with i := s.i + 1, numberOfBackslashes := s.numberOfBackslashes + 1 })
  else if c = quotationMark then
    let stringBuilder :=
      s.stringBuilder ++ List.replicate (s.numberOfBackslashes / 2).toNat backslash
    if s.numberOfBackslashes &&& 1 ≠ 0 then
      (false, ⟨s.i + 1, stringBuilder ++ [quotationMark], 0, s.inQuote⟩)
    else (false, ⟨s.i + 1, stringBuilder, 0, !s.inQuote⟩)
  else
    let stringBuilder :=
      s.stringBuilder ++ List.replicate s.numberOfBackslashes.toNat backslash
    if c = space ∧ s.inQuote = false then (true, ⟨s.i, stringBuilder, 0, s.inQuote⟩)
    else (false, ⟨s.i + 1, stringBuilder ++ [c], 0, s.inQuote⟩)

/-- `PhParseCommandLinePart`: the part and the new index. -/
def phParseCommandLinePart (commandLine : List WChar) (index : Nat) : List WChar × Nat :=
  let s := (untilStop parsePartChar (commandLine.drop index) ⟨index, [], 0, false⟩).2
  (s.stringBuilder, s.i)

/-- The variables of the loop in `PhEscapeCommandLinePart`. -/
structure EscapeState where
  stringBuilder : List WChar
  numberOfBackslashes : ULong

def escapeChar (s : EscapeState) (c : WChar) : EscapeState :=
  if c = backslash then { s with numberOfBackslashes := s.numberOfBackslashes + 1 }
  else if c = quotationMark then
    ⟨s.stringBuilder ++ List.replicate (s.numberOfBackslashes.toNat * 2) backslash ++
      [backslash, quotationMark], 0⟩
  else ⟨s.stringBuilder ++ List.replicate s.numberOfBackslashes.toNat backslash ++ [c], 0⟩

/-- `PhEscapeCommandLinePart`. The length in bytes is cut to a `ULONG`. -/
def phEscapeCommandLinePart (string : List WChar) : List WChar :=
  let length : ULong := BitVec.ofNat 32 (2 * string.length) / 2
  ((string.take length.toNat).foldl escapeChar ⟨[], 0⟩).stringBuilder

inductive PhCommandLineOptionType
  | noArgumentType
  | mandatoryArgumentType
  | optionalArgumentType
  deriving DecidableEq

structure PhCommandLineOption where
  id : ULong
  name : List WChar
  type : PhCommandLineOptionType
  deriving DecidableEq

def phCommandLineIgnoreUnknownOptions : ULong := 1

def phCommandLineIgnoreFirstPart : ULong := 2

/-- `PH_COMMAND_LINE_CALLBACK`, with the context as it leaves it. -/
abbrev PhCommandLineCallback (γ : Type) :=
  Option PhCommandLineOption → Option (List WChar) → γ → Bool × γ

/-- The variables of the loop in `PhParseCommandLine`, and the context. -/
structure ParseState (γ : Type) where
  i : Nat
  cont : Bool
  wasFirst : Bool
  option : Option PhCommandLineOption
  context : γ

inductive ParseRound (γ : Type)
  | again (s : ParseState γ)
  | broke (s : ParseState γ)
  | returned (result : Bool) (context : γ)

variable (processor : Processor) (phUpcaseUnicodeChar : WChar → WChar) (iswalnum : WChar → Bool)
  {γ : Type}

/-- Reads a part and hands it to the callback, with the pending option if there is one. -/
def parseValue (commandLine : List WChar) (callback : PhCommandLineCallback γ)
    (s : ParseState γ) : ParseRound γ :=
  let (optionValue, i) := phParseCommandLinePart commandLine s.i
  match callback s.option (some optionValue) s.context with
  | (false, context) => .broke { s with i, cont := false, context }
  | (true, context) => .again { s with i, cont := true, option := none, context }

/-- What is done with the option whose name was read: the descriptor is looked up, and an option
without an argument is reported at once. -/
def parseOption (options : List PhCommandLineOption) (flags : ULong)
    (callback : PhCommandLineCallback γ) (optionName : List WChar) (s : ParseState γ) :
    ParseRound γ :=
  match options.find? fun option =>
      phEqualStringRef processor phUpcaseUnicodeChar optionName option.name false with
  | none =>
      if flags &&& phCommandLineIgnoreUnknownOptions = 0 then .returned false s.context
      else .again { s with option := none, wasFirst := false }
  | some option =>
      if option.type = .noArgumentType then
        match callback (some option) none s.context with
        | (false, context) => .broke { s with cont := false, option := some option, context }
        | (true, context) =>
            .again { s with cont := true, option := none, wasFirst := false, context }
      else .again { s with option := some option, wasFirst := false }

/-- What is done at a character `c` that is not a space, with `rest` behind it. -/
def parseAt (commandLine : List WChar) (options : List PhCommandLineOption) (flags : ULong)
    (callback : PhCommandLineCallback γ) (c : WChar) (rest : List WChar) (s : ParseState γ) :
    ParseRound γ :=
  if ∃ option ∈ s.option, option.type = .mandatoryArgumentType ∨
      option.type = .optionalArgumentType ∧ c ≠ dash then
    parseValue commandLine callback s
  else if c = dash then
    let optionName := rest.takeWhile fun c => iswalnum c || c == dash
    let s := { s with i := s.i + 1 + optionName.length }
    -- Take care of any pending optional argument.
    if ∃ option ∈ s.option, option.type = .optionalArgumentType then
      match callback s.option none s.context with
      | (false, context) => .broke { s with cont := false, context }
      | (true, context) =>
          parseOption processor phUpcaseUnicodeChar options flags callback optionName
            { s with cont := true, option := none, context }
    else parseOption processor phUpcaseUnicodeChar options flags callback optionName s
  else if flags &&& phCommandLineIgnoreFirstPart ≠ 0 ∧ s.wasFirst = true then
    .again { s with i := (phParseCommandLinePart commandLine s.i).2, wasFirst := false }
  else
    match parseValue commandLine callback { s with option := none } with
    | .again s' => .again { s' with option := s.option, wasFirst := false }
    | .broke s' => .broke { s' with option := s.option }
    | .returned result context => .returned result context

/-- A round of the loop, which skips spaces first. -/
def parseRound (commandLine : List WChar) (options : List PhCommandLineOption) (flags : ULong)
    (callback : PhCommandLineCallback γ) (s : ParseState γ) : ParseRound γ :=
  let s := { s with
    i := s.i + ((commandLine.drop s.i).takeWhile (· == space)).length }
  match commandLine.drop s.i with
  | [] => .broke s
  | c :: rest =>
      parseAt processor phUpcaseUnicodeChar iswalnum commandLine options flags callback c rest s

/-- The rounds of the loop, and what comes after it. -/
def parseRounds (commandLine : List WChar) (options : List PhCommandLineOption) (flags : ULong)
    (callback : PhCommandLineCallback γ) : Nat → ParseState γ → Option (Bool × γ)
  | 0, _ => none
  | rounds + 1, s =>
      match parseRound processor phUpcaseUnicodeChar iswalnum commandLine options flags callback s
        with
      | .again s => parseRounds commandLine options flags callback rounds s
      | .broke s =>
          if s.cont = true ∧ ∃ option ∈ s.option, option.type = .optionalArgumentType then
            some (true, (callback s.option none s.context).2)
          else some (true, s.context)
      | .returned result context => some (result, context)

def phParseCommandLine (commandLine : List WChar) (options : List PhCommandLineOption)
    (flags : ULong) (callback : PhCommandLineCallback γ) (context : γ) : Option (Bool × γ) :=
  if commandLine = [] then some (true, context)
  else
    parseRounds processor phUpcaseUnicodeChar iswalnum commandLine options flags callback
      (commandLine.length + 1) ⟨0, true, true, none, context⟩

end SystemInformer.PhLib
