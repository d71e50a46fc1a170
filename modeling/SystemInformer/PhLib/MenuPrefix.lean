import SystemInformer.PhLib.Wildcards

/-!
# Menu prefixes (`util.c`)

In the text of a menu item an ampersand marks the character behind it, and two of them stand for
one. `PhEscapeStringForMenuPrefix` doubles each ampersand; it appends the characters between them
run by run. `PhCompareUnicodeStringZIgnoreMenuPrefix` compares two texts as a user sees them.

A pointer into a terminated string is what is left of the string. The comparison has no result if
it was moved past a terminator.
-/

namespace SystemInformer.PhLib

/-- `L'&'`. -/
def ampersand : WChar := 0x26

section

variable (string : List WChar)

/-- Where the loop of `PhEscapeStringForMenuPrefix` is: what it has appended, and the run of other
characters that it is in. -/
structure EscapeRun where
  stringBuilder : List WChar
  runStart : Option Nat
  runCount : Nat

namespace EscapeRun

def flush (s : EscapeRun) : List WChar :=
  match s.runStart with
  | some runStart => s.stringBuilder ++ (string.drop runStart).take s.runCount
  | none => s.stringBuilder

def step (s : EscapeRun) (i : Nat) (c : WChar) : EscapeRun :=
  if c = ampersand then ⟨s.flush string ++ [ampersand, ampersand], none, s.runCount⟩
  else
    match s.runStart with
    | some runStart => ⟨s.stringBuilder, some runStart, s.runCount + 1⟩
    | none => ⟨s.stringBuilder, some i, 1⟩

/-- The loop, from the character `i` on. -/
def loop : EscapeRun → Nat → List WChar → EscapeRun
  | s, _, [] => s
  | s, i, c :: rest => loop (s.step string i c) (i + 1) rest

end EscapeRun

def phEscapeStringForMenuPrefix : List WChar :=
  (EscapeRun.loop string ⟨[], none, 0⟩ 0 string).flush string

end

section

variable (phUpcaseUnicodeChar : WChar → WChar) (ignoreCase matchIfPrefix : Bool)

def skipAmpersand : List WChar → List WChar
  | [] => []
  | c :: s => if c = ampersand then s else c :: s

theorem length_skipAmpersand (s : List WChar) : (skipAmpersand s).length ≤ s.length := by
  cases s with
  | nil => exact Nat.le_refl _
  | cons c s =>
      rw [skipAmpersand]
      split
      · exact Nat.le_succ _
      · exact Nat.le_refl _

/-- The loop of `PhCompareUnicodeStringZIgnoreMenuPrefix`. -/
def compareIgnoreMenuPrefix (a b : List WChar) : Option Int :=
  match ha : skipAmpersand a, skipAmpersand b with
  | [], b => if matchIfPrefix then some 0 else some (0 - ((b.headD 0).toNat : Int))
  | t :: a', u :: b' =>
      have : a'.length < a.length := by
        have hle := length_skipAmpersand a
        rw [ha, List.length_cons] at hle
        exact hle
      if equalChars phUpcaseUnicodeChar ignoreCase t u then compareIgnoreMenuPrefix a' b'
      else some (t.toNat - u.toNat)
  | t :: _, [] => if equalChars phUpcaseUnicodeChar ignoreCase t 0 then none else some (t.toNat - 0)
termination_by a.length

def phCompareUnicodeStringZIgnoreMenuPrefix (a b : Option (List WChar)) : Option Int :=
  match a, b with
  | some a, some b => compareIgnoreMenuPrefix phUpcaseUnicodeChar ignoreCase matchIfPrefix a b
  | _, _ => some (-1)

end

end SystemInformer.PhLib
