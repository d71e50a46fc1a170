import SystemInformer.Base.Words

/-!
# Wildcards (`util.c`)

`PhpMatchWildcards` walks through a pattern and a string with two cursors. At a star both are
marked, and the walk starts anew behind the stars; at a character that does not fit it starts anew
too, if a star was passed, one character behind the mark in the string. A pointer into a
terminated string is what is left of the string, and the terminator is there when nothing is left.

The result is absent if the cursor in the pattern was moved past the terminator.
-/

namespace SystemInformer.PhLib

/-- `L'?'`. -/
def questionMark : WChar := 0x3f

/-- `L'*'`. -/
def asterisk : WChar := 0x2a

/-- How the loop at `LoopStart` is left. -/
inductive WildcardsExit where
  | ended (p : List WChar)
  | star (s p : List WChar)
  | starCheck
  | overrun
deriving DecidableEq

variable (phUpcaseUnicodeChar : WChar → WChar) (ignoreCase : Bool)

def equalChars (s p : WChar) : Bool :=
  if ignoreCase then phUpcaseUnicodeChar s == phUpcaseUnicodeChar p else s == p

/-- The loop at `LoopStart`, for the cursors `s` and `p`. -/
def wildcardsLoop : List WChar → List WChar → WildcardsExit
  | [], p => .ended p
  | c :: _, [] => if equalChars phUpcaseUnicodeChar ignoreCase c 0 then .overrun else .starCheck
  | c :: s, d :: p =>
      if d = questionMark then wildcardsLoop s p
      else if d = asterisk then .star (c :: s) p
      else if equalChars phUpcaseUnicodeChar ignoreCase c d then wildcardsLoop s p
      else .starCheck

def skipStars (p : List WChar) : List WChar := p.dropWhile (· = asterisk)

theorem length_star {s p s' p' : List WChar}
    (h : wildcardsLoop phUpcaseUnicodeChar ignoreCase s p = .star s' p') :
    p'.length < p.length := by
  induction s, p using wildcardsLoop.induct phUpcaseUnicodeChar ignoreCase with
  | case1 p => simp [wildcardsLoop] at h
  | case2 c s hc => simp [wildcardsLoop, hc] at h
  | case3 c s hc => simp [wildcardsLoop, hc] at h
  | case4 c s p ih =>
      rw [wildcardsLoop, if_pos rfl] at h
      exact (ih h).trans (Nat.lt_succ_self _)
  | case5 c s p hne =>
      rw [wildcardsLoop, if_neg hne, if_pos rfl] at h
      rw [(WildcardsExit.star.inj h).2]
      exact Nat.lt_succ_self _
  | case6 c s d p hone hstar hequal ih =>
      rw [wildcardsLoop, if_neg hone, if_neg hstar, if_pos hequal] at h
      exact (ih h).trans (Nat.lt_succ_self _)
  | case7 c s d p hone hstar hequal =>
      rw [wildcardsLoop, if_neg hone, if_neg hstar, if_neg hequal] at h
      cases h

/-- The walk from `LoopStart` on. It ends: each new start has less of the pattern in front of it,
or the same with less of the string. -/
def wildcardsLoopStart (pattern string : List WChar) (star : Bool) : Option Bool :=
  match hloop : wildcardsLoop phUpcaseUnicodeChar ignoreCase string pattern with
  | .ended p => some (skipStars p = [])
  | .star s p =>
      have : (skipStars p).length < pattern.length :=
        (List.dropWhile_sublist _).length_le.trans_lt
          (length_star phUpcaseUnicodeChar ignoreCase hloop)
      if skipStars p = [] then some true else wildcardsLoopStart (skipStars p) s true
  | .starCheck =>
      match string, hloop with
      | [], hno => by simp [wildcardsLoop] at hno
      | _ :: string, _ => if star then wildcardsLoopStart pattern string star else some false
  | .overrun => none
termination_by (pattern.length, string.length)

def phMatchWildcards (pattern string : List WChar) : Option Bool :=
  wildcardsLoopStart phUpcaseUnicodeChar ignoreCase pattern string false

end SystemInformer.PhLib
