import SystemInformer.PhLib.StringRef

/-!
# Hashing strings (`basesup.c`)

The FNV-1a hash folds case with the system's table, and hashes a whole character at a time when it
does. The X65599 hash folds the letters from `a` to `z` and no others.
-/

namespace SystemInformer.PhLib

inductive PhStringHash where
  | default
  | fnv1a
  | x65599
  deriving DecidableEq

def fnv1aStep (hash value : ULong) : ULong := (hash ^^^ value) * 0x01000193

def phHashBytes (bytes : List UInt8) : ULong :=
  bytes.foldl (fun hash byte => fnv1aStep hash (BitVec.ofNat 32 byte.toNat)) 0

def stringBytes (string : List WChar) : List UInt8 :=
  string.flatMap fun (c : WChar) => [c.toUInt8, (c >>> 8).toUInt8]

def phHashStringRef (phUpcaseUnicodeChar : WChar → WChar) (string : List WChar)
    (ignoreCase : Bool) : ULong :=
  if string.length = 0 then 0
  else if ignoreCase then
    string.foldl
      (fun hash c => fnv1aStep hash (BitVec.ofNat 32 (phUpcaseUnicodeChar c).toNat)) 0
  else phHashBytes (stringBytes string)

/-- The folding that is written out in `PhHashStringRefEx`. -/
def upcaseAscii (c : WChar) : WChar := if 0x61 ≤ c ∧ c ≤ 0x7a then c - 0x61 + 0x41 else c

def phHashStringRefEx (phUpcaseUnicodeChar : WChar → WChar) (string : List WChar)
    (ignoreCase : Bool) : PhStringHash → ULong
  | .default => phHashStringRef phUpcaseUnicodeChar string ignoreCase
  | .fnv1a => phHashStringRef phUpcaseUnicodeChar string ignoreCase
  | .x65599 =>
      if string.length = 0 then 0
      else if ignoreCase then
        string.foldl (fun hash c => 65599 * hash + BitVec.ofNat 32 (upcaseAscii c).toNat) 0
      else string.foldl (fun hash c => 65599 * hash + BitVec.ofNat 32 c.toNat) 0

end SystemInformer.PhLib
