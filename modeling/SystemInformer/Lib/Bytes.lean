import Mathlib

/-!
# Byte-addressed memory

A memory is a total map from addresses to bytes. A program that writes to it
is described by its log: the list of stores in program order, each one an
address and the bytes it puts there. Keeping the log beside the resulting
memory is what lets a theorem speak of the bytes that were written rather
than of the bytes that changed; a store of the value that was already there
is still a store.

Fields wider than a byte are read and written in little-endian order, through
`leDecode` and `leEncode`, so a structure's layout is nothing but a table of
offsets and widths. The lemmas come in pairs: what a store does to the range
it covers, and that it does nothing to a range it does not touch.
-/

namespace Bytes

/-- A byte-addressed memory. -/
abbrev Mem := Nat → UInt8

/-- One store: `bytes` are put at `addr`, `addr + 1`, .... -/
structure Store where
  addr : Nat
  bytes : List UInt8
  deriving DecidableEq, Repr

/-- The address `a` is one of those the store puts a byte at. -/
def Store.covers (s : Store) (a : Nat) : Prop :=
  s.addr ≤ a ∧ a < s.addr + s.bytes.length

instance (s : Store) (a : Nat) : Decidable (s.covers a) :=
  inferInstanceAs (Decidable (_ ∧ _))

def Store.apply (s : Store) (m : Mem) : Mem := fun a =>
  if s.covers a then s.bytes.getD (a - s.addr) 0 else m a

/-- The memory after a log, oldest store first. -/
def applyLog (m : Mem) : List Store → Mem
  | [] => m
  | s :: rest => applyLog (s.apply m) rest

def written (log : List Store) (a : Nat) : Prop := ∃ s ∈ log, s.covers a

/-- The `n` bytes at `a`. -/
def load (m : Mem) (a n : Nat) : List UInt8 :=
  (List.range n).map fun i => m (a + i)

/-- The little-endian value of a byte string. -/
def leDecode : List UInt8 → Nat
  | [] => 0
  | b :: rest => b.toNat + 256 * leDecode rest

/-- The `n` low bytes of `v`, least significant first. -/
def leEncode : Nat → Nat → List UInt8
  | 0, _ => []
  | n + 1, v => UInt8.ofNat v :: leEncode n (v / 256)

/-- The `n`-byte field at `a`. -/
def field (m : Mem) (a n : Nat) : Nat := leDecode (load m a n)

/-- The store of the `n` low bytes of `v` at `a`. -/
def Store.field (a n v : Nat) : Store := ⟨a, leEncode n v⟩

/-! ## Encoding -/

@[simp] theorem length_leEncode (n v : Nat) : (leEncode n v).length = n := by
  induction n generalizing v with
  | zero => rfl
  | succ n ih => simp [leEncode, ih]

theorem leDecode_leEncode (n v : Nat) : leDecode (leEncode n v) = v % 256 ^ n := by
  induction n generalizing v with
  | zero => simp [leEncode, leDecode, Nat.mod_one]
  | succ n ih =>
      rw [leEncode, leDecode, ih]
      have hb : (UInt8.ofNat v).toNat = v % 256 := by simp
      rw [hb, pow_succ', Nat.mod_mul]

theorem leDecode_lt (bs : List UInt8) : leDecode bs < 256 ^ bs.length := by
  induction bs with
  | nil => simp [leDecode]
  | cons b rest ih =>
      have hb : b.toNat < 256 := b.toNat_lt
      rw [leDecode, List.length_cons, pow_succ']
      omega

/-! ## Loads -/

@[simp] theorem length_load (m : Mem) (a n : Nat) : (load m a n).length = n := by
  simp [load]

theorem field_lt (m : Mem) (a n : Nat) : field m a n < 256 ^ n := by
  have h := leDecode_lt (load m a n)
  rwa [length_load] at h

/-- Two memories that agree on a range load the same bytes from it. -/
theorem load_congr {m m' : Mem} {a n : Nat}
    (h : ∀ x, a ≤ x → x < a + n → m x = m' x) : load m a n = load m' a n := by
  refine List.map_congr_left fun i hi => ?_
  have hi' : i < n := List.mem_range.mp hi
  exact h (a + i) (by omega) (by omega)

theorem field_congr {m m' : Mem} {a n : Nat}
    (h : ∀ x, a ≤ x → x < a + n → m x = m' x) : field m a n = field m' a n := by
  rw [field, field, load_congr h]

/-! ## Stores -/

theorem Store.apply_of_not_covers {s : Store} {m : Mem} {a : Nat}
    (h : ¬ s.covers a) : s.apply m a = m a := if_neg h

theorem Store.load_apply_same (s : Store) (m : Mem) :
    load (s.apply m) s.addr s.bytes.length = s.bytes := by
  refine List.ext_getElem (by simp) fun i h₁ h₂ => ?_
  have hc : s.covers (s.addr + i) := ⟨by omega, by omega⟩
  simp only [load, List.getElem_map, List.getElem_range]
  rw [Store.apply, if_pos hc, Nat.add_sub_cancel_left, List.getD_eq_getElem _ _ h₂]

theorem Store.load_apply_disjoint {s : Store} {m : Mem} {a n : Nat}
    (h : a + n ≤ s.addr ∨ s.addr + s.bytes.length ≤ a) :
    load (s.apply m) a n = load m a n := by
  refine load_congr fun x hx₁ hx₂ => apply_of_not_covers ?_
  rintro ⟨h₁, h₂⟩
  omega

theorem Store.field_apply_same {m : Mem} {a n v : Nat} :
    Bytes.field ((Store.field a n v).apply m) a n = v % 256 ^ n := by
  have h := load_apply_same (Store.field a n v) m
  simp only [Store.field, length_leEncode] at h
  rw [Bytes.field, Store.field, h, leDecode_leEncode]

theorem Store.field_apply_disjoint {s : Store} {m : Mem} {a n : Nat}
    (h : a + n ≤ s.addr ∨ s.addr + s.bytes.length ≤ a) :
    Bytes.field (s.apply m) a n = Bytes.field m a n := by
  rw [Bytes.field, load_apply_disjoint h, Bytes.field]

/-! ## Logs -/

theorem applyLog_append (m : Mem) (l₁ l₂ : List Store) :
    applyLog m (l₁ ++ l₂) = applyLog (applyLog m l₁) l₂ := by
  induction l₁ generalizing m with
  | nil => rfl
  | cons s rest ih => exact ih (s.apply m)

/-- The frame rule: an address no store of the log covers keeps its byte. -/
theorem applyLog_of_not_written {log : List Store} {m : Mem} {a : Nat}
    (h : ¬ written log a) : applyLog m log a = m a := by
  induction log generalizing m with
  | nil => rfl
  | cons s rest ih =>
      have hs : ¬ s.covers a := fun hc => h ⟨s, by simp, hc⟩
      have hr : ¬ written rest a :=
        fun ⟨t, ht, hc⟩ => h ⟨t, List.mem_cons_of_mem _ ht, hc⟩
      rw [applyLog, ih hr, Store.apply_of_not_covers hs]

@[simp] theorem written_nil (a : Nat) : ¬ written [] a := by
  rintro ⟨s, hs, -⟩
  cases hs

@[simp] theorem written_cons (s : Store) (log : List Store) (a : Nat) :
    written (s :: log) a ↔ s.covers a ∨ written log a := by
  simp [written]

@[simp] theorem written_append (l₁ l₂ : List Store) (a : Nat) :
    written (l₁ ++ l₂) a ↔ written l₁ a ∨ written l₂ a := by
  simp [written, or_and_right, exists_or]

end Bytes
