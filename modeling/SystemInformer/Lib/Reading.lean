import SystemInformer.Lib.Bytes

/-!
# Computations that read memory

A `Reading` answers its result together with the ranges it read, in order. A
routine written with it is checked against its source line by line, and where it
looks is then a property of its log: `Within lo hi` of a sequence is `Within lo hi`
of each part, so a proof walks through the routine once.
-/

namespace Bytes

/-- The ranges that were read, an address and a length each. -/
abbrev ReadLog := List (Nat × Nat)

def Reading (α : Type) : Type := Mem → ReadLog × α

namespace Reading

variable {α β : Type}

def log (x : Reading α) (m : Mem) : ReadLog := (x m).1

def val (x : Reading α) (m : Mem) : α := (x m).2

instance : Monad Reading where
  pure a := fun _ => ([], a)
  bind x f := fun m => (x.log m ++ (f (x.val m)).log m, (f (x.val m)).val m)

/-- The `n`-byte field at `a`. -/
def field (a n : Nat) : Reading Nat := fun m => ([(a, n)], Bytes.field m a n)

@[simp] theorem log_pure (a : α) (m : Mem) : (pure a : Reading α).log m = [] := rfl

@[simp] theorem val_pure (a : α) (m : Mem) : (pure a : Reading α).val m = a := rfl

@[simp] theorem log_bind (x : Reading α) (f : α → Reading β) (m : Mem) :
    (x >>= f).log m = x.log m ++ (f (x.val m)).log m := rfl

@[simp] theorem val_bind (x : Reading α) (f : α → Reading β) (m : Mem) :
    (x >>= f).val m = (f (x.val m)).val m := rfl

/-- A read that is followed by something; stated for the pair, so that what follows
is seen with the value in it. -/
@[simp] theorem log_field_bind (a n : Nat) (f : Nat → Reading β) (m : Mem) :
    (field a n >>= f).log m = [(a, n)] ++ (f (Bytes.field m a n)).log m := rfl

@[simp] theorem val_field_bind (a n : Nat) (f : Nat → Reading β) (m : Mem) :
    (field a n >>= f).val m = (f (Bytes.field m a n)).val m := rfl

theorem log_ite {c : Prop} [Decidable c] (x y : Reading α) (m : Mem) :
    (if c then x else y).log m = if c then x.log m else y.log m := apply_ite (·.log m) c x y

theorem val_ite {c : Prop} [Decidable c] (x y : Reading α) (m : Mem) :
    (if c then x else y).val m = if c then x.val m else y.val m := apply_ite (·.val m) c x y

end Reading

/-- Everything read lies in `[lo, hi)`. -/
def ReadLog.Within (lo hi : Nat) (l : ReadLog) : Prop := ∀ r ∈ l, lo ≤ r.1 ∧ r.1 + r.2 ≤ hi

namespace ReadLog

variable {lo hi : Nat}

theorem within_nil : Within lo hi [] := fun _ h => absurd h List.not_mem_nil

theorem within_single {a n : Nat} (h₁ : lo ≤ a) (h₂ : a + n ≤ hi) : Within lo hi [(a, n)] := by
  intro r hr
  rw [List.mem_singleton.mp hr]
  exact ⟨h₁, h₂⟩

theorem Within.append {l₁ l₂ : ReadLog} (h₁ : Within lo hi l₁) (h₂ : Within lo hi l₂) :
    Within lo hi (l₁ ++ l₂) := by
  intro r hr
  rcases List.mem_append.mp hr with hr | hr
  · exact h₁ r hr
  · exact h₂ r hr

end ReadLog

end Bytes
