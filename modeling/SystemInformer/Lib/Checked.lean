import SystemInformer.Lib.Bytes

/-!
# Computations that read memory and may fail

A `Checked` computation ends with a value or with an error, and answers with it the fields
that it read before, each with the kind of data the program takes it for. What follows an
error reads nothing, so where a routine looks depends on the values it saw: the reads of
`x >>= f` are those of `x` and, if `x` ends with a value, those of `f` at that value. `Safe`
walks through a routine along that rule, and `val_bind_ok_iff` along the values.
-/

namespace Bytes

structure Access (κ : Type) where
  kind : κ
  addr : Nat
  length : Nat
  deriving DecidableEq, Repr

def Checked (κ ε α : Type) : Type := Mem → List (Access κ) × Except ε α

namespace Checked

variable {κ ε α β : Type}

def log (x : Checked κ ε α) (m : Mem) : List (Access κ) := (x m).1

def val (x : Checked κ ε α) (m : Mem) : Except ε α := (x m).2

instance : Monad (Checked κ ε) where
  pure a := fun _ => ([], .ok a)
  bind x f := fun m =>
    match x.val m with
    | .ok a => (x.log m ++ (f a).log m, (f a).val m)
    | .error e => (x.log m, .error e)

def fail (e : ε) : Checked κ ε α := fun _ => ([], .error e)

/-- Goes on only if `c` holds. -/
def require (c : Prop) [Decidable c] (e : ε) : Checked κ ε Unit := if c then pure () else fail e

/-- The `n`-byte field at `a`. -/
def field (kind : κ) (a n : Nat) : Checked κ ε Nat :=
  fun m => ([⟨kind, a, n⟩], .ok (Bytes.field m a n))

/-- A computation whose reads are not recorded. -/
def ofMem (f : Mem → Except ε α) : Checked κ ε α := fun m => ([], f m)

section

variable {x : Checked κ ε α} {f : α → Checked κ ε β} {m : Mem}

@[simp] theorem val_ofMem (f : Mem → Except ε α) (m : Mem) :
    (ofMem f : Checked κ ε α).val m = f m := rfl

@[simp] theorem val_pure (a : α) (m : Mem) : (pure a : Checked κ ε α).val m = .ok a := rfl

@[simp] theorem val_fail (e : ε) (m : Mem) : (fail e : Checked κ ε α).val m = .error e := rfl

@[simp] theorem val_field (kind : κ) (a n : Nat) (m : Mem) :
    (field kind a n : Checked κ ε Nat).val m = .ok (Bytes.field m a n) := rfl

theorem val_bind_ok {a : α} (h : x.val m = .ok a) : (x >>= f).val m = (f a).val m := by
  show (match x.val m with
    | .ok a => (x.log m ++ (f a).log m, (f a).val m)
    | .error e => (x.log m, .error e)).2 = _
  rw [h]

theorem val_ofMem_bind_ok {f : Mem → Except ε α} {g : α → Checked κ ε β} {a : α}
    (h : f m = .ok a) : ((ofMem f : Checked κ ε α) >>= g).val m = (g a).val m :=
  val_bind_ok (x := ofMem f) h

theorem val_bind_error {e : ε} (h : x.val m = .error e) : (x >>= f).val m = .error e := by
  show (match x.val m with
    | .ok a => (x.log m ++ (f a).log m, (f a).val m)
    | .error e => (x.log m, .error e)).2 = _
  rw [h]

theorem log_bind_ok {a : α} (h : x.val m = .ok a) :
    (x >>= f).log m = x.log m ++ (f a).log m := by
  show (match x.val m with
    | .ok a => (x.log m ++ (f a).log m, (f a).val m)
    | .error e => (x.log m, .error e)).1 = _
  rw [h]

theorem log_bind_error {e : ε} (h : x.val m = .error e) : (x >>= f).log m = x.log m := by
  show (match x.val m with
    | .ok a => (x.log m ++ (f a).log m, (f a).val m)
    | .error e => (x.log m, .error e)).1 = _
  rw [h]

/-- A read that is followed by something. -/
@[simp] theorem val_field_bind (kind : κ) (a n : Nat) (f : Nat → Checked κ ε β) (m : Mem) :
    (field kind a n >>= f).val m = (f (Bytes.field m a n)).val m := rfl

@[simp] theorem val_pure_bind (a : α) (f : α → Checked κ ε β) (m : Mem) :
    ((pure a : Checked κ ε α) >>= f).val m = (f a).val m := rfl

@[simp] theorem val_fail_bind (e : ε) (f : α → Checked κ ε β) (m : Mem) :
    ((fail e : Checked κ ε α) >>= f).val m = .error e := rfl

theorem val_ite {c : Prop} [Decidable c] (x y : Checked κ ε α) (m : Mem) :
    (if c then x else y).val m = if c then x.val m else y.val m := apply_ite (·.val m) c x y

theorem val_require {c : Prop} [Decidable c] (e : ε) (m : Mem) :
    (require c e : Checked κ ε Unit).val m = if c then .ok () else .error e := by
  rw [require, val_ite]
  rfl

@[simp] theorem val_require_bind {c : Prop} [Decidable c] (e : ε) (f : Unit → Checked κ ε β)
    (m : Mem) : (require c e >>= f).val m = if c then (f ()).val m else .error e := by
  rw [require]
  split
  · rfl
  · rfl

theorem val_require_bind_ok_iff {c : Prop} [Decidable c] {e : ε} {f : Unit → Checked κ ε β}
    {b : β} : (require c e >>= f).val m = .ok b ↔ c ∧ (f ()).val m = .ok b := by
  rw [val_require_bind]
  split
  · next h => exact (and_iff_right h).symm
  · next h => exact iff_of_false (fun hno => nomatch hno) fun hc => h hc.1

theorem val_bind_ok_iff {b : β} :
    (x >>= f).val m = .ok b ↔ ∃ a, x.val m = .ok a ∧ (f a).val m = .ok b := by
  cases h : x.val m with
  | ok a => simp [val_bind_ok h]
  | error e => simp [val_bind_error h]

end

/-! ## Where it reads -/

/-- Every field read is one that `ok` allows. -/
def Safe (ok : Access κ → Prop) (x : Checked κ ε α) (m : Mem) : Prop := ∀ r ∈ x.log m, ok r

section

variable {ok : Access κ → Prop} {x y : Checked κ ε α} {f : α → Checked κ ε β} {m : Mem}

@[simp] theorem safe_pure (a : α) : Safe ok (pure a : Checked κ ε α) m := fun _ h => nomatch h

@[simp] theorem safe_fail (e : ε) : Safe ok (fail e : Checked κ ε α) m := fun _ h => nomatch h

@[simp] theorem safe_field_iff {kind : κ} {a n : Nat} :
    Safe ok (field kind a n : Checked κ ε Nat) m ↔ ok ⟨kind, a, n⟩ := by
  constructor
  · intro h
    exact h _ List.mem_cons_self
  · intro h r hr
    rw [List.mem_singleton.mp hr]
    exact h

theorem safe_bind_iff :
    Safe ok (x >>= f) m ↔ Safe ok x m ∧ ∀ a, x.val m = .ok a → Safe ok (f a) m := by
  cases h : x.val m with
  | ok a => simp [Safe, log_bind_ok h, or_imp, forall_and]
  | error e => simp [Safe, log_bind_error h]

theorem Safe.bind (hx : Safe ok x m) (hf : ∀ a, x.val m = .ok a → Safe ok (f a) m) :
    Safe ok (x >>= f) m := safe_bind_iff.mpr ⟨hx, hf⟩

@[simp] theorem safe_field_bind_iff {kind : κ} {a n : Nat} {f : Nat → Checked κ ε β} :
    Safe ok (field kind a n >>= f) m ↔
      ok ⟨kind, a, n⟩ ∧ Safe ok (f (Bytes.field m a n)) m := by
  rw [safe_bind_iff, safe_field_iff, val_field]
  simp

@[simp] theorem safe_require {c : Prop} [Decidable c] (e : ε) :
    Safe ok (require c e : Checked κ ε Unit) m := by
  rw [require]
  split
  · exact safe_pure ()
  · exact safe_fail e

@[simp] theorem safe_require_bind_iff {c : Prop} [Decidable c] {e : ε}
    {f : Unit → Checked κ ε β} : Safe ok (require c e >>= f) m ↔ (c → Safe ok (f ()) m) := by
  rw [safe_bind_iff, val_require]
  by_cases h : c
  · simp only [h, forall_const]
    exact ⟨fun hf => hf.2 () rfl, fun hf => ⟨safe_require e, fun _ _ => hf⟩⟩
  · simp [h]

theorem Safe.ite {c : Prop} [Decidable c] (hx : c → Safe ok x m) (hy : ¬ c → Safe ok y m) :
    Safe ok (if c then x else y) m := by
  split
  · next h => exact hx h
  · next h => exact hy h

end

end Checked

end Bytes
