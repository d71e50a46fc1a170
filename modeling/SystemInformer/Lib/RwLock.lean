import Mathlib

/-!
# A reader/writer lock

A lock is held exclusively by one party or shared by several. Whoever does not hold it gets
it when this is kept, and waits otherwise. What a party holds is read off the lock, and a
party that holds it exclusively is the only one that holds anything.
-/

inductive RwLock (τ : Type*) where
  | exclusive (owner : τ)
  | shared (holders : Finset τ)

namespace RwLock

inductive Hold where
  | nothing
  | shared
  | exclusive
  deriving DecidableEq

variable {τ : Type*} [DecidableEq τ]

def free : RwLock τ := .shared ∅

def hold (lock : RwLock τ) (t : τ) : Hold :=
  match lock with
  | .exclusive owner => if owner = t then .exclusive else .nothing
  | .shared holders => if t ∈ holders then .shared else .nothing

def acquireExclusive (lock : RwLock τ) (t : τ) : Option (RwLock τ) :=
  match lock with
  | .exclusive _ => none
  | .shared holders => if holders = ∅ then some (.exclusive t) else none

def acquireShared (lock : RwLock τ) (t : τ) : Option (RwLock τ) :=
  match lock with
  | .exclusive _ => none
  | .shared holders => some (.shared (insert t holders))

def releaseExclusive (_ : RwLock τ) : RwLock τ := free

def releaseShared (lock : RwLock τ) (t : τ) : RwLock τ :=
  match lock with
  | .exclusive owner => .exclusive owner
  | .shared holders => .shared (holders.erase t)

def Agrees (lock : RwLock τ) (holds : τ → Hold) : Prop := ∀ t, lock.hold t = holds t

variable {lock lock' : RwLock τ} {holds : τ → Hold} {t u : τ}

@[simp] theorem hold_free (t : τ) : (free : RwLock τ).hold t = .nothing := by
  simp [free, hold]

theorem hold_exclusive_iff : lock.hold t = .exclusive ↔ lock = .exclusive t := by
  cases lock with
  | exclusive owner =>
      rw [hold]
      split <;> simp_all
  | shared holders =>
      rw [hold]
      split <;> simp

/-- Beside an exclusive holder nobody holds the lock. -/
theorem hold_of_exclusive (h : lock.hold t = .exclusive) (hne : u ≠ t) :
    lock.hold u = .nothing := by
  rw [hold_exclusive_iff.mp h, hold, if_neg hne.symm]

theorem acquireExclusive_eq (h : lock.acquireExclusive t = some lock') :
    lock = free ∧ lock' = .exclusive t := by
  cases lock with
  | exclusive owner => exact absurd h (by simp [acquireExclusive])
  | shared holders =>
      rw [acquireExclusive] at h
      split at h
      · next hnone =>
          cases h
          exact ⟨congrArg RwLock.shared hnone, rfl⟩
      · exact absurd h (by simp)

theorem acquireShared_eq (h : lock.acquireShared t = some lock') :
    ∃ holders, lock = .shared holders ∧ lock' = .shared (insert t holders) := by
  cases lock with
  | exclusive owner => exact absurd h (by simp [acquireShared])
  | shared holders =>
      cases h
      exact ⟨holders, rfl, rfl⟩

namespace Agrees

theorem keep (h : lock.Agrees holds) {value : Hold} (hsame : value = holds t) :
    lock.Agrees (Function.update holds t value) := by
  rw [hsame, Function.update_eq_self]
  exact h

theorem acquireExclusive (h : lock.Agrees holds) (hlock : lock.acquireExclusive t = some lock') :
    lock'.Agrees (Function.update holds t .exclusive) := by
  obtain ⟨rfl, rfl⟩ := acquireExclusive_eq hlock
  intro u
  by_cases hu : u = t
  · subst hu
    simp [hold]
  · rw [Function.update_of_ne hu, ← h u, hold_free, hold, if_neg (Ne.symm hu)]

theorem releaseExclusive (h : lock.Agrees holds) (ht : holds t = .exclusive) :
    lock.releaseExclusive.Agrees (Function.update holds t .nothing) := by
  intro u
  rw [RwLock.releaseExclusive, hold_free]
  by_cases hu : u = t
  · subst hu
    simp
  · rw [Function.update_of_ne hu, ← h u, hold_of_exclusive ((h t).trans ht) hu]

theorem acquireShared (h : lock.Agrees holds) (hlock : lock.acquireShared t = some lock') :
    lock'.Agrees (Function.update holds t .shared) := by
  obtain ⟨holders, rfl, rfl⟩ := acquireShared_eq hlock
  intro u
  by_cases hu : u = t
  · subst hu
    simp [hold]
  · rw [Function.update_of_ne hu, ← h u]
    simp [hold, hu]

theorem releaseShared (h : lock.Agrees holds) (ht : holds t = .shared) :
    (lock.releaseShared t).Agrees (Function.update holds t .nothing) := by
  cases lock with
  | exclusive owner =>
      have hold := (h t).trans ht
      rw [RwLock.hold] at hold
      split at hold <;> cases hold
  | shared holders =>
      intro u
      by_cases hu : u = t
      · subst hu
        simp [hold, RwLock.releaseShared]
      · rw [Function.update_of_ne hu, ← h u]
        simp [hold, RwLock.releaseShared, hu]

/-- Who has the lock exclusively is alone with it. -/
theorem alone (h : lock.Agrees holds) (ht : holds t = .exclusive) (hu : holds u ≠ .nothing) :
    u = t := by
  by_contra hne
  exact hu ((h u).symm.trans (hold_of_exclusive ((h t).trans ht) hne))

end Agrees

end RwLock
