import Mathlib.Data.List.Nodup
import Mathlib.Data.List.Perm.Basic
import Mathlib.Data.Set.Insert

/-!
# Keeping a collection up to date with a list

A collection of items is brought up to date with a list of entries. Items that are not found in
the list are removed; then every entry changes the item that has its key, or adds one. Each of
these is an event.

How the items are stored is left open. What is asked of the storage is only that a lookup finds
an item exactly if one with that key is stored (`Collection.Lawful`). If the keys of the entries
are different, what is stored in the end is determined by what was there (`update_spec`): one item
for each entry, which is the item with its key, changed, if it was found, and a new one otherwise.
Whoever knows the keys of what is stored and follows the events knows them afterwards.
-/

namespace Reconcile

variable {σ ι ε κ : Type*}

structure Collection (σ ι κ : Type*) where
  key : ι → κ
  items : σ → List ι
  lookup : σ → κ → Option ι
  add : σ → ι → σ
  remove : σ → ι → σ
  set : σ → ι → ι → σ

/-- A lookup is right, and nothing is stored but what was added and not removed. -/
structure Collection.Lawful (c : Collection σ ι κ) (inv : σ → Prop) : Prop where
  lookup_some : ∀ {s k i}, inv s → c.lookup s k = some i → i ∈ c.items s ∧ c.key i = k
  lookup_none : ∀ {s k}, inv s → c.lookup s k = none → ∀ i ∈ c.items s, c.key i ≠ k
  add : ∀ {s} i, inv s → inv (c.add s i) ∧ (c.items (c.add s i)).Perm (i :: c.items s)
  remove : ∀ {s i rest}, inv s → (c.items s).Perm (i :: rest) →
    inv (c.remove s i) ∧ (c.items (c.remove s i)).Perm rest
  set : ∀ {s i j rest}, inv s → (c.items s).Perm (i :: rest) → i ∉ rest → c.key j = c.key i →
    inv (c.set s i j) ∧ (c.items (c.set s i j)).Perm (j :: rest)

inductive Event (ι : Type*) where
  | removed (i : ι)
  | added (i : ι)
  | modified (i : ι)

/-- What an entry does to items, and which items are found. -/
structure Provider (ι ε κ : Type*) where
  entryKey : ε → κ
  found : ι → Bool
  create : ε → ι
  modify : ι → ε → ι × Bool

section

variable (c : Collection σ ι κ) (p : Provider ι ε κ)

def sweep (s : σ) : σ × List (Event ι) :=
  let gone := (c.items s).filter fun i => !p.found i
  (gone.foldl c.remove s, gone.map .removed)

def admitOne (s : σ) (e : ε) : σ × List (Event ι) :=
  match c.lookup s (p.entryKey e) with
  | none => (c.add s (p.create e), [.added (p.create e)])
  | some i =>
      let (j, modified) := p.modify i e
      (c.set s i j, if modified then [.modified j] else [])

def admitAll (s : σ) : List ε → σ × List (Event ι)
  | [] => (s, [])
  | e :: rest =>
      let (s, events) := admitOne c p s e
      let (s, events') := admitAll s rest
      (s, events ++ events')

def update (s : σ) (entries : List ε) : σ × List (Event ι) :=
  let (s, events) := sweep c p s
  let (s, events') := admitAll c p s entries
  (s, events ++ events')

structure Provider.Lawful : Prop where
  create : ∀ e, c.key (p.create e) = p.entryKey e
  modify : ∀ i e, c.key (p.modify i e).1 = c.key i

/-- What the item for an entry is, given the item with its key. -/
def outcome (e : ε) : Option ι → ι
  | none => p.create e
  | some i => (p.modify i e).1

def keys (s : σ) : Set κ := {k | ∃ i ∈ c.items s, c.key i = k}

/-- The storage is in order, and no two items have one key. -/
structure Tidy (inv : σ → Prop) (s : σ) : Prop where
  inv : inv s
  nodup : ((c.items s).map c.key).Nodup

end

inductive Call (ι : Type*) where
  | add (i : ι)
  | remove (i : ι)
  | set (i j : ι)

def Collection.call (c : Collection σ ι κ) (s : σ) : Call ι → σ
  | .add i => c.add s i
  | .remove i => c.remove s i
  | .set i j => c.set s i j

/-- Calls that keep the keys different, with what is stored before and after them. -/
inductive Calls (key : ι → κ) : List ι → List (Call ι) → List ι → Prop where
  | nil (stored : List ι) : Calls key stored [] stored
  | add {stored stored' : List ι} {i : ι} {calls : List (Call ι)}
      (hnew : ∀ j ∈ stored, key j ≠ key i) (h : Calls key (i :: stored) calls stored') :
      Calls key stored (.add i :: calls) stored'
  | remove {front back stored' : List ι} {i : ι} {calls : List (Call ι)}
      (h : Calls key (front ++ back) calls stored') :
      Calls key (front ++ i :: back) (.remove i :: calls) stored'
  | set {front back stored' : List ι} {i j : ι} {calls : List (Call ι)} (hkey : key j = key i)
      (h : Calls key (front ++ j :: back) calls stored') :
      Calls key (front ++ i :: back) (.set i j :: calls) stored'

/-- Somebody who knows a set of keys is told of events. -/
inductive Follows (key : ι → κ) : Set κ → List (Event ι) → Set κ → Prop where
  | nil (known : Set κ) : Follows key known [] known
  | removed {known known' : Set κ} {i : ι} {events : List (Event ι)} (hi : key i ∈ known)
      (h : Follows key (known \ {key i}) events known') :
      Follows key known (.removed i :: events) known'
  | added {known known' : Set κ} {i : ι} {events : List (Event ι)} (hi : key i ∉ known)
      (h : Follows key (insert (key i) known) events known') :
      Follows key known (.added i :: events) known'
  | modified {known known' : Set κ} {i : ι} {events : List (Event ι)} (hi : key i ∈ known)
      (h : Follows key known events known') : Follows key known (.modified i :: events) known'

theorem Follows.append {key : ι → κ} {known known' known'' : Set κ}
    {events events' : List (Event ι)} (h : Follows key known events known')
    (h' : Follows key known' events' known'') : Follows key known (events ++ events') known'' := by
  induction h with
  | nil known => exact h'
  | removed hi _ ih => exact .removed hi (ih h')
  | added hi _ ih => exact .added hi (ih h')
  | modified hi _ ih => exact .modified hi (ih h')

theorem admitAll_ne_removed {c : Collection σ ι κ} {p : Provider ι ε κ} {s : σ} {entries : List ε}
    {event : Event ι} (h : event ∈ (admitAll c p s entries).2) (i : ι) : event ≠ .removed i := by
  rintro rfl
  induction entries generalizing s with
  | nil => cases h
  | cons e rest ih =>
      have hone : Event.removed i ∉ (admitOne c p s e).2 := by
        rw [admitOne]
        cases c.lookup s (p.entryKey e) with
        | none => simp
        | some j =>
            show Event.removed i ∉ if (p.modify j e).2 then _ else _
            split <;> simp
      rcases List.mem_append.mp h with h | h
      · exact hone h
      · exact ih h

/-! ## Removing what is not found -/

section

variable {c : Collection σ ι κ} {p : Provider ι ε κ} {inv : σ → Prop} {s : σ}
  (hc : c.Lawful inv)
include hc

theorem remove_all {gone kept : List ι} (hs : inv s) (hperm : (c.items s).Perm (gone ++ kept)) :
    inv (gone.foldl c.remove s) ∧ (c.items (gone.foldl c.remove s)).Perm kept := by
  induction gone generalizing s with
  | nil => exact ⟨hs, hperm⟩
  | cons i gone ih =>
      obtain ⟨hinv, hitems⟩ := hc.remove hs hperm
      exact ih hinv hitems

theorem lookup_iff (hs : Tidy c inv s) {k : κ} {i : ι} :
    c.lookup s k = some i ↔ i ∈ c.items s ∧ c.key i = k := by
  refine ⟨hc.lookup_some hs.inv, ?_⟩
  rintro ⟨hi, hk⟩
  cases hlookup : c.lookup s k with
  | none => exact absurd hk (hc.lookup_none hs.inv hlookup i hi)
  | some j =>
      obtain ⟨hj, hkj⟩ := hc.lookup_some hs.inv hlookup
      rw [List.inj_on_of_nodup_map hs.nodup hj hi (hkj.trans hk.symm)]

theorem Tidy.add (hs : Tidy c inv s) {i : ι} (hnew : ∀ j ∈ c.items s, c.key j ≠ c.key i) :
    Tidy c inv (c.add s i) := by
  obtain ⟨hinv, hitems⟩ := hc.add i hs.inv
  refine ⟨hinv, ?_⟩
  rw [(hitems.map c.key).nodup_iff, List.map_cons]
  refine hs.nodup.cons fun hmem => ?_
  obtain ⟨j, hj, hk⟩ := List.mem_map.mp hmem
  exact hnew j hj hk

theorem Tidy.set (hs : Tidy c inv s) {i j : ι} {rest : List ι}
    (hperm : (c.items s).Perm (i :: rest)) (hkey : c.key j = c.key i) :
    Tidy c inv (c.set s i j) ∧ (c.items (c.set s i j)).Perm (j :: rest) := by
  have hnodup := (hperm.map c.key).nodup_iff.mp hs.nodup
  rw [List.map_cons, List.nodup_cons] at hnodup
  obtain ⟨hinv, hitems⟩ := hc.set hs.inv hperm
    (fun hmem => hnodup.1 (List.mem_map_of_mem hmem)) hkey
  refine ⟨⟨hinv, ?_⟩, hitems⟩
  rw [(hitems.map c.key).nodup_iff, List.map_cons, hkey]
  exact hnodup.2.cons hnodup.1

theorem Calls.tidy {stored stored' : List ι} {calls : List (Call ι)}
    (h : Calls c.key stored calls stored') (hs : Tidy c inv s)
    (hstored : (c.items s).Perm stored) : Tidy c inv (calls.foldl c.call s) ∧
    (c.items (calls.foldl c.call s)).Perm stored' := by
  induction h generalizing s with
  | nil stored => exact ⟨hs, hstored⟩
  | add hnew _ ih =>
      refine ih (hs.add hc fun j hj => hnew j (hstored.mem_iff.mp hj)) ?_
      exact (hc.add _ hs.inv).2.trans (hstored.cons _)
  | remove _ ih =>
      have hperm := hstored.trans List.perm_middle
      obtain ⟨hinv, hitems⟩ := hc.remove hs.inv hperm
      have hnodup := (hperm.map c.key).nodup_iff.mp hs.nodup
      exact ih ⟨hinv, (hitems.map c.key).nodup_iff.mpr hnodup.of_cons⟩ hitems
  | set hkey _ ih =>
      obtain ⟨htidy, hitems⟩ := hs.set hc (hstored.trans List.perm_middle) hkey
      exact ih htidy (hitems.trans List.perm_middle.symm)

omit hc in
theorem follows_removed {gone kept : List ι} (hnodup : ((gone ++ kept).map c.key).Nodup) :
    Follows c.key {k | ∃ i ∈ gone ++ kept, c.key i = k} (gone.map .removed)
      {k | ∃ i ∈ kept, c.key i = k} := by
  induction gone with
  | nil => exact .nil _
  | cons i gone ih =>
      rw [List.cons_append, List.map_cons, List.nodup_cons] at hnodup
      refine .removed ⟨i, List.mem_cons_self, rfl⟩ ?_
      convert ih hnodup.2 using 1
      ext k
      constructor
      · rintro ⟨⟨j, hj, rfl⟩, hne⟩
        rcases List.mem_cons.mp hj with rfl | hj
        · exact absurd rfl hne
        · exact ⟨j, hj, rfl⟩
      · rintro ⟨j, hj, rfl⟩
        refine ⟨⟨j, List.mem_cons_of_mem _ hj, rfl⟩, fun heq => hnodup.1 ?_⟩
        rw [← Set.mem_singleton_iff.mp heq]
        exact List.mem_map_of_mem hj

theorem sweep_spec (hs : Tidy c inv s) : Tidy c inv (sweep c p s).1 ∧
    (c.items (sweep c p s).1).Perm ((c.items s).filter p.found) ∧
    Follows c.key (keys c s) (sweep c p s).2 (keys c (sweep c p s).1) := by
  have hbefore : (c.items s).Perm ((c.items s).filter (fun i => !p.found i) ++
      (c.items s).filter p.found) :=
    (List.filter_append_perm _ _).symm.trans List.perm_append_comm
  obtain ⟨hinv, hitems⟩ := remove_all hc hs.inv hbefore
  have hnodup := (hbefore.map c.key).nodup_iff.mp hs.nodup
  refine ⟨⟨hinv, ?_⟩, hitems, ?_⟩
  · exact (hitems.map c.key).nodup_iff.mpr (hs.nodup.sublist (List.filter_sublist.map c.key))
  · have h := follows_removed hnodup
    simp only [← hbefore.mem_iff, ← hitems.mem_iff] at h
    exact h

/-! ## One entry, and all of them -/

/-- A lookup depends on nothing but the items with that key. -/
theorem lookup_congr {s' : σ} (hs : Tidy c inv s) (hs' : Tidy c inv s') {k : κ}
    (h : ∀ i, c.key i = k → (i ∈ c.items s' ↔ i ∈ c.items s)) : c.lookup s' k = c.lookup s k := by
  ext i
  rw [lookup_iff hc hs, lookup_iff hc hs']
  exact and_congr_left (h i)

variable [DecidableEq κ]

/-- The items with other keys stay. -/
theorem admitOne_spec (hp : p.Lawful c) (hs : Tidy c inv s) (e : ε) :
    Tidy c inv (admitOne c p s e).1 ∧
    (c.items (admitOne c p s e).1).Perm (outcome p e (c.lookup s (p.entryKey e)) ::
      (c.items s).filter (fun i => c.key i ≠ p.entryKey e)) ∧
    Follows c.key (keys c s) (admitOne c p s e).2 (keys c (admitOne c p s e).1) := by
  rw [admitOne]
  cases hlookup : c.lookup s (p.entryKey e) with
  | none =>
      have hnone := hc.lookup_none hs.inv hlookup
      have hitems := (hc.add (p.create e) hs.inv).2
      rw [List.filter_eq_self.mpr fun i hi => decide_eq_true (hnone i hi)]
      refine ⟨hs.add hc fun i hi hk => hnone i hi (hk.trans (hp.create e)), hitems, .added ?_ ?_⟩
      · rintro ⟨i, hi, hk⟩
        exact hnone i hi (hk.trans (hp.create e))
      · convert Follows.nil (keys c (c.add s (p.create e))) using 1
        ext k
        simp [keys, hitems.mem_iff, eq_comm]
  | some i =>
      obtain ⟨hi, hk⟩ := hc.lookup_some hs.inv hlookup
      obtain ⟨front, back, hsplit⟩ := List.append_of_mem hi
      have hperm : (c.items s).Perm (i :: (front ++ back)) := hsplit ▸ List.perm_middle
      have hnodup := (hperm.map c.key).nodup_iff.mp hs.nodup
      rw [List.map_cons, List.nodup_cons] at hnodup
      obtain ⟨htidy, hitems⟩ := hs.set hc hperm (hp.modify i e)
      have hothers : ((c.items s).filter fun i => c.key i ≠ p.entryKey e).Perm
          (front ++ back) := by
        refine (hperm.filter _).trans ?_
        rw [List.filter_cons_of_neg (by simp [hk]), List.filter_eq_self.mpr]
        intro j hj
        rw [decide_eq_true_iff, ← hk]
        exact fun heq => hnodup.1 (heq ▸ List.mem_map_of_mem hj)
      have hkeys : keys c (c.set s i (p.modify i e).1) = keys c s := by
        ext k
        simp [keys, hitems.mem_iff, hperm.mem_iff, hp.modify i e]
      refine ⟨htidy, hitems.trans (hothers.symm.cons _), ?_⟩
      show Follows c.key (keys c s) (if (p.modify i e).2 then _ else _) _
      rw [hkeys]
      split
      · exact .modified ⟨i, hi, (hp.modify i e).symm⟩ (.nil _)
      · exact .nil _

theorem admitAll_spec (hp : p.Lawful c) (hs : Tidy c inv s) {entries : List ε}
    (hentries : (entries.map p.entryKey).Nodup) :
    Tidy c inv (admitAll c p s entries).1 ∧
    (c.items (admitAll c p s entries).1).Perm
      (entries.map (fun e => outcome p e (c.lookup s (p.entryKey e))) ++
        (c.items s).filter (fun i => c.key i ∉ entries.map p.entryKey)) ∧
    Follows c.key (keys c s) (admitAll c p s entries).2 (keys c (admitAll c p s entries).1) := by
  induction entries generalizing s with
  | nil => exact ⟨hs, by simp [admitAll], .nil _⟩
  | cons e rest ih =>
      rw [List.map_cons, List.nodup_cons] at hentries
      obtain ⟨htidy, hitems, hfollows⟩ := admitOne_spec hc hp hs e
      obtain ⟨htidy', hitems', hfollows'⟩ := ih htidy hentries.2
      refine ⟨htidy', hitems'.trans ?_, hfollows.append hfollows'⟩
      have hkey : c.key (outcome p e (c.lookup s (p.entryKey e))) = p.entryKey e := by
        cases hlookup : c.lookup s (p.entryKey e) with
        | none => exact hp.create e
        | some i => exact (hp.modify i e).trans (hc.lookup_some hs.inv hlookup).2
      have hsame : ∀ e' ∈ rest, c.lookup (admitOne c p s e).1 (p.entryKey e') =
          c.lookup s (p.entryKey e') := by
        intro e' he'
        have hne : p.entryKey e' ≠ p.entryKey e :=
          fun heq => hentries.1 (heq ▸ List.mem_map_of_mem he')
        refine lookup_congr hc hs htidy fun i hi => ?_
        rw [hitems.mem_iff, List.mem_cons, List.mem_filter, decide_eq_true_iff, hi]
        refine ⟨?_, fun h => .inr ⟨h, hne⟩⟩
        rintro (rfl | h)
        · exact absurd (hi.symm.trans hkey) hne
        · exact h.1
      have hrest := hitems.filter fun i => c.key i ∉ rest.map p.entryKey
      rw [List.filter_cons_of_pos (by rw [hkey]; exact decide_eq_true hentries.1),
        List.filter_filter] at hrest
      rw [List.map_congr_left fun e' he' => by rw [hsame e' he']]
      refine (hrest.append_left _).trans (List.perm_middle.trans (.of_eq ?_))
      rw [List.map_cons, List.cons_append]
      refine congrArg _ (congrArg _ (List.filter_congr fun i _ => ?_))
      simp [Bool.and_comm]

/-- What a whole update leaves, and what it tells. An item that is found has the key of an
entry. -/
theorem update_spec (hp : p.Lawful c) (hs : Tidy c inv s) {entries : List ε}
    (hentries : (entries.map p.entryKey).Nodup)
    (hfound : ∀ i ∈ c.items s, p.found i = true → c.key i ∈ entries.map p.entryKey) :
    Tidy c inv (update c p s entries).1 ∧
    (c.items (update c p s entries).1).Perm (entries.map fun e =>
      outcome p e ((c.lookup s (p.entryKey e)).filter p.found)) ∧
    Follows c.key (keys c s) (update c p s entries).2 (keys c (update c p s entries).1) := by
  obtain ⟨htidy, hitems, hfollows⟩ := sweep_spec (p := p) hc hs
  obtain ⟨htidy', hitems', hfollows'⟩ := admitAll_spec hc hp htidy hentries
  refine ⟨htidy', hitems'.trans (.of_eq ?_), hfollows.append hfollows'⟩
  have hlookup : ∀ k, c.lookup (sweep c p s).1 k = (c.lookup s k).filter p.found := by
    intro k
    ext i
    rw [lookup_iff hc htidy, hitems.mem_iff, List.mem_filter, Option.filter_eq_some_iff,
      lookup_iff hc hs]
    exact and_right_comm
  have hnone : (c.items (sweep c p s).1).filter (fun i => c.key i ∉ entries.map p.entryKey) =
      [] := by
    refine List.filter_eq_nil_iff.mpr fun i hi hkey => of_decide_eq_true hkey ?_
    obtain ⟨hi, hfoundi⟩ := List.mem_filter.mp (hitems.mem_iff.mp hi)
    exact hfound i hi hfoundi
  rw [hnone, List.append_nil]
  exact List.map_congr_left fun e _ => by rw [hlookup]

end

end Reconcile
