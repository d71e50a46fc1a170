import SystemInformer.PhLib.HashSet

/-!
# Hash sets hold what was added and not removed

An entry is in the bucket of its hash, and where the number of buckets is a power of two every
hash has a bucket. So a chain holds every entry with its hash, a resized set holds the same
entries, and an item that is in the set is found by its key and can be removed.
-/

namespace SystemInformer.PhLib

variable {ι : Type}

namespace PhHashSet

variable {buckets : PhHashSet ι}

structure Placed (buckets : PhHashSet ι) : Prop where
  size : ∃ k, buckets.length = 2 ^ k
  placed : ∀ i chain, buckets[i]? = some chain → ∀ e ∈ chain, buckets.index e.hash = i

theorem Placed.index_lt (h : buckets.Placed) (hash : ULong) :
    buckets.index hash < buckets.length := by
  obtain ⟨k, hk⟩ := h.size
  rw [index, hk, Nat.and_two_pow_sub_one_eq_mod]
  exact Nat.mod_lt _ (Nat.two_pow_pos k)

theorem flatten_modify {i : Nat} (hi : i < buckets.length)
    (f : List (PhHashEntry ι) → List (PhHashEntry ι)) : ∃ rest,
    buckets.flatten.Perm (buckets[i] ++ rest) ∧
      (buckets.modify i f).flatten.Perm (f buckets[i] ++ rest) := by
  refine ⟨(buckets.take i).flatten ++ (buckets.drop (i + 1)).flatten, ?_, ?_⟩
  · conv_lhs => rw [← List.take_append_drop i buckets, List.drop_eq_getElem_cons hi]
    rw [List.flatten_append, List.flatten_cons]
    exact List.perm_append_comm_assoc _ _ _
  · rw [List.modify_eq_take_cons_drop hi, List.flatten_append, List.flatten_cons]
    exact List.perm_append_comm_assoc _ _ _

theorem Placed.modify (h : buckets.Placed) {i : Nat}
    {f : List (PhHashEntry ι) → List (PhHashEntry ι)}
    (hf : ∀ chain, ∀ e ∈ f chain, e ∈ chain ∨ buckets.index e.hash = i) :
    Placed (buckets.modify i f) := by
  have hindex : ∀ hash, PhHashSet.index (buckets.modify i f) hash = buckets.index hash := by
    intro hash
    rw [index, index, List.length_modify]
  refine ⟨by rw [List.length_modify]; exact h.size, fun j chain hj e he => ?_⟩
  rw [hindex]
  rw [List.getElem?_modify] at hj
  cases hold : buckets[j]? with
  | none =>
      rw [hold] at hj
      cases hj
  | some old =>
      rw [hold, Option.map_eq_map, Option.map_some, Option.some.injEq] at hj
      subst hj
      by_cases hij : i = j
      · rw [if_pos hij] at he
        rcases hf _ e he with he | he
        · exact h.placed j _ hold e he
        · exact he.trans hij
      · rw [if_neg hij] at he
        exact h.placed j _ hold e he

theorem Placed.add (h : buckets.Placed) (e : PhHashEntry ι) :
    Placed (buckets.phAddEntryHashSet e) ∧
      (buckets.phAddEntryHashSet e).flatten.Perm (e :: buckets.flatten) := by
  obtain ⟨rest, hbefore, hafter⟩ := flatten_modify (h.index_lt e.hash) (e :: ·)
  refine ⟨h.modify fun chain e' he' => ?_, hafter.trans (hbefore.symm.cons e)⟩
  rcases List.mem_cons.mp he' with rfl | he'
  · exact .inr rfl
  · exact .inl he'

theorem Placed.add_all (h : buckets.Placed) (entries : List (PhHashEntry ι)) :
    Placed (entries.foldl phAddEntryHashSet buckets) ∧
      (entries.foldl phAddEntryHashSet buckets).flatten.Perm (entries ++ buckets.flatten) ∧
      (entries.foldl phAddEntryHashSet buckets).length = buckets.length := by
  induction entries generalizing buckets with
  | nil => exact ⟨h, .refl _, rfl⟩
  | cons e entries ih =>
      obtain ⟨hplaced, hitems⟩ := h.add e
      obtain ⟨hplaced', hitems', hlength⟩ := ih hplaced
      exact ⟨hplaced', hitems'.trans ((hitems.append_left _).trans List.perm_middle),
        hlength.trans (List.length_modify ..)⟩

theorem placed_create (k : Nat) : Placed (phCreateHashSet (2 ^ k) : PhHashSet ι) ∧
    (phCreateHashSet (2 ^ k) : PhHashSet ι).flatten = [] := by
  refine ⟨⟨⟨k, List.length_replicate⟩, fun i chain hi e he => ?_⟩, by simp [phCreateHashSet]⟩
  obtain ⟨-, rfl⟩ := List.mem_replicate.mp (List.mem_of_getElem? hi)
  cases he

theorem placed_resize (buckets : PhHashSet ι) (k : Nat) :
    Placed (buckets.phResizeHashSet (2 ^ k)) ∧
      (buckets.phResizeHashSet (2 ^ k)).flatten.Perm buckets.flatten ∧
      (buckets.phResizeHashSet (2 ^ k)).length = 2 ^ k := by
  obtain ⟨hplaced, hnil⟩ := placed_create (ι := ι) k
  have hall := hplaced.add_all buckets.flatten
  rw [hnil, List.append_nil, List.foldl_flatten, phCreateHashSet, List.length_replicate] at hall
  exact hall

theorem Placed.mem_find_iff (h : buckets.Placed) {hash : ULong} {e : PhHashEntry ι} :
    e ∈ buckets.phFindEntryHashSet hash ↔
      e ∈ buckets.flatten ∧ buckets.index e.hash = buckets.index hash := by
  have hlt := h.index_lt hash
  rw [phFindEntryHashSet, List.getD_eq_getElem _ _ hlt]
  constructor
  · intro he
    exact ⟨List.mem_flatten.mpr ⟨_, List.getElem_mem hlt, he⟩,
      h.placed _ _ (List.getElem?_eq_getElem hlt) e he⟩
  · rintro ⟨he, hindex⟩
    obtain ⟨chain, hchain, he⟩ := List.mem_flatten.mp he
    obtain ⟨i, hi, rfl⟩ := List.getElem_of_mem hchain
    have hplaced := h.placed i _ (List.getElem?_eq_getElem hi) e he
    rw [hindex] at hplaced
    subst hplaced
    exact he

theorem length_remove [DecidableEq ι] {e : PhHashEntry ι} {buckets' : PhHashSet ι}
    (h : buckets.phRemoveEntryHashSet e = some buckets') : buckets'.length = buckets.length := by
  rw [phRemoveEntryHashSet] at h
  split at h
  · rw [← Option.some.inj h, List.length_modify]
  · cases h

theorem Placed.remove [DecidableEq ι] (h : buckets.Placed) {e : PhHashEntry ι}
    {rest : List (PhHashEntry ι)} (he : buckets.flatten.Perm (e :: rest)) :
    ∃ buckets', buckets.phRemoveEntryHashSet e = some buckets' ∧ Placed buckets' ∧
      buckets'.flatten.Perm rest := by
  have hin : e ∈ buckets.phFindEntryHashSet e.hash :=
    h.mem_find_iff.mpr ⟨he.mem_iff.mpr List.mem_cons_self, rfl⟩
  have hlt := h.index_lt e.hash
  obtain ⟨others, hbefore, hafter⟩ := flatten_modify hlt (·.erase e)
  refine ⟨_, if_pos hin, h.modify fun chain e' he' => .inl (List.mem_of_mem_erase he'), ?_⟩
  rw [phFindEntryHashSet, List.getD_eq_getElem _ _ hlt] at hin
  have hcons : (e :: (buckets[buckets.index e.hash].erase e ++ others)).Perm (e :: rest) :=
    ((List.perm_cons_erase hin).symm.append_right others).trans (hbefore.symm.trans he)
  exact hafter.trans hcons.cons_inv

end PhHashSet

namespace HashItems

variable {κ : Type} (key : ι → κ) (hash : κ → ULong) (resizes : Bool)

/-- Every entry is in its bucket, with the hash of its item, and the number is right. -/
structure Inv (s : HashItems ι) : Prop where
  placed : s.hashSet.Placed
  hashes : ∀ e ∈ s.hashSet.flatten, e.hash = hash (key e.item)
  count : s.count = s.hashSet.flatten.length
  room : resizes = true → s.count ≤ s.hashSet.length

variable {key hash resizes} {s : HashItems ι}

/-- The entries that the items are part of. -/
theorem Inv.entries (h : Inv key hash resizes s) {i : ι} {rest : List ι}
    (hperm : (s.hashSet.flatten.map (·.item)).Perm (i :: rest)) :
    s.hashSet.flatten.Perm (⟨hash (key i), i⟩ :: rest.map fun j => ⟨hash (key j), j⟩) := by
  have hself : s.hashSet.flatten =
      (s.hashSet.flatten.map (·.item)).map fun j => ⟨hash (key j), j⟩ := by
    rw [List.map_map]
    refine (List.map_id _).symm.trans (List.map_congr_left fun e he => ?_)
    show e = ⟨hash (key e.item), e.item⟩
    rw [← h.hashes e he]
  rw [hself]
  exact hperm.map _

theorem items_create (n : Nat) :
    ((create n : HashItems ι).hashSet.flatten.map (·.item)) = [] := by
  simp [create, phCreateHashSet]

theorem inv_create (n : Nat) : Inv key hash resizes (create (2 ^ n)) := by
  obtain ⟨hplaced, hnil⟩ := PhHashSet.placed_create (ι := ι) n
  refine ⟨hplaced, fun e he => ?_, ?_, fun _ => Nat.zero_le _⟩
  · rw [create, hnil] at he
    cases he
  · rw [create, hnil]
    rfl

theorem Inv.add (h : Inv key hash resizes s) (i : ι) :
    Inv key hash resizes (add key hash resizes s i) ∧
      ((HashItems.add key hash resizes s i).hashSet.flatten.map (·.item)).Perm
        (i :: s.hashSet.flatten.map (·.item)) := by
  obtain ⟨hashSet, hset, hplaced, hperm, hroom⟩ : ∃ hashSet : PhHashSet ι,
      (if resizes && s.hashSet.length < s.count + 1 then
        s.hashSet.phResizeHashSet (s.hashSet.length * 2) else s.hashSet) = hashSet ∧
      hashSet.Placed ∧ hashSet.flatten.Perm s.hashSet.flatten ∧
      (resizes = true → s.count + 1 ≤ hashSet.length) := by
    obtain ⟨k, hk⟩ := h.placed.size
    have hroom := h.room
    split
    · obtain ⟨hplaced, hperm, hlength⟩ := PhHashSet.placed_resize s.hashSet (k + 1)
      have hpos := Nat.two_pow_pos k
      rw [hk, ← Nat.pow_succ]
      refine ⟨_, rfl, hplaced, hperm, fun hresizes => ?_⟩
      rw [hlength, Nat.pow_succ, ← hk]
      have := hroom hresizes
      omega
    · next hfull => exact ⟨_, rfl, h.placed, .refl _, fun hresizes => by simp_all⟩
  obtain ⟨hplaced', hperm'⟩ := hplaced.add ⟨hash (key i), i⟩
  have hall := hperm'.trans (hperm.cons _)
  rw [HashItems.add, hset]
  refine ⟨⟨hplaced', fun e he => ?_, ?_, fun hresizes => ?_⟩, hall.map _⟩
  · rcases List.mem_cons.mp (hall.mem_iff.mp he) with rfl | he
    · rfl
    · exact h.hashes e he
  · rw [hall.length_eq, List.length_cons, ← h.count]
  · exact (hroom hresizes).trans_eq (List.length_modify ..).symm

theorem Inv.add_all (h : Inv key hash resizes s) (l : List ι) :
    Inv key hash resizes (l.foldl (HashItems.add key hash resizes) s) ∧
      ((l.foldl (HashItems.add key hash resizes) s).hashSet.flatten.map (·.item)).Perm
        (l ++ s.hashSet.flatten.map (·.item)) := by
  induction l generalizing s with
  | nil => exact ⟨h, .refl _⟩
  | cons i l ih =>
      obtain ⟨hinv, hitems⟩ := h.add i
      obtain ⟨hinv', hitems'⟩ := ih hinv
      exact ⟨hinv', hitems'.trans ((hitems.append_left l).trans List.perm_middle)⟩

theorem Inv.mem_chain_iff (h : Inv key hash resizes s) {k : κ} {i : ι} (hk : key i = k) :
    i ∈ (s.hashSet.phFindEntryHashSet (hash k)).map (·.item) ↔
      i ∈ s.hashSet.flatten.map (·.item) := by
  simp only [List.mem_map, h.placed.mem_find_iff]
  constructor
  · rintro ⟨e, ⟨he, -⟩, rfl⟩
    exact ⟨e, he, rfl⟩
  · rintro ⟨e, he, rfl⟩
    exact ⟨e, ⟨he, by rw [h.hashes e he, hk]⟩, rfl⟩

variable [DecidableEq ι]

theorem Inv.remove (h : Inv key hash resizes s) {i : ι} {rest : List ι}
    (hperm : (s.hashSet.flatten.map (·.item)).Perm (i :: rest)) :
    ∃ s', HashItems.remove key hash s i = some s' ∧ Inv key hash resizes s' ∧
      (s'.hashSet.flatten.map (·.item)).Perm rest := by
  obtain ⟨buckets, hremove, hplaced, hrest⟩ := h.placed.remove (h.entries hperm)
  refine ⟨⟨buckets, s.count - 1⟩, by rw [HashItems.remove, hremove]; rfl,
    ⟨hplaced, ?_, ?_, fun hresizes => ?_⟩, ?_⟩
  · intro e he
    obtain ⟨j, -, rfl⟩ := List.mem_map.mp (hrest.mem_iff.mp he)
    rfl
  · have hlength := (h.entries hperm).length_eq
    rw [List.length_cons] at hlength
    rw [hrest.length_eq, h.count, hlength, Nat.add_sub_cancel]
  · rw [PhHashSet.length_remove hremove]
    exact (Nat.sub_le ..).trans (h.room hresizes)
  · refine (hrest.map _).trans ?_
    rw [List.map_map]
    exact .of_eq (List.map_id rest)

theorem Inv.set (h : Inv key hash resizes s) {i j : ι} {rest : List ι}
    (hperm : (s.hashSet.flatten.map (·.item)).Perm (i :: rest)) (hi : i ∉ rest)
    (hkey : key j = key i) : Inv key hash resizes (HashItems.set s i j) ∧
      ((HashItems.set s i j).hashSet.flatten.map (·.item)).Perm (j :: rest) := by
  have hhash : ∀ e : PhHashEntry ι, (replaced i j e).hash = e.hash := by
    intro e
    rw [replaced]
    split <;> rfl
  have hflatten : (HashItems.set s i j).hashSet.flatten = s.hashSet.flatten.map (replaced i j) :=
    List.map_flatten.symm
  have hindex : ∀ hash, (HashItems.set s i j).hashSet.index hash = s.hashSet.index hash := by
    intro hash
    rw [PhHashSet.index, PhHashSet.index, HashItems.set, List.length_map]
  refine ⟨⟨⟨?_, fun n chain hn e he => ?_⟩, fun e he => ?_, ?_, fun hresizes => ?_⟩, ?_⟩
  · rw [HashItems.set, List.length_map]
    exact h.placed.size
  · rw [HashItems.set, List.getElem?_map, Option.map_eq_some_iff] at hn
    obtain ⟨old, hold, rfl⟩ := hn
    obtain ⟨e₀, he₀, rfl⟩ := List.mem_map.mp he
    rw [hindex, hhash]
    exact h.placed.placed n old hold e₀ he₀
  · rw [hflatten] at he
    obtain ⟨e₀, he₀, rfl⟩ := List.mem_map.mp he
    rw [hhash, h.hashes e₀ he₀, replaced]
    split
    · next hitem => rw [hitem, hkey]
    · rfl
  · rw [hflatten, List.length_map]
    exact h.count
  · exact (h.room hresizes).trans_eq (List.length_map ..).symm
  · have hitems : (s.hashSet.flatten.map (replaced i j)).map (·.item) =
        (s.hashSet.flatten.map (·.item)).map fun x => if x = i then j else x := by
      rw [List.map_map, List.map_map]
      refine List.map_congr_left fun e _ => ?_
      show (replaced i j e).item = if e.item = i then j else e.item
      rw [replaced]
      split <;> rfl
    rw [hflatten, hitems]
    refine (hperm.map _).trans (.of_eq ?_)
    rw [List.map_cons, if_pos rfl]
    refine congrArg _ ((List.map_congr_left fun x hx => ?_).trans (List.map_id rest))
    refine if_neg fun heq => hi ?_
    rw [← heq]
    exact hx

/-- The sets that callers keep are lawful, and nothing is raised. -/
theorem collection_lawful [DecidableEq κ] : (collection key hash resizes).Lawful
    fun s => ∃ t, s = some t ∧ Inv key hash resizes t where
  lookup_some := by
    rintro _ k i ⟨t, rfl, ht⟩ hlookup
    have hfind : ((t.hashSet.phFindEntryHashSet (hash k)).map (·.item)).find? (key · = k) =
        some i := hlookup
    have hkey : key i = k := by simpa using List.find?_some hfind
    exact ⟨(ht.mem_chain_iff hkey).mp (List.mem_of_find?_eq_some hfind), hkey⟩
  lookup_none := by
    rintro _ k ⟨t, rfl, ht⟩ hlookup i hi hkey
    have hfind : ((t.hashSet.phFindEntryHashSet (hash k)).map (·.item)).find? (key · = k) =
        none := hlookup
    exact List.find?_eq_none.mp hfind i ((ht.mem_chain_iff hkey).mpr hi) (decide_eq_true hkey)
  add := by
    rintro _ i ⟨t, rfl, ht⟩
    exact ⟨⟨_, rfl, (ht.add i).1⟩, (ht.add i).2⟩
  remove := by
    rintro _ i rest ⟨t, rfl, ht⟩ hperm
    obtain ⟨t', hremove, ht', hrest⟩ := ht.remove hperm
    have hsome : (collection key hash resizes).remove (some t) i = some t' := hremove
    rw [hsome]
    exact ⟨⟨t', rfl, ht'⟩, hrest⟩
  set := by
    rintro _ i j rest ⟨t, rfl, ht⟩ hperm hi hkey
    exact ⟨⟨_, rfl, (ht.set hperm hi hkey).1⟩, (ht.set hperm hi hkey).2⟩

/-- After any calls on a new set it has what was added and not removed, each item is found by its
key, and a set that resizes has a bucket for every item. -/
theorem hashItems_calls [DecidableEq κ] {n : Nat} {calls : List (Reconcile.Call ι)}
    {stored : List ι} (h : Reconcile.Calls key [] calls stored) : ∃ s,
    calls.foldl (collection key hash resizes).call (some (create (2 ^ n))) = some s ∧
      (s.hashSet.flatten.map (·.item)).Perm stored ∧ s.count = stored.length ∧
      (∀ k i, lookup key hash s k = some i ↔ i ∈ stored ∧ key i = k) ∧
      (∃ m, s.hashSet.length = 2 ^ m) ∧ (resizes = true → s.count ≤ s.hashSet.length) := by
  have hitems : (collection key hash resizes).items (some (create (2 ^ n))) = [] :=
    items_create (2 ^ n)
  have hlawful : (collection key hash resizes).Lawful _ := collection_lawful
  obtain ⟨htidy, hperm⟩ := h.tidy (s := some (create (2 ^ n))) hlawful
    ⟨⟨_, rfl, inv_create n⟩, by rw [hitems]; exact List.nodup_nil⟩ (.of_eq hitems)
  obtain ⟨s, hs, hinv⟩ := htidy.inv
  rw [hs] at htidy hperm
  refine ⟨s, hs, hperm, ?_, fun k i => ?_, hinv.placed.size, hinv.room⟩
  · rw [hinv.count, ← hperm.length_eq]
    exact (List.length_map _).symm
  · rw [← hperm.mem_iff]
    exact Reconcile.lookup_iff collection_lawful htidy

/-- The third item does not fit into two buckets. -/
theorem hashItems_calls_resized : ∃ s,
    [.add (0, false), .add (2, false), .add (4, false), .set (2, false) (2, true),
      .remove (0, false)].foldl (collection Prod.fst (BitVec.ofNat 32) true).call
        (some (create (2 ^ 1))) = some s ∧
      (s.hashSet.flatten.map (·.item)).Perm [(4, false), (2, true)] ∧ s.count = 2 ∧
      (∀ k i, lookup Prod.fst (BitVec.ofNat 32) s k = some i ↔
        i ∈ [(4, false), (2, true)] ∧ i.1 = k) ∧
      (∃ m, s.hashSet.length = 2 ^ m) ∧ (true = true → s.count ≤ s.hashSet.length) := by
  have hremove : Reconcile.Calls Prod.fst ([(4, false), (2, true)] ++ [(0, false)])
      [.remove (0, false)] [(4, false), (2, true)] := .remove (.nil _)
  have hset : Reconcile.Calls Prod.fst ([(4, false)] ++ (2, false) :: [(0, false)])
      [.set (2, false) (2, true), .remove (0, false)] [(4, false), (2, true)] := .set rfl hremove
  exact hashItems_calls (.add (by decide) (.add (by decide) (.add (by decide) hset)))

end HashItems

end SystemInformer.PhLib
