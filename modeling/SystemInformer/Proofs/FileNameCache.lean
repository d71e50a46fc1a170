import SystemInformer.Driver.FileNameCache
import SystemInformer.Lib.Census

/-!
# What the file name cache returns

The reference count of a cached name is the number of references to it: that of the list and
those of threads, in the calls in progress and in the names that were got. An entry that is not
yet inserted has the reference of its maker only, so it is on no list and no other thread has to do
with it; an entry that is found is listed, and so its count is at least one when it is referenced.
What a name is freed by is its last reference.

Both copies into a new name are made with its size, which is the length of the name as a `USHORT`.
When the length does not fit, the string is too small for the volume's name already, and what is
left in it is shorter than the name.
-/

set_option linter.unusedSectionVars false

namespace SystemInformer.Driver

open PhLib (WChar)
open Census

/-! ## The name that is made -/

namespace FltNames

variable {φ : Type} (names : FltNames φ)

def fullName (f : φ) : List WChar := names.volumeName f ++ names.fileName f

/-- A counted string can hold the name. -/
def Representable (f : φ) : Prop := 2 * (names.fullName f).length < 2 ^ 16

theorem toNat_length (f : φ) :
    (names.kphpFltNameCacheFileNameLength f).toUInt16.toNat =
      2 * (names.fullName f).length % 2 ^ 16 := by
  have hvolume := names.volumeName_lt f
  have hfile := names.fileName_lt f
  rw [kphpFltNameCacheFileNameLength, UInt32.toNat_toUInt16, UInt32.toNat_add,
    UInt32.toNat_ofNat', UInt32.toNat_ofNat', fullName, List.length_append]
  omega

theorem length_fltGetVolumeName (f : φ) (maximumLength : UInt16) :
    2 * (names.fltGetVolumeName f maximumLength).length ≤ maximumLength.toNat := by
  rw [fltGetVolumeName]
  split
  · next hfits => exact hfits
  · exact names.tooSmall_le f maximumLength

theorem length_makeFileName (f : φ) :
    2 * (names.makeFileName f).length ≤
      (names.kphpFltNameCacheFileNameLength f).toUInt16.toNat := by
  have hvolume := names.length_fltGetVolumeName f (names.kphpFltNameCacheFileNameLength f).toUInt16
  rw [makeFileName, kphpFltNameCacheCopyFileName, rtlAppendUnicodeStringToString]
  split
  · next hfits =>
      rw [List.length_append]
      omega
  · exact hvolume

theorem makeFileName_eq_iff (f : φ) :
    names.makeFileName f = names.fullName f ↔ names.Representable f := by
  have hlength := names.toNat_length f
  constructor
  · intro hname
    have hle := names.length_makeFileName f
    rw [hname, hlength] at hle
    exact (hle.trans_lt (Nat.mod_lt _ (by decide)))
  · intro hfits
    rw [Nat.mod_eq_of_lt hfits, fullName, List.length_append] at hlength
    have hvolume : names.fltGetVolumeName f (names.kphpFltNameCacheFileNameLength f).toUInt16 =
        names.volumeName f := if_pos (by omega)
    rw [makeFileName, kphpFltNameCacheCopyFileName, rtlAppendUnicodeStringToString, hvolume,
      if_pos (by omega)]
    rfl

end FltNames

/-! ## References -/

section

variable {κ φ ι : Type}

def NamePc.references : NamePc κ φ ι → List κ
  | .cacheInsert _ e => [e]
  | .cacheDrop _ e existing => [e, existing]
  | .reapDrop e => [e]
  | .cleanupDrop e => [e]
  | .idle | .call _ | .cacheCreate _ | .contextAllocate .. | .contextSet .. | .cleanup => []

def FltFileName.references : FltFileName κ → List κ
  | .nameCache e => [e]
  | .context _ | .fileName _ => []

def NameThread.held (th : NameThread κ φ ι) : List κ :=
  th.names.flatMap fun name => name.2.references

def NameThread.owned (th : NameThread κ φ ι) : List κ := th.pc.references ++ th.held

end

section

variable {τ κ φ ι : Type} [Fintype τ] [DecidableEq τ] [DecidableEq κ] [DecidableEq φ]
  [DecidableEq ι]

/-! ## Objects -/

namespace NameObjects

variable {h : NameObjects κ φ} {e x : κ}

/-- An object is there as long as it has references, and every one that was there was freed. -/
structure Ok (h : NameObjects κ φ) : Prop where
  alive : ∀ e, h.entry e = none ↔ h.pointerCount e = 0
  gone : ∀ e, h.entry e = none → h.created e = h.freed e
  once : ∀ e, h.entry e ≠ none → h.created e = h.freed e + 1

theorem pointerCount_reference (x : κ) : (h.kphReferenceObject e).pointerCount x =
    h.pointerCount x + if x = e then 1 else 0 := by
  show Function.update h.pointerCount e (h.pointerCount e + 1) x = _
  rw [Function.update_apply]
  split
  · next heq => rw [heq]
  · rfl

theorem dereference_cases (he : 0 < h.pointerCount e) :
    (1 < h.pointerCount e ∧ h.kphDereferenceObject e =
      { h with pointerCount := Function.update h.pointerCount e (h.pointerCount e - 1) }) ∨
    (h.pointerCount e = 1 ∧ h.kphDereferenceObject e =
      ⟨Function.update h.entry e none, Function.update h.pointerCount e 0, h.created,
        Function.update h.freed e (h.freed e + 1)⟩) := by
  rcases Nat.lt_or_ge 1 (h.pointerCount e) with hmore | hlast
  · exact Or.inl ⟨hmore, if_pos (Nat.sub_pos_of_lt hmore)⟩
  · have hone : h.pointerCount e = 1 := le_antisymm hlast he
    refine Or.inr ⟨hone, ?_⟩
    rw [kphDereferenceObject, hone]
    rfl

theorem pointerCount_dereference (he : 0 < h.pointerCount e) (x : κ) :
    (h.kphDereferenceObject e).pointerCount x + (if x = e then 1 else 0) = h.pointerCount x := by
  rcases dereference_cases he with ⟨_, heq⟩ | ⟨hone, heq⟩
  · rw [heq]
    dsimp only
    rw [Function.update_apply]
    split
    · next hx =>
        subst hx
        omega
    · rfl
  · rw [heq]
    dsimp only
    rw [Function.update_apply]
    split
    · next hx =>
        subst hx
        omega
    · rfl

theorem pointerCount_create {f : φ} {name : List WChar} (x : κ) :
    (h.kphCreateObject e f name).pointerCount x = if x = e then 1 else h.pointerCount x :=
  Function.update_apply ..

theorem entry_dereference (he : 0 < h.pointerCount e)
    (hx : 0 < (h.kphDereferenceObject e).pointerCount x) :
    (h.kphDereferenceObject e).entry x = h.entry x := by
  rcases dereference_cases he with ⟨_, heq⟩ | ⟨_, heq⟩
  · rw [heq]
  · rw [heq] at hx ⊢
    dsimp only at hx ⊢
    rw [Function.update_apply] at hx ⊢
    rw [if_neg]
    rintro rfl
    rw [if_pos rfl] at hx
    exact lt_irrefl _ hx

theorem entry_create {f : φ} {name : List WChar} (hne : x ≠ e) :
    (h.kphCreateObject e f name).entry x = h.entry x := Function.update_of_ne hne ..

theorem Ok.reference (H : h.Ok) (he : 0 < h.pointerCount e) : (h.kphReferenceObject e).Ok where
  alive x := by
    rw [pointerCount_reference]
    show h.entry x = none ↔ _
    rw [H.alive]
    split
    · next heq =>
        subst heq
        omega
    · rfl
  gone := H.gone
  once := H.once

theorem Ok.dereference (H : h.Ok) (he : 0 < h.pointerCount e) :
    (h.kphDereferenceObject e).Ok := by
  have hthere : h.entry e ≠ none := mt (H.alive e).mp he.ne'
  rcases dereference_cases he with ⟨hmore, heq⟩ | ⟨hone, heq⟩
  · rw [heq]
    refine ⟨fun x => ?_, H.gone, H.once⟩
    dsimp only
    rw [Function.update_apply]
    split
    · next hx =>
        subst hx
        exact iff_of_false hthere (by omega)
    · exact H.alive x
  · rw [heq]
    have hfreed := H.once e hthere
    refine ⟨fun x => ?_, fun x hx => ?_, fun x hx => ?_⟩
    · dsimp only
      rw [Function.update_apply, Function.update_apply]
      split
      · exact iff_of_true rfl rfl
      · exact H.alive x
    · dsimp only at hx ⊢
      rw [Function.update_apply] at hx ⊢
      split
      · next heq =>
          subst heq
          exact hfreed
      · next hne => exact H.gone x (by rwa [if_neg hne] at hx)
    · dsimp only at hx ⊢
      rw [Function.update_apply] at hx ⊢
      have hne : x ≠ e := fun heq => hx (if_pos heq)
      rw [if_neg hne] at hx ⊢
      exact H.once x hx

theorem Ok.create (H : h.Ok) {f : φ} {name : List WChar} (he : h.entry e = none) :
    (h.kphCreateObject e f name).Ok := by
  have hself : (h.kphCreateObject e f name).entry e = some (f, name) := Function.update_self ..
  have hcreated : (h.kphCreateObject e f name).created e = h.created e + 1 :=
    Function.update_self ..
  have hother (x : κ) (hx : x ≠ e) :
      (h.kphCreateObject e f name).created x = h.created x := Function.update_of_ne hx ..
  refine ⟨fun x => ?_, fun x hx => ?_, fun x hx => ?_⟩
  · rw [pointerCount_create]
    by_cases hx : x = e
    · rw [if_pos hx, hx, hself]
      exact iff_of_false (Option.some_ne_none _) one_ne_zero
    · rw [if_neg hx, entry_create hx]
      exact H.alive x
  · by_cases hxe : x = e
    · rw [hxe, hself] at hx
      exact absurd hx (Option.some_ne_none _)
    · rw [entry_create hxe] at hx
      rw [hother x hxe]
      exact H.gone x hx
  · by_cases hxe : x = e
    · rw [hxe, hcreated, H.gone e he]
      rfl
    · rw [entry_create hxe] at hx
      rw [hother x hxe]
      exact H.once x hx

end NameObjects

/-! ## The invariant -/

def FltFileName.Ok (names : FltNames φ) (h : NameObjects κ φ) (f : φ) : FltFileName κ → Prop
  | .nameCache e => h.entry e = some (f, names.makeFileName f)
  | .context name => name = names.makeFileName f
  | .fileName name => name = names.makeFileName f

def NamePc.Ok (names : FltNames φ) (h : NameObjects κ φ) : NamePc κ φ ι → Prop
  | .cacheInsert f e => h.entry e = some (f, names.makeFileName f) ∧ h.pointerCount e = 1
  | .cacheDrop f _ existing => h.entry existing = some (f, names.makeFileName f)
  | .contextSet _ f name => name = names.makeFileName f
  | _ => True

structure NameThread.Ok (names : FltNames φ) (h : NameObjects κ φ) (th : NameThread κ φ ι) :
    Prop where
  pc : th.pc.Ok names h
  names : ∀ f name, (f, name) ∈ th.names → name.Ok names h f

structure NameInv (names : FltNames φ) (s : NameState τ κ φ ι) : Prop where
  objects : s.objects.Ok
  nodup : s.list.Nodup
  files : ∀ e ∈ s.list, ∀ x ∈ s.list, s.objects.fileObject e = s.objects.fileObject x → e = x
  counts : ∀ e, s.objects.pointerCount e =
    s.list.count e + total (fun th => th.owned.count e) s.threads
  listed : ∀ e ∈ s.list, ∃ f, s.objects.entry e = some (f, names.makeFileName f)
  contexts : ∀ i f name, s.context i f = some name → name = names.makeFileName f
  threads : ∀ t, (s.threads t).Ok names s.objects

variable {names : FltNames φ} {s : NameState τ κ φ ι} {t u : τ} {e x : κ}

theorem NameInv.pos_of_owned (H : NameInv names s) (he : e ∈ (s.threads t).owned) :
    0 < s.objects.pointerCount e := by
  have hle := le_total (fun th : NameThread κ φ ι => th.owned.count e) s.threads t
  have hpos := List.count_pos_iff.mpr he
  have := H.counts e
  omega

theorem NameInv.pos_of_listed (H : NameInv names s) (he : e ∈ s.list) :
    0 < s.objects.pointerCount e := by
  have hpos := List.count_pos_iff.mpr he
  have := H.counts e
  omega

variable {f : φ} {name : FltFileName κ}

theorem FltFileName.Ok.congr {h h' : NameObjects κ φ}
    (hname : name.Ok names h f) (hsame : ∀ e ∈ name.references, h'.entry e = h.entry e) :
    name.Ok names h' f := by
  cases name with
  | nameCache e => exact (hsame e List.mem_cons_self).trans hname
  | context name => exact hname
  | fileName name => exact hname

variable {th : NameThread κ φ ι}

theorem NameThread.Ok.congr {h h' : NameObjects κ φ}
    (hth : th.Ok names h) (hsame : ∀ e ∈ th.owned, h'.entry e = h.entry e)
    (hcount : ∀ f e, th.pc = .cacheInsert f e → h'.pointerCount e = h.pointerCount e) :
    th.Ok names h' := by
  refine ⟨?_, fun f name hname => (hth.names f name hname).congr fun e he => hsame e ?_⟩
  · have hpc := hth.pc
    have hown : ∀ e ∈ th.pc.references, h'.entry e = h.entry e := fun e he =>
      hsame e (List.mem_append_left _ he)
    cases hat : th.pc with
    | cacheInsert f e =>
        rw [hat] at hpc hown
        exact ⟨(hown e List.mem_cons_self).trans hpc.1, (hcount f e hat).trans hpc.2⟩
    | cacheDrop f e existing =>
        rw [hat] at hpc hown
        exact (hown existing (List.mem_cons_of_mem _ List.mem_cons_self)).trans hpc
    | contextSet i f name =>
        rw [hat] at hpc
        exact hpc
    | idle | call | cacheCreate | contextAllocate | reapDrop | cleanup | cleanupDrop => trivial
  · exact List.mem_append_right _ (List.mem_flatMap.mpr ⟨_, hname, he⟩)

theorem NameInv.not_listed (H : NameInv names s)
    (hpc : (s.threads u).pc = .cacheInsert f e) : e ∉ s.list := by
  have hok := (H.threads u).pc
  rw [hpc] at hok
  have hcount := H.counts e
  have hle := le_total (fun th : NameThread κ φ ι => th.owned.count e) s.threads u
  have hown : 0 < (s.threads u).owned.count e :=
    List.count_pos_iff.mpr (by rw [NameThread.owned, hpc]; exact List.mem_cons_self)
  rw [← List.count_pos_iff]
  have := hok.2
  omega

theorem NameInv.not_owned (H : NameInv names s)
    (hpc : (s.threads u).pc = .cacheInsert f e) (hne : u ≠ t) : e ∉ (s.threads t).owned := by
  have hok := (H.threads u).pc
  rw [hpc] at hok
  have hcount := H.counts e
  have hle := add_le_total (fun th : NameThread κ φ ι => th.owned.count e) s.threads hne.symm
  have hown : 0 < (s.threads u).owned.count e :=
    List.count_pos_iff.mpr (by rw [NameThread.owned, hpc]; exact List.mem_cons_self)
  rw [← List.count_pos_iff]
  have := hok.2
  omega

variable {objects : NameObjects κ φ}

theorem NameInv.step (H : NameInv names s) {list : List κ}
    {context : ι → φ → Option (List WChar)} {filtering : Bool}
    (hobjects : objects.Ok) (hnodup : list.Nodup)
    (hfiles : ∀ e ∈ list, ∀ x ∈ list, objects.fileObject e = objects.fileObject x → e = x)
    (hlisted : ∀ e ∈ list, ∃ f, objects.entry e = some (f, names.makeFileName f))
    (hcontexts : ∀ i f name, context i f = some name → name = names.makeFileName f)
    (hcounts : ∀ e, objects.pointerCount e + s.list.count e + (s.threads t).owned.count e =
      s.objects.pointerCount e + list.count e + th.owned.count e)
    (hsame : ∀ e, 0 < s.objects.pointerCount e → 0 < objects.pointerCount e →
      objects.entry e = s.objects.entry e)
    (hinserting : ∀ u ≠ t, ∀ f e, (s.threads u).pc = .cacheInsert f e →
      objects.pointerCount e = s.objects.pointerCount e)
    (hth : (∀ e ∈ th.owned, 0 < objects.pointerCount e) → th.Ok names objects) :
    NameInv names ⟨objects, list, context, Function.update s.threads t th, filtering⟩ := by
  have htotal (e : κ) := total_update (fun th : NameThread κ φ ι => th.owned.count e) s.threads t th
  have hcount (e : κ) : objects.pointerCount e = list.count e +
      total (fun th => th.owned.count e) (Function.update s.threads t th) := by
    have hold := H.counts e
    have hnew := hcounts e
    have hmoved := htotal e
    omega
  have hpos (v : τ) (e : κ) (he : e ∈ (Function.update s.threads t th v).owned) :
      0 < objects.pointerCount e := by
    have hle := le_total (fun th : NameThread κ φ ι => th.owned.count e)
      (Function.update s.threads t th) v
    have hin := List.count_pos_iff.mpr he
    rw [hcount]
    omega
  refine ⟨hobjects, hnodup, hfiles, hcount, hlisted, hcontexts, fun v => ?_⟩
  dsimp only
  by_cases hv : v = t
  · subst hv
    rw [Function.update_self]
    exact hth fun e he => hpos v e (by rwa [Function.update_self])
  · rw [Function.update_of_ne hv]
    refine (H.threads v).congr (fun e he => ?_) (hinserting v hv)
    exact hsame e (H.pos_of_owned he) (hpos v e (by rwa [Function.update_of_ne hv]))

theorem NameInv.local (H : NameInv names s) {context : ι → φ → Option (List WChar)} {filtering : Bool}
    (hcontexts : ∀ i f name, context i f = some name → name = names.makeFileName f)
    (howned : ∀ e, th.owned.count e = (s.threads t).owned.count e)
    (hth : th.Ok names s.objects) :
    NameInv names ⟨s.objects, s.list, context, Function.update s.threads t th, filtering⟩ :=
  H.step H.objects H.nodup H.files H.listed hcontexts (fun e => by rw [howned]) (fun _ _ _ => rfl)
    (fun _ _ _ _ _ => rfl) fun _ => hth

/-! ## The steps -/

theorem count_goto (th : NameThread κ φ ι) (pc : NamePc κ φ ι) (e : κ) :
    (th.goto pc).owned.count e = pc.references.count e + th.held.count e := List.count_append ..

theorem count_return (th : NameThread κ φ ι) (f : φ) (name : FltFileName κ) (e : κ) :
    (th.return' f name).owned.count e = name.references.count e + th.held.count e := by
  rw [NameThread.owned, NameThread.return', NamePc.references, List.nil_append, NameThread.held,
    List.flatMap_cons, List.count_append]
  rfl

theorem count_owned {pc : NamePc κ φ ι} (hpc : th.pc = pc) (e : κ) :
    th.owned.count e = pc.references.count e + th.held.count e := by
  rw [NameThread.owned, hpc, List.count_append]

theorem count_first (e x : κ) (l : List κ) :
    (e :: l).count x = (if x = e then 1 else 0) + l.count x := by
  rw [List.count_cons, Nat.add_comm]
  by_cases h : x = e
  · rw [if_pos h, if_pos (by simp [h])]
  · rw [if_neg h, if_neg (by simpa using fun heq => h heq.symm)]

theorem count_single (e x : κ) : [e].count x = if x = e then 1 else 0 := count_first e x []

theorem NameInv.held_ok (H : NameInv names s)
    (hsame : ∀ e, 0 < s.objects.pointerCount e → 0 < objects.pointerCount e →
      objects.entry e = s.objects.entry e)
    (hpos : ∀ e ∈ (s.threads t).held, 0 < objects.pointerCount e)
    (hname : (f, name) ∈ (s.threads t).names) : name.Ok names objects f := by
  refine ((H.threads t).names f name hname).congr fun e he => ?_
  have hheld : e ∈ (s.threads t).held := List.mem_flatMap.mpr ⟨_, hname, he⟩
  exact hsame e (H.pos_of_owned (List.mem_append_right _ hheld)) (hpos e hheld)

theorem findEntry_some (H : NameInv names s) (h : s.findEntry f = some e) :
    e ∈ s.list ∧ s.objects.entry e = some (f, names.makeFileName f) := by
  have hin := List.mem_of_find?_eq_some h
  have hfile : s.objects.fileObject e = some f := by simpa using List.find?_some h
  obtain ⟨f', hentry⟩ := H.listed e hin
  rw [NameObjects.fileObject, hentry, Option.map_some, Option.some.injEq] at hfile
  obtain rfl : f' = f := hfile
  exact ⟨hin, hentry⟩

theorem findEntry_none (h : s.findEntry f = none) :
    ∀ x ∈ s.list, s.objects.fileObject x ≠ some f := fun x hx => by
  simpa using List.find?_eq_none.mp h x hx

theorem NameInv.ne_of_inserting (H : NameInv names s)
    (hx : x ∈ s.list ∨ x ∈ (s.threads t).owned) :
    ∀ u ≠ t, ∀ f e, (s.threads u).pc = .cacheInsert f e → e ≠ x := by
  rintro u hne f e hpc rfl
  rcases hx with hlist | howned
  · exact H.not_listed hpc hlist
  · exact H.not_owned hpc hne howned

theorem NameInv.inserting_reference (H : NameInv names s)
    (hx : x ∈ s.list ∨ x ∈ (s.threads t).owned) : ∀ u ≠ t, ∀ f e,
      (s.threads u).pc = .cacheInsert f e →
        (s.objects.kphReferenceObject x).pointerCount e = s.objects.pointerCount e := by
  intro u hne f e hpc
  rw [NameObjects.pointerCount_reference, if_neg (H.ne_of_inserting hx u hne f e hpc)]
  rfl

theorem NameInv.inserting_dereference (H : NameInv names s) (hx : x ∈ (s.threads t).owned) :
    ∀ u ≠ t, ∀ f e, (s.threads u).pc = .cacheInsert f e →
      (s.objects.kphDereferenceObject x).pointerCount e = s.objects.pointerCount e := by
  intro u hne f e hpc
  have hcount := NameObjects.pointerCount_dereference (H.pos_of_owned hx) e
  rwa [if_neg (H.ne_of_inserting (Or.inr hx) u hne f e hpc)] at hcount

theorem return_ok (hnames : ∀ f name, (f, name) ∈ th.names → name.Ok names objects f)
    (hname : name.Ok names objects f) : (th.return' f name).Ok names objects := by
  refine ⟨trivial, fun g other hother => ?_⟩
  rcases List.mem_cons.mp hother with heq | hin
  · obtain ⟨rfl, rfl⟩ := Prod.mk.inj heq
    exact hname
  · exact hnames g other hin

theorem NameInv.dereference (H : NameInv names s)
    (hcounts : ∀ x, th.owned.count x + (if x = e then 1 else 0) = (s.threads t).owned.count x)
    (hth : (∀ x ∈ th.owned, (s.objects.kphDereferenceObject e).entry x = s.objects.entry x) →
      th.Ok names (s.objects.kphDereferenceObject e)) :
    NameInv names ⟨s.objects.kphDereferenceObject e, s.list, s.context,
      Function.update s.threads t th, s.filtering⟩ := by
  have howned : e ∈ (s.threads t).owned := by
    have hself := hcounts e
    rw [if_pos rfl] at hself
    exact List.count_pos_iff.mp (by omega)
  have hpos := H.pos_of_owned howned
  have hcount (x : κ) := NameObjects.pointerCount_dereference hpos x
  have hlisted (x : κ) (hx : x ∈ s.list) :
      (s.objects.kphDereferenceObject e).entry x = s.objects.entry x := by
    refine NameObjects.entry_dereference hpos ?_
    have hin := List.count_pos_iff.mpr hx
    have hle := le_total (fun th : NameThread κ φ ι => th.owned.count x) s.threads t
    have hall := H.counts x
    have hthere := hcount x
    have hgiven := hcounts x
    omega
  refine H.step (H.objects.dereference hpos) H.nodup (fun x hx y hy heq => ?_) (fun x hx => ?_)
    H.contexts (fun x => ?_) (fun x _ hx => NameObjects.entry_dereference hpos hx)
    (H.inserting_dereference howned) fun hall =>
      hth fun x hx => NameObjects.entry_dereference hpos (hall x hx)
  · rw [NameObjects.fileObject, NameObjects.fileObject, hlisted x hx, hlisted y hy] at heq
    exact H.files x hx y hy heq
  · rw [hlisted x hx]
    exact H.listed x hx
  · have hthere := hcount x
    have hgiven := hcounts x
    omega

theorem NameInv.reference (H : NameInv names s) {list : List κ}
    (he : e ∈ s.list ∨ e ∈ (s.threads t).owned) (hnodup : list.Nodup)
    (hlist : ∀ x ∈ list, x ∈ s.list ∨ x = e) (hentry : ∃ f, s.objects.entry e =
      some (f, names.makeFileName f))
    (hfile : ∀ x ∈ s.list, e ∈ list → s.objects.fileObject x = s.objects.fileObject e → x = e)
    (hcounts : ∀ x, (if x = e then 1 else 0) + s.list.count x + (s.threads t).owned.count x =
      list.count x + th.owned.count x)
    (hth : th.Ok names (s.objects.kphReferenceObject e)) :
    NameInv names ⟨s.objects.kphReferenceObject e, list, s.context,
      Function.update s.threads t th, s.filtering⟩ := by
  have hpos : 0 < s.objects.pointerCount e := he.elim H.pos_of_listed H.pos_of_owned
  refine H.step (H.objects.reference hpos) hnodup (fun x hx y hy heq => ?_) (fun x hx => ?_)
    H.contexts (fun x => ?_) (fun x _ _ => rfl) (H.inserting_reference he) fun _ => hth
  · replace heq : s.objects.fileObject x = s.objects.fileObject y := heq
    rcases hlist x hx with hxin | rfl
    · rcases hlist y hy with hyin | rfl
      · exact H.files x hxin y hyin heq
      · exact hfile x hxin hy heq
    · rcases hlist y hy with hyin | rfl
      · exact (hfile y hyin hx heq.symm).symm
      · rfl
  · rcases hlist x hx with hxin | rfl
    · exact H.listed x hxin
    · exact hentry
  · rw [NameObjects.pointerCount_reference]
    have := hcounts x
    omega

theorem NameInv.goto_local (H : NameInv names s) {pc pc' : NamePc κ φ ι}
    (hpc : (s.threads t).pc = pc) (hnone : pc.references = []) (hnone' : pc'.references = [])
    (hok : pc'.Ok names s.objects) : NameInv names (s.goto t pc') := by
  refine H.local H.contexts (fun e => ?_) ⟨hok, (H.threads t).names⟩
  rw [count_goto, count_owned hpc, hnone, hnone']

theorem NameInv.return_local (H : NameInv names s) {context : ι → φ → Option (List WChar)}
    {pc : NamePc κ φ ι} (hpc : (s.threads t).pc = pc)
    (hnone : pc.references = []) (hname : name.references = [])
    (hok : name.Ok names s.objects f)
    (hcontexts : ∀ i f name, context i f = some name → name = names.makeFileName f) :
    NameInv names ⟨s.objects, s.list, context,
      Function.update s.threads t ((s.threads t).return' f name), s.filtering⟩ := by
  refine H.local hcontexts (fun e => ?_) (return_ok (H.threads t).names hok)
  rw [count_return, count_owned hpc, hnone, hname]

theorem NameInv.cacheFound (H : NameInv names s)
    (hpc : (s.threads t).pc = .call (.useNameCache f)) (hfound : s.findEntry f = some e) :
    NameInv names ((s.kphReferenceObject e).return' t f (.nameCache e)) := by
  obtain ⟨hin, hentry⟩ := findEntry_some H hfound
  show NameInv names ⟨s.objects.kphReferenceObject e, s.list, s.context,
    Function.update s.threads t ((s.threads t).return' f (.nameCache e)), s.filtering⟩
  refine H.reference (Or.inl hin) H.nodup (fun x hx => Or.inl hx) ⟨f, hentry⟩
    (fun x hx _ heq => H.files x hx e hin heq) (fun x => ?_)
    (return_ok (H.threads t).names hentry)
  have hold := count_owned hpc x
  have hnew := count_return (s.threads t) f (.nameCache e) x
  rw [FltFileName.references, count_single] at hnew
  rw [NamePc.references, List.count_nil] at hold
  omega

theorem NameInv.cacheCreate (H : NameInv names s)
    (hpc : (s.threads t).pc = .cacheCreate f) (hfree : s.objects.entry e = none) :
    NameInv names ({ s with
      objects := s.objects.kphCreateObject e f (names.makeFileName f) }.goto t
        (.cacheInsert f e)) := by
  have hzero := (H.objects.alive e).mp hfree
  have hne {x : κ} (hx : 0 < s.objects.pointerCount x) : x ≠ e := fun heq => by
    rw [heq, hzero] at hx
    exact lt_irrefl _ hx
  have hsame {x : κ} (hx : 0 < s.objects.pointerCount x) :
      (s.objects.kphCreateObject e f (names.makeFileName f)).entry x = s.objects.entry x :=
    NameObjects.entry_create (hne hx)
  show NameInv names ⟨s.objects.kphCreateObject e f (names.makeFileName f), s.list, s.context,
    Function.update s.threads t ((s.threads t).goto (.cacheInsert f e)), s.filtering⟩
  refine H.step (H.objects.create hfree) H.nodup (fun x hx y hy heq => ?_) (fun x hx => ?_)
    H.contexts (fun x => ?_) (fun x hx _ => hsame hx) (fun u hu g x hinsert => ?_)
    fun hall => ⟨⟨Function.update_self .., ?_⟩, fun g name hname => ?_⟩
  · rw [NameObjects.fileObject, NameObjects.fileObject, hsame (H.pos_of_listed hx),
      hsame (H.pos_of_listed hy)] at heq
    exact H.files x hx y hy heq
  · rw [hsame (H.pos_of_listed hx)]
    exact H.listed x hx
  · rw [NameObjects.pointerCount_create, count_goto, count_owned hpc, NamePc.references,
      NamePc.references, count_single, List.count_nil]
    by_cases hx : x = e
    · simp only [hx, hzero]
      omega
    · simp only [if_neg hx]
  · rw [NameObjects.pointerCount_create, if_neg]
    have hok := (H.threads u).pc
    rw [hinsert] at hok
    exact hne (by rw [hok.2]; exact Nat.one_pos)
  · rw [NameObjects.pointerCount_create, if_pos rfl]
  · exact H.held_ok (fun x hx _ => hsame hx)
      (fun x hx => hall x (List.mem_append_right _ hx)) hname

theorem NameInv.cacheInsert (H : NameInv names s)
    (hpc : (s.threads t).pc = .cacheInsert f e) (hnone : s.findEntry f = none) :
    NameInv names ({ s.kphReferenceObject e with list := e :: s.list }.return' t f
      (.nameCache e)) := by
  have hok := (H.threads t).pc
  rw [hpc] at hok
  have hnot := H.not_listed hpc
  have howned : e ∈ (s.threads t).owned := by
    rw [NameThread.owned, hpc]
    exact List.mem_cons_self
  show NameInv names ⟨s.objects.kphReferenceObject e, e :: s.list, s.context,
    Function.update s.threads t ((s.threads t).return' f (.nameCache e)), s.filtering⟩
  refine H.reference (Or.inr howned) (List.nodup_cons.mpr ⟨hnot, H.nodup⟩)
    (fun x hx => (List.mem_cons.mp hx).symm) ⟨f, hok.1⟩ (fun x hx _ heq => ?_) (fun x => ?_)
    (return_ok (H.threads t).names hok.1)
  · rw [NameObjects.fileObject, NameObjects.fileObject, hok.1] at heq
    exact absurd heq (findEntry_none hnone x hx)
  · have hold := count_owned hpc x
    have hnew := count_return (s.threads t) f (.nameCache e) x
    rw [FltFileName.references, count_single] at hnew
    rw [NamePc.references, count_single] at hold
    rw [count_first]
    omega

theorem NameInv.cacheRaced (H : NameInv names s)
    (hpc : (s.threads t).pc = .cacheInsert f e) (hfound : s.findEntry f = some x) :
    NameInv names ((s.kphReferenceObject x).goto t (.cacheDrop f e x)) := by
  obtain ⟨hin, hentry⟩ := findEntry_some H hfound
  show NameInv names ⟨s.objects.kphReferenceObject x, s.list, s.context,
    Function.update s.threads t ((s.threads t).goto (.cacheDrop f e x)), s.filtering⟩
  refine H.reference (Or.inl hin) H.nodup (fun y hy => Or.inl hy) ⟨f, hentry⟩
    (fun y hy _ heq => H.files y hy x hin heq) (fun y => ?_)
    ⟨hentry, (H.threads t).names⟩
  rw [count_owned hpc, count_goto, NamePc.references, NamePc.references, count_single, count_first,
    count_single]
  omega

theorem NameInv.cacheDrop (H : NameInv names s)
    (hpc : (s.threads t).pc = .cacheDrop f e x) :
    NameInv names ((s.kphDereferenceObject e).return' t f (.nameCache x)) := by
  show NameInv names ⟨s.objects.kphDereferenceObject e, s.list, s.context,
    Function.update s.threads t ((s.threads t).return' f (.nameCache x)), s.filtering⟩
  have hok := (H.threads t).pc
  rw [hpc] at hok
  refine H.dereference (fun y => ?_) fun hsame => return_ok (fun g name hname => ?_) ?_
  · rw [count_return, count_owned hpc, FltFileName.references, NamePc.references, count_single,
      count_first, count_single]
    omega
  · refine ((H.threads t).names g name hname).congr fun y hy => hsame y ?_
    exact List.mem_flatMap.mpr ⟨_, List.mem_cons_of_mem _ hname, hy⟩
  · exact (hsame x (List.mem_flatMap.mpr ⟨_, List.mem_cons_self, List.mem_cons_self⟩)).trans hok

theorem NameInv.drop (H : NameInv names s) {pc pc' : NamePc κ φ ι} (hpc : (s.threads t).pc = pc)
    (hold : pc.references = [e]) (hnew : pc'.references = []) (hok : ∀ h, pc'.Ok names h) :
    NameInv names ((s.kphDereferenceObject e).goto t pc') := by
  show NameInv names ⟨s.objects.kphDereferenceObject e, s.list, s.context,
    Function.update s.threads t ((s.threads t).goto pc'), s.filtering⟩
  refine H.dereference (fun y => ?_) fun hsame => ⟨hok _, fun g name hname => ?_⟩
  · rw [count_goto, count_owned hpc, hold, hnew, count_single, List.count_nil]
    omega
  · refine ((H.threads t).names g name hname).congr fun y hy => hsame y ?_
    exact List.mem_append_right _ (List.mem_flatMap.mpr ⟨_, hname, hy⟩)

theorem NameInv.unlink (H : NameInv names s) {list : List κ} {pc pc' : NamePc κ φ ι}
    (hpc : (s.threads t).pc = pc) (hold : pc.references = []) (hnew : pc'.references = [e])
    (hok : pc'.Ok names s.objects) (hsub : list.Sublist s.list)
    (hcount : ∀ y, list.count y + (if y = e then 1 else 0) = s.list.count y) :
    NameInv names ({ s with list := list }.goto t pc') := by
  show NameInv names ⟨s.objects, list, s.context,
    Function.update s.threads t ((s.threads t).goto pc'), s.filtering⟩
  refine H.step H.objects (H.nodup.sublist hsub)
    (fun y hy z hz => H.files y (hsub.subset hy) z (hsub.subset hz))
    (fun y hy => H.listed y (hsub.subset hy)) H.contexts (fun y => ?_) (fun _ _ _ => rfl)
    (fun _ _ _ _ _ => rfl) fun _ => ⟨hok, (H.threads t).names⟩
  have := hcount y
  rw [count_owned hpc, count_goto, hold, hnew, count_single, List.count_nil]
  omega

theorem count_erase_add (hin : e ∈ s.list) (y : κ) :
    (s.list.erase e).count y + (if y = e then 1 else 0) = s.list.count y := by
  have hpos := List.count_pos_iff.mpr hin
  rw [List.count_erase]
  by_cases hy : y = e
  · rw [if_pos hy, hy, if_pos (beq_self_eq_true e)]
    omega
  · rw [if_neg hy, if_neg (by simpa using fun heq => hy heq.symm)]
    rfl

theorem setContext_some {i i' : ι} {f f' : φ} {name : List WChar} {context : Option (List WChar)}
    (hcontexts : ∀ i f name, s.context i f = some name → name = names.makeFileName f)
    (hnew : ∀ name, context = some name → name = names.makeFileName f)
    (h : (s.setContext i f context).context i' f' = some name) :
    name = names.makeFileName f' := by
  rw [NameState.setContext] at h
  dsimp only at h
  by_cases hi : i' = i
  · rw [hi, Function.update_self] at h
    by_cases hf : f' = f
    · rw [hf, Function.update_self] at h
      rw [hf]
      exact hnew name h
    · rw [Function.update_of_ne hf] at h
      exact hcontexts i f' name h
  · rw [Function.update_of_ne hi] at h
    exact hcontexts i' f' name h

theorem NameInv.advance (H : NameInv names s) (succeeds : Bool)
    (hfree : ∀ f, (s.threads t).pc = .cacheCreate f → s.objects.entry e = none) :
    NameInv names (s.advance names t succeeds e) := by
  have hok := (H.threads t).pc
  rw [NameState.advance]
  cases hpc : (s.threads t).pc with
  | idle => exact H
  | call call =>
      cases call with
      | useNameCache f =>
          dsimp only
          cases hfind : s.findEntry f with
          | none => exact H.goto_local hpc rfl rfl trivial
          | some cacheEntry => exact H.cacheFound hpc hfind
      | useContext i f =>
          dsimp only
          cases hcontext : s.context i f with
          | none => exact H.goto_local hpc rfl rfl trivial
          | some name =>
              cases succeeds with
              | false => exact H.goto_local hpc rfl rfl trivial
              | true =>
                  exact H.return_local hpc rfl rfl (H.contexts i f name hcontext) H.contexts
      | copy f =>
          dsimp only
          split
          · exact H.return_local hpc rfl rfl rfl H.contexts
          · exact H.goto_local hpc rfl rfl trivial
      | reap f =>
          dsimp only
          cases hfind : s.findEntry f with
          | none => exact H.goto_local hpc rfl rfl trivial
          | some cacheEntry =>
              have hin := (findEntry_some H hfind).1
              exact H.unlink hpc rfl rfl trivial List.erase_sublist (count_erase_add hin)
  | cacheCreate f =>
      dsimp only
      split
      · exact H.cacheCreate hpc (hfree f hpc)
      · exact H.goto_local hpc rfl rfl trivial
  | cacheInsert f cacheEntry =>
      dsimp only
      cases hfind : s.findEntry f with
      | none => exact H.cacheInsert hpc hfind
      | some existing => exact H.cacheRaced hpc hfind
  | cacheDrop f cacheEntry existing => exact H.cacheDrop hpc
  | contextAllocate i f =>
      dsimp only
      split
      · exact H.goto_local hpc rfl rfl rfl
      · exact H.goto_local hpc rfl rfl trivial
  | contextSet i f name =>
      rw [hpc] at hok
      dsimp only
      split
      · cases hcontext : s.context i f with
        | none =>
            refine H.return_local hpc rfl rfl hok fun i' f' name' hname' => ?_
            exact setContext_some H.contexts (fun _ heq => (Option.some.inj heq).symm.trans hok)
              hname'
        | some oldContext =>
            exact H.return_local hpc rfl rfl (H.contexts i f oldContext hcontext) H.contexts
      · exact H.goto_local hpc rfl rfl trivial
  | reapDrop cacheEntry => exact H.drop hpc rfl rfl fun _ => trivial
  | cleanup =>
      dsimp only
      cases hlist : s.list with
      | nil => exact H.goto_local hpc rfl rfl trivial
      | cons cacheEntry rest =>
          refine H.unlink hpc rfl rfl trivial (hlist ▸ List.sublist_cons_self cacheEntry rest)
            fun y => ?_
          rw [hlist, count_first]
          omega
  | cleanupDrop cacheEntry => exact H.drop hpc rfl rfl fun _ => trivial

def released (th : NameThread κ φ ι) (f : φ) (name : FltFileName κ) : NameThread κ φ ι :=
  { th with names := th.names.erase (f, name) }

theorem count_released
    (hname : (f, name) ∈ th.names) (y : κ) :
    (released th f name).owned.count y + name.references.count y = th.owned.count y := by
  have hperm := (List.perm_cons_erase hname).flatMap_right fun name => name.2.references
  have hheld : th.held.count y =
      name.references.count y + (released th f name).held.count y := by
    have hcount := hperm.count_eq y
    rwa [List.flatMap_cons, List.count_append] at hcount
  have hpc : (released th f name).pc = th.pc := rfl
  rw [count_owned hpc, count_owned rfl, hheld]
  omega

theorem released_ok (f : φ)
    (name : FltFileName κ) (hth : th.Ok names objects) : (released th f name).Ok names objects :=
  ⟨hth.pc, fun g other hother => hth.names g other (List.mem_of_mem_erase hother)⟩

theorem NameInv.release (H : NameInv names s)
    (hidle : (s.threads t).pc = .idle) (hname : (f, name) ∈ (s.threads t).names) :
    NameInv names (s.kphpFltReleaseFileName t f name) := by
  have hcount := count_released hname
  cases name with
  | nameCache e =>
      refine H.dereference (fun y => ?_) fun hsame => ?_
      · have hy := hcount y
        rwa [FltFileName.references, count_single] at hy
      · refine (released_ok f _ (H.threads t)).congr hsame fun g x hpc => ?_
        exact absurd (hidle.symm.trans hpc) nofun
  | context name => exact H.local H.contexts hcount (released_ok f _ (H.threads t))
  | fileName name => exact H.local H.contexts hcount (released_ok f _ (H.threads t))

theorem NameInv.next {s' : NameState τ κ φ ι} (H : NameInv names s) (hstep : NameStep names s s') :
    NameInv names s' := by
  cases hstep with
  | call t call hidle => exact H.goto_local hidle rfl rfl trivial
  | advance t succeeds e hfree => exact H.advance succeeds hfree
  | release t f name hidle hname => exact H.release hidle hname
  | deleteContext i f =>
      exact ⟨H.objects, H.nodup, H.files, H.counts, H.listed,
        fun i' f' name hname => setContext_some H.contexts
          (fun _ heq => absurd heq.symm (Option.some_ne_none _)) hname,
        H.threads⟩
  | unregister hidle =>
      exact ⟨H.objects, H.nodup, H.files, H.counts, H.listed, H.contexts, H.threads⟩
  | cleanup t hidle => exact H.goto_local (hidle t) rfl rfl trivial

theorem nameInv_start (names : FltNames φ) :
    NameInv names (NameState.start : NameState τ κ φ ι) where
  objects := ⟨fun _ => iff_of_true rfl rfl, fun _ _ => rfl, fun _ h => absurd rfl h⟩
  nodup := List.nodup_nil
  files _ he := absurd he List.not_mem_nil
  counts e := by
    have htotal : total (fun th : NameThread κ φ ι => th.owned.count e)
        (NameState.start : NameState τ κ φ ι).threads = 0 := total_eq_zero fun _ => rfl
    rw [htotal]
    rfl
  listed _ he := absurd he List.not_mem_nil
  contexts _ _ _ h := nomatch h
  threads _ := ⟨trivial, fun _ _ h => absurd h List.not_mem_nil⟩

theorem nameInv_of_reachable (h : Relation.ReflTransGen (NameStep names) NameState.start s) :
    NameInv names s := by
  induction h with
  | refl => exact nameInv_start names
  | tail _ hstep ih => exact ih.next hstep

/-! ## What the cache promises -/

/-- Nobody has a reference: the name is not listed, no thread has got it, and none is about to do
something with it. -/
structure NameState.Unused (s : NameState τ κ φ ι) (e : κ) : Prop where
  unlinked : e ∉ s.list
  released : ∀ t f, (f, .nameCache e) ∉ (s.threads t).names
  idle : ∀ t, e ∉ (s.threads t).pc.references

/-- What is claimed of the references and of the names. -/
structure NameState.Right (names : FltNames φ) (s : NameState τ κ φ ι) : Prop where
  oneEntry : s.list.Nodup ∧
    ∀ e ∈ s.list, ∀ x ∈ s.list, s.objects.fileObject e = s.objects.fileObject x → e = x
  referenced : ∀ e, s.objects.pointerCount e =
    s.list.count e + ∑ t, ((s.threads t).held.count e + (s.threads t).pc.references.count e)
  freed : ∀ e, s.objects.entry e = none ↔ s.Unused e
  once : ∀ e, (s.objects.entry e = none → s.objects.created e = s.objects.freed e) ∧
    (s.objects.entry e ≠ none → s.objects.created e = s.objects.freed e + 1)
  text : ∀ t f name, (f, name) ∈ (s.threads t).names → s.text name = some (names.fullName f)

theorem NameInv.unused_iff (H : NameInv names s) (e : κ) :
    s.objects.entry e = none ↔ s.Unused e := by
  rw [H.objects.alive]
  constructor
  · intro hzero
    have hcount := H.counts e
    have hnone (t : τ) : e ∉ (s.threads t).owned := fun he => (H.pos_of_owned he).ne' hzero
    refine ⟨fun he => (H.pos_of_listed he).ne' hzero, fun t f hname => hnone t ?_,
      fun t he => hnone t (List.mem_append_left _ he)⟩
    exact List.mem_append_right _ (List.mem_flatMap.mpr ⟨_, hname, List.mem_cons_self⟩)
  · rintro ⟨hunlinked, hreleased, hidle⟩
    have howned (t : τ) : (s.threads t).owned.count e = 0 := by
      refine List.count_eq_zero.mpr fun he => ?_
      rcases List.mem_append.mp he with he | he
      · exact hidle t he
      · obtain ⟨⟨f, name⟩, hname, hin⟩ := List.mem_flatMap.mp he
        cases name with
        | nameCache x =>
            obtain rfl := List.mem_singleton.mp hin
            exact hreleased t f hname
        | context | fileName => exact absurd hin List.not_mem_nil
    have htotal : total (fun th : NameThread κ φ ι => th.owned.count e) s.threads = 0 :=
      total_eq_zero howned
    rw [H.counts, List.count_eq_zero.mpr hunlinked, htotal]

theorem NameInv.text_eq (H : NameInv names s)
    (hname : (f, name) ∈ (s.threads t).names) : s.text name = some (names.makeFileName f) := by
  have hok := (H.threads t).names f name hname
  cases name with
  | nameCache e =>
      rw [NameState.text, show s.objects.entry e = _ from hok]
      rfl
  | context name => exact congrArg some hok
  | fileName name => exact congrArg some hok

/-- After every run all of it holds exactly when the names that were got can be represented. -/
theorem fileNameCache_right_iff
    (h : Relation.ReflTransGen (NameStep names) (NameState.start : NameState τ κ φ ι) s) :
    s.Right names ↔ ∀ t f name, (f, name) ∈ (s.threads t).names → names.Representable f := by
  have H := nameInv_of_reachable h
  constructor
  · intro hright t f name hname
    have htext := (H.text_eq hname).symm.trans (hright.text t f name hname)
    exact (names.makeFileName_eq_iff f).mp (Option.some.inj htext)
  · intro hall
    refine ⟨⟨H.nodup, H.files⟩, fun e => ?_, H.unused_iff, fun e =>
      ⟨H.objects.gone e, H.objects.once e⟩, fun t f name hname => ?_⟩
    · rw [H.counts]
      refine congrArg (_ + ·) (Finset.sum_congr rfl fun t _ => ?_)
      exact (count_owned rfl e).trans (Nat.add_comm _ _)
    · rw [H.text_eq hname, (names.makeFileName_eq_iff f).mpr (hall t f name hname)]

end

def sampleNames : FltNames Unit where
  volumeName _ := [0x5c, 0x44]
  fileName _ := [0x5c, 0x66]
  tooSmall _ _ := []
  volumeName_lt _ := by decide
  fileName_lt _ := by decide
  tooSmall_le _ _ := Nat.zero_le _

theorem fileNameCache_right_sample :
    ∃ s : NameState Unit Bool Unit Unit, Relation.ReflTransGen (NameStep sampleNames) .start s ∧
      ((), .nameCache false) ∈ (s.threads ()).names ∧ s.Right sampleNames := by
  let called : NameState Unit Bool Unit Unit :=
    NameState.start.goto () (.call (.useNameCache ()))
  let missed := called.advance sampleNames () true false
  let created := missed.advance sampleNames () true false
  let inserted := created.advance sampleNames () true true
  have hrun : Relation.ReflTransGen (NameStep sampleNames) NameState.start inserted :=
    (((Relation.ReflTransGen.single (NameStep.call () (.useNameCache ()) rfl rfl)).tail
      (NameStep.advance () true false fun _ _ => rfl)).tail
        (NameStep.advance () true false fun _ _ => rfl)).tail
          (NameStep.advance () true true fun _ _ => rfl)
  exact ⟨inserted, hrun, List.mem_cons_self,
    (fileNameCache_right_iff hrun).mpr fun _ _ _ _ => (by decide : 2 * 4 < 2 ^ 16)⟩

/-- The name of the file object is one character too long for a counted string. -/
def longNames : FltNames Unit where
  volumeName _ := [0x5c]
  fileName _ := List.replicate 32767 0x61
  tooSmall _ _ := []
  volumeName_lt _ := by decide
  fileName_lt _ := by rw [List.length_replicate]; decide
  tooSmall_le _ _ := Nat.zero_le _

theorem length_longNames : 2 * (longNames.fullName ()).length = 2 ^ 16 := by
  rw [FltNames.fullName, List.length_append, longNames, List.length_replicate]
  rfl

theorem makeFileName_longNames : longNames.makeFileName () = [] := by
  have hlength := longNames.length_makeFileName ()
  rw [longNames.toNat_length, length_longNames] at hlength
  exact List.length_eq_zero_iff.mp (by omega)

/-- An empty name is returned with success. -/
theorem fileNameCache_shortened :
    ∃ s : NameState Unit Bool Unit Unit, Relation.ReflTransGen (NameStep longNames) .start s ∧
      ((), .fileName []) ∈ (s.threads ()).names ∧ ¬ s.Right longNames := by
  let called : NameState Unit Bool Unit Unit := NameState.start.goto () (.call (.copy ()))
  let copied := called.advance longNames () true false
  have hrun : Relation.ReflTransGen (NameStep longNames) NameState.start copied :=
    (Relation.ReflTransGen.single (NameStep.call () (.copy ()) rfl rfl)).tail
      (NameStep.advance () true false fun _ _ => rfl)
  have hname : ((), FltFileName.fileName []) ∈ (copied.threads ()).names := by
    rw [← makeFileName_longNames]
    exact List.mem_cons_self
  refine ⟨copied, hrun, hname, fun hright => ?_⟩
  have htext := Option.some.inj (hright.text () () _ hname)
  have hlength := length_longNames
  rw [← htext] at hlength
  exact absurd hlength (by decide)

end SystemInformer.Driver
