import SystemInformer.PhLib.Settings
import SystemInformer.Proofs.Settings

/-!
# How strict the accessors of settings are

A function that gets a value counts a setting of another type as not found. A function that sets
one leaves such a setting alone, and raises nothing (`setting_strict_iff`).
-/

namespace SystemInformer.PhLib.PhSettings

variable {s : PhSettings} {name other : List WChar} {u : SettingValue}

/-! ## The store -/

theorem lookup_store (name : List WChar) (u : SettingValue) (other : List WChar) :
    (s.store name u).phpLookupSetting other =
      (s.phpLookupSetting other).map fun setting =>
        if other = name then { setting with u := u } else setting := by
  have hsame : ∀ setting : PhSetting,
      (if setting.name = name then { setting with u := u } else setting).name = setting.name := by
    intro setting
    split <;> rfl
  rw [phpLookupSetting, store, List.find?_map]
  have hfind : (s.hashtable.find? ((fun setting : PhSetting => setting.name == other) ∘
      fun setting => if setting.name = name then { setting with u := u } else setting)) =
        s.phpLookupSetting other := by
    rw [phpLookupSetting]
    congr 1
    funext setting
    rw [Function.comp_apply, hsame]
  rw [hfind]
  cases hfound : s.phpLookupSetting other with
  | none => rfl
  | some setting =>
      have hname : setting.name = other := by
        simpa using List.find?_some (p := fun setting : PhSetting => setting.name == other) hfound
      rw [Option.map_some, Option.map_some, hname]

/-! ## Calls -/

inductive SettingCall where
  | getInteger
  | getIntegerPair
  | getScalableIntegerPair (scaled : Bool) (dpiValue : BitVec 32)
  | getString
  | setInteger (value : ULong)
  | setIntegerPair (value : PhIntegerPair)
  | setScalableIntegerPair (value : PhScalableIntegerPair)
  | setString (value : List WChar)

/-- What was raised, if anything. -/
def raised {α : Type} : Except SettingException α → Option SettingException
  | .ok _ => none
  | .error exception => some exception

namespace SettingCall

def type : SettingCall → PhSettingType
  | getInteger | setInteger _ => .integer
  | getIntegerPair | setIntegerPair _ => .integerPair
  | getScalableIntegerPair _ _ | setScalableIntegerPair _ => .scalableIntegerPair
  | getString | setString _ => .string

def value : SettingCall → Option SettingValue
  | setInteger value => some (.integer value)
  | setIntegerPair value => some (.integerPair value)
  | setScalableIntegerPair value => some (.scalableIntegerPair (some value))
  | setString value => some (.string (some value))
  | _ => none

/-- What a call raises, and the store after it. -/
def perform (s : PhSettings) (name : List WChar) :
    SettingCall → Option SettingException × PhSettings
  | getInteger => (raised (s.phGetIntegerStringRefSetting name), s)
  | getIntegerPair => (raised (s.phGetIntegerPairStringRefSetting name), s)
  | getScalableIntegerPair scaled dpiValue =>
      (raised (s.phGetScalableIntegerPairStringRefSetting name scaled dpiValue), s)
  | getString => (raised (s.phGetStringRefSetting name), s)
  | setInteger value => (s.phSetIntegerStringRefSetting name value).map raised id
  | setIntegerPair value => (s.phSetIntegerPairStringRefSetting name value).map raised id
  | setScalableIntegerPair value =>
      (s.phSetScalableIntegerPairStringRefSetting name value).map raised id
  | setString value => (s.phSetStringRefSetting name value).map raised id

/-- What was set is got back; a scalable pair is, or is scaled on request. -/
def GetsBack (s : PhSettings) (name : List WChar) : SettingCall → Prop
  | setInteger value => s.phGetIntegerStringRefSetting name = .ok value
  | setIntegerPair value => s.phGetIntegerPairStringRefSetting name = .ok value
  | setScalableIntegerPair value => ∀ dpiValue,
      s.phGetScalableIntegerPairStringRefSetting name false dpiValue = .ok value ∧
      s.phGetScalableIntegerPairStringRefSetting name true dpiValue =
        .ok (scaleToCurrent value dpiValue)
  | setString value => s.phGetStringRefSetting name = .ok value
  | _ => True

end SettingCall

def RegisteredAs (s : PhSettings) (name : List WChar) (type : PhSettingType) : Prop :=
  ∃ setting, s.phpLookupSetting name = some setting ∧ setting.u.type = type

structure Strict (s : PhSettings) (name : List WChar) (call : SettingCall) : Prop where
  raises : (call.perform s name).1 = some .notFound ↔ ¬ s.RegisteredAs name call.type
  unchanged : (call.perform s name).1 ≠ none → (call.perform s name).2 = s
  getsBack : (call.perform s name).1 = none → call.GetsBack (call.perform s name).2 name
  others : (call.perform s name).2.ignored = s.ignored ∧
    ∀ other ≠ name, (call.perform s name).2.phpLookupSetting other = s.phpLookupSetting other

/-! ## Getting -/

theorem raised_getSetting {α : Type} {type : PhSettingType} {member : SettingValue → Option α}
    (hmember : ∀ u, (member u).isSome = true ↔ u.type = type) :
    raised (s.getSetting name member) = some .notFound ↔ ¬ s.RegisteredAs name type := by
  rw [getSetting, RegisteredAs]
  cases hlookup : s.phpLookupSetting name with
  | none => simp [raised]
  | some setting =>
      have h := hmember setting.u
      cases hvalue : member setting.u with
      | none =>
          rw [hvalue] at h
          simp [raised, hvalue, ← h]
      | some value =>
          rw [hvalue] at h
          simp [raised, hvalue, ← h]

/-- What is read from a found pointer, if anything, is not looked up. -/
theorem raised_bind_getSetting {α : Type} {type : PhSettingType}
    {member : SettingValue → Option (Option α)} {read : Option α → Except SettingException α}
    (hmember : ∀ u, (member u).isSome = true ↔ u.type = type)
    (hread : ∀ pointer, raised (read pointer) ≠ some .notFound) :
    raised (s.getSetting name member >>= read) = some .notFound ↔ ¬ s.RegisteredAs name type := by
  rw [← raised_getSetting hmember]
  cases s.getSetting name member with
  | error exception => rfl
  | ok pointer => exact iff_of_false (hread pointer) (by simp [raised])

theorem raised_scalable (scaled : Bool) (dpiValue : BitVec 32) :
    raised (s.phGetScalableIntegerPairStringRefSetting name scaled dpiValue) = some .notFound ↔
      ¬ s.RegisteredAs name .scalableIntegerPair := by
  refine raised_bind_getSetting (fun u => ?_) fun pointer => ?_
  · cases u <;> simp [SettingValue.type]
  · cases pointer <;> simp [raised]

theorem strict_of_get {call : SettingCall} (hvalue : call.value = none) : Strict s name call := by
  have hstore : (call.perform s name).2 = s := by
    cases call with
    | getInteger | getIntegerPair | getScalableIntegerPair | getString => rfl
    | setInteger | setIntegerPair | setScalableIntegerPair | setString => cases hvalue
  refine ⟨?_, fun _ => hstore, fun _ => ?_, ?_⟩
  · cases call with
    | getInteger =>
        exact raised_getSetting fun u => by cases u <;> simp [SettingValue.type, SettingCall.type]
    | getIntegerPair =>
        exact raised_getSetting fun u => by cases u <;> simp [SettingValue.type, SettingCall.type]
    | getScalableIntegerPair scaled dpiValue => exact raised_scalable scaled dpiValue
    | getString =>
        exact raised_getSetting fun u => by cases u <;> simp [SettingValue.type, SettingCall.type]
    | setInteger | setIntegerPair | setScalableIntegerPair | setString => cases hvalue
  · cases call with
    | getInteger | getIntegerPair | getScalableIntegerPair | getString => trivial
    | setInteger | setIntegerPair | setScalableIntegerPair | setString => cases hvalue
  · rw [hstore]
    exact ⟨rfl, fun other _ => rfl⟩

/-! ## Setting -/

theorem perform_set {call : SettingCall} {u : SettingValue} (hvalue : call.value = some u) :
    call.perform s name = (s.setSetting name u).map raised id ∧ u.type = call.type := by
  cases call with
  | getInteger | getIntegerPair | getScalableIntegerPair | getString => cases hvalue
  | setInteger | setIntegerPair | setScalableIntegerPair | setString =>
      cases hvalue
      exact ⟨rfl, rfl⟩

theorem getsBack_of_lookup {call : SettingCall} {setting : PhSetting}
    (hvalue : call.value = some setting.u) (hlookup : s.phpLookupSetting name = some setting) :
    call.GetsBack s name := by
  obtain ⟨settingName, defaultValue, u⟩ := setting
  cases call with
  | getInteger | getIntegerPair | getScalableIntegerPair | getString => cases hvalue
  | setInteger | setIntegerPair | setString =>
      cases hvalue
      simp [SettingCall.GetsBack, phGetIntegerStringRefSetting, phGetIntegerPairStringRefSetting,
        phGetStringRefSetting, getSetting, hlookup]
  | setScalableIntegerPair value =>
      cases hvalue
      intro dpiValue
      simp [phGetScalableIntegerPairStringRefSetting, getSetting, hlookup, bind, Except.bind]

/-- A call is strict exactly when it does not set a setting of another type. -/
theorem setting_strict_iff (s : PhSettings) (name : List WChar) (call : SettingCall) :
    Strict s name call ↔
      ¬ (call.value ≠ none ∧ ∃ type, type ≠ call.type ∧ s.RegisteredAs name type) := by
  cases hvalue : call.value with
  | none => exact iff_of_true (strict_of_get hvalue) fun h => h.1 rfl
  | some u =>
      obtain ⟨hperform, htype⟩ := @perform_set s name _ _ hvalue
      cases hlookup : s.phpLookupSetting name with
      | none =>
          have hnot : ∀ type, ¬ s.RegisteredAs name type := by
            rintro type ⟨setting, hsetting, -⟩
            rw [hlookup] at hsetting
            cases hsetting
          have hresult : call.perform s name = (some .notFound, s) := by
            rw [hperform, setSetting, hlookup]
            rfl
          refine iff_of_true ⟨?_, fun _ => ?_, fun h => ?_, ?_⟩ fun h => ?_
          · rw [hresult]
            exact iff_of_true rfl (hnot _)
          · rw [hresult]
          · rw [hresult] at h
            cases h
          · rw [hresult]
            exact ⟨rfl, fun other _ => rfl⟩
          · obtain ⟨-, type, -, hregistered⟩ := h
            exact hnot type hregistered
      | some setting =>
          have hregistered : ∀ type, s.RegisteredAs name type ↔ setting.u.type = type := by
            intro type
            rw [RegisteredAs, hlookup]
            simp
          by_cases hsame : setting.u.type = call.type
          · have hresult : call.perform s name = (none, s.store name u) := by
              rw [hperform, setSetting, hlookup]
              dsimp only
              rw [if_pos (hsame.trans htype.symm)]
              rfl
            refine iff_of_true ⟨?_, fun h => ?_, fun _ => ?_, ?_⟩ fun h => ?_
            · rw [hresult]
              exact iff_of_false (fun h => by cases h) fun h => h ((hregistered _).mpr hsame)
            · rw [hresult] at h
              exact absurd rfl h
            · rw [hresult]
              refine @getsBack_of_lookup _ _ _ { setting with u := u } hvalue ?_
              rw [lookup_store, hlookup, Option.map_some, if_pos rfl]
            · rw [hresult]
              refine ⟨rfl, fun other hother => ?_⟩
              rw [lookup_store]
              simp only [hother, if_false, Option.map_id']
            · obtain ⟨-, type, hother, htype'⟩ := h
              exact hother (((hregistered type).mp htype').symm.trans hsame)
          · refine iff_of_false (fun h => ?_) fun h =>
              h ⟨Option.some_ne_none u, setting.u.type, hsame, (hregistered _).mpr rfl⟩
            have hraises := h.raises.mpr fun h => hsame ((hregistered _).mp h)
            rw [hperform, setSetting, hlookup] at hraises
            cases hraises

/-- The integer setter on a setting of another type. -/
theorem phSetIntegerStringRefSetting_silent :
    ¬ Strict sampleSettings [0x41] (.setInteger 1) := by
  intro h
  have hraises := h.raises.mpr ?_
  · revert hraises
    decide
  · rintro ⟨setting, hlookup, htype⟩
    cases hlookup
    cases htype

end SystemInformer.PhLib.PhSettings
