import SystemInformer.PhLib.StringInteger
import SystemInformer.PhLib.StringRef

/-!
# The settings store (`settings.c`)

A setting is registered under a name with a type and a default. A settings file is a list of nodes
with a name and a text; loading one sets the registered settings and keeps the nodes with other
names in the list of ignored settings, which is searched again when more settings are registered.

The hashtable is the list of its entries, whose names are different. The XML functions deliver and
keep nodes in order. A union is the value of the setting's type, and a pointer in it may be null.
The file is always there: what is loaded is a list of nodes.
-/

namespace SystemInformer.PhLib

inductive PhSettingType where
  | string
  | integer
  | integerPair
  | scalableIntegerPair
  deriving DecidableEq

structure PhIntegerPair where
  x : BitVec 32
  y : BitVec 32
  deriving DecidableEq

structure PhScalableIntegerPair where
  x : BitVec 32
  y : BitVec 32
  scale : ULong
  deriving DecidableEq

/-- The union of `PH_SETTING`. -/
inductive SettingValue where
  | string (pointer : Option (List WChar))
  | integer (integer : ULong)
  | integerPair (pair : PhIntegerPair)
  | scalableIntegerPair (pointer : Option PhScalableIntegerPair)
  deriving DecidableEq

namespace SettingValue

def type : SettingValue → PhSettingType
  | string _ => .string
  | integer _ => .integer
  | integerPair _ => .integerPair
  | scalableIntegerPair _ => .scalableIntegerPair

/-- The union after `memset`. -/
def zero : PhSettingType → SettingValue
  | .string => string none
  | .integer => integer 0
  | .integerPair => integerPair ⟨0, 0⟩
  | .scalableIntegerPair => scalableIntegerPair none

end SettingValue

structure PhSetting where
  name : List WChar
  defaultValue : List WChar
  u : SettingValue
  deriving DecidableEq

def phSettingToString {Single Double : Type} (env : FormatEnv Single Double) :
    SettingValue → List WChar
  | .string pointer => pointer.getD []
  | .integer integer => (phFormat env [phInitFormatX integer] 0).chars
  | .integerPair pair =>
      -- %ld,%ld
      (phFormat env [phInitFormatD pair.x, phInitFormatC 0x2c, phInitFormatD pair.y] 0).chars
  | .scalableIntegerPair none => []
  | .scalableIntegerPair (some pair) =>
      -- @%lu|%ld,%ld
      (phFormat env [phInitFormatC 0x40, phInitFormatU pair.scale, phInitFormatC 0x7c,
        phInitFormatD pair.x, phInitFormatC 0x2c, phInitFormatD pair.y] 0).chars

variable (processor : Processor) (phUpcaseUnicodeChar : WChar → WChar)

/-- The integer that `PhStringToInteger64` stores, if it succeeds. -/
def parsedInteger (string : List WChar) (base : Nat) : Option (BitVec 64) :=
  let result := phStringToInteger64 string base
  if result.1 then result.2 else none

def parsedPair (string : List WChar) : Option PhIntegerPair :=
  match phSplitStringRefAtChar processor phUpcaseUnicodeChar string 0x2c with
  | none => none
  | some (xString, yString) =>
      match parsedInteger xString 10, parsedInteger yString 10 with
      | some x, some y => some ⟨x.setWidth 32, y.setWidth 32⟩
      | _, _ => none

/-- The scale of a scalable pair and what follows it: after `@` up to `|`, or the scale of the
display. -/
def parsedScale (string : List WChar) (dpiValue : BitVec 32) : Option (ULong × List WChar) :=
  match string with
  | [] => some (dpiValue, string)
  | c :: rest =>
      if c = 0x40 then
        match phSplitStringRefAtChar processor phUpcaseUnicodeChar rest 0x7c with
        | none => none
        | some (firstPart, rest) =>
            match parsedInteger firstPart 10 with
            | none => none
            | some scale => some (scale.setWidth 32, rest)
      else some (dpiValue, string)

/-- `PhSettingFromString`: the union that it stores. -/
def phSettingFromString (string : List WChar) (dpiValue : BitVec 32) :
    PhSettingType → Option SettingValue
  | .string => some (.string (some string))
  | .integer =>
      match parsedInteger string 16 with
      | none => none
      | some integer => some (.integer (integer.setWidth 32))
  | .integerPair =>
      match parsedPair processor phUpcaseUnicodeChar string with
      | none => none
      | some pair => some (.integerPair pair)
  | .scalableIntegerPair =>
      match parsedScale processor phUpcaseUnicodeChar string dpiValue with
      | none => none
      | some (scale, rest) =>
          match parsedPair processor phUpcaseUnicodeChar rest with
          | none => none
          | some pair => some (.scalableIntegerPair (some ⟨pair.x, pair.y, scale⟩))

def phpFreeSettingValue : SettingValue → SettingValue
  | .string _ => .string none
  | .scalableIntegerPair _ => .scalableIntegerPair none
  | u => u

/-- A text becomes the value of a setting: the old value is freed, the text is parsed, and if that
fails the default. -/
def convertSetting (phSystemDpi : BitVec 32) (text : List WChar) (setting : PhSetting) :
    PhSetting :=
  let type := setting.u.type
  match phSettingFromString processor phUpcaseUnicodeChar text phSystemDpi type with
  | some u => { setting with u := u }
  | none =>
      match phSettingFromString processor phUpcaseUnicodeChar setting.defaultValue phSystemDpi
        type with
      | some u => { setting with u := u }
      | none => { setting with u := phpFreeSettingValue setting.u }

theorem convertSetting_name (phSystemDpi : BitVec 32) (text : List WChar) (setting : PhSetting) :
    (convertSetting processor phUpcaseUnicodeChar phSystemDpi text setting).name =
      setting.name := by
  rw [convertSetting]
  split
  · rfl
  · split <;> rfl

/-- `PhSettingsHashtable` and `PhIgnoredSettings`. -/
@[ext]
structure PhSettings where
  hashtable : List PhSetting
  ignored : List (List WChar × List WChar)
  nodup : (hashtable.map PhSetting.name).Nodup

namespace PhSettings

def phpLookupSetting (s : PhSettings) (name : List WChar) : Option PhSetting :=
  s.hashtable.find? (·.name == name)

def phpClearIgnoredSettings (s : PhSettings) : PhSettings := { s with ignored := [] }

def update (s : PhSettings) (phSystemDpi : BitVec 32) (name text : List WChar) : PhSettings where
  hashtable := s.hashtable.map fun setting =>
    if setting.name = name then
      convertSetting processor phUpcaseUnicodeChar phSystemDpi text setting
    else setting
  ignored := s.ignored
  nodup := by
    rw [List.map_map]
    have hname : (PhSetting.name ∘ fun setting => if setting.name = name then
        convertSetting processor phUpcaseUnicodeChar phSystemDpi text setting else setting) =
          PhSetting.name := by
      funext setting
      rw [Function.comp_apply]
      split
      · exact convertSetting_name processor phUpcaseUnicodeChar phSystemDpi text setting
      · rfl
    rw [hname]
    exact s.nodup

/-- What `PhLoadSettings` does with a node that has a name. -/
def loadNode (phSystemDpi : BitVec 32) (s : PhSettings) (node : List WChar × List WChar) :
    PhSettings :=
  match s.phpLookupSetting node.1 with
  | some _ => s.update processor phUpcaseUnicodeChar phSystemDpi node.1 node.2
  | none => { s with ignored := s.ignored ++ [node] }

/-- `PhLoadSettings`, from the nodes of a file; a node may be without a name. -/
def phLoadSettings (phSystemDpi : BitVec 32) (s : PhSettings)
    (nodes : List (Option (List WChar) × List WChar)) : PhSettings :=
  nodes.foldl
    (fun s node =>
      match node.1 with
      | none => s
      | some name => s.loadNode processor phUpcaseUnicodeChar phSystemDpi (name, node.2))
    s.phpClearIgnoredSettings

/-- The loop of `PhConvertIgnoredSettings`; a converted setting is removed, so that the next one
has the same index. -/
def convertLoop (phSystemDpi : BitVec 32) : Nat → Nat → PhSettings → PhSettings
  | 0, _, s => s
  | fuel + 1, i, s =>
      match s.ignored[i]? with
      | none => s
      | some ignoredSetting =>
          match s.phpLookupSetting ignoredSetting.1 with
          | some _ =>
              convertLoop phSystemDpi fuel i
                { s.update processor phUpcaseUnicodeChar phSystemDpi ignoredSetting.1
                    ignoredSetting.2 with ignored := s.ignored.eraseIdx i }
          | none => convertLoop phSystemDpi fuel (i + 1) s

def phConvertIgnoredSettings (phSystemDpi : BitVec 32) (s : PhSettings) : PhSettings :=
  convertLoop processor phUpcaseUnicodeChar phSystemDpi s.ignored.length 0 s

/-- What `PhSaveSettings` writes: the settings in the order of the hashtable, then the ignored
ones. -/
def phSaveSettings {Single Double : Type} (env : FormatEnv Single Double) (s : PhSettings) :
    List (Option (List WChar) × List WChar) :=
  s.hashtable.map (fun setting => (some setting.name, phSettingToString env setting.u)) ++
    s.ignored.map fun node => (some node.1, node.2)

end PhSettings

structure PhSettingCreate where
  type : PhSettingType
  name : List WChar
  defaultValue : List WChar

namespace PhSettings

/-- `PhAddSetting`; the hashtable keeps an entry that is there already. -/
def phAddSetting (phSystemDpi : BitVec 32) (s : PhSettings) (setting : PhSettingCreate) :
    PhSettings :=
  if h : setting.name ∈ s.hashtable.map PhSetting.name then s
  else
    { hashtable := s.hashtable ++ [⟨setting.name, setting.defaultValue,
        (phSettingFromString processor phUpcaseUnicodeChar setting.defaultValue phSystemDpi
          setting.type).getD (.zero setting.type)⟩]
      ignored := s.ignored
      nodup := by
        rw [List.map_append]
        refine List.nodup_append.mpr ⟨s.nodup, List.nodup_singleton _, ?_⟩
        rintro name hname _ hadded rfl
        have hsame : name = setting.name := List.mem_singleton.mp hadded
        exact h (hsame ▸ hname) }

def phAddSettings (phSystemDpi : BitVec 32) (s : PhSettings) (settings : List PhSettingCreate) :
    PhSettings :=
  settings.foldl (phAddSetting processor phUpcaseUnicodeChar phSystemDpi) s

end PhSettings

/-! ## Getting and setting a setting

Each type of setting has a function that gets the value of a registered name and one that sets
it. They raise `STATUS_NOT_FOUND`; a scalable pair whose pointer is null cannot be read. -/

inductive SettingException where
  | notFound
  | accessViolation
  deriving DecidableEq

def phMultiplyDivide (number numerator denominator : ULong) : ULong :=
  ((number.setWidth 64 * numerator.setWidth 64 + (denominator / 2).setWidth 64) /
    denominator.setWidth 64).setWidth 32

def phMultiplyDivideSigned (number : BitVec 32) (numerator denominator : ULong) : BitVec 32 :=
  if 0 ≤ number.toInt then phMultiplyDivide number numerator denominator
  else -phMultiplyDivide (-number) numerator denominator

namespace PhSettings

/-- The registered setting of a name takes a value, after its old value was freed. -/
def store (s : PhSettings) (name : List WChar) (u : SettingValue) : PhSettings where
  hashtable := s.hashtable.map fun setting =>
    if setting.name = name then { setting with u := u } else setting
  ignored := s.ignored
  nodup := by
    rw [List.map_map]
    have hname : (PhSetting.name ∘ fun setting => if setting.name = name then
        { setting with u := u } else setting) = PhSetting.name := by
      funext setting
      rw [Function.comp_apply]
      split <;> rfl
    rw [hname]
    exact s.nodup

/-- What the functions that get a value do under the lock. -/
def getSetting {α : Type} (s : PhSettings) (name : List WChar)
    (member : SettingValue → Option α) : Except SettingException α :=
  match (s.phpLookupSetting name).bind fun setting => member setting.u with
  | some value => .ok value
  | none => .error .notFound

def phGetIntegerStringRefSetting (s : PhSettings) (name : List WChar) :
    Except SettingException ULong :=
  s.getSetting name fun
    | .integer value => some value
    | _ => none

def phGetIntegerPairStringRefSetting (s : PhSettings) (name : List WChar) :
    Except SettingException PhIntegerPair :=
  s.getSetting name fun
    | .integerPair value => some value
    | _ => none

def scaleToCurrent (value : PhScalableIntegerPair) (dpiValue : BitVec 32) :
    PhScalableIntegerPair :=
  if value.scale ≠ dpiValue ∧ value.scale ≠ 0 then
    ⟨phMultiplyDivideSigned value.x dpiValue value.scale,
      phMultiplyDivideSigned value.y dpiValue value.scale, dpiValue⟩
  else value

def phGetScalableIntegerPairStringRefSetting (s : PhSettings) (name : List WChar)
    (scaled : Bool) (dpiValue : BitVec 32) : Except SettingException PhScalableIntegerPair := do
  let pointer ← s.getSetting name fun
    | .scalableIntegerPair pointer => some pointer
    | _ => none
  match pointer with
  | none => .error .accessViolation
  | some value => .ok (if scaled then scaleToCurrent value dpiValue else value)

/-- `PhGetStringRefSetting`; a null pointer is the empty string. -/
def phGetStringRefSetting (s : PhSettings) (name : List WChar) :
    Except SettingException (List WChar) :=
  s.getSetting name fun
    | .string pointer => some (pointer.getD [])
    | _ => none

/-- What the functions that set a value do. Only a name that is not found raises. -/
def setSetting (s : PhSettings) (name : List WChar) (u : SettingValue) :
    Except SettingException Unit × PhSettings :=
  match s.phpLookupSetting name with
  | some setting => (.ok (), if setting.u.type = u.type then s.store name u else s)
  | none => (.error .notFound, s)

def phSetIntegerStringRefSetting (s : PhSettings) (name : List WChar) (value : ULong) :
    Except SettingException Unit × PhSettings :=
  s.setSetting name (.integer value)

def phSetIntegerPairStringRefSetting (s : PhSettings) (name : List WChar)
    (value : PhIntegerPair) : Except SettingException Unit × PhSettings :=
  s.setSetting name (.integerPair value)

def phSetScalableIntegerPairStringRefSetting (s : PhSettings) (name : List WChar)
    (value : PhScalableIntegerPair) : Except SettingException Unit × PhSettings :=
  s.setSetting name (.scalableIntegerPair (some value))

def phSetStringRefSetting (s : PhSettings) (name value : List WChar) :
    Except SettingException Unit × PhSettings :=
  s.setSetting name (.string (some value))

end PhSettings

end SystemInformer.PhLib
