import SystemInformer.PhLib.Settings
import SystemInformer.Proofs.StringInteger
import SystemInformer.Proofs.StringRef

/-!
# Settings survive saving, and the order of registration

The text of a setting is read back as its value: an integer of 32 bits is written in a base whose
digits are no signs and no separators, is read as one of 64 bits, and is cut off again.

Both laws of the store are about loading a node: it updates the registered setting of its name, or
it is appended to the ignored ones. Converting the ignored settings is loading them once more
(`phConvertIgnoredSettings_eq`), although it removes them while it goes through the list. So
registering settings after loading and then converting does for each node what loading it
afterwards would have done: updates of different names commute, and a node whose name was not
registered is loaded later, but in the same place of the order.
-/

namespace SystemInformer.PhLib

variable {Single Double : Type} {env : FormatEnv Single Double} {processor : Processor}
  {phUpcaseUnicodeChar : WChar → WChar} {phSystemDpi : BitVec 32}

/-! ## Texts of values -/

def ulongText (base : Nat) (v : ULong) : List WChar := (numeral base v.toNat).map digitChar

def longText (v : BitVec 32) : List WChar :=
  signChars v.msb false ++ (numeral 10 (signed v).2).map digitChar

theorem partText_phInitFormatC (c : WChar) : partText env (phInitFormatC c) = [c] := by
  have halign : aligned (phInitFormatC c : PhFormat Single Double) = false := hasFlag_zero _
  rw [partText, alignText, halign, if_neg Bool.false_ne_true]
  rfl

theorem partText_phInitFormatD (v : BitVec 32) : partText env (phInitFormatD v) = longText v :=
  partText_integer (plainFormat_decimal _) (signed_lt (by decide) v) rfl

theorem partText_phInitFormatU (v : BitVec 32) : partText env (phInitFormatU v) = ulongText 10 v :=
  show partText env _ = signChars false false ++ _ from
    partText_integer (plainFormat_decimal _) (v.isLt.trans (by decide)) rfl

theorem partText_phInitFormatX (v : BitVec 32) : partText env (phInitFormatX v) = ulongText 16 v :=
  have hradix : 2 ≤ 16 ∧ 16 ≤ 69 := by decide
  show partText env _ = signChars false false ++ _ from
    partText_integer (plainFormat_radix hradix _) (v.isLt.trans (by decide)) rfl

theorem mem_digits {b v : Nat} (hb : 2 ≤ b) {c : WChar} (hc : c ∈ (numeral b v).map digitChar) :
    ∃ d < b, c = digitChar d := by
  obtain ⟨d, hd, rfl⟩ := List.mem_map.mp hc
  exact ⟨d, numeral_lt hb hd, rfl⟩

theorem mem_longText {v : BitVec 32} {c : WChar} (hc : c ∈ longText v) :
    c = 0x2d ∨ ∃ d < 10, c = digitChar d := by
  rw [longText, signChars] at hc
  rcases List.mem_append.mp hc with hsign | hdigit
  · split at hsign
    · exact Or.inl (List.mem_singleton.mp hsign)
    · rw [if_neg Bool.false_ne_true] at hsign
      exact absurd hsign List.not_mem_nil
  · exact Or.inr (mem_digits (by decide) hdigit)

theorem digitChar_ne : ∀ d < 10, digitChar d ≠ 0 ∧ digitChar d ≠ 0x2c ∧ digitChar d ≠ 0x7c := by
  decide

theorem longText_ne {v : BitVec 32} {c : WChar} (hc : c ∈ longText v) :
    c ≠ 0 ∧ c ≠ 0x2c ∧ c ≠ 0x7c := by
  rcases mem_longText hc with rfl | ⟨d, hd, rfl⟩
  · decide
  · exact digitChar_ne d hd

theorem ulongText_ne {v : ULong} {c : WChar} (hc : c ∈ ulongText 10 v) :
    c ≠ 0 ∧ c ≠ 0x2c ∧ c ≠ 0x7c := by
  obtain ⟨d, hd, rfl⟩ := mem_digits (by decide) hc
  exact digitChar_ne d hd

/-! ## Reading them back -/

theorem parsedInteger_digits {base : Nat} (hbase : 2 ≤ base ∧ base ≤ 69) {string : List WChar}
    {v : Nat} {negative : Bool}
    (hsign : skipSign string = (negative, (numeral base v).map digitChar)) :
    parsedInteger string base =
      some (if negative then -BitVec.ofNat 64 v else BitVec.ofNat 64 v) := by
  have hne : base ≠ 0 := by omega
  have hradix : radixOf base = base := if_neg hne
  have hinfer : inferBase ((numeral base v).map digitChar) base =
      (radixOf base, (numeral base v).map digitChar) := by
    rw [inferBase.eq_def, if_pos hne, hradix]
  have hparse := (phStringToInteger64_digits (Or.inr hbase)
    (fun d hd => by rw [hradix]; exact numeral_lt hbase.1 hd) hsign hinfer).1
  rw [hradix, horner_numeral] at hparse
  rw [parsedInteger, hparse]
  rfl

theorem parsedInteger_ulongText {base : Nat} (hlow : 2 ≤ base) (hhigh : base ≤ 47) (v : ULong) :
    ∃ x, parsedInteger (ulongText base v) base = some x ∧ x.setWidth 32 = v := by
  refine ⟨_, parsedInteger_digits ⟨hlow, by omega⟩ (skipSign_numeral hlow hhigh v.toNat), ?_⟩
  rw [if_neg Bool.false_ne_true, BitVec.setWidth_ofNat_of_le (by decide), BitVec.ofNat_toNat,
    BitVec.setWidth_eq]

theorem parsedInteger_longText (v : BitVec 32) :
    ∃ x, parsedInteger (longText v) 10 = some x ∧ x.setWidth 32 = v := by
  cases hmsb : v.msb with
  | false =>
      have hvalue : (signed v).2 = v.toNat := by rw [signed, hmsb]; rfl
      have htext : longText v = (numeral 10 v.toNat).map digitChar := by
        rw [longText, hmsb, hvalue]; rfl
      have hsign : skipSign (longText v) = (false, (numeral 10 v.toNat).map digitChar) := by
        rw [htext]
        exact skipSign_numeral (by decide) (by decide) v.toNat
      refine ⟨_, parsedInteger_digits (by decide) hsign, ?_⟩
      rw [if_neg Bool.false_ne_true, BitVec.setWidth_ofNat_of_le (by decide), BitVec.ofNat_toNat,
        BitVec.setWidth_eq]
  | true =>
      have hvalue : (signed v).2 = (-v).toNat := by rw [signed, hmsb]; rfl
      have htext : longText v = 0x2d :: (numeral 10 (-v).toNat).map digitChar := by
        rw [longText, hmsb, hvalue]; rfl
      have hsign : skipSign (longText v) = (true, (numeral 10 (-v).toNat).map digitChar) := by
        rw [htext]
        rfl
      refine ⟨_, parsedInteger_digits (by decide) hsign, ?_⟩
      rw [if_pos rfl, BitVec.setWidth_neg_of_le (by decide), BitVec.setWidth_ofNat_of_le (by decide),
        BitVec.ofNat_toNat, BitVec.setWidth_eq, BitVec.neg_neg]

theorem parsedPair_text (x y : BitVec 32) :
    parsedPair processor phUpcaseUnicodeChar (longText x ++ 0x2c :: longText y) =
      some ⟨x, y⟩ := by
  have hsplit : phSplitStringRefAtChar processor phUpcaseUnicodeChar
      (longText x ++ 0x2c :: longText y) 0x2c = some (longText x, longText y) := by
    refine phSplitStringRefAtChar_eq (fun hin => (longText_ne hin).2.1 rfl) fun hin => ?_
    rcases List.mem_append.mp hin with hx | hy
    · exact (longText_ne hx).1 rfl
    · rcases List.mem_cons.mp hy with hcomma | hy
      · exact absurd hcomma (by decide)
      · exact (longText_ne hy).1 rfl
  obtain ⟨x', hx, hx'⟩ := parsedInteger_longText x
  obtain ⟨y', hy, hy'⟩ := parsedInteger_longText y
  rw [parsedPair, hsplit]
  simp only [hx, hy, hx', hy']

theorem parsedScale_text (scale : ULong) (dpiValue x y : BitVec 32) :
    parsedScale processor phUpcaseUnicodeChar
      (0x40 :: (ulongText 10 scale ++ 0x7c :: (longText x ++ 0x2c :: longText y))) dpiValue =
        some (scale, longText x ++ 0x2c :: longText y) := by
  have hsplit : phSplitStringRefAtChar processor phUpcaseUnicodeChar
      (ulongText 10 scale ++ 0x7c :: (longText x ++ 0x2c :: longText y)) 0x7c =
        some (ulongText 10 scale, longText x ++ 0x2c :: longText y) := by
    refine phSplitStringRefAtChar_eq (fun hin => (ulongText_ne hin).2.2 rfl) fun hin => ?_
    rcases List.mem_append.mp hin with hscale | hrest
    · exact (ulongText_ne hscale).1 rfl
    · rcases List.mem_cons.mp hrest with hbar | hrest
      · exact absurd hbar (by decide)
      · rcases List.mem_append.mp hrest with hx | hy
        · exact (longText_ne hx).1 rfl
        · rcases List.mem_cons.mp hy with hcomma | hy
          · exact absurd hcomma (by decide)
          · exact (longText_ne hy).1 rfl
  obtain ⟨scale', hscale, hscale'⟩ := parsedInteger_ulongText (show 2 ≤ 10 by decide)
    (by decide) scale
  rw [parsedScale, if_pos rfl, hsplit]
  simp only [hscale, hscale']

/-- The union holds a value: no pointer is null. -/
def SettingValue.IsValue : SettingValue → Prop
  | .string pointer => pointer ≠ none
  | .integer _ => True
  | .integerPair _ => True
  | .scalableIntegerPair pointer => pointer ≠ none

theorem phSettingFromString_phSettingToString (u : SettingValue) (hu : u.IsValue) :
    phSettingFromString processor phUpcaseUnicodeChar (phSettingToString env u) phSystemDpi u.type =
      some u := by
  cases u with
  | string pointer =>
      obtain ⟨text, rfl⟩ := Option.ne_none_iff_exists'.mp hu
      rfl
  | integer v =>
      obtain ⟨x, hx, hx'⟩ := parsedInteger_ulongText (show 2 ≤ 16 by decide) (by decide) v
      have htext : phSettingToString env (.integer v) = ulongText 16 v := by
        rw [phSettingToString, phFormat_chars, formatText, List.flatMap_singleton,
          partText_phInitFormatX]
      rw [htext, SettingValue.type, phSettingFromString, hx]
      simp only [hx']
  | integerPair pair =>
      have htext : phSettingToString env (.integerPair pair) =
          longText pair.x ++ 0x2c :: longText pair.y := by
        rw [phSettingToString, phFormat_chars, formatText]
        simp only [List.flatMap_cons, List.flatMap_nil, partText_phInitFormatD,
          partText_phInitFormatC, List.append_nil, List.singleton_append]
      rw [htext, SettingValue.type, phSettingFromString, parsedPair_text]
  | scalableIntegerPair pointer =>
      obtain ⟨pair, rfl⟩ := Option.ne_none_iff_exists'.mp hu
      have htext : phSettingToString env (.scalableIntegerPair (some pair)) =
          0x40 :: (ulongText 10 pair.scale ++ 0x7c :: (longText pair.x ++ 0x2c :: longText pair.y)) := by
        rw [phSettingToString, phFormat_chars, formatText]
        simp only [List.flatMap_cons, List.flatMap_nil, partText_phInitFormatD,
          partText_phInitFormatC, partText_phInitFormatU, List.append_nil, List.singleton_append]
      rw [htext, SettingValue.type, phSettingFromString, parsedScale_text]
      simp only [parsedPair_text]

/-! ## Loading nodes -/

namespace PhSettings

variable {s t : PhSettings}

/-- The nodes that have names, one after another. -/
def loadNodes (processor : Processor) (phUpcaseUnicodeChar : WChar → WChar)
    (phSystemDpi : BitVec 32) (s : PhSettings) (nodes : List (List WChar × List WChar)) :
    PhSettings :=
  nodes.foldl (loadNode processor phUpcaseUnicodeChar phSystemDpi) s

/-- A node without a name is passed over. -/
def named (node : Option (List WChar) × List WChar) : Option (List WChar × List WChar) :=
  node.1.map fun name => (name, node.2)

theorem phLoadSettings_eq (nodes : List (Option (List WChar) × List WChar)) :
    s.phLoadSettings processor phUpcaseUnicodeChar phSystemDpi nodes =
      loadNodes processor phUpcaseUnicodeChar phSystemDpi s.phpClearIgnoredSettings
        (nodes.filterMap named) := by
  rw [phLoadSettings, loadNodes]
  generalize s.phpClearIgnoredSettings = s
  induction nodes generalizing s with
  | nil => rfl
  | cons node nodes ih =>
      obtain ⟨name, text⟩ := node
      cases name with
      | none => exact ih s
      | some name => exact ih _

def Registered (s : PhSettings) (name : List WChar) : Prop :=
  name ∈ s.hashtable.map PhSetting.name

theorem lookup_isSome_iff {name : List WChar} :
    (s.phpLookupSetting name).isSome = true ↔ s.Registered name := by
  rw [phpLookupSetting, List.find?_isSome, Registered, List.mem_map]
  simp only [beq_iff_eq]

theorem loadNode_registered {node : List WChar × List WChar} (h : s.Registered node.1) :
    loadNode processor phUpcaseUnicodeChar phSystemDpi s node =
      s.update processor phUpcaseUnicodeChar phSystemDpi node.1 node.2 := by
  obtain ⟨setting, hsetting⟩ := Option.isSome_iff_exists.mp (lookup_isSome_iff.mpr h)
  rw [loadNode, hsetting]

theorem loadNode_ignored {node : List WChar × List WChar} (h : ¬ s.Registered node.1) :
    loadNode processor phUpcaseUnicodeChar phSystemDpi s node =
      { s with ignored := s.ignored ++ [node] } := by
  have hnone : s.phpLookupSetting node.1 = none := by
    rw [← Option.not_isSome_iff_eq_none, lookup_isSome_iff]
    exact h
  rw [loadNode, hnone]

theorem update_names (name text : List WChar) :
    (s.update processor phUpcaseUnicodeChar phSystemDpi name text).hashtable.map PhSetting.name =
      s.hashtable.map PhSetting.name := by
  rw [update, List.map_map]
  refine List.map_congr_left fun setting _ => ?_
  rw [Function.comp_apply]
  split
  · exact convertSetting_name processor phUpcaseUnicodeChar phSystemDpi text setting
  · rfl

theorem loadNode_names (node : List WChar × List WChar) :
    (loadNode processor phUpcaseUnicodeChar phSystemDpi s node).hashtable.map PhSetting.name =
      s.hashtable.map PhSetting.name := by
  by_cases h : s.Registered node.1
  · rw [loadNode_registered h, update_names]
  · rw [loadNode_ignored h]

theorem loadNodes_names (nodes : List (List WChar × List WChar)) :
    (loadNodes processor phUpcaseUnicodeChar phSystemDpi s nodes).hashtable.map PhSetting.name =
      s.hashtable.map PhSetting.name := by
  induction nodes generalizing s with
  | nil => rfl
  | cons node nodes ih => exact ih.trans (loadNode_names node)

theorem lookup_update (name text other : List WChar) :
    (s.update processor phUpcaseUnicodeChar phSystemDpi name text).phpLookupSetting other =
      if other = name then
        (s.phpLookupSetting other).map
          (convertSetting processor phUpcaseUnicodeChar phSystemDpi text)
      else s.phpLookupSetting other := by
  have hname : (fun setting : PhSetting => (if setting.name = name then
      convertSetting processor phUpcaseUnicodeChar phSystemDpi text setting
      else setting).name == other) = fun setting => setting.name == other := by
    funext setting
    split
    · rw [convertSetting_name]
    · rfl
  rw [phpLookupSetting, update, List.find?_map]
  dsimp only [Function.comp_def]
  rw [hname, ← phpLookupSetting]
  cases hfound : s.phpLookupSetting other with
  | none => rw [Option.map_none, Option.map_none, ite_self]
  | some setting =>
      have heq : setting.name = other := beq_iff_eq.mp
        (List.find?_some (p := fun setting : PhSetting => setting.name == other) hfound)
      rw [Option.map_some, Option.map_some, heq]
      split <;> rfl

/-! ## Converting is loading -/

theorem convertLoop_eq : ∀ (rest kept : List (List WChar × List WChar)) (s : PhSettings),
    s.ignored = kept ++ rest →
    convertLoop processor phUpcaseUnicodeChar phSystemDpi rest.length kept.length s =
      loadNodes processor phUpcaseUnicodeChar phSystemDpi { s with ignored := kept } rest := by
  intro rest
  induction rest with
  | nil =>
      intro kept s h
      rw [List.append_nil] at h
      rw [← h]
      rfl
  | cons node rest ih =>
      intro kept s h
      have hnode : s.ignored[kept.length]? = some node := by
        rw [h, List.getElem?_append_right le_rfl, Nat.sub_self, List.getElem?_cons_zero]
      rw [List.length_cons, convertLoop, hnode, loadNodes, List.foldl_cons]
      by_cases hregistered : s.Registered node.1
      · obtain ⟨setting, hsetting⟩ := Option.isSome_iff_exists.mp (lookup_isSome_iff.mpr hregistered)
        simp only [hsetting]
        have herase : s.ignored.eraseIdx kept.length = kept ++ rest := by
          rw [h, List.eraseIdx_append_of_length_le le_rfl, Nat.sub_self, List.eraseIdx_cons_zero]
        rw [ih kept _ herase]
        have hload : loadNode processor phUpcaseUnicodeChar phSystemDpi { s with ignored := kept }
            node = { s.update processor phUpcaseUnicodeChar phSystemDpi node.1 node.2 with
              ignored := kept } := loadNode_registered (s := { s with ignored := kept }) hregistered
        rw [hload, ← loadNodes]
      · have hnone : s.phpLookupSetting node.1 = none := by
          rw [← Option.not_isSome_iff_eq_none, lookup_isSome_iff]
          exact hregistered
        simp only [hnone]
        have hload : loadNode processor phUpcaseUnicodeChar phSystemDpi { s with ignored := kept }
            node = { s with ignored := kept ++ [node] } :=
          loadNode_ignored (s := { s with ignored := kept }) hregistered
        rw [hload, ← loadNodes]
        have hlength : kept.length + 1 = (kept ++ [node]).length := by
          rw [List.length_append, List.length_singleton]
        rw [hlength]
        exact ih (kept ++ [node]) s (by rw [h, List.append_assoc, List.singleton_append])

theorem phConvertIgnoredSettings_eq :
    s.phConvertIgnoredSettings processor phUpcaseUnicodeChar phSystemDpi =
      loadNodes processor phUpcaseUnicodeChar phSystemDpi s.phpClearIgnoredSettings s.ignored :=
  convertLoop_eq s.ignored [] s rfl

/-! ## Registering between loading and converting -/

theorem update_comm {name name' : List WChar} (text text' : List WChar) (hne : name ≠ name') :
    (s.update processor phUpcaseUnicodeChar phSystemDpi name text).update processor
        phUpcaseUnicodeChar phSystemDpi name' text' =
      (s.update processor phUpcaseUnicodeChar phSystemDpi name' text').update processor
        phUpcaseUnicodeChar phSystemDpi name text := by
  refine PhSettings.ext ?_ rfl
  simp only [update, List.map_map]
  refine List.map_congr_left fun setting _ => ?_
  dsimp only [Function.comp_apply]
  by_cases h : setting.name = name
  · have h' : ¬ setting.name = name' := by
      rw [h]
      exact hne
    simp only [if_pos h, if_neg h', convertSetting_name]
  · by_cases h' : setting.name = name'
    · simp only [if_neg h, if_pos h', convertSetting_name]
    · simp only [if_neg h, if_neg h']

theorem loadNodes_update {name text : List WChar} (nodes : List (List WChar × List WChar))
    (hne : ∀ node ∈ nodes, node.1 ≠ name) :
    loadNodes processor phUpcaseUnicodeChar phSystemDpi
        (s.update processor phUpcaseUnicodeChar phSystemDpi name text) nodes =
      (loadNodes processor phUpcaseUnicodeChar phSystemDpi s nodes).update processor
        phUpcaseUnicodeChar phSystemDpi name text := by
  induction nodes generalizing s with
  | nil => rfl
  | cons node nodes ih =>
      have hload : loadNode processor phUpcaseUnicodeChar phSystemDpi
          (s.update processor phUpcaseUnicodeChar phSystemDpi name text) node =
            (loadNode processor phUpcaseUnicodeChar phSystemDpi s node).update processor
              phUpcaseUnicodeChar phSystemDpi name text := by
        have hsame : (s.update processor phUpcaseUnicodeChar phSystemDpi name text).Registered
            node.1 ↔ s.Registered node.1 := by
          rw [Registered, update_names, Registered]
        by_cases hregistered : s.Registered node.1
        · rw [loadNode_registered hregistered, loadNode_registered (hsame.mpr hregistered),
            update_comm _ _ (hne node List.mem_cons_self).symm]
        · rw [loadNode_ignored hregistered, loadNode_ignored fun h => hregistered (hsame.mp h)]
          rfl
      rw [loadNodes, List.foldl_cons, hload, ← loadNodes,
        ih fun node hnode => hne node (List.mem_cons_of_mem _ hnode), loadNodes, loadNodes,
        List.foldl_cons]

theorem phAddSetting_update {name text : List WChar} (setting : PhSettingCreate)
    (hname : s.Registered name) :
    phAddSetting processor phUpcaseUnicodeChar phSystemDpi
        (s.update processor phUpcaseUnicodeChar phSystemDpi name text) setting =
      (phAddSetting processor phUpcaseUnicodeChar phSystemDpi s setting).update processor
        phUpcaseUnicodeChar phSystemDpi name text := by
  have hnames : (s.update processor phUpcaseUnicodeChar phSystemDpi name text).hashtable.map
      PhSetting.name = s.hashtable.map PhSetting.name := update_names name text
  by_cases hthere : setting.name ∈ s.hashtable.map PhSetting.name
  · rw [phAddSetting, dif_pos (by rw [hnames]; exact hthere), phAddSetting, dif_pos hthere]
  · have hne : ¬ setting.name = name := fun h => hthere (h ▸ hname)
    rw [phAddSetting, dif_neg (by rw [hnames]; exact hthere), phAddSetting, dif_neg hthere]
    refine PhSettings.ext ?_ rfl
    simp only [update, List.map_append, List.map_singleton, if_neg hne]

theorem phAddSetting_ignored (setting : PhSettingCreate)
    (ignored : List (List WChar × List WChar)) :
    phAddSetting processor phUpcaseUnicodeChar phSystemDpi { s with ignored := ignored } setting =
      { phAddSetting processor phUpcaseUnicodeChar phSystemDpi s setting with
        ignored := ignored } := by
  by_cases hthere : setting.name ∈ s.hashtable.map PhSetting.name
  · rw [phAddSetting, dif_pos hthere, phAddSetting, dif_pos hthere]
  · rw [phAddSetting, dif_neg hthere, phAddSetting, dif_neg hthere]

theorem phAddSetting_keeps (setting : PhSettingCreate) :
    (phAddSetting processor phUpcaseUnicodeChar phSystemDpi s setting).ignored = s.ignored ∧
      ∀ name, s.Registered name →
        (phAddSetting processor phUpcaseUnicodeChar phSystemDpi s setting).Registered name := by
  by_cases hthere : setting.name ∈ s.hashtable.map PhSetting.name
  · rw [phAddSetting, dif_pos hthere]
    exact ⟨rfl, fun _ h => h⟩
  · rw [phAddSetting, dif_neg hthere]
    refine ⟨rfl, fun name h => ?_⟩
    rw [Registered, List.map_append]
    exact List.mem_append_left _ h

theorem phAddSettings_ignored (settings : List PhSettingCreate)
    (ignored : List (List WChar × List WChar)) :
    phAddSettings processor phUpcaseUnicodeChar phSystemDpi { s with ignored := ignored }
        settings =
      { phAddSettings processor phUpcaseUnicodeChar phSystemDpi s settings with
        ignored := ignored } := by
  induction settings generalizing s with
  | nil => rfl
  | cons setting settings ih =>
      rw [phAddSettings, List.foldl_cons, phAddSetting_ignored]
      exact ih

theorem phAddSettings_keeps (settings : List PhSettingCreate) :
    (phAddSettings processor phUpcaseUnicodeChar phSystemDpi s settings).ignored = s.ignored ∧
      ∀ name, s.Registered name →
        (phAddSettings processor phUpcaseUnicodeChar phSystemDpi s settings).Registered name := by
  induction settings generalizing s with
  | nil => exact ⟨rfl, fun _ h => h⟩
  | cons setting settings ih =>
      rw [phAddSettings, List.foldl_cons]
      exact ⟨ih.1.trans (phAddSetting_keeps setting).1,
        fun name h => ih.2 name ((phAddSetting_keeps setting).2 name h)⟩

theorem phAddSettings_update {name text : List WChar} (settings : List PhSettingCreate)
    (hname : s.Registered name) :
    phAddSettings processor phUpcaseUnicodeChar phSystemDpi
        (s.update processor phUpcaseUnicodeChar phSystemDpi name text) settings =
      (phAddSettings processor phUpcaseUnicodeChar phSystemDpi s settings).update processor
        phUpcaseUnicodeChar phSystemDpi name text := by
  induction settings generalizing s with
  | nil => rfl
  | cons setting settings ih =>
      rw [phAddSettings, List.foldl_cons, phAddSetting_update setting hname]
      exact ih ((phAddSetting_keeps setting).2 name hname)

def IgnoredUnregistered (s : PhSettings) : Prop := ∀ node ∈ s.ignored, ¬ s.Registered node.1

theorem IgnoredUnregistered.loadNode (h : s.IgnoredUnregistered)
    (node : List WChar × List WChar) :
    (s.loadNode processor phUpcaseUnicodeChar phSystemDpi node).IgnoredUnregistered := by
  intro other hother hregistered
  rw [Registered, loadNode_names, ← Registered] at hregistered
  by_cases hnode : s.Registered node.1
  · rw [loadNode_registered hnode] at hother
    exact h other hother hregistered
  · rw [loadNode_ignored hnode] at hother
    rcases List.mem_append.mp hother with hold | hnew
    · exact h other hold hregistered
    · rw [List.mem_singleton.mp hnew] at hregistered
      exact hnode hregistered

/-- The store after more settings are registered and the ignored ones are converted. -/
def registerLater (processor : Processor) (phUpcaseUnicodeChar : WChar → WChar)
    (phSystemDpi : BitVec 32) (s : PhSettings) (settings : List PhSettingCreate) : PhSettings :=
  loadNodes processor phUpcaseUnicodeChar phSystemDpi
    (phAddSettings processor phUpcaseUnicodeChar phSystemDpi s settings).phpClearIgnoredSettings
    s.ignored

theorem registerLater_loadNode (settings : List PhSettingCreate) (h : s.IgnoredUnregistered)
    (node : List WChar × List WChar) :
    registerLater processor phUpcaseUnicodeChar phSystemDpi
        (s.loadNode processor phUpcaseUnicodeChar phSystemDpi node) settings =
      (registerLater processor phUpcaseUnicodeChar phSystemDpi s settings).loadNode processor
        phUpcaseUnicodeChar phSystemDpi node := by
  by_cases hnode : s.Registered node.1
  · have hother : ∀ other ∈ s.ignored, other.1 ≠ node.1 := by
      intro other hother heq
      exact h other hother (heq ▸ hnode)
    have hthere : (registerLater processor phUpcaseUnicodeChar phSystemDpi s settings).Registered
        node.1 := by
      rw [Registered, registerLater, loadNodes_names]
      exact (phAddSettings_keeps settings).2 node.1 hnode
    rw [loadNode_registered hnode, loadNode_registered hthere, registerLater,
      phAddSettings_update settings hnode]
    exact loadNodes_update (s := phpClearIgnoredSettings _) s.ignored hother
  · rw [loadNode_ignored hnode, registerLater, phAddSettings_ignored]
    exact List.foldl_append

theorem registerLater_loadNodes (settings : List PhSettingCreate) (h : s.IgnoredUnregistered)
    (nodes : List (List WChar × List WChar)) :
    registerLater processor phUpcaseUnicodeChar phSystemDpi
        (loadNodes processor phUpcaseUnicodeChar phSystemDpi s nodes) settings =
      loadNodes processor phUpcaseUnicodeChar phSystemDpi
        (registerLater processor phUpcaseUnicodeChar phSystemDpi s settings) nodes := by
  induction nodes generalizing s with
  | nil => rfl
  | cons node nodes ih =>
      rw [loadNodes, List.foldl_cons, ← loadNodes, ih (h.loadNode node),
        registerLater_loadNode settings h node]
      rfl

/-- Settings that are registered after the file was loaded get what they would have got had they
been registered before. -/
theorem phConvertIgnoredSettings_registersLate (settings plugin : List PhSettingCreate)
    (nodes : List (Option (List WChar) × List WChar)) :
    phConvertIgnoredSettings processor phUpcaseUnicodeChar phSystemDpi
        (phAddSettings processor phUpcaseUnicodeChar phSystemDpi
          (phLoadSettings processor phUpcaseUnicodeChar phSystemDpi
            (phAddSettings processor phUpcaseUnicodeChar phSystemDpi s settings) nodes) plugin) =
      phLoadSettings processor phUpcaseUnicodeChar phSystemDpi
        (phAddSettings processor phUpcaseUnicodeChar phSystemDpi
          (phAddSettings processor phUpcaseUnicodeChar phSystemDpi s settings) plugin) nodes := by
  generalize phAddSettings processor phUpcaseUnicodeChar phSystemDpi s settings = registered
  have hclear : registered.phpClearIgnoredSettings.IgnoredUnregistered :=
    fun _ hnode => absurd hnode List.not_mem_nil
  have hstart : registerLater processor phUpcaseUnicodeChar phSystemDpi
      registered.phpClearIgnoredSettings plugin =
        (phAddSettings processor phUpcaseUnicodeChar phSystemDpi registered
          plugin).phpClearIgnoredSettings := by
    have hadd : phAddSettings processor phUpcaseUnicodeChar phSystemDpi
        registered.phpClearIgnoredSettings plugin =
          (phAddSettings processor phUpcaseUnicodeChar phSystemDpi registered
            plugin).phpClearIgnoredSettings := phAddSettings_ignored plugin []
    rw [registerLater, hadd]
    rfl
  rw [phConvertIgnoredSettings_eq, (phAddSettings_keeps plugin).1, phLoadSettings_eq,
    phLoadSettings_eq, ← registerLater, registerLater_loadNodes plugin hclear, hstart]

/-! ## Saving and loading -/

end PhSettings

def PhSetting.registration (setting : PhSetting) : PhSettingType × List WChar × List WChar :=
  (setting.u.type, setting.name, setting.defaultValue)

theorem convertSetting_phSettingToString {setting other : PhSetting}
    (hvalue : setting.u.IsValue) (hsame : other.registration = setting.registration) :
    convertSetting processor phUpcaseUnicodeChar phSystemDpi (phSettingToString env setting.u)
      other = setting := by
  obtain ⟨name, defaultValue, u⟩ := setting
  obtain ⟨name', defaultValue', u'⟩ := other
  obtain ⟨htype, rfl, rfl⟩ : u'.type = u.type ∧ name' = name ∧ defaultValue' = defaultValue := by
    rw [PhSetting.registration, PhSetting.registration, Prod.mk.injEq, Prod.mk.injEq] at hsame
    exact hsame
  rw [convertSetting]
  simp only [htype, phSettingFromString_phSettingToString u hvalue]

namespace PhSettings

variable {s t : PhSettings}

def savedNode (env : FormatEnv Single Double) (setting : PhSetting) : List WChar × List WChar :=
  (setting.name, phSettingToString env setting.u)

theorem filterMap_phSaveSettings :
    (s.phSaveSettings env).filterMap named = s.hashtable.map (savedNode env) ++ s.ignored := by
  have hnamed : named ∘ (fun node : List WChar × List WChar => (some node.1, node.2)) = some := by
    funext node
    rfl
  rw [phSaveSettings, List.filterMap_append, List.filterMap_map, List.filterMap_map, hnamed,
    List.filterMap_some, ← List.filterMap_eq_map]
  rfl

theorem lookup_loadNodes_saved {settings : List PhSetting}
    (hnodup : (settings.map PhSetting.name).Nodup)
    (hvalues : ∀ setting ∈ settings, setting.u.IsValue)
    (hsame : ∀ setting ∈ settings,
      (t.phpLookupSetting setting.name).map PhSetting.registration = some setting.registration)
    (name : List WChar) :
    (loadNodes processor phUpcaseUnicodeChar phSystemDpi t
        (settings.map (savedNode env))).phpLookupSetting name =
      (settings.find? (·.name == name)).or (t.phpLookupSetting name) := by
  induction settings generalizing t with
  | nil => rfl
  | cons setting settings ih =>
      rw [List.map_cons, List.nodup_cons] at hnodup
      obtain ⟨other, hother, hregistration⟩ :=
        Option.map_eq_some_iff.mp (hsame setting List.mem_cons_self)
      have hregistered : t.Registered setting.name := lookup_isSome_iff.mp (by rw [hother]; rfl)
      have hlookup : ∀ name, (t.update processor phUpcaseUnicodeChar phSystemDpi setting.name
          (phSettingToString env setting.u)).phpLookupSetting name =
            if name = setting.name then some setting else t.phpLookupSetting name := by
        intro name
        rw [lookup_update]
        by_cases hname : name = setting.name
        · rw [if_pos hname, if_pos hname, hname, hother, Option.map_some,
            convertSetting_phSettingToString (hvalues setting List.mem_cons_self) hregistration]
        · rw [if_neg hname, if_neg hname]
      have hrest : ∀ later ∈ settings, later.name ≠ setting.name := fun later hlater heq =>
        hnodup.1 (heq ▸ List.mem_map_of_mem hlater)
      rw [List.map_cons, loadNodes, List.foldl_cons, loadNode_registered hregistered, ← loadNodes,
        ih hnodup.2 (fun later hlater => hvalues later (List.mem_cons_of_mem _ hlater))
          fun later hlater => by
            rw [savedNode, hlookup, if_neg (hrest later hlater)]
            exact hsame later (List.mem_cons_of_mem _ hlater),
        savedNode, hlookup]
      by_cases hname : name = setting.name
      · have hnone : settings.find? (·.name == name) = none := by
          rw [List.find?_eq_none]
          intro later hlater hbeq
          exact hrest later hlater ((beq_iff_eq.mp hbeq).trans hname)
        have hfound : (setting :: settings).find? (·.name == name) = some setting :=
          List.find?_cons_of_pos (beq_iff_eq.mpr hname.symm)
        rw [if_pos hname, hnone, hfound, Option.none_or, Option.some_or]
      · have hfound : (setting :: settings).find? (·.name == name) =
            settings.find? (·.name == name) :=
          List.find?_cons_of_neg fun hbeq => hname (beq_iff_eq.mp hbeq).symm
        rw [if_neg hname, hfound]

theorem ignored_loadNodes_registered {nodes : List (List WChar × List WChar)}
    (h : ∀ node ∈ nodes, t.Registered node.1) :
    (loadNodes processor phUpcaseUnicodeChar phSystemDpi t nodes).ignored = t.ignored := by
  induction nodes generalizing t with
  | nil => rfl
  | cons node nodes ih =>
      rw [loadNodes, List.foldl_cons, loadNode_registered (h node List.mem_cons_self)]
      refine ih fun later hlater => ?_
      rw [Registered, update_names]
      exact h later (List.mem_cons_of_mem _ hlater)

theorem loadNodes_unregistered {nodes : List (List WChar × List WChar)}
    (h : ∀ node ∈ nodes, ¬ t.Registered node.1) :
    loadNodes processor phUpcaseUnicodeChar phSystemDpi t nodes =
      { t with ignored := t.ignored ++ nodes } := by
  induction nodes generalizing t with
  | nil => rw [List.append_nil]; rfl
  | cons node nodes ih =>
      have hlater := ih (t := { t with ignored := t.ignored ++ [node] })
        fun later hlater => h later (List.mem_cons_of_mem _ hlater)
      rw [loadNodes, List.foldl_cons, loadNode_ignored (h node List.mem_cons_self), ← loadNodes,
        hlater]
      dsimp only
      rw [List.append_assoc, List.singleton_append]

def SameRegistrations (s t : PhSettings) : Prop :=
  ∀ name, (t.phpLookupSetting name).map PhSetting.registration =
    (s.phpLookupSetting name).map PhSetting.registration

theorem lookup_of_mem {setting : PhSetting} (h : setting ∈ s.hashtable) :
    s.phpLookupSetting setting.name = some setting := by
  cases hfound : s.phpLookupSetting setting.name with
  | none =>
      rw [phpLookupSetting, List.find?_eq_none] at hfound
      exact absurd (beq_self_eq_true setting.name) (hfound setting h)
  | some other =>
      rw [phpLookupSetting] at hfound
      have hname : other.name = setting.name := beq_iff_eq.mp
        (List.find?_some (p := fun setting' : PhSetting => setting'.name == setting.name) hfound)
      rw [List.inj_on_of_nodup_map s.nodup (List.mem_of_find?_eq_some hfound) h hname]

/-- A file that was saved from a store restores it under the same registrations, whatever values
they had when it is loaded. -/
theorem phLoadSettings_phSaveSettings (hsame : s.SameRegistrations t)
    (hvalues : ∀ setting ∈ s.hashtable, setting.u.IsValue) (hignored : s.IgnoredUnregistered) :
    let loaded := t.phLoadSettings processor phUpcaseUnicodeChar phSystemDpi (s.phSaveSettings env)
    (∀ name, loaded.phpLookupSetting name = s.phpLookupSetting name) ∧
      loaded.ignored = s.ignored ∧
      ∀ u : SettingValue, u.IsValue →
        phSettingFromString processor phUpcaseUnicodeChar (phSettingToString env u) phSystemDpi
          u.type = some u := by
  intro loaded
  have hregistered : ∀ name, t.Registered name ↔ s.Registered name := by
    intro name
    rw [← lookup_isSome_iff, ← lookup_isSome_iff, ← Option.isSome_map (f := PhSetting.registration),
      hsame name, Option.isSome_map]
  have hloaded : loaded =
      let restored := loadNodes processor phUpcaseUnicodeChar phSystemDpi t.phpClearIgnoredSettings
        (s.hashtable.map (savedNode env))
      { restored with ignored := s.ignored } := by
    have hnames : ∀ node ∈ s.hashtable.map (savedNode env),
        t.phpClearIgnoredSettings.Registered node.1 := by
      intro node hnode
      obtain ⟨setting, hsetting, rfl⟩ := List.mem_map.mp hnode
      exact (hregistered setting.name).mpr (List.mem_map_of_mem hsetting)
    have hunregistered : ∀ node ∈ s.ignored, ¬ (loadNodes processor phUpcaseUnicodeChar phSystemDpi
        t.phpClearIgnoredSettings (s.hashtable.map (savedNode env))).Registered node.1 := by
      intro node hnode hthere
      rw [Registered, loadNodes_names] at hthere
      exact hignored node hnode ((hregistered node.1).mp hthere)
    show t.phLoadSettings processor phUpcaseUnicodeChar phSystemDpi (s.phSaveSettings env) = _
    rw [phLoadSettings_eq, filterMap_phSaveSettings, loadNodes, List.foldl_append, ← loadNodes,
      ← loadNodes, loadNodes_unregistered hunregistered, ignored_loadNodes_registered hnames]
    rfl
  refine ⟨fun name => ?_, by rw [hloaded], phSettingFromString_phSettingToString⟩
  have hsaved : (loadNodes processor phUpcaseUnicodeChar phSystemDpi t.phpClearIgnoredSettings
      (s.hashtable.map (savedNode env))).phpLookupSetting name =
        (s.phpLookupSetting name).or (t.phpLookupSetting name) :=
    lookup_loadNodes_saved (t := t.phpClearIgnoredSettings) s.nodup hvalues
      (fun setting hsetting => (hsame setting.name).trans
        (by rw [lookup_of_mem hsetting, Option.map_some])) name
  rw [hloaded]
  refine Eq.trans hsaved ?_
  cases hfound : s.phpLookupSetting name with
  | some setting => rw [Option.some_or]
  | none =>
      have hnone := hsame name
      rw [hfound, Option.map_none, Option.map_eq_none_iff] at hnone
      rw [Option.none_or]
      exact hnone

instance : (u : SettingValue) → Decidable u.IsValue
  | .string pointer => inferInstanceAs (Decidable (pointer ≠ none))
  | .integer _ => isTrue trivial
  | .integerPair _ => isTrue trivial
  | .scalableIntegerPair pointer => inferInstanceAs (Decidable (pointer ≠ none))

instance : Decidable s.IgnoredUnregistered :=
  inferInstanceAs (Decidable (∀ node ∈ s.ignored, ¬ node.1 ∈ s.hashtable.map PhSetting.name))

/-- A store with a setting of each type and an ignored one. -/
def sampleSettings : PhSettings where
  hashtable :=
    [⟨[0x41], [], .string (some [0x78])⟩, ⟨[0x42], [0x30], .integer 0xffffffff⟩,
      ⟨[0x43], [0x30, 0x2c, 0x30], .integerPair ⟨0x80000000, 5⟩⟩,
      ⟨[0x44], [0x30, 0x2c, 0x30], .scalableIntegerPair (some ⟨3, 0xffffffff, 96⟩)⟩]
  ignored := [([0x45], [0x79])]
  nodup := by decide

theorem phLoadSettings_phSaveSettings_sample :
    let saved := sampleSettings.phSaveSettings wholeNumbers
    let loaded := sampleSettings.phLoadSettings ⟨true, false⟩ id 96 saved
    (∀ name, loaded.phpLookupSetting name = sampleSettings.phpLookupSetting name) ∧
      loaded.ignored = sampleSettings.ignored ∧
      ∀ u : SettingValue, u.IsValue →
        phSettingFromString ⟨true, false⟩ id (phSettingToString wholeNumbers u) 96 u.type =
          some u :=
  phLoadSettings_phSaveSettings (s := sampleSettings) (fun _ => rfl) (by decide) (by decide)

end PhSettings

end SystemInformer.PhLib
