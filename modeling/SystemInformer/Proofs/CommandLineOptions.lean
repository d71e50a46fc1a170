import SystemInformer.Proofs.CommandLine

/-!
# Options on a command line

Every round of the parser takes up a character, so it ends on every command line, whatever the
callback does (`phParseCommandLine_ends`); how many rounds it is given does not matter.

A list of items is written as a command line with every value quoted, and is read item by item.
What has been reported, together with the option that is pending, is what the items so far say:
an option with an optional argument may be reported one item late, when the next one begins with
a dash or the command line ends. So each item is reported once and in order, with its value as it
is read back, and nothing goes wrong but for a value of `2 ^ 31` characters or more, of which the
escaping function sees only what a `ULONG` counts.
-/

namespace SystemInformer.PhLib

open Loops Stretches

variable {processor : Processor} {phUpcaseUnicodeChar : WChar → WChar} {iswalnum : WChar → Bool}
  {γ : Type} {commandLine : List WChar} {options : List PhCommandLineOption} {flags : ULong}
  {callback : PhCommandLineCallback γ} {s s' : ParseState γ} {c : WChar} {rest : List WChar}

/-! ## The parser ends -/

theorem le_untilStop_parsePartChar (l : List WChar) (s : PartState) :
    s.i ≤ (untilStop parsePartChar l s).2.i := by
  induction l generalizing s with
  | nil => exact le_rfl
  | cons c l ih =>
      have hstep : s.i ≤ (parsePartChar c s).2.i := by
        rw [parsePartChar]
        split_ifs
        all_goals simp
      rw [untilStop]
      split
      · next s' hs' =>
          rw [hs'] at hstep
          exact hstep
      · next s' hs' =>
          rw [hs'] at hstep
          exact hstep.trans (ih s')

theorem lt_phParseCommandLinePart {index : Nat} (hdrop : commandLine.drop index = c :: rest)
    (hc : c ≠ space) : index < (phParseCommandLinePart commandLine index).2 := by
  have hgo : ∃ s, parsePartChar c ⟨index, [], 0, false⟩ = (false, s) ∧ s.i = index + 1 := by
    rw [parsePartChar]
    split_ifs with h₁ h₂ h₃ h₄
    · exact ⟨_, rfl, rfl⟩
    · exact ⟨_, rfl, rfl⟩
    · exact ⟨_, rfl, rfl⟩
    · exact absurd h₄.1 hc
    · exact ⟨_, rfl, rfl⟩
  obtain ⟨s, hs, hi⟩ := hgo
  rw [phParseCommandLinePart, hdrop, untilStop, hs]
  have hle := le_untilStop_parsePartChar rest s
  rw [hi] at hle
  exact hle

theorem parseValue_i (h : parseValue commandLine callback s = .again s') :
    s'.i = (phParseCommandLinePart commandLine s.i).2 := by
  rw [parseValue] at h
  dsimp only at h
  split at h
  · cases h
  · cases h
    rfl

theorem parseOption_i {optionName : List WChar}
    (h : parseOption processor phUpcaseUnicodeChar options flags callback optionName s =
      .again s') : s'.i = s.i := by
  rw [parseOption] at h
  split at h
  · split_ifs at h
    cases h
    rfl
  · split_ifs at h
    · split at h
      · cases h
      · cases h
        rfl
    · cases h
      rfl

theorem lt_parseAt (hdrop : commandLine.drop s.i = c :: rest) (hc : c ≠ space)
    (h : parseAt processor phUpcaseUnicodeChar iswalnum commandLine options flags callback c rest
      s = .again s') : s.i < s'.i := by
  have hpart := lt_phParseCommandLinePart hdrop hc
  rw [parseAt] at h
  dsimp only at h
  split_ifs at h
  · rw [parseValue_i h]
    exact hpart
  · split at h
    · cases h
    · rw [parseOption_i h]
      dsimp only
      omega
  · rw [parseOption_i h]
    dsimp only
    omega
  · cases h
    exact hpart
  · split at h
    · next s'' hs'' =>
        cases h
        dsimp only
        rw [parseValue_i hs'']
        exact hpart
    · cases h
    · cases h

theorem lt_parseRound
    (h : parseRound processor phUpcaseUnicodeChar iswalnum commandLine options flags callback s =
      .again s') : s.i < s'.i ∧ s.i < commandLine.length := by
  rw [parseRound] at h
  dsimp only at h
  split at h
  · cases h
  · next c rest hdrop =>
      have hlength : s.i + ((commandLine.drop s.i).takeWhile (· == space)).length <
          commandLine.length := by
        by_contra hle
        rw [List.drop_eq_nil_of_le (not_lt.mp hle)] at hdrop
        cases hdrop
      have hc : c ≠ space := by
        intro hspace
        have hhead := List.head?_dropWhile_not (· == space) (commandLine.drop s.i)
        rw [← drop_takeWhile, List.drop_drop, hdrop, hspace] at hhead
        simp at hhead
      have hlt := lt_parseAt hdrop hc h
      dsimp only at hlt
      omega

theorem parseRounds_isSome {rounds : Nat} (s : ParseState γ) (hrounds : rounds ≠ 0)
    (hlength : commandLine.length < s.i + rounds) :
    (parseRounds processor phUpcaseUnicodeChar iswalnum commandLine options flags callback rounds
      s).isSome = true := by
  induction rounds generalizing s with
  | zero => exact absurd rfl hrounds
  | succ rounds ih =>
      rw [parseRounds]
      split
      · next s' hs' =>
          have hlt := lt_parseRound hs'
          exact ih s' (by omega) (by omega)
      · split_ifs
        · rfl
        · rfl
      · rfl

theorem parseRounds_mono {rounds rounds' : Nat} {result : Bool × γ} (hle : rounds ≤ rounds')
    (h : parseRounds processor phUpcaseUnicodeChar iswalnum commandLine options flags callback
      rounds s = some result) :
    parseRounds processor phUpcaseUnicodeChar iswalnum commandLine options flags callback
      rounds' s = some result := by
  induction rounds generalizing s rounds' with
  | zero => cases h
  | succ rounds ih =>
      obtain ⟨more, rfl⟩ : ∃ more, rounds' = more + 1 := ⟨rounds' - 1, by omega⟩
      rw [parseRounds] at h ⊢
      split at h
      · exact ih (Nat.le_of_succ_le_succ hle) h
      · exact h
      · exact h

theorem phParseCommandLine_ends (commandLine : List WChar) (options : List PhCommandLineOption)
    (flags : ULong) (callback : PhCommandLineCallback γ) (context : γ) :
    (phParseCommandLine processor phUpcaseUnicodeChar iswalnum commandLine options flags callback
      context).isSome = true := by
  rw [phParseCommandLine]
  split_ifs
  · rfl
  · refine parseRounds_isSome _ (Nat.succ_ne_zero _) ?_
    dsimp only
    omega

/-! ## Items -/

abbrev CommandLineCall := Option PhCommandLineOption × Option (List WChar)

/-- A callback that always continues, and whose context is what it was called with. -/
def recordCall : PhCommandLineCallback (List CommandLineCall) :=
  fun option value calls => (true, calls ++ [(option, value)])

inductive CommandLineItem
  | noArgument (option : PhCommandLineOption)
  | mandatoryArgument (option : PhCommandLineOption) (value : List WChar)
  | optionalArgument (option : PhCommandLineOption) (value : Option (List WChar))
  | free (value : List WChar)

namespace CommandLineItem

def call : CommandLineItem → CommandLineCall
  | noArgument option => (some option, none)
  | mandatoryArgument option value => (some option, some value)
  | optionalArgument option value => (some option, value)
  | free value => (none, some value)

def optionText (option : PhCommandLineOption) : List WChar := dash :: option.name

def render : CommandLineItem → List WChar
  | noArgument option => optionText option
  | mandatoryArgument option value => optionText option ++ space :: quoted value
  | optionalArgument option none => optionText option
  | optionalArgument option (some value) => optionText option ++ space :: quoted value
  | free value => quoted value

/-- The option is in the table and of its type. -/
def IsFrom (options : List PhCommandLineOption) : CommandLineItem → Prop
  | noArgument option => option ∈ options ∧ option.type = .noArgumentType
  | mandatoryArgument option _ => option ∈ options ∧ option.type = .mandatoryArgumentType
  | optionalArgument option _ => option ∈ options ∧ option.type = .optionalArgumentType
  | free _ => True

/-- A free value would be taken for the optional argument that is not there. -/
def MayPrecede (item next : CommandLineItem) : Prop :=
  ∀ option value, item = optionalArgument option none → next ≠ free value

def pending : CommandLineItem → Option PhCommandLineOption
  | optionalArgument option none => some option
  | _ => none

end CommandLineItem

open CommandLineItem

def commandLineOf (items : List CommandLineItem) : List WChar :=
  List.intercalate [space] (items.map render)

def pendingCalls (option : Option PhCommandLineOption) : List CommandLineCall :=
  (option.map fun option => (some option, none)).toList

/-! ## One item -/

theorem parseRound_at {k : Nat} {t : List WChar}
    (hdrop : commandLine.drop s.i = List.replicate k space ++ c :: t) (hc : c ≠ space) :
    parseRound processor phUpcaseUnicodeChar iswalnum commandLine options flags callback s =
      parseAt processor phUpcaseUnicodeChar iswalnum commandLine options flags callback c t
        { s with i := s.i + k } := by
  have hskip : ((commandLine.drop s.i).takeWhile (· == space)).length = k := by
    rw [hdrop, takeWhile_stretch hc, List.length_replicate]
  have hat := drop_of_append hdrop
  rw [List.length_replicate] at hat
  rw [parseRound, hskip]
  dsimp only
  rw [hat]

theorem find?_option {option : PhCommandLineOption} (hnames : (options.map (·.name)).Nodup)
    (hoption : option ∈ options) :
    options.find? (fun o => phEqualStringRef processor phUpcaseUnicodeChar option.name o.name
      false) = some option := by
  have heq : ∀ o : PhCommandLineOption,
      phEqualStringRef processor phUpcaseUnicodeChar option.name o.name false = true ↔
        option.name = o.name := by
    intro o
    have hfold : foldChar phUpcaseUnicodeChar false = id := rfl
    rw [phEqualStringRef_iff, hfold, List.map_id, List.map_id]
  cases hfind : options.find? (fun o => phEqualStringRef processor phUpcaseUnicodeChar
      option.name o.name false) with
  | none => exact absurd ((heq option).mpr rfl) (List.find?_eq_none.mp hfind option hoption)
  | some o =>
      have hequal : phEqualStringRef processor phUpcaseUnicodeChar option.name o.name false =
          true := by simpa using List.find?_some hfind
      exact congrArg some (List.inj_on_of_nodup_map hnames (List.mem_of_find?_eq_some hfind)
        hoption ((heq o).mp hequal).symm)

variable {k : Nat} {option : PhCommandLineOption} {value : List WChar}
  {s s' : ParseState (List CommandLineCall)}

theorem takeWhile_name (hspace : iswalnum space = false)
    (hletters : ∀ c ∈ option.name, iswalnum c = true ∨ c = dash)
    (hrest : ∀ c ∈ rest.head?, c = space) :
    (option.name ++ rest).takeWhile (fun c => iswalnum c || c == dash) = option.name := by
  rw [List.takeWhile_append_of_pos fun c hc => by simpa using hletters c hc]
  cases rest with
  | nil => simp
  | cons c rest =>
      have hstop : (iswalnum c || c == dash) = false := by
        rw [hrest c rfl, hspace]
        rfl
      rw [List.takeWhile_cons_of_neg (by simp [hstop]), List.append_nil]

theorem parseRound_option (hspace : iswalnum space = false)
    (hletters : ∀ c ∈ option.name, iswalnum c = true ∨ c = dash)
    (hdrop : commandLine.drop s.i = List.replicate k space ++ (optionText option ++ rest))
    (hrest : ∀ c ∈ rest.head?, c = space) (hcont : s.cont = true)
    (hpending : ∀ o ∈ s.option, o.type = .optionalArgumentType) :
    parseRound processor phUpcaseUnicodeChar iswalnum commandLine options 0 recordCall s =
      parseOption processor phUpcaseUnicodeChar options 0 recordCall option.name
        ⟨s.i + k + (optionText option).length, true, s.wasFirst, none,
          s.context ++ pendingCalls s.option⟩ := by
  have hlength : s.i + k + 1 + option.name.length = s.i + k + (optionText option).length := by
    rw [optionText, List.length_cons]
    omega
  rw [parseRound_at (c := dash) (t := option.name ++ rest) hdrop (by decide), parseAt]
  dsimp only
  rw [takeWhile_name hspace hletters hrest, hlength]
  obtain ⟨i, cont, wasFirst, pending, context⟩ := s
  dsimp only at hcont hpending ⊢
  subst hcont
  cases pending with
  | none => simp [pendingCalls]
  | some o =>
      have ho := hpending o rfl
      simp [ho, recordCall, pendingCalls]

theorem parseRound_value
    (hdrop : commandLine.drop s.i = List.replicate k space ++ (quoted value ++ rest))
    (hrest : ∀ c ∈ rest.head?, c = space)
    (hpending : ∀ o ∈ s.option, o.type ≠ .noArgumentType) :
    ∃ wasFirst,
      parseRound processor phUpcaseUnicodeChar iswalnum commandLine options 0 recordCall s =
        .again ⟨s.i + k + (quoted value).length, true, wasFirst, none,
          s.context ++ [(s.option, some (readBack value))]⟩ := by
  have hat := drop_of_append hdrop
  rw [List.length_replicate] at hat
  have hpart := phParseCommandLinePart_quoted hat hrest
  rw [parseRound_at (c := quotationMark)
    (t := phEscapeCommandLinePart value ++ [quotationMark] ++ rest) hdrop (by decide), parseAt]
  obtain ⟨i, cont, wasFirst, pending, context⟩ := s
  dsimp only at hpending hpart ⊢
  have hdash : quotationMark ≠ dash := by decide
  cases pending with
  | none =>
      refine ⟨false, ?_⟩
      simp [hdash, parseValue, hpart, recordCall]
  | some o =>
      refine ⟨wasFirst, ?_⟩
      have ho := hpending o rfl
      have htype : o.type = .mandatoryArgumentType ∨ o.type = .optionalArgumentType := by
        cases h : o.type with
        | noArgumentType => exact absurd h ho
        | mandatoryArgumentType => exact .inl rfl
        | optionalArgumentType => exact .inr rfl
      simp [hdash, htype, parseValue, hpart, recordCall]

def CommandLineItem.readBack (item : CommandLineItem) : CommandLineCall :=
  (item.call.1, item.call.2.map PhLib.readBack)

variable (processor phUpcaseUnicodeChar iswalnum commandLine options) in
def ParseRounds : ParseState (List CommandLineCall) → ParseState (List CommandLineCall) → Prop :=
  Relation.ReflTransGen fun s s' =>
    parseRound processor phUpcaseUnicodeChar iswalnum commandLine options 0 recordCall s =
      .again s'

/-- The parser stands in front of `rest`, and what has been reported and what is pending is
`calls`. -/
structure HasRead (commandLine rest : List WChar) (pending : Option PhCommandLineOption)
    (calls : List CommandLineCall) (s : ParseState (List CommandLineCall)) : Prop where
  drop : commandLine.drop s.i = rest
  cont : s.cont = true
  option : s.option = pending
  context : s.context ++ pendingCalls pending = calls

section

variable (hspace : iswalnum space = false) (hnames : (options.map (·.name)).Nodup)
  (hletters : ∀ option ∈ options, ∀ c ∈ option.name, iswalnum c = true ∨ c = dash)
include hspace hnames hletters

theorem HasRead.option_round {pending : Option PhCommandLineOption} {calls : List CommandLineCall}
    (hread : HasRead commandLine (List.replicate k space ++ (optionText option ++ rest)) pending
      calls s)
    (hrest : ∀ c ∈ rest.head?, c = space)
    (hpending : ∀ o ∈ pending, o.type = .optionalArgumentType) (hoption : option ∈ options) :
    ∃ s', ParseRounds processor phUpcaseUnicodeChar iswalnum commandLine options s s' ∧
      if option.type = .noArgumentType then
        HasRead commandLine rest none (calls ++ [(some option, none)]) s'
      else commandLine.drop s'.i = rest ∧ s'.cont = true ∧ s'.option = some option ∧
        s'.context = calls := by
  have hdrop : commandLine.drop (s.i + k + (optionText option).length) = rest := by
    have hat := drop_of_append hread.drop
    rw [List.length_replicate] at hat
    exact drop_of_append hat
  have hcontext : s.context ++ pendingCalls s.option = calls := by
    rw [hread.option]
    exact hread.context
  have hround := @parseRound_option processor phUpcaseUnicodeChar _ _ options _ _ _ _ hspace
    (hletters option hoption) hread.drop hrest hread.cont (by rw [hread.option]; exact hpending)
  rw [hcontext, parseOption, find?_option hnames hoption] at hround
  by_cases htype : option.type = .noArgumentType
  · simp only [htype, if_true, recordCall] at hround ⊢
    exact ⟨_, .single hround, hdrop, rfl, rfl, List.append_nil _⟩
  · simp only [htype, if_false] at hround ⊢
    exact ⟨_, .single hround, hdrop, rfl, rfl, rfl⟩

omit hspace hnames hletters in
theorem HasRead.value_round {pending : Option PhCommandLineOption} {calls : List CommandLineCall}
    (hdrop : commandLine.drop s.i = List.replicate k space ++ (quoted value ++ rest))
    (hrest : ∀ c ∈ rest.head?, c = space) (hoption : s.option = pending)
    (hpending : ∀ o ∈ pending, o.type ≠ .noArgumentType) (hcontext : s.context = calls) :
    ∃ s', ParseRounds processor phUpcaseUnicodeChar iswalnum commandLine options s s' ∧
      HasRead commandLine rest none (calls ++ [(pending, some (PhLib.readBack value))]) s' := by
  subst hoption hcontext
  obtain ⟨wasFirst, hround⟩ := @parseRound_value processor phUpcaseUnicodeChar iswalnum _ options _ _ _ _
    hdrop hrest hpending
  have hat := drop_of_append hdrop
  rw [List.length_replicate] at hat
  exact ⟨_, .single hround, drop_of_append hat, rfl, rfl, List.append_nil _⟩

theorem HasRead.item_rounds {item : CommandLineItem} {pending : Option PhCommandLineOption}
    {calls : List CommandLineCall}
    (hread : HasRead commandLine (List.replicate k space ++ (item.render ++ rest)) pending calls s)
    (hrest : ∀ c ∈ rest.head?, c = space) (hitem : item.IsFrom options)
    (hpending : ∀ o ∈ pending, o.type = .optionalArgumentType ∧ ∀ value, item ≠ free value) :
    ∃ s', ParseRounds processor phUpcaseUnicodeChar iswalnum commandLine options s s' ∧
      HasRead commandLine rest item.pending (calls ++ [item.readBack]) s' := by
  have hoptional : ∀ o ∈ pending, o.type = .optionalArgumentType := fun o ho => (hpending o ho).1
  -- the text of an option and then a value
  have hboth : ∀ {option value}, option ∈ options → option.type ≠ .noArgumentType →
      item.render = optionText option ++ space :: quoted value →
      ∃ s', ParseRounds processor phUpcaseUnicodeChar iswalnum commandLine options s s' ∧
        HasRead commandLine rest none
          (calls ++ [(some option, some (PhLib.readBack value))]) s' := by
    intro option value hoption htype hrender
    rw [hrender, List.append_assoc] at hread
    obtain ⟨s₁, hrounds₁, hs₁⟩ := hread.option_round hspace hnames hletters
      (fun c hc => by cases hc; rfl) hoptional hoption
    rw [if_neg htype] at hs₁
    obtain ⟨hdrop, -, hpending₁, hcontext⟩ := hs₁
    obtain ⟨s₂, hrounds₂, hs₂⟩ := @HasRead.value_round _ _ _ _ _ _ 1 value _ _ _ hdrop hrest
      hpending₁ (fun o ho => by cases ho; exact htype) hcontext
    exact ⟨s₂, hrounds₁.trans hrounds₂, hs₂⟩
  cases item with
  | noArgument option =>
      obtain ⟨s₁, hrounds₁, hs₁⟩ := hread.option_round hspace hnames hletters hrest hoptional
        hitem.1
      rw [if_pos hitem.2] at hs₁
      exact ⟨s₁, hrounds₁, hs₁⟩
  | mandatoryArgument option value =>
      exact hboth hitem.1 (by rw [hitem.2]; decide) rfl
  | optionalArgument option value =>
      have htype : option.type ≠ .noArgumentType := by
        rw [hitem.2]
        decide
      cases value with
      | some value => exact hboth hitem.1 htype rfl
      | none =>
          obtain ⟨s₁, hrounds₁, hs₁⟩ := hread.option_round hspace hnames hletters hrest hoptional
            hitem.1
          rw [if_neg htype] at hs₁
          obtain ⟨hdrop, hcont, hoption, hcontext⟩ := hs₁
          exact ⟨s₁, hrounds₁, hdrop, hcont, hoption, congrArg (· ++ _) hcontext⟩
  | free value =>
      have hnone : pending = none := by
        cases pending with
        | none => rfl
        | some o => exact absurd rfl ((hpending o rfl).2 value)
      subst hnone
      have hcontext : s.context = calls := by
        rw [← hread.context]
        exact (List.append_nil _).symm
      exact HasRead.value_round hread.drop hrest hread.option (fun o ho => by cases ho) hcontext

/-! ## All items -/

def following (items : List CommandLineItem) : List WChar :=
  items.flatMap fun item => space :: item.render

omit hspace hnames hletters in
theorem commandLineOf_cons (item : CommandLineItem) (items : List CommandLineItem) :
    commandLineOf (item :: items) = item.render ++ following items := by
  rw [commandLineOf, List.map_cons]
  induction items generalizing item with
  | nil => simp [following, List.intercalate]
  | cons next items ih =>
      rw [List.map_cons, List.intercalate_cons_cons, ih next]
      simp [following]

omit hspace hnames hletters in
theorem head?_following (items : List CommandLineItem) :
    ∀ c ∈ (following items).head?, c = space := by
  intro c hc
  cases items with
  | nil => cases hc
  | cons item items =>
      rw [following, List.flatMap_cons, List.cons_append] at hc
      cases hc
      rfl

omit hspace hnames hletters in
theorem CommandLineItem.IsFrom.pending_type {item : CommandLineItem} (hitem : item.IsFrom options) :
    ∀ o ∈ item.pending, o.type = .optionalArgumentType := by
  intro o ho
  cases item with
  | optionalArgument option value =>
      cases value with
      | none =>
          cases ho
          exact hitem.2
      | some value => cases ho
  | noArgument option => cases ho
  | mandatoryArgument option value => cases ho
  | free value => cases ho

theorem HasRead.items_rounds {items : List CommandLineItem} {item : CommandLineItem}
    {calls : List CommandLineCall}
    (hread : HasRead commandLine (following items) item.pending calls s)
    (hitem : item.IsFrom options) (hitems : ∀ next ∈ items, next.IsFrom options)
    (hfollow : (item :: items).IsChain MayPrecede) :
    ∃ s' pending, ParseRounds processor phUpcaseUnicodeChar iswalnum commandLine options s s' ∧
      HasRead commandLine [] pending (calls ++ items.map CommandLineItem.readBack) s' ∧
      ∀ o ∈ pending, o.type = .optionalArgumentType := by
  induction items generalizing item calls s with
  | nil =>
      refine ⟨s, item.pending, .refl, ?_, hitem.pending_type⟩
      rw [List.map_nil, List.append_nil]
      exact hread
  | cons next items ih =>
      rw [List.isChain_cons_cons] at hfollow
      have hpending : ∀ o ∈ item.pending, o.type = .optionalArgumentType ∧
          ∀ value, next ≠ free value := by
        intro o ho
        refine ⟨hitem.pending_type o ho, fun value => hfollow.1 o value ?_⟩
        cases item with
        | optionalArgument option value =>
            cases value with
            | none =>
                cases ho
                rfl
            | some value => cases ho
        | noArgument option => cases ho
        | mandatoryArgument option value => cases ho
        | free value => cases ho
      obtain ⟨s₁, hrounds₁, hs₁⟩ := @HasRead.item_rounds _ _ _ _ _ (following items) 1 _
        hspace hnames hletters next _ _ hread (head?_following items)
        (hitems next List.mem_cons_self) hpending
      obtain ⟨s₂, pending, hrounds₂, hs₂, htype⟩ := ih hs₁ (hitems next List.mem_cons_self)
        (fun item h => hitems item (List.mem_cons_of_mem _ h)) hfollow.2
      refine ⟨s₂, pending, hrounds₁.trans hrounds₂, ?_, htype⟩
      rw [List.map_cons, ← List.append_cons] at *
      exact hs₂

end

theorem parseRounds_of_rounds {n : Nat} {result : Bool × List CommandLineCall}
    (hrounds : ParseRounds processor phUpcaseUnicodeChar iswalnum commandLine options s s')
    (h : parseRounds processor phUpcaseUnicodeChar iswalnum commandLine options 0 recordCall n s' =
      some result) :
    ∃ n, parseRounds processor phUpcaseUnicodeChar iswalnum commandLine options 0 recordCall n s =
      some result := by
  induction hrounds using Relation.ReflTransGen.head_induction_on with
  | refl => exact ⟨n, h⟩
  | head hround _ ih =>
      obtain ⟨n, hn⟩ := ih
      refine ⟨n + 1, ?_⟩
      rw [parseRounds, hround]
      exact hn

theorem HasRead.parseRounds_end {pending : Option PhCommandLineOption}
    {calls : List CommandLineCall} (hread : HasRead commandLine [] pending calls s)
    (hpending : ∀ o ∈ pending, o.type = .optionalArgumentType) :
    parseRounds processor phUpcaseUnicodeChar iswalnum commandLine options 0 recordCall 1 s =
      some (true, calls) := by
  obtain ⟨hdrop, hcont, rfl, rfl⟩ := hread
  rw [parseRounds, parseRound, hdrop]
  simp only [List.takeWhile_nil, List.length_nil, Nat.add_zero]
  rw [hdrop]
  obtain ⟨i, cont, wasFirst, pending, context⟩ := s
  dsimp only at hcont hpending ⊢
  cases pending with
  | none => simp [pendingCalls]
  | some o => simp [hcont, hpending o rfl, recordCall, pendingCalls]

theorem CommandLineItem.render_ne_nil (item : CommandLineItem) : item.render ≠ [] := by
  cases item with
  | noArgument option => exact List.cons_ne_nil _ _
  | mandatoryArgument option value => exact List.cons_ne_nil _ _
  | optionalArgument option value =>
      cases value with
      | none => exact List.cons_ne_nil _ _
      | some value => exact List.cons_ne_nil _ _
  | free value => exact List.cons_ne_nil _ _

theorem phParseCommandLine_items (hspace : iswalnum space = false)
    (hnames : (options.map (·.name)).Nodup)
    (hletters : ∀ option ∈ options, ∀ c ∈ option.name, iswalnum c = true ∨ c = dash)
    {items : List CommandLineItem} (hitems : ∀ item ∈ items, item.IsFrom options)
    (hfollow : items.IsChain MayPrecede) :
    phParseCommandLine processor phUpcaseUnicodeChar iswalnum (commandLineOf items) options 0
      recordCall [] = some (true, items.map CommandLineItem.readBack) := by
  cases items with
  | nil => rfl
  | cons item items =>
      have hne : commandLineOf (item :: items) ≠ [] := by
        rw [commandLineOf_cons]
        exact List.append_ne_nil_of_left_ne_nil item.render_ne_nil _
      have hstart : HasRead (commandLineOf (item :: items))
          (List.replicate 0 space ++ (item.render ++ following items)) none []
          ⟨0, true, true, none, []⟩ := ⟨commandLineOf_cons item items, rfl, rfl, rfl⟩
      obtain ⟨s₁, hrounds₁, hs₁⟩ := @HasRead.item_rounds processor phUpcaseUnicodeChar _ _ _ _ _ _
        hspace hnames hletters _ _ _ hstart (head?_following items) (hitems item List.mem_cons_self) fun o ho => by cases ho
      obtain ⟨s₂, pending, hrounds₂, hs₂, htype⟩ := @HasRead.items_rounds processor phUpcaseUnicodeChar
        _ _ _ _ hspace hnames hletters _ _ _ hs₁ (hitems item List.mem_cons_self) (fun next h => hitems next (List.mem_cons_of_mem _ h))
        hfollow
      obtain ⟨n, hn⟩ := parseRounds_of_rounds (hrounds₁.trans hrounds₂)
        (hs₂.parseRounds_end htype)
      -- the rounds that the parser is given are enough, and more make no difference
      obtain ⟨result, hresult⟩ := Option.isSome_iff_exists.mp
        (@phParseCommandLine_ends processor phUpcaseUnicodeChar iswalnum _
          (commandLineOf (item :: items)) options 0 recordCall [])
      have hrun := hresult
      rw [phParseCommandLine, if_neg hne] at hrun
      have hmax := parseRounds_mono (Nat.le_max_left _ n) hrun
      rw [parseRounds_mono (Nat.le_max_right _ n) hn] at hmax
      rw [hresult, ← hmax]
      rfl

theorem CommandLineItem.readBack_eq_call {item : CommandLineItem}
    (hvalue : ∀ value ∈ item.call.2, value.getLast? ≠ some backslash) :
    item.readBack = item.call ↔ ∀ value ∈ item.call.2, value.length < 2 ^ 31 := by
  rw [CommandLineItem.readBack, Prod.ext_iff]
  cases h : item.call.2 with
  | none => simp
  | some value =>
      have hlast := hvalue value h
      simp [readBack_eq_self, hlast]

/-- The parser ends on every command line, and reports each item exactly once, in order and as
it was given, if and only if no value has `2 ^ 31` characters or more. -/
theorem phParseCommandLine_recovers (processor : Processor) (phUpcaseUnicodeChar : WChar → WChar)
    {iswalnum : WChar → Bool} (hspace : iswalnum space = false)
    {options : List PhCommandLineOption} (hnames : (options.map (·.name)).Nodup)
    (hletters : ∀ option ∈ options, option.name ≠ [] ∧
      ∀ c ∈ option.name, iswalnum c = true ∨ c = dash)
    {items : List CommandLineItem} (hitems : ∀ item ∈ items, item.IsFrom options)
    (hfollow : items.IsChain MayPrecede)
    (hvalues : ∀ item ∈ items, ∀ value ∈ item.call.2, value.getLast? ≠ some backslash) :
    (∀ (γ : Type) (commandLine : List WChar) (options : List PhCommandLineOption) (flags : ULong)
      (callback : PhCommandLineCallback γ) (context : γ),
      (phParseCommandLine processor phUpcaseUnicodeChar iswalnum commandLine options flags callback
        context).isSome = true) ∧
    (phParseCommandLine processor phUpcaseUnicodeChar iswalnum (commandLineOf items) options 0
        recordCall [] = some (true, items.map call) ↔
      ∀ item ∈ items, ∀ value ∈ item.call.2, value.length < 2 ^ 31) := by
  refine ⟨fun γ => phParseCommandLine_ends, ?_⟩
  rw [phParseCommandLine_items hspace hnames (fun option h => (hletters option h).2) hitems
    hfollow, Option.some_inj, Prod.mk.injEq, List.map_inj_left]
  rw [and_iff_right rfl]
  exact forall₂_congr fun item h => CommandLineItem.readBack_eq_call (hvalues item h)

def isLowercase (c : WChar) : Bool := 0x61 ≤ c && c ≤ 0x7a

/-- `-v -o "\\""`, with an optional argument that is not there. -/
theorem phParseCommandLine_recovers_two :
    let verbose : PhCommandLineOption := ⟨1, [0x76], .optionalArgumentType⟩
    let output : PhCommandLineOption := ⟨2, [0x6f], .mandatoryArgumentType⟩
    phParseCommandLine ⟨true, true⟩ id isLowercase
        (commandLineOf [.optionalArgument verbose none, .mandatoryArgument output [quotationMark]])
        [verbose, output] 0 recordCall [] =
      some (true, [(some verbose, none), (some output, some [quotationMark])]) := by
  refine ((phParseCommandLine_recovers ⟨true, true⟩ id (by decide : isLowercase space = false)
    (by simp) (by simp [isLowercase]) ?_ ?_ ?_).2).mpr ?_
  · intro item hitem
    fin_cases hitem
    · exact ⟨by decide, rfl⟩
    · exact ⟨by decide, rfl⟩
  · rw [List.isChain_cons_cons]
    refine ⟨fun option value h => ?_, List.isChain_singleton _⟩
    simp
  · intro item hitem
    fin_cases hitem
    · simp [call]
    · simp [call, quotationMark, backslash]
  · intro item hitem
    fin_cases hitem
    · simp [call]
    · simp [call]

/-- A value of `2 ^ 31` characters is not seen at all. -/
theorem phParseCommandLine_truncates :
    (List.replicate (2 ^ 31) (0x61 : WChar)).getLast? ≠ some backslash ∧
    phParseCommandLine ⟨true, true⟩ id isLowercase
        (commandLineOf [.free (List.replicate (2 ^ 31) 0x61)]) [] 0 recordCall [] ≠
      some (true, [(none, some (List.replicate (2 ^ 31) 0x61))]) := by
  have hlast : (List.replicate (2 ^ 31) (0x61 : WChar)).getLast? ≠ some backslash := by
    rw [List.getLast?_replicate, if_neg (by norm_num)]
    decide
  refine ⟨hlast, ?_⟩
  have hitems : ∀ item ∈ [free (List.replicate (2 ^ 31) 0x61)], item.IsFrom [] := by
    intro item hitem
    rw [List.mem_singleton.mp hitem]
    trivial
  rw [phParseCommandLine_items (by decide) (by simp) (by simp) hitems (List.isChain_singleton _)]
  intro h
  rw [Option.some_inj, Prod.mk.injEq] at h
  have hread : readBack (List.replicate (2 ^ 31) 0x61) = List.replicate (2 ^ 31) 0x61 :=
    Option.some.inj (Prod.mk.inj (List.cons.inj h.2).1).2
  have hlength := (readBack_eq_self.mp hread).1
  rw [List.length_replicate] at hlength
  exact lt_irrefl _ hlength

end SystemInformer.PhLib
