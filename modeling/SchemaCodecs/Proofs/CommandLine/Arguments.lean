/-
# Adding an option

The option for strictness may stand at any place among the arguments of the command where an option can
stand.  Wherever it is put, the arguments say the same as before and ask for strictness besides.

* `AddsStrict` : the option is added to the arguments of the program;
* `Arguments.Strictly` : the same arguments, with strictness asked for;
* `request?_addsStrict` : what the program is asked to do when the option is added.
-/
import SchemaCodecs.CommandLine.Arguments

namespace SchemaCodecs.CommandLine

/-! ## Where an option can stand -/

/-- The option for strictness. -/
def strictOption : Text := "--strict"

/-- The arguments of the command begin with an option whose value is the next argument. -/
def awaitsValue (argument : Text) : Bool :=
  isOption argument &&
    match readOption argument with
    | some ⟨_, some (_, none)⟩ => true
    | _ => false

/-- The option for strictness is put among the arguments of the command, at a place where an option
can stand. -/
inductive PutsStrict : List Text → List Text → Prop where
  /-- In front. -/
  | here (rest : List Text) : PutsStrict rest (strictOption :: rest)
  /-- Behind an argument after which no value is expected. -/
  | behind {argument : Text} {rest stricter : List Text} (continues : argument ≠ "--")
    (complete : awaitsValue argument = false) (later : PutsStrict rest stricter) :
    PutsStrict (argument :: rest) (argument :: stricter)
  /-- Behind an option and its value. -/
  | behindValue {argument : Text} (value : Text) {rest stricter : List Text}
    (awaits : awaitsValue argument = true) (later : PutsStrict rest stricter) :
    PutsStrict (argument :: value :: rest) (argument :: value :: stricter)

/-- The option for strictness is added to the arguments of the program, behind the command. -/
inductive AddsStrict : List Text → List Text → Prop where
  /-- The command comes first. -/
  | command {rest stricter : List Text} (put : PutsStrict rest stricter) :
    AddsStrict (commandName :: rest) (commandName :: stricter)
  /-- The command comes behind two hyphens. -/
  | hyphens {rest stricter : List Text} (put : PutsStrict rest stricter) :
    AddsStrict ("--" :: commandName :: rest) ("--" :: commandName :: stricter)

/-! ## What the arguments say -/

/-- Arguments say the same as others and ask for strictness besides. -/
structure Arguments.Strictly (arguments stricter : Arguments) : Prop where
  /-- The values are the same. -/
  values : stricter.values = arguments.values
  /-- The arguments that are no options are the same. -/
  others : stricter.others = arguments.others
  /-- The flags are the same, but for strictness. -/
  flags : ∀ flag, flag ∈ stricter.flags ↔ flag ∈ arguments.flags ∨ flag = .strict

namespace Arguments.Strictly

variable {arguments stricter : Arguments}

/-- An option says the same to both. -/
theorem take (h : arguments.Strictly stricter) (said : Said) :
    (arguments.take said).Strictly (stricter.take said) := by
  have hflags : ∀ flag, flag ∈ stricter.flags ++ said.flags ↔
      flag ∈ arguments.flags ++ said.flags ∨ flag = .strict := by
    intro flag
    rw [List.mem_append, List.mem_append, h.flags]
    exact or_right_comm
  unfold Arguments.take
  split
  · exact ⟨congrArg (_ :: ·) h.values, h.others, hflags⟩
  · exact ⟨h.values, h.others, hflags⟩

theorem value (h : arguments.Strictly stricter) (s : Setting) (text : Text) :
    Arguments.Strictly { arguments with values := (s, text) :: arguments.values }
      { stricter with values := (s, text) :: stricter.values } :=
  ⟨congrArg (_ :: ·) h.values, h.others, h.flags⟩

theorem other (h : arguments.Strictly stricter) (texts : List Text) :
    Arguments.Strictly { arguments with others := arguments.others ++ texts }
      { stricter with others := stricter.others ++ texts } :=
  ⟨h.values, congrArg (· ++ texts) h.others, h.flags⟩

theorem settings_eq (h : arguments.Strictly stricter) : stricter.settings = arguments.settings := by
  rw [Arguments.settings, Arguments.settings, h.values]

theorem contains_strict (h : arguments.Strictly stricter) :
    stricter.flags.contains .strict = true :=
  List.contains_iff_mem.2 ((h.flags _).2 (Or.inr rfl))

/-- The command is asked for the same. -/
theorem request_eq (h : arguments.Strictly stricter) :
    stricter.request = if arguments.request = .help then .help else .generate stricter := by
  have hhelp : stricter.flags.contains .help = arguments.flags.contains .help := by
    simp [h.flags]
  rw [Arguments.request, Arguments.request, hhelp]
  split <;> rfl

end Arguments.Strictly

/-! ## Reading -/

section Reading

variable {arguments stricter read : Arguments} {argument : Text}

/-- Reading an option and the value behind it. -/
theorem readArguments_awaits (h : awaitsValue argument = true) :
    ∃ said s, ∀ (arguments : Arguments) (value : Text) (rest : List Text),
      readArguments arguments (argument :: value :: rest) =
        readArguments { arguments.take said with values := (s, value) :: (arguments.take said).values }
          rest := by
  rw [awaitsValue, Bool.and_eq_true] at h
  obtain ⟨hoption, hsaid⟩ := h
  split at hsaid
  · next flags s hread =>
    have hcontinues : argument ≠ "--" := by
      rintro rfl
      cases hread
    refine ⟨⟨flags, some (s, none)⟩, s, fun arguments value rest => ?_⟩
    rw [readArguments, if_neg hcontinues, if_pos hoption, hread]
  · cases hsaid

/-- What the arguments say with one more to which no value belongs that is still to come. -/
def Arguments.step? (arguments : Arguments) (argument : Text) : Option Arguments :=
  if isOption argument then (readOption argument).map arguments.take
  else some { arguments with others := arguments.others ++ [argument] }

/-- Reading an argument after which no value is expected. -/
theorem readArguments_complete (hcontinues : argument ≠ "--") (h : awaitsValue argument = false)
    (arguments : Arguments) (rest : List Text) :
    readArguments arguments (argument :: rest) =
      (arguments.step? argument).bind fun next => readArguments next rest := by
  rw [awaitsValue] at h
  rw [readArguments, if_neg hcontinues, Arguments.step?]
  by_cases hoption : isOption argument = true
  · rw [if_pos hoption, if_pos hoption]
    cases hread : readOption argument with
    | none => rfl
    | some said =>
      obtain ⟨flags, _ | ⟨s, _ | value⟩⟩ := said
      · rfl
      · rw [hoption, hread] at h
        cases h
      · rfl
  · rw [if_neg hoption, if_neg hoption]
    rfl

/-- Reading on after arguments that ask for strictness besides. -/
theorem readArguments_strictly (h : arguments.Strictly stricter) {rest : List Text}
    (hread : readArguments arguments rest = some read) :
    ∃ read', readArguments stricter rest = some read' ∧ read.Strictly read' := by
  fun_induction readArguments arguments rest generalizing stricter with
  | case1 arguments =>
    obtain rfl := Option.some.inj hread
    exact ⟨stricter, rfl, h⟩
  | case2 arguments rest =>
    obtain rfl := Option.some.inj hread
    exact ⟨_, by rw [readArguments, if_pos rfl], h.other rest⟩
  | case3 => cases hread
  | case4 => cases hread
  | case5 _ argument hcontinues hoption said hsaid s value rest hsetting =>
    rename_i ih
    rw [readArguments, if_neg hcontinues, if_pos hoption, hsaid]
    simp only [hsetting]
    exact ih ((h.take said).value s value) hread
  | case6 _ argument hcontinues hoption said hsaid rest _ _ ih =>
    obtain ⟨read', hread', hstrictly⟩ := ih (h.take said) hread
    refine ⟨read', ?_, hstrictly⟩
    rw [readArguments, if_neg hcontinues, if_pos hoption, hsaid]
    simp only
    exact hread'
  | case7 _ argument rest hcontinues hoption ih =>
    rw [readArguments, if_neg hcontinues, if_neg hoption]
    exact ih (h.other [argument]) hread

/-- Wherever the option for strictness is put, the arguments say the same and ask for strictness. -/
theorem readArguments_putsStrict {rest rest' : List Text} (h : PutsStrict rest rest')
    (hread : readArguments arguments rest = some read) :
    ∃ read', readArguments arguments rest' = some read' ∧ read.Strictly read' := by
  induction h generalizing arguments with
  | here rest =>
    have hstrictly : arguments.Strictly { arguments with flags := arguments.flags ++ [.strict] } :=
      ⟨rfl, rfl, by simp⟩
    exact readArguments_strictly hstrictly hread
  | behind hcontinues hcomplete _ ih =>
    rw [readArguments_complete hcontinues hcomplete, Option.bind_eq_some_iff] at hread
    obtain ⟨next, hnext, hread⟩ := hread
    rw [readArguments_complete hcontinues hcomplete, hnext]
    exact ih hread
  | behindValue value hawaits _ ih =>
    obtain ⟨said, s, hstep⟩ := readArguments_awaits hawaits
    rw [hstep] at hread ⊢
    exact ih hread

/-! ## Requests -/

/-- What the program is asked to do when the option for strictness is put among the arguments of the
command. -/
theorem request_putsStrict {rest rest' : List Text} (h : PutsStrict rest rest') {request : Request}
    (hrequest : (readArguments {} rest).map (·.request) = some request) :
    (request = .help ∧ (readArguments {} rest').map (·.request) = some .help) ∨
      ∃ arguments stricter : Arguments, request = .generate arguments ∧
        (readArguments {} rest').map (·.request) = some (.generate stricter) ∧
          arguments.Strictly stricter := by
  obtain ⟨arguments, hread, rfl⟩ := Option.map_eq_some_iff.1 hrequest
  obtain ⟨stricter, hread', hstrictly⟩ := readArguments_putsStrict h hread
  rw [hread', Option.map_some, hstrictly.request_eq]
  by_cases hhelp : arguments.flags.contains .help = true
  · have hasked : arguments.request = .help := if_pos hhelp
    exact Or.inl ⟨hasked, by rw [if_pos hasked]⟩
  · have hasked : arguments.request = .generate arguments := if_neg hhelp
    refine Or.inr ⟨arguments, stricter, hasked, ?_, hstrictly⟩
    rw [hasked, if_neg Request.noConfusion]

/-- **Adding an option.**  The program is asked to do the same when the option for strictness is added,
but to do it strictly. -/
theorem request?_addsStrict {given stricter : List Text} (h : AddsStrict given stricter)
    {request : Request} (hrequest : request? given = some request) :
    (request = .help ∧ request? stricter = some .help) ∨
      ∃ arguments arguments' : Arguments, request = .generate arguments ∧
        request? stricter = some (.generate arguments') ∧ arguments.Strictly arguments' := by
  cases h with
  | command put => exact request_putsStrict put hrequest
  | hyphens put => exact request_putsStrict put hrequest

end Reading

end SchemaCodecs.CommandLine
