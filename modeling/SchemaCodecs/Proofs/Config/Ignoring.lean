/-
# Names that are no options

An entry of a configuration that names no option is to be ignored: reading should make of a mapping
what it makes of its options alone.  This holds of all names but five.  Two of them are refused.  One
is the name of the table of options: a mapping under it takes the place of everything that was set
before.  The last two are the names of the final check and of the description, which are not there any
more once a value has been set.

* `onlyOptions` : the options of a mapping;
* `Undisturbed` : the mappings whose other entries do not matter;
* `undisturbed_of_unreserved` : they do not if none has one of the five names;
* `reading_onlyOptions_iff` : when the same is made of a mapping and of its options.
-/
import SchemaCodecs.Proofs.Config.Reading

namespace SchemaCodecs.Config

open ConfigDraft
open Entries (get? hasKey get?_cons_self get?_cons_of_ne)
open Value (KeysApart)

variable {entries : Entries}

/-! ## Options alone -/

/-- The names of the options. -/
def optionNames : List Text :=
  ignoreSchemasKey :: outputKey :: danglingPolicyKey :: plainNames

/-- Whether an entry names an option. -/
def isOption (entry : Scalar × Value) : Bool :=
  optionNames.any fun name => entry.1.same (.text name)

/-- The entries of a mapping that name options. -/
def onlyOptions (entries : Entries) : Entries :=
  entries.filter isOption

@[simp] theorem isOption_iff (entry : Scalar × Value) :
    isOption entry = true ↔ ∃ name ∈ optionNames, entry.1 = .text name := by
  rw [isOption, List.any_eq_true]
  exact exists_congr fun name => and_congr_right fun _ => Scalar.same_text_iff entry.1 name

@[simp] theorem mem_onlyOptions {entry : Scalar × Value} :
    entry ∈ onlyOptions entries ↔ entry ∈ entries ∧ ∃ name ∈ optionNames, entry.1 = .text name := by
  rw [onlyOptions, List.mem_filter, isOption_iff]

theorem isReadable_onlyOptions (readable : ∀ entry ∈ entries, IsReadable entry) :
    ∀ entry ∈ onlyOptions entries, IsReadable entry :=
  fun entry hentry => readable entry (mem_onlyOptions.1 hentry).1

theorem get?_onlyOptions {name : Text} (h : name ∈ optionNames) (entries : Entries) :
    get? name (onlyOptions entries) = get? name entries :=
  Entries.get?_filter (fun _ => (isOption_iff _).2 ⟨name, h, rfl⟩) entries

/-- No other name has a value. -/
theorem get?_onlyOptions_of_notMem {name : Text} (h : name ∉ optionNames) (entries : Entries) :
    get? name (onlyOptions entries) = none := by
  refine Entries.get?_filter_eq_none (fun _ => ?_) entries
  rw [Bool.eq_false_iff, ne_eq, isOption_iff]
  rintro ⟨other, hother, heq⟩
  obtain rfl := Scalar.text.inj heq
  exact h hother

theorem settingIn_onlyOptions {name : Text} (h : name ∈ optionNames) (entries : Entries) :
    settingIn (onlyOptions entries) name = settingIn entries name := by
  rw [settingIn, settingIn, get?_onlyOptions h]

/-- Without an entry of its name there is no new table. -/
theorem tableIn?_of_get? (h : get? tableKey entries = none) : tableIn? entries = none := by
  cases htable : tableIn? entries with
  | none => rfl
  | some found =>
    obtain ⟨front, label, rfl⟩ := exists_split_of_tableIn? htable
    rw [Entries.get?_append, get?_cons_self, Option.or_some] at h
    cases h

/-- What is read from the options of a mapping. -/
theorem reading_onlyOptions (readable : ∀ entry ∈ onlyOptions entries, IsReadable entry)
    (apart : KeysApart entries) (label : Option Nat) :
    reading (.mapping label (onlyOptions entries))
      = (policyIn entries).map fun policy =>
        (describeOutput (askedOutput entries)).map (description entries policy) := by
  have htable : tableIn? (onlyOptions entries) = none :=
    tableIn?_of_get? (get?_onlyOptions_of_notMem (by decide) entries)
  have hkept : kept (onlyOptions entries) = onlyOptions entries := kept_of_tableIn? htable
  have hsetting : ∀ name ∈ optionNames,
      settingIn (onlyOptions entries) name = settingIn entries name :=
    fun _ hname => settingIn_onlyOptions hname entries
  simp only [optionNames, plainNames, List.mem_cons, List.not_mem_nil, forall_eq_or_imp] at hsetting
  have hpolicy : policyIn (onlyOptions entries) = policyIn entries := by
    simp only [policyIn, hsetting]
  have hdescribed : ∀ policy, describedFrom (onlyOptions entries) policy
      = (describeOutput (askedOutput entries)).map (description entries policy) := by
    intro policy
    have hdescription : description (onlyOptions entries) policy = description entries policy := by
      funext output
      simp only [description, hsetting]
    rw [describedFrom, hkept, hasKey, get?_onlyOptions_of_notMem (by decide), keepsIgnored, htable,
      keepsOutput, htable, askedOutput, get?_onlyOptions (by decide), hdescription]
    rfl
  rw [reading_eq readable (apart.filter _), hkept, hasKey, get?_onlyOptions_of_notMem (by decide),
    hpolicy]
  simp only [Option.isSome_none, Bool.false_eq_true, if_false]
  cases policyIn entries with
  | error fault => rfl
  | ok policy => exact congrArg Except.ok (hdescribed policy)

/-! ## Entries that are refused -/

/-- Of the options only the output can be refused, and as a text that is none of its modes. -/
theorem fault_of_refuses_option {name : Text} {value : Value} {fault : Fault}
    (h : Refuses (.text name, value) fault) (hname : name ∈ optionNames) :
    name = outputKey ∧ ∃ cause, fault = .invalid cause := by
  cases h with
  | kind => exact absurd hname (by decide)
  | fixed => exact absurd hname (by decide)
  | table => exact absurd hname (by decide)
  | mode => exact ⟨rfl, _, rfl⟩

/-- Any other entry is refused as ill-typed. -/
theorem fault_of_refuses_other {entry : Scalar × Value} {fault : Fault} (h : Refuses entry fault)
    (other : entry.1 ≠ .text outputKey) : ∃ cause, fault = .illTyped cause := by
  cases h with
  | mode => exact absurd rfl other
  | _ => exact ⟨_, rfl⟩

/-- Among entries that cannot all be taken in there is a first one that is refused. -/
theorem exists_first_refused (texts : ∀ entry ∈ entries, ∃ key, entry.1 = .text key)
    (h : ¬ ∀ entry ∈ entries, IsReadable entry) :
    ∃ front entry back fault, entries = front ++ entry :: back ∧
      (∀ other ∈ front, IsReadable other) ∧ Refuses entry fault := by
  induction entries with
  | nil => exact absurd (fun _ hmem => absurd hmem List.not_mem_nil) h
  | cons entry rest ih =>
    obtain ⟨htext, hrest⟩ := List.forall_mem_cons.1 texts
    by_cases hentry : ∃ fault, Refuses entry fault
    · obtain ⟨fault, hfault⟩ := hentry
      exact ⟨[], entry, rest, fault, rfl, fun _ hmem => absurd hmem List.not_mem_nil, hfault⟩
    · have hreadable : IsReadable entry := ⟨htext, not_exists.1 hentry⟩
      obtain ⟨front, refused, back, fault, rfl, hfront, hfault⟩ :=
        ih hrest fun hall => h (List.forall_mem_cons.2 ⟨hreadable, hall⟩)
      exact ⟨entry :: front, refused, back, fault, rfl,
        List.forall_mem_cons.2 ⟨hreadable, hfront⟩, hfault⟩

/-- Reading ends at this entry. -/
theorem reading_of_refuses {front back : Entries} {entry : Scalar × Value} {fault : Fault}
    (before : ∀ other ∈ front, IsReadable other) (h : Refuses entry fault) (label : Option Nat) :
    reading (.mapping label (front ++ entry :: back)) = .error fault := by
  rw [reading, ofValue, setAll_of_refuses before h]
  rfl

/-- Where the output is the first entry that is refused, it is refused among the options too. -/
theorem reading_onlyOptions_of_output {front back : Entries} {value : Value} {fault : Fault}
    (before : ∀ other ∈ front, IsReadable other) (h : Refuses (.text outputKey, value) fault)
    (label : Option Nat) :
    reading (.mapping label (onlyOptions (front ++ (.text outputKey, value) :: back)))
      = .error fault := by
  have hsplit : onlyOptions (front ++ (.text outputKey, value) :: back)
      = onlyOptions front ++ (.text outputKey, value) :: onlyOptions back := by
    have hoption : isOption (.text outputKey, value) = true :=
      (isOption_iff _).2 ⟨outputKey, by decide, rfl⟩
    rw [onlyOptions, List.filter_append, List.filter_cons_of_pos hoption]
    rfl
  rw [hsplit]
  exact reading_of_refuses (isReadable_onlyOptions before) h label

/-- A policy that is none is the fault. -/
theorem policyIn_error {fault : Fault} (h : policyIn entries = .error fault) :
    ∃ cause, fault = .invalid cause := by
  unfold policyIn ConfigDraft.danglingPolicy at h
  repeat' split at h
  · cases h
  · cases h
  · exact ⟨_, (Except.error.inj h).symm⟩
  · exact ⟨_, (Except.error.inj h).symm⟩

/-- Options alone are never found ill-typed while they are read. -/
theorem reading_onlyOptions_ne (texts : ∀ entry ∈ entries, ∃ key, entry.1 = .text key)
    (apart : KeysApart entries) (label : Option Nat) (cause : IllTyped) :
    reading (.mapping label (onlyOptions entries)) ≠ .error (.illTyped cause) := by
  intro h
  by_cases readable : ∀ entry ∈ onlyOptions entries, IsReadable entry
  · rw [reading_onlyOptions readable apart] at h
    cases hpolicy : policyIn entries with
    | ok policy =>
      rw [hpolicy] at h
      cases h
    | error fault =>
      obtain ⟨invalid, rfl⟩ := policyIn_error hpolicy
      rw [hpolicy] at h
      cases h
  · obtain ⟨front, ⟨own, value⟩, back, fault, hsplit, before, hrefuses⟩ := exists_first_refused
      (fun entry hentry => texts entry (mem_onlyOptions.1 hentry).1) readable
    have hmem : (own, value) ∈ onlyOptions entries := by
      rw [hsplit]
      exact List.mem_append_right _ List.mem_cons_self
    obtain ⟨-, name, hname, hkey⟩ := mem_onlyOptions.1 hmem
    obtain rfl : own = .text name := hkey
    obtain ⟨-, invalid, rfl⟩ := fault_of_refuses_option hrefuses hname
    rw [hsplit, reading_of_refuses before hrefuses] at h
    cases h

/-! ## The output that is asked for -/

/-- The output asked for can be described: it is given by settings of which the mode, if there is one,
is a text. -/
def AsksForSettings (entries : Entries) : Prop :=
  ∀ value, get? outputKey entries = some value → ∃ label settings,
    value = .mapping label settings ∧
      ∀ mode, get? "mode" settings = some mode → ∃ name, mode = .text name

/-- A mode that was read has a name unless it is no text. -/
theorem exists_modeName_iff {settings : Entries} {config : OutputConfig}
    (h : outputConfig settings = .ok config) : (∃ name, modeName config.mode = .ok name) ↔
      ∀ mode, get? "mode" settings = some mode → ∃ name, mode = .text name := by
  unfold outputConfig at h
  cases hmode : get? "mode" settings with
  | none =>
    rw [hmode] at h
    obtain rfl := Except.ok.inj h
    refine iff_of_true ⟨_, rfl⟩ fun mode habsent => ?_
    cases habsent
  | some value =>
    rw [hmode] at h
    simp only [Option.some.injEq, forall_eq']
    unfold writeMode at h
    simp only at h
    split at h
    · -- A text is one of the two names.
      repeat' split at h
      · obtain rfl := Except.ok.inj h
        exact iff_of_true ⟨_, rfl⟩ ⟨_, rfl⟩
      · obtain rfl := Except.ok.inj h
        exact iff_of_true ⟨_, rfl⟩ ⟨_, rfl⟩
      · cases h
    · next other =>
      obtain rfl := Except.ok.inj h
      refine iff_of_false (by rintro ⟨name, ⟨⟩⟩) ?_
      rintro ⟨name, rfl⟩
      exact other name rfl

/-- The output has a description just then. -/
theorem exists_describeOutput_iff (readable : ∀ entry ∈ entries, IsReadable entry) :
    (∃ output, describeOutput (askedOutput entries) = .ok output) ↔ AsksForSettings entries := by
  unfold askedOutput AsksForSettings
  cases hfound : get? outputKey entries with
  | none =>
    refine iff_of_true ⟨_, rfl⟩ fun value hvalue => ?_
    cases hvalue
  | some value =>
    simp only [Option.some.injEq, forall_eq']
    cases value with
    | mapping label settings =>
      obtain ⟨config, hconfig⟩ := exists_outputConfig (readable _ (Value.mem_of_get? hfound)).2
      have hdescribed : (∃ output, describeOutput (some (.settings config)) = .ok output) ↔
          ∃ name, modeName config.mode = .ok name := by
        rw [describeOutput]
        cases modeName config.mode with
        | error fault =>
          refine iff_of_false ?_ ?_
          all_goals
            rintro ⟨_, h⟩
            cases h
        | ok name => exact iff_of_true ⟨_, rfl⟩ ⟨_, rfl⟩
      rw [outputAfter, hconfig]
      refine hdescribed.trans ((exists_modeName_iff hconfig).trans ?_)
      simp
    | _ =>
      refine iff_of_false ?_ ?_
      · rintro ⟨_, h⟩
        cases h
      · rintro ⟨_, _, h, -⟩
        cases h

/-! ## Undisturbed options -/

/-- Mappings whose other entries do not matter: the same fault ends the reading of the mapping and of
its options, or none of both configurations can be described, or their descriptions are equal. -/
inductive Undisturbed (entries : Entries) : Prop where
  /-- The output is the first entry that is refused. -/
  | output {front back : Entries} {value : Value} {fault : Fault}
    (split : entries = front ++ (.text outputKey, value) :: back)
    (before : ∀ entry ∈ front, IsReadable entry) (refused : Refuses (.text outputKey, value) fault)
  /-- The final check refuses the policy that is left, and just as well the one that is asked for. -/
  | policy {fault : Fault} (readable : ∀ entry ∈ entries, IsReadable entry)
    (check : hasKey finalCheckKey (kept entries) = false)
    (left : policyIn (kept entries) = .error fault) (asked : policyIn entries = .error fault)
  /-- Both policies are accepted, but the output that is asked for has no description. -/
  | undescribed {policy other : DanglingPolicy} (readable : ∀ entry ∈ entries, IsReadable entry)
    (check : hasKey finalCheckKey (kept entries) = false)
    (left : policyIn (kept entries) = .ok policy) (asked : policyIn entries = .ok other)
    (describing : hasKey descriptionKey (kept entries) = false)
    (output : ¬ AsksForSettings entries)
  /-- The policy is accepted, all options are still there, and they have the values asked for. -/
  | described {policy : DanglingPolicy} (readable : ∀ entry ∈ entries, IsReadable entry)
    (check : hasKey finalCheckKey (kept entries) = false)
    (left : policyIn (kept entries) = .ok policy) (asked : policyIn entries = .ok policy)
    (describing : hasKey descriptionKey (kept entries) = false)
    (ignored : keepsIgnored entries = true) (output : keepsOutput entries = true)
    (settings : ∀ name ∈ ignoreSchemasKey :: plainNames,
      settingIn (kept entries) name = settingIn entries name)

/-- Two descriptions are equal if all that they tell is. -/
theorem description_eq_iff {others : Entries} {policy other : DanglingPolicy} {output output' : Value} :
    description entries policy output = description others other output' ↔
      (∀ name ∈ ignoreSchemasKey :: plainNames, settingIn entries name = settingIn others name) ∧
        policy = other ∧ output = output' := by
  have hpolicy : policyName policy = policyName other ↔ policy = other := by
    cases policy <;> cases other <;> simp [policyName]
  simp only [description, Value.mapping.injEq, List.cons.injEq, Prod.mk.injEq, hpolicy, plainNames,
    List.forall_mem_cons, List.not_mem_nil, true_and, and_true, IsEmpty.forall_iff, implies_true]
  tauto

/-- An output without a description lacks a part. -/
theorem describeOutput_of_not_asksForSettings (readable : ∀ entry ∈ entries, IsReadable entry)
    (h : ¬ AsksForSettings entries) :
    describeOutput (askedOutput entries) = .error (.illTyped .lacksPart) := by
  cases houtput : describeOutput (askedOutput entries) with
  | error fault => rw [describeOutput_error houtput]
  | ok output => exact absurd ((exists_describeOutput_iff readable).1 ⟨output, houtput⟩) h

/-- The same is made of an undisturbed mapping and of its options. -/
theorem Undisturbed.reading_eq (h : Undisturbed entries) (apart : KeysApart entries)
    (label : Option Nat) :
    reading (.mapping label entries) = reading (.mapping label (onlyOptions entries)) := by
  cases h with
  | output split before refused =>
    subst split
    rw [reading_of_refuses before refused, reading_onlyOptions_of_output before refused]
  | policy readable check left asked =>
    rw [Config.reading_eq readable apart,
      reading_onlyOptions (isReadable_onlyOptions readable) apart, check, left, asked]
    rfl
  | undescribed readable check left asked describing output =>
    rw [Config.reading_eq readable apart,
      reading_onlyOptions (isReadable_onlyOptions readable) apart, check, left,
      asked, describeOutput_of_not_asksForSettings readable output]
    simp only [Bool.false_eq_true, if_false, Except.map, describedFrom, describing,
      describeOutput_of_not_asksForSettings readable output]
    split <;> rfl
  | described readable check left asked describing ignored output settings =>
    rw [Config.reading_eq readable apart,
      reading_onlyOptions (isReadable_onlyOptions readable) apart, check, left, asked]
    simp only [Bool.false_eq_true, if_false, Except.map, describedFrom, describing, ignored, output,
      Bool.and_self, if_true]
    cases describeOutput (askedOutput entries) with
    | error fault => rfl
    | ok output => simp only [description_eq_iff.2 ⟨settings, rfl, rfl⟩]

/-- If a configuration is described as its options alone ask for, or neither has a description, then
the options are undisturbed. -/
theorem undisturbed_of_describedFrom_eq {policy other : DanglingPolicy}
    (readable : ∀ entry ∈ entries, IsReadable entry)
    (check : hasKey finalCheckKey (kept entries) = false)
    (left : policyIn (kept entries) = .ok policy) (asked : policyIn entries = .ok other)
    (h : describedFrom entries policy
      = (describeOutput (askedOutput entries)).map (description entries other)) :
    Undisturbed entries := by
  unfold describedFrom at h
  cases describing : hasKey descriptionKey (kept entries) with
  | true =>
    -- The fault is that of a value in place of the description, which options do not have.
    rw [describing, if_pos rfl] at h
    cases houtput : describeOutput (askedOutput entries) with
    | error fault =>
      rw [houtput, describeOutput_error houtput] at h
      cases h
    | ok output =>
      rw [houtput] at h
      cases h
  | false =>
    by_cases asks : AsksForSettings entries
    · obtain ⟨output, houtput⟩ := (exists_describeOutput_iff readable).2 asks
      rw [describing, houtput] at h
      cases hkeeps : keepsIgnored entries && keepsOutput entries with
      | false =>
        rw [hkeeps] at h
        cases h
      | true =>
        rw [hkeeps] at h
        obtain ⟨settings, rfl, -⟩ := description_eq_iff.1 (Except.ok.inj h)
        obtain ⟨ignored, kept⟩ := Bool.and_eq_true_iff.1 hkeeps
        exact .described readable check left asked describing ignored kept settings
    · exact .undescribed readable check left asked describing asks

/-- A mapping of which the same is made as of its options is undisturbed. -/
theorem undisturbed_of_reading_eq (texts : ∀ entry ∈ entries, ∃ key, entry.1 = .text key)
    (apart : KeysApart entries) {label : Option Nat}
    (h : reading (.mapping label entries) = reading (.mapping label (onlyOptions entries))) :
    Undisturbed entries := by
  by_cases readable : ∀ entry ∈ entries, IsReadable entry
  · -- Both sides have a closed form: compare the final check, the policies, then the descriptions.
    have htyped := reading_onlyOptions_ne texts apart label .notCallable
    rw [reading_eq readable apart] at h
    cases check : hasKey finalCheckKey (kept entries) with
    | true =>
      rw [check, if_pos rfl] at h
      exact absurd h.symm htyped
    | false =>
      rw [check, reading_onlyOptions (isReadable_onlyOptions readable) apart] at h
      cases left : policyIn (kept entries) with
      | error fault =>
        cases asked : policyIn entries with
        | error other =>
          rw [left, asked] at h
          obtain rfl : fault = other := Except.error.inj h
          exact .policy readable check left asked
        | ok other =>
          rw [left, asked] at h
          cases h
      | ok policy =>
        cases asked : policyIn entries with
        | error other =>
          rw [left, asked] at h
          cases h
        | ok other =>
          rw [left, asked] at h
          exact undisturbed_of_describedFrom_eq readable check left asked (Except.ok.inj h)
  · obtain ⟨front, ⟨own, value⟩, back, fault, rfl, before, refused⟩ :=
      exists_first_refused texts readable
    by_cases houtput : own = .text outputKey
    · subst houtput
      exact .output rfl before refused
    · obtain ⟨cause, rfl⟩ := fault_of_refuses_other refused houtput
      rw [reading_of_refuses before refused] at h
      exact absurd h.symm (reading_onlyOptions_ne texts apart label cause)

/-- **Names that are no options.**  The same is made of a mapping and of its options just when the
options are undisturbed by the other entries. -/
theorem reading_onlyOptions_iff (texts : ∀ entry ∈ entries, ∃ key, entry.1 = .text key)
    (apart : KeysApart entries) (label : Option Nat) :
    reading (.mapping label entries) = reading (.mapping label (onlyOptions entries))
      ↔ Undisturbed entries :=
  ⟨undisturbed_of_reading_eq texts apart, fun h => h.reading_eq apart label⟩

/-! ## The five names -/

/-- The names outside the options that mean something. -/
def reservedNames : List Text :=
  [kindKey, fixedKey, tableKey, finalCheckKey, descriptionKey]

/-- Without one of these names the options are undisturbed. -/
theorem undisturbed_of_unreserved (texts : ∀ entry ∈ entries, ∃ key, entry.1 = .text key)
    (absent : ∀ name ∈ reservedNames, get? name entries = none) : Undisturbed entries := by
  by_cases readable : ∀ entry ∈ entries, IsReadable entry
  · have htable : tableIn? entries = none := tableIn?_of_get? (absent _ (by decide))
    have hkept : kept entries = entries := kept_of_tableIn? htable
    have check : hasKey finalCheckKey (kept entries) = false := by
      rw [hkept, hasKey, absent _ (by decide), Option.isSome_none]
    have describing : hasKey descriptionKey (kept entries) = false := by
      rw [hkept, hasKey, absent _ (by decide), Option.isSome_none]
    cases asked : policyIn entries with
    | error fault => exact .policy readable check (hkept.symm ▸ asked) asked
    | ok policy =>
      exact .described readable check (hkept.symm ▸ asked) asked describing
        (by rw [keepsIgnored, htable]) (by rw [keepsOutput, htable]) fun name _ => by rw [hkept]
  · obtain ⟨front, ⟨own, value⟩, back, fault, rfl, before, refused⟩ :=
      exists_first_refused texts readable
    have hname : ∀ name ∈ reservedNames, own ≠ .text name := fun name hreserved =>
      (Scalar.same_text_eq_false_iff _ _).1 (Entries.same_eq_false_of_get? (absent name hreserved)
        (List.mem_append_right front List.mem_cons_self))
    cases refused with
    | kind => exact absurd rfl (hname kindKey (by decide))
    | fixed => exact absurd rfl (hname fixedKey (by decide))
    | table => exact absurd rfl (hname tableKey (by decide))
    | mode found force error => exact .output rfl before (.mode found force error)

/-- Each of these names alone changes what is made of a mapping. -/
theorem reading_reserved_ne {name : Text} (h : name ∈ reservedNames) :
    reading (.table [(.text name, .null)]) ≠ reading (.table []) := by
  have hnone : reading (.table []) = .ok (describe {}) := rfl
  have hok : ∃ v, describe {} = .ok v := ⟨_, rfl⟩
  obtain ⟨v, hv⟩ := hok
  rw [hnone, hv]
  simp only [reservedNames, List.mem_cons, List.not_mem_nil, or_false] at h
  rcases h with rfl | rfl | rfl | rfl | rfl
  all_goals
    intro heq
    cases heq

/-- **Reserved names.**  A name that is no option is ignored in all mappings just when it is not one of
the five. -/
theorem ignored_iff_notMem_reservedNames {name : Text} (stranger : name ∉ optionNames) :
    (∀ entries : Entries, (∀ entry ∈ entries, ∃ key, entry.1 = .text key ∧
        (key ∈ optionNames ∨ key = name)) → KeysApart entries →
      reading (.table entries) = reading (.table (onlyOptions entries))) ↔ name ∉ reservedNames := by
  constructor
  · intro h reserved
    have hoptions : onlyOptions [(.text name, .null)] = [] := by
      refine List.filter_cons_of_neg fun hoption => ?_
      obtain ⟨other, hother, heq⟩ := (isOption_iff _).1 hoption
      exact stranger (Scalar.text.inj heq ▸ hother)
    have hsame := h [(.text name, .null)] (List.forall_mem_singleton.2 ⟨name, rfl, Or.inr rfl⟩)
      (List.pairwise_singleton _ _)
    rw [hoptions] at hsame
    exact reading_reserved_ne reserved hsame
  · intro hname entries hkeys apart
    have apartNames : ∀ other ∈ reservedNames, other ∉ optionNames := by decide
    refine (undisturbed_of_unreserved (fun entry hentry => ?_) fun other hother => ?_).reading_eq
      apart none
    · obtain ⟨key, hkey, -⟩ := hkeys entry hentry
      exact ⟨key, hkey⟩
    · by_contra hsome
      obtain ⟨v, hv⟩ := Option.ne_none_iff_exists'.1 hsome
      obtain ⟨key, hkey, hknown⟩ := hkeys _ (Value.mem_of_get? hv)
      obtain rfl := Scalar.text.inj hkey
      rcases hknown with hoption | rfl
      · exact apartNames _ hother hoption
      · exact hname hother

/-! ## A table among the options -/

namespace StrictTable

/-- The options of a strict project.  The table among them repeats that it is strict. -/
def repeated : Entries :=
  [(.text "colour", .text "red"), (.text "strict", .bool true),
    (.text tableKey, .table [(.text ignoreSchemasKey, .sequence []), (.text "strict", .bool true)]),
    (.text ignoreSchemasKey, .sequence [.text "Draft"]),
    (.text outputKey, .table [(.text "mode", .text "error")])]

/-- Here a key asks for another kind of thing. -/
def kinded : Entries :=
  [(.text "strict", .bool true), (.text kindKey, .text "project")]

theorem keysApart_repeated : KeysApart repeated := by
  unfold KeysApart
  decide

/-- The options are undisturbed by a table that repeats them. -/
theorem undisturbed_repeated : Undisturbed repeated := by
  have hread : ∃ draft, setAll {} repeated = .ok draft := ⟨_, rfl⟩
  obtain ⟨draft, hdraft⟩ := hread
  refine .described (isReadable_of_setAll hdraft) rfl rfl rfl rfl rfl rfl fun name hname => ?_
  simp only [plainNames, List.mem_cons, List.not_mem_nil, or_false] at hname
  rcases hname with rfl | rfl | rfl | rfl | rfl | rfl <;> rfl

/-- Reading makes the same of them. -/
theorem reading_repeated : (∀ entry ∈ repeated, ∃ key, entry.1 = .text key) ∧ KeysApart repeated ∧
    Undisturbed repeated ∧
    reading (.table repeated) = reading (.table (onlyOptions repeated)) := by
  have texts : ∀ entry ∈ repeated, ∃ key, entry.1 = .text key := by
    simp [repeated]
  exact ⟨texts, keysApart_repeated, undisturbed_repeated,
    (reading_onlyOptions_iff texts keysApart_repeated none).2 undisturbed_repeated⟩

/-- The description of a project that is strict or not, and otherwise without settings. -/
def project (strict : Bool) : Value :=
  .table [
    (.text ignoreSchemasKey, .sequence []), (.text "export_declarations", .bool true),
    (.text "integer_codec", .text "t.Int"), (.text danglingPolicyKey, .text "identifier"),
    (.text "add_generation_comment", .bool false), (.text "strict", .bool strict),
    (.text "output_filename", .text "file.ts"),
    (.text outputKey, .table [(.text "mode", .text "force"), (.text "atomic_write", .bool true)])]

/-- The key is not ignored: it cannot be set, wherever it stands. -/
theorem reading_kinded : (∀ entry ∈ kinded, ∃ key, entry.1 = .text key) ∧ KeysApart kinded ∧
    reading (.table kinded) = .error (.illTyped .notAKind) ∧
    reading (.table (onlyOptions kinded)) = .ok (.ok (project true)) ∧
    reading (.table kinded) ≠ reading (.table (onlyOptions kinded)) := by
  have hkinded : reading (.table kinded) = .error (.illTyped .notAKind) := rfl
  have hoptions : reading (.table (onlyOptions kinded)) = .ok (.ok (project true)) := rfl
  refine ⟨by simp [kinded], by unfold KeysApart; decide, hkinded, hoptions, ?_⟩
  rw [hkinded, hoptions]
  rintro ⟨⟩

end StrictTable

end SchemaCodecs.Config
