/-
# What is read as a configuration

The entries of a mapping are read one after the other, but a new table of options takes the place of
everything that was set before it.  So the configuration depends on the entries that are left at the
end, and it can be described if they are no new table, or if the new table holds an option of schemas
to leave out and settings for the output stand behind it.

* `reading` : what reading a mapping and describing the configuration comes to;
* `kept` : the entries that are left at the end;
* `Reads`, `exists_reads` : what has been found when all entries are read;
* `reading_eq` : the outcome, from the entries that are left.
-/
import SchemaCodecs.Proofs.Config.Taking

namespace SchemaCodecs.Config

open ConfigDraft
open Entries (get? hasKey get?_cons_self get?_cons_of_ne)
open Value (KeysApart)

variable {entries : Entries}

/-- What a value comes to as a configuration: the fault of reading it, or else what describing the
configuration comes to. -/
def reading (v : Value) : Except Fault (Except Fault Value) :=
  (ofValue v).map describe

/-! ## What is left at the end -/

/-- The mapping that takes the place of the table of options, and the entries behind it. -/
def tableIn? : Entries → Option (Entries × Entries)
  | [] => none
  | (key, value) :: rest =>
    if key = .text tableKey then
      match value with
      | .mapping _ table => some (table, rest)
      | _ => none
    else tableIn? rest

/-- The entries that are left when all are read: what stood before a new table is lost, and what
stands behind it goes before its entries. -/
def kept (entries : Entries) : Entries :=
  match tableIn? entries with
  | none => entries
  | some (table, later) => later ++ table

/-- Whether there is still an option of schemas to leave out: a new table must have one. -/
def keepsIgnored (entries : Entries) : Bool :=
  match tableIn? entries with
  | none => true
  | some (table, _) => hasKey ignoreSchemasKey table

/-- Whether there are still settings for the output: they must stand behind a new table. -/
def keepsOutput (entries : Entries) : Bool :=
  match tableIn? entries with
  | none => true
  | some (_, later) => hasKey outputKey later

/-- The value of an option in a mapping, or else the one it has without an entry. -/
def settingIn (entries : Entries) (name : Text) : Value :=
  ((get? name entries).or
    (get? name ((.text ignoreSchemasKey, .sequence []) :: standingOptions))).getD .null

/-- The policy for dangling references in a mapping, if it is one. -/
def policyIn (entries : Entries) : Except Fault DanglingPolicy :=
  ConfigDraft.danglingPolicy (settingIn entries danglingPolicyKey)

/-- The output that a mapping asks for. -/
def askedOutput (entries : Entries) : Option OutputOption :=
  outputAfter (some (.settings {})) (get? outputKey entries)

/-- The description of a configuration, from its entries, its policy and its described output. -/
def description (entries : Entries) (policy : DanglingPolicy) (output : Value) : Value :=
  .table [
    (.text ignoreSchemasKey, settingIn entries ignoreSchemasKey),
    (.text "export_declarations", settingIn entries "export_declarations"),
    (.text "integer_codec", settingIn entries "integer_codec"),
    (.text danglingPolicyKey, policyName policy),
    (.text "add_generation_comment", settingIn entries "add_generation_comment"),
    (.text "strict", settingIn entries "strict"),
    (.text "output_filename", settingIn entries "output_filename"),
    (.text outputKey, output)]

/-- What describing a configuration comes to, from the entries that it was read from. -/
def describedFrom (entries : Entries) (policy : DanglingPolicy) : Except Fault Value :=
  if hasKey descriptionKey (kept entries) then .error (.illTyped .notCallable)
  else if keepsIgnored entries && keepsOutput entries then
    (describeOutput (askedOutput entries)).map (description (kept entries) policy)
  else .error (.illTyped .lacksPart)

/-- What has been found at the end of reading some entries. -/
structure Reads (entries : Entries) (draft : ConfigDraft) : Prop where
  /-- Settable names have the values that are left. -/
  settable : ∀ name ∈ settableNames, get? name draft.options = get? name (kept entries)
  /-- So have the schemas to leave out. -/
  ignored : get? ignoreSchemasKey draft.options
    = if keepsIgnored entries then some (settingIn (kept entries) ignoreSchemasKey) else none
  /-- The output is the one asked for, or it has no description. -/
  output : describeOutput draft.output
    = if keepsOutput entries then describeOutput (askedOutput entries)
      else .error (.illTyped .lacksPart)

/-! ## Reading to the end -/

/-- A mapping for the table stands at one place. -/
theorem exists_split_of_tableIn? {table later : Entries} (h : tableIn? entries = some (table, later)) :
    ∃ front label, entries = front ++ (.text tableKey, .mapping label table) :: later := by
  induction entries with
  | nil => cases h
  | cons entry rest ih =>
    obtain ⟨key, value⟩ := entry
    unfold tableIn? at h
    split at h
    · next hkey =>
      subst hkey
      cases value with
      | mapping label entries =>
        obtain ⟨rfl, rfl⟩ := Prod.mk.inj (Option.some.inj h)
        exact ⟨[], label, rfl⟩
      | _ => cases h
    · obtain ⟨front, label, rfl⟩ := ih h
      exact ⟨(key, value) :: front, label, rfl⟩

theorem kept_of_tableIn? (h : tableIn? entries = none) : kept entries = entries := by
  rw [kept, h]

/-- Without such a mapping nothing stands under the name of the table, if nothing is refused. -/
theorem get?_tableKey_of_tableIn? (readable : ∀ entry ∈ entries, IsReadable entry)
    (h : tableIn? entries = none) : get? tableKey entries = none := by
  induction entries with
  | nil => rfl
  | cons entry rest ih =>
    obtain ⟨hentry, hrest⟩ := List.forall_mem_cons.1 readable
    obtain ⟨key, value⟩ := entry
    unfold tableIn? at h
    split at h
    · next hkey =>
      subst hkey
      cases value with
      | mapping label entries => cases h
      | _ => exact absurd (.table nofun) (hentry.2 _)
    · next hkey =>
      rw [get?_cons_of_ne hkey, ih hrest h]

/-- Settings are described whatever output they take the place of. -/
theorem describeOutput_outputAfter (output other : Option OutputOption) (value : Value) :
    describeOutput (outputAfter output (some value))
      = describeOutput (outputAfter other (some value)) := by
  cases value with
  | mapping label settings => rfl
  | _ => cases output <;> cases other <;> rfl

/-- A draft is known at the end if no entry stands for the table of options. -/
theorem reads_of_takesIn {draft : ConfigDraft} (h : TakesIn {} entries draft)
    (table : tableIn? entries = none) : Reads entries draft where
  settable name hname := by
    rw [h.settable name hname, kept_of_tableIn? table]
    exact (congrArg _ (Entries.get?_singleton_of_ne (ne_ignoreSchemasKey_of_settable hname).symm
      (.sequence []))).trans (Option.or_none ..)
  ignored := by
    rw [h.ignored, keepsIgnored, table, if_pos rfl, kept_of_tableIn? table, settingIn]
    change some ((get? ignoreSchemasKey entries).getD (.sequence [])) = _
    cases get? ignoreSchemasKey entries <;> rfl
  output := by
    rw [h.output, keepsOutput, table, if_pos rfl, askedOutput]

/-- Otherwise only the new table and what stands behind it count. -/
theorem reads_of_takesIn_ofTable {draft : ConfigDraft} {front table later : Entries}
    {label : Option Nat} (h : TakesIn (ofTable table) later draft)
    (apart : KeysApart (front ++ (.text tableKey, .mapping label table) :: later))
    (found : tableIn? (front ++ (.text tableKey, .mapping label table) :: later)
      = some (table, later)) :
    Reads (front ++ (.text tableKey, .mapping label table) :: later) draft := by
  have hkeeps : ∀ name, name ≠ outputKey → get? name (ofTable table).options = get? name table := by
    intro name hname
    refine Entries.get?_filter (fun v => ?_) table
    rw [(Scalar.same_text_eq_false_iff _ _).2 fun heq => hname (Scalar.text.inj heq), Bool.not_false]
  refine ⟨fun name hname => ?_, ?_, ?_⟩
  · rw [h.settable name hname, hkeeps name (ne_outputKey_of_settable hname), kept, found,
      Entries.get?_append]
  · rw [h.ignored, hkeeps _ (by decide), keepsIgnored, found, kept, found]
    simp only [settingIn, Entries.get?_append, hasKey]
    cases get? ignoreSchemasKey table with
    | none => rfl
    | some old => cases get? ignoreSchemasKey later <;> rfl
  · simp only [h.output, keepsOutput, found, hasKey, askedOutput]
    cases hlater : get? outputKey later with
    | none =>
      -- An output inside the table itself is a plain value, which has no description.
      change describeOutput ((get? outputKey table).map .other) = _
      cases get? outputKey table <;> rfl
    | some value =>
      have hne : Scalar.text tableKey ≠ .text outputKey := by decide
      have hrest : get? outputKey ((.text tableKey, .mapping label table) :: later) = some value := by
        rw [get?_cons_of_ne hne, hlater]
      rw [Entries.get?_append_comm apart, hrest, Option.some_or]
      exact describeOutput_outputAfter _ _ _

/-- Entries of which none is refused are read. -/
theorem exists_reads (readable : ∀ entry ∈ entries, IsReadable entry) (apart : KeysApart entries) :
    ∃ draft, setAll {} entries = .ok draft ∧ Reads entries draft := by
  cases htable : tableIn? entries with
  | none =>
    obtain ⟨draft, hdraft⟩ := exists_setAll readable {}
    have hnone := get?_tableKey_of_tableIn? readable htable
    exact ⟨draft, hdraft, reads_of_takesIn (takesIn_of_setAll hnone apart hdraft) htable⟩
  | some found =>
    obtain ⟨table, later⟩ := found
    obtain ⟨front, label, rfl⟩ := exists_split_of_tableIn? htable
    obtain ⟨hfront, hback⟩ := List.forall_mem_append.1 readable
    obtain ⟨mid, hmid⟩ := exists_setAll hfront {}
    obtain ⟨draft, hdraft⟩ := exists_setAll (List.forall_mem_cons.1 hback).2 (ofTable table)
    -- Keys stand once, so what stands behind the new table brings in no other.
    have hlater : get? tableKey later = none := by
      by_contra hsome
      obtain ⟨v, hv⟩ := Option.ne_none_iff_exists'.1 hsome
      have hapart : KeysApart ([(.text tableKey, .mapping label table)] ++ later) :=
        (List.pairwise_append.1 apart).2.1
      have hnone := Entries.get?_eq_none_of_append hapart hv
      rw [get?_cons_self] at hnone
      cases hnone
    refine ⟨draft, ?_, reads_of_takesIn_ofTable
      (takesIn_of_setAll hlater (List.pairwise_cons.1 (List.pairwise_append.1 apart).2.1).2 hdraft)
      apart htable⟩
    rw [setAll_append, hmid]
    exact hdraft

/-! ## The final check and the description -/

/-- The configuration that a draft amounts to under a policy. -/
def configOf (draft : ConfigDraft) (policy : DanglingPolicy) : Config where
  ignoreSchemas := get? ignoreSchemasKey draft.options
  exportDeclarations := (draft.option? "export_declarations").getD .null
  integerCodec := (draft.option? "integer_codec").getD .null
  danglingPolicy := policy
  addGenerationComment := (draft.option? "add_generation_comment").getD .null
  strict := (draft.option? "strict").getD .null
  outputFilename := (draft.option? "output_filename").getD .null
  output := draft.output
  describable := !hasKey descriptionKey draft.options

/-- The final check ends in this configuration if it is there and accepts the policy. -/
theorem finish_eq (draft : ConfigDraft) :
    draft.finish = if hasKey finalCheckKey draft.options then .error (.illTyped .notCallable)
      else (ConfigDraft.danglingPolicy ((draft.option? danglingPolicyKey).getD .null)).map
        (configOf draft) := by
  unfold finish
  dsimp only
  split
  · rfl
  · cases ConfigDraft.danglingPolicy ((draft.option? danglingPolicyKey).getD .null) <;> rfl

/-- An option with a standing value has the value that is left at the end. -/
theorem Reads.getD_option? {draft : ConfigDraft} (h : Reads entries draft) {name : Text}
    (hname : name ∈ danglingPolicyKey :: plainNames) :
    (draft.option? name).getD .null = settingIn (kept entries) name := by
  have hsettable : name ∈ settableNames := List.mem_cons_of_mem _ (List.mem_cons_of_mem _ hname)
  have hne : Scalar.text ignoreSchemasKey ≠ .text name := fun heq =>
    ne_ignoreSchemasKey_of_settable hsettable (Scalar.text.inj heq).symm
  rw [option?, h.settable name hsettable, settingIn, get?_cons_of_ne hne, Option.orElse_eq_orElse,
    Option.orElse_eq_or]

theorem Reads.hasKey_options {draft : ConfigDraft} (h : Reads entries draft) {name : Text}
    (hname : name ∈ settableNames) : hasKey name draft.options = hasKey name (kept entries) := by
  rw [hasKey, hasKey, h.settable name hname]

/-- What has no description lacks a part. -/
theorem describeOutput_error {output : Option OutputOption} {fault : Fault}
    (h : describeOutput output = .error fault) : fault = .illTyped .lacksPart := by
  unfold describeOutput at h
  split at h
  · next config =>
    cases hmode : config.mode with
    | unnamed value =>
      rw [hmode] at h
      exact (Except.error.inj h).symm
    | _ =>
      rw [hmode] at h
      cases h
  · exact (Except.error.inj h).symm

/-- The configuration is described from the entries that are left. -/
theorem describe_configOf {draft : ConfigDraft} (h : Reads entries draft)
    (policy : DanglingPolicy) : describe (configOf draft policy) = describedFrom entries policy := by
  have hdescription := h.hasKey_options (show descriptionKey ∈ settableNames by decide)
  have hoption : ∀ name ∈ danglingPolicyKey :: plainNames,
      (draft.option? name).getD .null = settingIn (kept entries) name := fun _ => h.getD_option?
  simp only [plainNames, List.mem_cons, List.not_mem_nil, forall_eq_or_imp] at hoption
  simp only [describe, describedFrom, configOf, h.ignored, h.output, hdescription, hoption]
  cases hasKey descriptionKey (kept entries) with
  | true => rfl
  | false =>
    cases keepsIgnored entries with
    | false => rfl
    | true =>
      cases keepsOutput entries with
      | false => rfl
      | true =>
        cases describeOutput (askedOutput entries) <;> rfl

/-- What is read from some entries. -/
theorem reading_eq (readable : ∀ entry ∈ entries, IsReadable entry) (apart : KeysApart entries)
    (label : Option Nat) : reading (.mapping label entries)
      = if hasKey finalCheckKey (kept entries) then .error (.illTyped .notCallable)
        else (policyIn (kept entries)).map (describedFrom entries) := by
  obtain ⟨draft, hdraft, h⟩ := exists_reads readable apart
  have hcheck := h.hasKey_options (show finalCheckKey ∈ settableNames by decide)
  have hreading : reading (.mapping label entries) = draft.finish.map describe := by
    rw [reading, ofValue, hdraft]
    rfl
  rw [hreading, finish_eq, hcheck, policyIn, ← h.getD_option? (by decide)]
  split
  · rfl
  · cases ConfigDraft.danglingPolicy ((draft.option? danglingPolicyKey).getD .null) with
    | error fault => rfl
    | ok policy => exact congrArg Except.ok (describe_configOf h policy)

end SchemaCodecs.Config
