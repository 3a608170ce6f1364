/-
# Drafts of configurations

A configuration is read by taking the entries of a mapping into a draft one after the other.  A few
entries are refused, whatever has been read before them, and an entry for the table of options puts a
new draft in place of the old one.  All other entries set the values of names, and the draft remembers
the values of the names that it knows.

* `Refuses` : the entries that are refused;
* `setAll_of_refuses` : reading ends at the first of them;
* `TakesIn` : what has become of a draft after some entries;
* `takesIn_of_set`, `takesIn_of_setAll` : one entry, and all of them.
-/
import SchemaCodecs.Config
import SchemaCodecs.Proofs.Value.Entries
import SchemaCodecs.Traced

namespace SchemaCodecs

open Value (KeysApart)

/-! ## Names -/

/-- The names of the options that are kept as they are given and have a standing value. -/
def plainNames : List Text :=
  ["export_declarations", "integer_codec", "add_generation_comment", "strict", "output_filename"]

/-- The names that can be set in any table of options. -/
def settableNames : List Text :=
  finalCheckKey :: descriptionKey :: danglingPolicyKey :: plainNames

theorem ne_outputKey_of_settable {name : Text} (h : name ∈ settableNames) : name ≠ outputKey := by
  rintro rfl
  exact absurd h (by decide)

theorem ne_ignoreSchemasKey_of_settable {name : Text} (h : name ∈ settableNames) :
    name ≠ ignoreSchemasKey := by
  rintro rfl
  exact absurd h (by decide)

namespace ConfigDraft

open Entries (get? get?_cons_self get?_cons_of_ne get?_singleton_of_ne get?_put_self get?_put_of_ne)

variable {draft after : ConfigDraft} {key : Text} {value : Value} {entries : Entries}

/-- A settable name is known to every draft. -/
theorem knows_of_settable (h : key ∈ settableNames) (draft : ConfigDraft) :
    draft.knows key = true := by
  have hstanding : ∀ name ∈ settableNames,
      (get? name standingOptions).isSome = true ∨ name = finalCheckKey ∨ name = descriptionKey := by
    decide
  unfold knows
  rcases hstanding key h with hsome | rfl | rfl
  · rw [option?, Option.orElse_eq_orElse, Option.orElse_eq_or, Option.isSome_or, hsome, Bool.or_true,
      Bool.true_or, Bool.true_or, Bool.true_or]
  · rw [beq_self_eq_true, Bool.or_true, Bool.true_or, Bool.true_or]
  · rw [beq_self_eq_true, Bool.or_true, Bool.true_or]

/-- The option of schemas to leave out is known to a draft that has a value for it. -/
theorem knows_ignoreSchemasKey (draft : ConfigDraft) :
    draft.knows ignoreSchemasKey = (get? ignoreSchemasKey draft.options).isSome := by
  have hstanding : get? ignoreSchemasKey standingOptions = none := by decide
  have hcheck : (ignoreSchemasKey == finalCheckKey) = false := by decide
  have hdescription : (ignoreSchemasKey == descriptionKey) = false := by decide
  have houtput : (ignoreSchemasKey == outputKey) = false := by decide
  rw [knows, option?, hstanding, hcheck, hdescription, houtput, Option.orElse_eq_orElse,
    Option.orElse_eq_or, Option.or_none, Bool.or_false, Bool.or_false, Bool.false_and, Bool.or_false]

/-! ## Refused entries -/

/-- Entries that are refused, with the fault. -/
inductive Refuses : Scalar × Value → Fault → Prop where
  /-- A configuration cannot be made another kind of thing. -/
  | kind (value : Value) : Refuses (.text kindKey, value) (.illTyped .notAKind)
  /-- A part of it cannot be set. -/
  | fixed (value : Value) : Refuses (.text fixedKey, value) (.illTyped .lacksPart)
  /-- What is no mapping cannot be the table of options. -/
  | table {value : Value} (foreign : ∀ label table, value ≠ .mapping label table) :
    Refuses (.text tableKey, value) (.illTyped .notAKind)
  /-- No mode of writing has the name. -/
  | mode {label : Option Nat} {settings : Entries} {name : Text}
    (found : get? "mode" settings = some (.text name)) (force : name ≠ "force")
    (error : name ≠ "error") :
    Refuses (.text outputKey, .mapping label settings) (.invalid (.writeMode name))

/-- A text that names no mode of writing is refused. -/
theorem writeMode_of_unknown {name : Text} (force : name ≠ "force") (error : name ≠ "error") :
    writeMode (.text name) = .error (.invalid (.writeMode name)) := by
  show (if name = "force" then _ else if name = "error" then _ else _) = _
  rw [if_neg force, if_neg error]

/-- Settings for the output are read if their mode is not such a text. -/
theorem exists_outputConfig {label : Option Nat} {settings : Entries}
    (h : ∀ fault, ¬ Refuses (.text outputKey, .mapping label settings) fault) :
    ∃ config, outputConfig settings = .ok config := by
  unfold outputConfig
  cases hmode : get? "mode" settings with
  | none => exact ⟨_, rfl⟩
  | some mode =>
    simp only
    unfold writeMode
    split
    · next name =>
      by_cases force : name = "force"
      · rw [if_pos force]
        exact ⟨_, rfl⟩
      by_cases error : name = "error"
      · rw [if_neg force, if_pos error]
        exact ⟨_, rfl⟩
      · exact absurd (Refuses.mode hmode force error) (h _)
    · exact ⟨_, rfl⟩

/-- The fault of a refused entry does not depend on the draft. -/
theorem set_of_refuses {fault : Fault} (h : Refuses (.text key, value) fault)
    (draft : ConfigDraft) : draft.set key value = .error fault := by
  cases h with
  | kind => rfl
  | fixed => rfl
  | table foreign =>
    cases value with
    | mapping label table => exact absurd rfl (foreign label table)
    | _ => rfl
  | @mode label settings name found force error =>
    have hfault : outputConfig settings = .error (.invalid (.writeMode name)) := by
      rw [outputConfig, found]
      simp only [writeMode_of_unknown force error]
      rfl
    rw [set, beq_self_eq_true, if_pos rfl, hfault]
    rfl

/-! ## Taking in one entry -/

/-- The output option after an entry for it, if there is one. -/
def outputAfter (output : Option OutputOption) : Option Value → Option OutputOption
  | none => output
  | some (.mapping _ settings) => (outputConfig settings).toOption.map .settings
  | some value => output.map fun _ => .other value

/-- An entry for the output that is not refused replaces it. -/
theorem set_output (h : ∀ fault, ¬ Refuses (.text outputKey, value) fault) (draft : ConfigDraft) :
    draft.set outputKey value
      = .ok { draft with output := outputAfter draft.output (some value) } := by
  obtain ⟨options, output⟩ := draft
  cases value with
  | mapping label settings =>
    obtain ⟨config, hconfig⟩ := exists_outputConfig h
    simp only [set, outputAfter, beq_self_eq_true, if_true, hconfig]
    rfl
  | _ => cases output <;> rfl

/-- What is not an entry of its own kind sets the value of a name if the name is known. -/
theorem set_plain (output : key ≠ outputKey) (kind : key ≠ kindKey) (fixed : key ≠ fixedKey)
    (table : key ≠ tableKey) (draft : ConfigDraft) (value : Value) :
    draft.set key value = .ok (if draft.knows key then
      { draft with options := Entries.put (.text key) value draft.options } else draft) := by
  unfold set
  rw [beq_eq_false_iff_ne.2 output, beq_eq_false_iff_ne.2 kind, beq_eq_false_iff_ne.2 fixed,
    beq_eq_false_iff_ne.2 table]
  simp only [Bool.false_eq_true, if_false]
  split <;> rfl

/-- An entry that has been taken in is not refused. -/
theorem not_refuses_of_set (h : draft.set key value = .ok after) (fault : Fault) :
    ¬ Refuses (.text key, value) fault := by
  intro hrefuses
  rw [set_of_refuses hrefuses] at h
  cases h

/-- An entry that is not refused is taken in by every draft. -/
theorem exists_set (h : ∀ fault, ¬ Refuses (.text key, value) fault) (draft : ConfigDraft) :
    ∃ after, draft.set key value = .ok after := by
  by_cases houtput : key = outputKey
  · subst houtput
    exact ⟨_, set_output h draft⟩
  by_cases hkind : key = kindKey
  · subst hkind
    exact absurd (.kind value) (h _)
  by_cases hfixed : key = fixedKey
  · subst hfixed
    exact absurd (.fixed value) (h _)
  by_cases htable : key = tableKey
  · subst htable
    cases value with
    | mapping label table => exact ⟨_, rfl⟩
    | _ => exact absurd (.table nofun) (h _)
  · exact ⟨_, set_plain houtput hkind hfixed htable draft value⟩

/-! ## Reading up to a refused entry -/

/-- An entry that can be taken in: its key is a text, and it is not refused. -/
def IsReadable (entry : Scalar × Value) : Prop :=
  (∃ key, entry.1 = .text key) ∧ ∀ fault, ¬ Refuses entry fault

/-- Entries are taken in in two stages. -/
theorem setAll_append (draft : ConfigDraft) (front back : Entries) :
    draft.setAll (front ++ back) = draft.setAll front >>= fun after => after.setAll back := by
  induction front generalizing draft with
  | nil => rfl
  | cons entry rest ih =>
    obtain ⟨own, value⟩ := entry
    cases own with
    | text key =>
      rw [List.cons_append, setAll, setAll]
      cases draft.set key value with
      | error fault => rfl
      | ok after => exact ih after
    | _ => rfl

/-- Entries of which all can be taken in are read. -/
theorem exists_setAll (h : ∀ entry ∈ entries, IsReadable entry) (draft : ConfigDraft) :
    ∃ after, draft.setAll entries = .ok after := by
  induction entries generalizing draft with
  | nil => exact ⟨draft, rfl⟩
  | cons entry rest ih =>
    obtain ⟨hentry, hrest⟩ := List.forall_mem_cons.1 h
    obtain ⟨own, value⟩ := entry
    obtain ⟨⟨key, rfl⟩, hreadable⟩ := hentry
    obtain ⟨mid, hmid⟩ := exists_set hreadable draft
    obtain ⟨after, hafter⟩ := ih hrest mid
    exact ⟨after, by rw [setAll, hmid]; exact hafter⟩

/-- Entries that have been read can all be taken in. -/
theorem isReadable_of_setAll (h : draft.setAll entries = .ok after) :
    ∀ entry ∈ entries, IsReadable entry := by
  induction entries generalizing draft with
  | nil => exact fun _ hmem => absurd hmem List.not_mem_nil
  | cons entry rest ih =>
    obtain ⟨own, value⟩ := entry
    cases own with
    | text key =>
      rw [setAll, bind_eq_ok_iff] at h
      obtain ⟨mid, hmid, hrest⟩ := h
      exact List.forall_mem_cons.2 ⟨⟨⟨key, rfl⟩, not_refuses_of_set hmid⟩, ih hrest⟩
    | _ => cases h

/-- Reading ends at the first entry that is refused. -/
theorem setAll_of_refuses {front back : Entries} {entry : Scalar × Value} {fault : Fault}
    (before : ∀ other ∈ front, IsReadable other) (h : Refuses entry fault) (draft : ConfigDraft) :
    draft.setAll (front ++ entry :: back) = .error fault := by
  obtain ⟨mid, hmid⟩ := exists_setAll before draft
  obtain ⟨own, value⟩ := entry
  have hkey : ∃ key, own = .text key := by
    cases h <;> exact ⟨_, rfl⟩
  obtain ⟨key, rfl⟩ := hkey
  rw [setAll_append, hmid]
  change mid.setAll ((.text key, value) :: back) = .error fault
  rw [setAll, set_of_refuses h]
  rfl

/-! ## What a draft remembers -/

/-- What has become of a draft after some entries, none of them for the table of options. -/
structure TakesIn (draft : ConfigDraft) (entries : Entries) (after : ConfigDraft) : Prop where
  /-- Settable names have the values of the entries, or else those from before. -/
  settable : ∀ name ∈ settableNames,
    get? name after.options = (get? name entries).or (get? name draft.options)
  /-- The schemas to leave out are replaced if there were some. -/
  ignored : get? ignoreSchemasKey after.options
    = (get? ignoreSchemasKey draft.options).map (get? ignoreSchemasKey entries).getD
  /-- So is the output, which settings can also bring in. -/
  output : after.output = outputAfter draft.output (get? outputKey entries)

theorem TakesIn.nil (draft : ConfigDraft) : TakesIn draft [] draft where
  settable _ _ := (Option.none_or ..).symm
  ignored := (Option.map_id' ..).symm
  output := rfl

/-- Some entries after others. -/
theorem TakesIn.append {mid : ConfigDraft} {front back : Entries} (h : TakesIn draft front mid)
    (hback : TakesIn mid back after) (apart : KeysApart (front ++ back)) :
    TakesIn draft (front ++ back) after where
  settable name hname := by
    rw [hback.settable name hname, h.settable name hname, Entries.get?_append_comm apart,
      Option.or_assoc]
  ignored := by
    rw [hback.ignored, h.ignored, Option.map_map, Entries.get?_append_comm apart]
    congr 1
    funext old
    exact (Option.getD_or ..).symm
  output := by
    rw [hback.output, h.output]
    cases hfound : get? outputKey back with
    | none => rw [Entries.get?_append, hfound, Option.or_none, outputAfter]
    | some value =>
      have hfront := Entries.get?_eq_none_of_append apart hfound
      rw [Entries.get?_append, hfront, hfound, Option.none_or, outputAfter]

/-- An entry for the output. -/
theorem takesIn_output (h : ∀ fault, ¬ Refuses (.text outputKey, value) fault)
    (hset : draft.set outputKey value = .ok after) :
    TakesIn draft [(.text outputKey, value)] after := by
  rw [set_output h] at hset
  obtain rfl := Except.ok.inj hset
  refine ⟨fun name hname => ?_, ?_, ?_⟩
  · rw [get?_singleton_of_ne (ne_outputKey_of_settable hname).symm, Option.none_or]
  · rw [get?_singleton_of_ne (by decide)]
    exact (Option.map_id' ..).symm
  · rw [get?_cons_self]

/-- An entry that sets the value of a name, if the name is known. -/
theorem takesIn_plain (output : key ≠ outputKey) (kind : key ≠ kindKey) (fixed : key ≠ fixedKey)
    (table : key ≠ tableKey) (hset : draft.set key value = .ok after) :
    TakesIn draft [(.text key, value)] after := by
  rw [set_plain output kind fixed table] at hset
  obtain rfl := Except.ok.inj hset
  refine ⟨fun name hname => ?_, ?_, ?_⟩
  · by_cases hkey : key = name
    · subst hkey
      rw [if_pos (knows_of_settable hname draft), get?_put_self, get?_cons_self, Option.some_or]
    · rw [get?_singleton_of_ne hkey, Option.none_or]
      split
      · exact get?_put_of_ne hkey _ _
      · rfl
  · by_cases hkey : key = ignoreSchemasKey
    · -- The option is known just when it has a value, so it is replaced or stays without one.
      subst hkey
      rw [knows_ignoreSchemasKey, get?_cons_self]
      cases hold : get? ignoreSchemasKey draft.options with
      | none => exact hold
      | some old => exact get?_put_self _ _ _
    · rw [get?_singleton_of_ne hkey]
      split
      · rw [get?_put_of_ne hkey]
        exact (Option.map_id' ..).symm
      · exact (Option.map_id' ..).symm
  · rw [get?_singleton_of_ne output]
    split <;> rfl

/-- One entry. -/
theorem takesIn_of_set (table : key ≠ tableKey) (h : draft.set key value = .ok after) :
    TakesIn draft [(.text key, value)] after := by
  have hreadable := not_refuses_of_set h
  by_cases output : key = outputKey
  · subst output
    exact takesIn_output hreadable h
  · have kind : key ≠ kindKey := by
      rintro rfl
      exact hreadable _ (.kind value)
    have fixed : key ≠ fixedKey := by
      rintro rfl
      exact hreadable _ (.fixed value)
    exact takesIn_plain output kind fixed table h

/-- All entries. -/
theorem takesIn_of_setAll (table : get? tableKey entries = none) (apart : KeysApart entries)
    (h : draft.setAll entries = .ok after) : TakesIn draft entries after := by
  induction entries generalizing draft with
  | nil =>
    obtain rfl := Except.ok.inj h
    exact .nil _
  | cons entry rest ih =>
    obtain ⟨own, value⟩ := entry
    cases own with
    | text key =>
      rw [setAll, bind_eq_ok_iff] at h
      obtain ⟨mid, hmid, hrest⟩ := h
      have hkey : key ≠ tableKey := by
        rintro rfl
        rw [get?_cons_self] at table
        cases table
      rw [get?_cons_of_ne fun heq => hkey (Scalar.text.inj heq)] at table
      exact (takesIn_of_set hkey hmid).append (ih table (List.pairwise_cons.1 apart).2 hrest) apart
    | _ => cases h

end ConfigDraft

end SchemaCodecs
