/-
# Names mentioned in a type

A type mentions a name when the name stands as an identifier anywhere in it.  The walk through the
type collects exactly these names, and the references of a declaration are exactly the names that
its type mentions.
-/
import SchemaCodecs.Declaration.TypeExpr

namespace SchemaCodecs

/-! ## First occurrences -/

/-- Dropping repetitions keeps every text. -/
theorem mem_distinctTexts_iff (texts : List Text) (s : Text) :
    s ∈ distinctTexts texts ↔ s ∈ texts := by
  unfold distinctTexts
  induction texts with
  | nil => simp [distinctBy]
  | cons t rest ih =>
    rw [distinctBy, List.mem_cons, List.mem_cons, List.mem_filter, ih]
    constructor
    · rintro (rfl | ⟨h, -⟩)
      · exact Or.inl rfl
      · exact Or.inr h
    · rintro (rfl | h)
      · exact Or.inl rfl
      · by_cases hst : s = t
        · exact Or.inl hst
        · exact Or.inr ⟨h, by simpa using fun he => hst he.symm⟩

/-- No text is repeated among the first occurrences. -/
theorem nodup_distinctTexts (texts : List Text) : (distinctTexts texts).Nodup := by
  unfold distinctTexts
  induction texts with
  | nil => simp [distinctBy]
  | cons t rest ih =>
    rw [distinctBy, List.nodup_cons]
    refine ⟨?_, ih.filter _⟩
    rw [List.mem_filter]
    simp

/-- Texts that are all different pass the check for different keys. -/
theorem allDistinctBy_of_nodup {keys : List Scalar} (text : ∀ key ∈ keys, ∃ s, key = .text s)
    (h : keys.Nodup) : allDistinctBy Scalar.same keys = true := by
  induction keys with
  | nil => rfl
  | cons key rest ih =>
    obtain ⟨hkey, hrest⟩ := List.nodup_cons.1 h
    rw [allDistinctBy, ih (fun k hk => text k (List.mem_cons_of_mem _ hk)) hrest, Bool.and_true,
      Bool.not_eq_true', List.any_eq_false]
    intro other hother hsame
    obtain ⟨s, rfl⟩ := text key List.mem_cons_self
    obtain ⟨t, rfl⟩ := text other (List.mem_cons_of_mem _ hother)
    simp only [Scalar.same, Scalar.integer?, beq_iff_eq] at hsame
    exact hkey (hsame ▸ hother)

namespace TypeExpr

/-! ## Mentioning -/

/-- A name stands as an identifier somewhere in a type. -/
inductive Mentions (name : Text) : TypeExpr → Prop where
  /-- The identifier itself. -/
  | identifier : Mentions name (.identifier name)
  /-- In the items of an array. -/
  | array {items : TypeExpr} (h : Mentions name items) : Mentions name (.array items)
  /-- In the type of a property. -/
  | record {fields : List (Field TypeExpr)} {field : Field TypeExpr} (mem : field ∈ fields)
      (h : Mentions name field.type) : Mentions name (.record fields)
  /-- In a member of a union. -/
  | union {members : List TypeExpr} {member : TypeExpr} (mem : member ∈ members)
      (h : Mentions name member) : Mentions name (.union members)
  /-- In a member of an intersection. -/
  | intersection {members : List TypeExpr} {member : TypeExpr} (mem : member ∈ members)
      (h : Mentions name member) : Mentions name (.intersection members)

/-- The identifiers of some properties are those of their types. -/
theorem mem_fieldIdentifiers_iff (fields : List (Field TypeExpr)) (name : Text) :
    name ∈ fieldIdentifiers fields ↔ ∃ field ∈ fields, name ∈ field.type.identifiers := by
  induction fields with
  | nil => simp [fieldIdentifiers]
  | cons field rest ih =>
    rw [fieldIdentifiers, List.mem_append, ih]
    simp

/-- The identifiers of some types are those of each of them. -/
theorem mem_memberIdentifiers_iff (members : List TypeExpr) (name : Text) :
    name ∈ memberIdentifiers members ↔ ∃ member ∈ members, name ∈ member.identifiers := by
  induction members with
  | nil => simp [memberIdentifiers]
  | cons member rest ih =>
    rw [memberIdentifiers, List.mem_append, ih]
    simp

/-- The walk finds every name that is mentioned. -/
theorem mem_identifiers_of_mentions {name : Text} {t : TypeExpr} (h : t.Mentions name) :
    name ∈ t.identifiers := by
  induction h with
  | identifier => simp [identifiers]
  | array _ ih => rwa [identifiers]
  | record mem _ ih =>
    rw [identifiers, mem_fieldIdentifiers_iff]
    exact ⟨_, mem, ih⟩
  | union mem _ ih =>
    rw [identifiers, mem_memberIdentifiers_iff]
    exact ⟨_, mem, ih⟩
  | intersection mem _ ih =>
    rw [identifiers, mem_memberIdentifiers_iff]
    exact ⟨_, mem, ih⟩

mutual

/-- Every name that the walk finds is mentioned. -/
theorem mentions_of_mem_identifiers {name : Text} :
    ∀ t : TypeExpr, name ∈ t.identifiers → t.Mentions name
  | .identifier other, h => by
    rw [identifiers, List.mem_singleton] at h
    exact h ▸ .identifier
  | .array items, h => by
    rw [identifiers] at h
    exact .array (mentions_of_mem_identifiers items h)
  | .record fields, h => by
    rw [identifiers] at h
    obtain ⟨field, mem, hfield⟩ := field_mentions fields h
    exact .record mem hfield
  | .union members, h => by
    rw [identifiers] at h
    obtain ⟨member, mem, hmember⟩ := member_mentions members h
    exact .union mem hmember
  | .intersection members, h => by
    rw [identifiers] at h
    obtain ⟨member, mem, hmember⟩ := member_mentions members h
    exact .intersection mem hmember
  | .missing, h | .bare, h | .primitive _, h | .keyof _, h => by simp [identifiers] at h

/-- A name found in some properties is mentioned in the type of one of them. -/
theorem field_mentions {name : Text} :
    ∀ fields : List (Field TypeExpr), name ∈ fieldIdentifiers fields →
      ∃ field ∈ fields, field.type.Mentions name
  | [], h => by simp [fieldIdentifiers] at h
  | ⟨_, type, _⟩ :: rest, h => by
    rw [fieldIdentifiers, List.mem_append] at h
    rcases h with h | h
    · exact ⟨_, List.mem_cons_self, mentions_of_mem_identifiers type h⟩
    · obtain ⟨field, mem, hfield⟩ := field_mentions rest h
      exact ⟨field, List.mem_cons_of_mem _ mem, hfield⟩

/-- A name found in some types is mentioned in one of them. -/
theorem member_mentions {name : Text} :
    ∀ members : List TypeExpr, name ∈ memberIdentifiers members →
      ∃ member ∈ members, member.Mentions name
  | [], h => by simp [memberIdentifiers] at h
  | type :: rest, h => by
    rw [memberIdentifiers, List.mem_append] at h
    rcases h with h | h
    · exact ⟨_, List.mem_cons_self, mentions_of_mem_identifiers type h⟩
    · obtain ⟨member, mem, hmember⟩ := member_mentions rest h
      exact ⟨member, List.mem_cons_of_mem _ mem, hmember⟩

end

end TypeExpr

theorem Declaration.mem_references_iff (d : Declaration) (name : Text) :
    name ∈ d.references ↔ d.type.Mentions name := by
  rw [references, mem_distinctTexts_iff]
  exact ⟨TypeExpr.mentions_of_mem_identifiers d.type, TypeExpr.mem_identifiers_of_mentions⟩

end SchemaCodecs
