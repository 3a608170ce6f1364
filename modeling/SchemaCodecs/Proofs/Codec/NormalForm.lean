/-
# Normal forms of types

A codec does not show how a type was put together: a single member of a union or intersection stands
for itself, a union or intersection without members is the type of nothing or of everything, and a
record is the intersection of its two parts.  What the codec shows is the normal form of the type.

* `NormalType`, `normalForm` : normal forms, and the normal form of a type;
* `IsNormal` : unions and intersections have two members or more;
* `print_eq_text` : the codec of a type is the text of its normal form.
-/
import SchemaCodecs.Codec.Module
import Mathlib.Data.List.Basic
import Mathlib.Tactic.FinCases

namespace SchemaCodecs.Codec

open Text

/-! ## Normal forms -/

/-- What the codec of a type shows. -/
inductive NormalType where
  /-- Nothing. -/
  | never
  /-- Everything. -/
  | unknown
  /-- A primitive type by the name of its kind. -/
  | primitive (kind : Text)
  /-- The type declared under a name. -/
  | identifier (name : Text)
  /-- Arrays of one type of item. -/
  | array (items : NormalType)
  /-- Objects that have all of the given properties. -/
  | required (fields : List (Scalar × NormalType))
  /-- Objects that may have the given properties. -/
  | optional (fields : List (Scalar × NormalType))
  /-- Values of at least one of the types. -/
  | union (members : List NormalType)
  /-- Values of all of the types. -/
  | intersection (members : List NormalType)
  /-- One of the given texts. -/
  | keyof (values : List Text)
  deriving Inhabited

/-- The normal form of a union or intersection: a single member stands for itself. -/
def combinedForm (empty : NormalType) (combine : List NormalType → NormalType) :
    List NormalType → NormalType
  | [] => empty
  | [member] => member
  | members => combine members

/-- The normal form of a record: one of its parts if the other one is empty, else the intersection of
the two. -/
def recordForm (required optional : List (Scalar × NormalType)) : NormalType :=
  if optional.isEmpty then .required required
  else if required.isEmpty then .optional optional
  else .intersection [.required required, .optional optional]

mutual

/-- The normal form of a type; a type that cannot be printed has none of its own. -/
def normalForm : TypeExpr → NormalType
  | .missing | .bare => .unknown
  | .primitive kind => .primitive kind
  | .identifier name => .identifier name
  | .array items => .array (normalForm items)
  | .record fields => recordForm (fieldForms false fields) (fieldForms true fields)
  | .union members => combinedForm .never .union (memberForms members)
  | .intersection members => combinedForm .unknown .intersection (memberForms members)
  | .keyof values => .keyof values

/-- The normal forms of the properties that must be there, or of those that may be left out. -/
def fieldForms (optional : Bool) : List (Field TypeExpr) → List (Scalar × NormalType)
  | [] => []
  | ⟨name, type, own⟩ :: rest =>
    if own == optional then (name, normalForm type) :: fieldForms optional rest
    else fieldForms optional rest

/-- The normal forms of members. -/
def memberForms : List TypeExpr → List NormalType
  | [] => []
  | member :: rest => normalForm member :: memberForms rest

end

/-! ## Texts -/

/-- The codecs of all kinds of primitive. -/
def kindCodecs : List (Text × Text) :=
  ("integer", "t.Int") :: primitiveCodecs

/-- A combinator applied to an argument. -/
def applied (combinator argument : Text) : Text :=
  combinator ++ "(" ++ argument ++ ")"

/-- A list of expressions in brackets. -/
def bracketed (expressions : List Text) : Text :=
  "[" ++ joinWith ", " expressions ++ "]"

mutual

/-- A normal form as an expression over the combinators. -/
def NormalType.text (level : Nat) : NormalType → Text
  | .never => "t.never"
  | .unknown => "t.unknown"
  | .primitive kind => (kindCodecs.lookup kind).getD ""
  | .identifier name => name
  | .array items => applied "t.array" (items.text level)
  | .required fields => applied "t.type" (objectLiteral level (entryTexts level fields))
  | .optional fields => applied "t.partial" (objectLiteral level (entryTexts level fields))
  | .union members => applied "t.union" (bracketed (memberTexts level members))
  | .intersection members => applied "t.intersection" (bracketed (memberTexts level members))
  | .keyof values =>
    applied "t.keyof" (objectLiteral level (values.map fun value => propertyKey value ++ ": null"))

/-- The entries of properties. -/
def entryTexts (level : Nat) : List (Scalar × NormalType) → List Text
  | [] => []
  | (name, type) :: rest =>
    (propertyKey name.display ++ ": " ++ type.text (level + 1)) :: entryTexts level rest

/-- The texts of members. -/
def memberTexts (level : Nat) : List NormalType → List Text
  | [] => []
  | member :: rest => member.text level :: memberTexts level rest

end

@[simp] theorem memberTexts_eq_map (level : Nat) (members : List NormalType) :
    memberTexts level members = members.map (NormalType.text level) := by
  induction members with
  | nil => rfl
  | cons member rest ih => rw [memberTexts, ih, List.map_cons]

theorem entryTexts_eq_map (level : Nat) (fields : List (Scalar × NormalType)) :
    entryTexts level fields = fields.map fun field =>
      propertyKey field.1.display ++ ": " ++ field.2.text (level + 1) := by
  induction fields with
  | nil => rfl
  | cons field rest ih => rw [entryTexts, ih, List.map_cons]

/-! ## Types that can be printed -/

/-- A type of which every part can be printed: names are identifiers or, for properties, texts, kinds
of primitive have codecs, and no type is missing. -/
inductive IsPrintable : TypeExpr → Prop where
  /-- A primitive type of a kind with a codec. -/
  | primitive {kind : Text} (known : kind ∈ kindCodecs.map (·.1)) : IsPrintable (.primitive kind)
  /-- An identifier. -/
  | identifier {name : Text} (spelled : isIdentifier name.toList = true) :
      IsPrintable (.identifier name)
  /-- An array of such a type. -/
  | array {items : TypeExpr} (items_printable : IsPrintable items) : IsPrintable (.array items)
  /-- A record of such types. -/
  | record {fields : List (Field TypeExpr)}
      (named : ∀ field ∈ fields, ∃ name, field.name = .text name)
      (types : ∀ field ∈ fields, IsPrintable field.type) : IsPrintable (.record fields)
  /-- A union of such types. -/
  | union {members : List TypeExpr} (types : ∀ member ∈ members, IsPrintable member) :
      IsPrintable (.union members)
  /-- An intersection of such types. -/
  | intersection {members : List TypeExpr} (types : ∀ member ∈ members, IsPrintable member) :
      IsPrintable (.intersection members)
  /-- A set of texts. -/
  | keyof (values : List Text) : IsPrintable (.keyof values)

/-- A normal form as it is printed: names are identifiers or texts, kinds of primitive have codecs,
and every union and intersection has at least two members. -/
inductive IsNormal : NormalType → Prop where
  /-- Nothing. -/
  | never : IsNormal .never
  /-- Everything. -/
  | unknown : IsNormal .unknown
  /-- A primitive type of a kind with a codec. -/
  | primitive {kind : Text} (known : kind ∈ kindCodecs.map (·.1)) : IsNormal (.primitive kind)
  /-- An identifier. -/
  | identifier {name : Text} (spelled : isIdentifier name.toList = true) :
      IsNormal (.identifier name)
  /-- An array. -/
  | array {items : NormalType} (items_normal : IsNormal items) : IsNormal (.array items)
  /-- Properties that must be there. -/
  | required {fields : List (Scalar × NormalType)}
      (named : ∀ field ∈ fields, ∃ name, field.1 = .text name)
      (types : ∀ field ∈ fields, IsNormal field.2) : IsNormal (.required fields)
  /-- Properties that may be left out. -/
  | optional {fields : List (Scalar × NormalType)}
      (named : ∀ field ∈ fields, ∃ name, field.1 = .text name)
      (types : ∀ field ∈ fields, IsNormal field.2) : IsNormal (.optional fields)
  /-- A union of two members or more. -/
  | union {members : List NormalType} (two : 2 ≤ members.length)
      (types : ∀ member ∈ members, IsNormal member) : IsNormal (.union members)
  /-- An intersection of two members or more. -/
  | intersection {members : List NormalType} (two : 2 ≤ members.length)
      (types : ∀ member ∈ members, IsNormal member) : IsNormal (.intersection members)
  /-- A set of texts. -/
  | keyof (values : List Text) : IsNormal (.keyof values)

/-! ## The normal form is normal -/

/-- A union or intersection that is not replaced has two members or more. -/
theorem isNormal_combinedForm {empty : NormalType} {combine : List NormalType → NormalType}
    {members : List NormalType} (hempty : IsNormal empty)
    (hcombine : ∀ members : List NormalType, 2 ≤ members.length →
      (∀ member ∈ members, IsNormal member) → IsNormal (combine members))
    (h : ∀ member ∈ members, IsNormal member) : IsNormal (combinedForm empty combine members) := by
  match members with
  | [] => exact hempty
  | [member] => exact h member List.mem_cons_self
  | first :: second :: rest => exact hcombine _ (by simp) h

/-- A record is one part, or the intersection of two. -/
theorem isNormal_recordForm {required optional : List (Scalar × NormalType)}
    (hrequired : ∀ field ∈ required, (∃ name, field.1 = .text name) ∧ IsNormal field.2)
    (hoptional : ∀ field ∈ optional, (∃ name, field.1 = .text name) ∧ IsNormal field.2) :
    IsNormal (recordForm required optional) := by
  have htype : IsNormal (.required required) :=
    .required (fun field hfield => (hrequired field hfield).1)
      (fun field hfield => (hrequired field hfield).2)
  have hpartial : IsNormal (.optional optional) :=
    .optional (fun field hfield => (hoptional field hfield).1)
      (fun field hfield => (hoptional field hfield).2)
  unfold recordForm
  split
  · exact htype
  split
  · exact hpartial
  · refine .intersection (by simp) ?_
    simp [htype, hpartial]

mutual

/-- The normal form of a type that can be printed is normal. -/
theorem isNormal_normalForm : ∀ {t : TypeExpr}, IsPrintable t → IsNormal (normalForm t)
  | .primitive _, .primitive known => .primitive known
  | .identifier _, .identifier spelled => .identifier spelled
  | .array _, .array items => .array (isNormal_normalForm items)
  | .record _, .record named types => by
    rw [normalForm]
    exact isNormal_recordForm (isNormal_fieldForms false named types)
      (isNormal_fieldForms true named types)
  | .union _, .union types => by
    rw [normalForm]
    exact isNormal_combinedForm .never (fun _ => .union) (isNormal_memberForms types)
  | .intersection _, .intersection types => by
    rw [normalForm]
    exact isNormal_combinedForm .unknown (fun _ => .intersection) (isNormal_memberForms types)
  | .keyof _, .keyof values => .keyof values

/-- The normal forms of properties are normal. -/
theorem isNormal_fieldForms (optional : Bool) : ∀ {fields : List (Field TypeExpr)},
    (∀ field ∈ fields, ∃ name, field.name = .text name) →
    (∀ field ∈ fields, IsPrintable field.type) →
    ∀ form ∈ fieldForms optional fields, (∃ name, form.1 = .text name) ∧ IsNormal form.2
  | [], _, _ => by simp [fieldForms]
  | ⟨name, type, own⟩ :: rest, named, types => by
    obtain ⟨hname, hnames⟩ := List.forall_mem_cons.1 named
    obtain ⟨htype, htypes⟩ := List.forall_mem_cons.1 types
    have hrest := isNormal_fieldForms optional hnames htypes
    rw [fieldForms]
    split
    · exact List.forall_mem_cons.2 ⟨⟨hname, isNormal_normalForm htype⟩, hrest⟩
    · exact hrest

/-- The normal forms of members are normal. -/
theorem isNormal_memberForms : ∀ {members : List TypeExpr},
    (∀ member ∈ members, IsPrintable member) → ∀ form ∈ memberForms members, IsNormal form
  | [], _ => by simp [memberForms]
  | member :: rest, types => by
    obtain ⟨hmember, hrest⟩ := List.forall_mem_cons.1 types
    rw [memberForms]
    exact List.forall_mem_cons.2 ⟨isNormal_normalForm hmember, isNormal_memberForms hrest⟩

end

/-! ## Codecs are texts of normal forms -/

/-- The style in which identifiers are printed as they are and integers have their usual codec. -/
structure Style.IsUsual (style : Style) : Prop where
  /-- The usual codec of integers. -/
  integers : style.integerCodec = .text "t.Int"
  /-- Identifiers are printed as they are. -/
  identifiers : style.danglingPolicy = .identifier

variable {style : Style}

/-- An identifier is printed as it is. -/
theorem Style.IsUsual.identifier_eq (usual : style.IsUsual) (name : Text) :
    style.identifier name = name := by
  unfold Style.identifier
  rw [if_neg]
  rw [usual.identifiers, Bool.and_eq_true]
  rintro ⟨-, ⟨⟩⟩

/-- A primitive type is printed as the codec of its kind. -/
theorem Style.IsUsual.primitive_eq (usual : style.IsUsual) (level : Nat) {kind : Text}
    (known : kind ∈ kindCodecs.map (·.1)) :
    style.primitive kind = .ok (NormalType.text level (.primitive kind)) := by
  have hkinds : kindCodecs.map (·.1)
      = (["integer", "string", "number", "boolean", "null"] : List Text) := rfl
  rw [hkinds] at known
  unfold Style.primitive NormalType.text
  rw [usual.integers]
  fin_cases known <;> rfl

theorem applied_eq {combinator opened : Text} (h : opened = combinator ++ "(")
    (argument : Text) : applied combinator argument = opened ++ argument ++ ")" := by
  rw [applied, h]

/-- Members are joined. -/
theorem Style.IsUsual.join_eq (usual : style.IsUsual) (combinator : Text)
    (members : List TypeExpr) (codecs : List Text) :
    style.join combinator members codecs = .ok (applied combinator (bracketed codecs)) := by
  have hopen : ("([" : Text) = ("(" : Text) ++ ("[" : Text) := rfl
  have hclose : ("])" : Text) = ("]" : Text) ++ (")" : Text) := rfl
  unfold Style.join
  rw [if_neg, applied, bracketed, hopen, hclose]
  · simp only [Text.append_assoc]
  · rw [usual.integers, Bool.and_eq_true]
    rintro ⟨-, ⟨⟩⟩

/-- The codec of a record is the text of its normal form. -/
theorem recordCodec_eq_text (level : Nat) (required optional : List (Scalar × NormalType)) :
    recordCodec level (entryTexts level required) (entryTexts level optional)
      = (recordForm required optional).text level := by
  have hisEmpty : ∀ fields, (entryTexts level fields).isEmpty = fields.isEmpty := by
    intro fields
    rw [entryTexts_eq_map, List.isEmpty_map]
  rw [recordCodec, recordForm, hisEmpty, hisEmpty]
  have htype := @applied_eq "t.type" "t.type(" rfl
  have hpartial := @applied_eq "t.partial" "t.partial(" rfl
  have hboth := @applied_eq "t.intersection" "t.intersection(" rfl
  split
  · rw [NormalType.text, htype]
  split
  · rw [NormalType.text, hpartial]
  · have hopen : ("t.intersection([" : Text) = ("t.intersection(" : Text) ++ ("[" : Text) := rfl
    have hclose : ("])" : Text) = ("]" : Text) ++ (")" : Text) := rfl
    rw [NormalType.text, hboth, bracketed, hopen, hclose]
    simp only [memberTexts, joinWith, NormalType.text, htype, hpartial, Text.append_assoc]

mutual

/-- **Codecs.**  The codec of a type that can be printed is the text of its normal form. -/
theorem print_eq_text (usual : style.IsUsual) (level : Nat) : ∀ {t : TypeExpr}, IsPrintable t →
    print style level t = .ok ((normalForm t).text level)
  | .primitive _, .primitive known => by
    rw [print, normalForm]
    exact usual.primitive_eq level known
  | .identifier name, .identifier _ => by
    rw [print, normalForm, NormalType.text, usual.identifier_eq]
  | .array _, .array items => by
    rw [print, normalForm, NormalType.text, print_eq_text usual level items,
      @applied_eq "t.array" "t.array(" rfl]
    rfl
  | .record _, .record named types => by
    -- The printer goes through the properties twice, once for each part.
    rw [print, normalForm, printFields_eq_texts usual level false named types,
      printFields_eq_texts usual level true named types, ← recordCodec_eq_text]
    rfl
  | .union [], _ => by rw [print, normalForm, memberForms, combinedForm, NormalType.text]
  | .union [member], .union types => by
    rw [print, normalForm, memberForms, memberForms, combinedForm,
      print_eq_text usual level (types member List.mem_cons_self)]
  | .union (first :: second :: rest), .union types => by
    have hmembers := printMembers_eq_texts usual level types
    rw [normalForm]
    simp only [print, hmembers, bind, Except.bind, usual.join_eq]
    rfl
  | .intersection [], _ => by rw [print, normalForm, memberForms, combinedForm, NormalType.text]
  | .intersection [member], .intersection types => by
    rw [print, normalForm, memberForms, memberForms, combinedForm,
      print_eq_text usual level (types member List.mem_cons_self)]
  | .intersection (first :: second :: rest), .intersection types => by
    have hmembers := printMembers_eq_texts usual level types
    rw [normalForm]
    simp only [print, hmembers, bind, Except.bind, usual.join_eq]
    rfl
  | .keyof values, .keyof _ => by
    rw [print, normalForm, NormalType.text, keyofCodec, @applied_eq "t.keyof" "t.keyof(" rfl]

/-- The entries of properties are the texts of their normal forms. -/
theorem printFields_eq_texts (usual : style.IsUsual) (level : Nat) (optional : Bool) :
    ∀ {fields : List (Field TypeExpr)},
      (∀ field ∈ fields, ∃ name, field.name = .text name) →
      (∀ field ∈ fields, IsPrintable field.type) →
      printFields style level optional fields = .ok (entryTexts level (fieldForms optional fields))
  | [], _, _ => rfl
  | ⟨name, type, own⟩ :: rest, named, types => by
    obtain ⟨⟨key, hkey⟩, hnames⟩ := List.forall_mem_cons.1 named
    obtain ⟨htype, htypes⟩ := List.forall_mem_cons.1 types
    obtain rfl : name = .text key := hkey
    -- The codec of a property is computed in both passes, and left out of one of them.
    have hcodec := print_eq_text usual (level + 1) htype
    have hrest := printFields_eq_texts usual level optional hnames htypes
    rw [printFields, fieldForms, hrest]
    simp only at hcodec
    simp only [hcodec]
    split
    · rw [entryTexts]
      rfl
    · rfl

/-- The codecs of members are the texts of their normal forms. -/
theorem printMembers_eq_texts (usual : style.IsUsual) (level : Nat) :
    ∀ {members : List TypeExpr}, (∀ member ∈ members, IsPrintable member) →
      printMembers style level members = .ok (memberTexts level (memberForms members))
  | [], _ => rfl
  | member :: rest, types => by
    obtain ⟨hmember, hrest⟩ := List.forall_mem_cons.1 types
    rw [printMembers, memberForms, memberTexts, print_eq_text usual level hmember,
      printMembers_eq_texts usual level hrest]
    rfl

end

end SchemaCodecs.Codec
