/-
# Indentation

A codec at a deeper level of nesting is the same text with more spaces in front of its lines: only the
layout of object literals breaks lines, and no key, no identifier and no codec of a primitive type does.

* `indented` : a text with spaces behind its line feeds;
* `objectLiteral_indented` : one object literal at two levels;
* `print_add` : the text of a codec at two levels;
* `codecValue_indented` : any level compared with the outermost one.
-/
import SchemaCodecs.Codec.Print
import SchemaCodecs.Proofs.Codec.Key

namespace SchemaCodecs.Codec

open Text

/-! ## Texts with spaces behind line feeds -/

/-- The spaces of some levels behind a line feed; any other character as it is. -/
def indentedChar (level : Nat) (c : Point) : List Point :=
  if c = '\n' then c :: List.replicate (2 * level) (.char ' ') else [c]

/-- A text with the spaces of some levels behind every line feed. -/
def indented (level : Nat) (s : Text) : Text :=
  Text.ofList (s.toList.flatMap (indentedChar level))

/-- A text that stands on one line. -/
def IsFlat (s : Text) : Prop :=
  .char '\n' ∉ s.toList

instance (s : Text) : Decidable (IsFlat s) :=
  inferInstanceAs (Decidable (.char '\n' ∉ s.toList))

@[simp] theorem indented_append (level : Nat) (s t : Text) :
    indented level (s ++ t) = indented level s ++ indented level t := by
  rw [indented, Text.toList_append, List.flatMap_append, Text.ofList_append]
  rfl

/-- A text on one line stays as it is. -/
theorem indented_of_isFlat {s : Text} (h : IsFlat s) (level : Nat) : indented level s = s := by
  have hchars : ∀ cs : List Point, .char '\n' ∉ cs → cs.flatMap (indentedChar level) = cs := by
    intro cs hcs
    induction cs with
    | nil => rfl
    | cons c rest ih =>
      obtain ⟨hc, hrest⟩ := not_or.1 (mt List.mem_cons.2 hcs)
      rw [List.flatMap_cons, indentedChar, if_neg (Ne.symm hc), ih hrest]
      rfl
  rw [indented, hchars s.toList h, Text.ofList_toList]

@[simp] theorem indented_newline (level : Nat) : indented level "\n" = "\n" ++ indentation level := by
  have hnewline : ("\n" : Text).toList = [.char '\n'] := rfl
  rw [← Text.toList_inj, indented, hnewline, Text.toList_append, indentation, hnewline]
  rw [Text.toList_ofList, Text.toList_ofList, List.flatMap_singleton, indentedChar, if_pos rfl,
    List.singleton_append]

theorem indented_line {s : Text} (h : IsFlat s) (level : Nat) :
    indented level (s ++ "\n") = s ++ "\n" ++ indentation level := by
  rw [indented_append, indented_newline, indented_of_isFlat h, Text.append_assoc]

theorem indented_between {s t : Text} (hs : IsFlat s) (ht : IsFlat t) (level : Nat)
    (text : Text) : indented level (s ++ text ++ t) = s ++ indented level text ++ t := by
  rw [indented_append, indented_append, indented_of_isFlat hs, indented_of_isFlat ht]

theorem isFlat_append {s t : Text} (hs : IsFlat s) (ht : IsFlat t) : IsFlat (s ++ t) := by
  rw [IsFlat, Text.toList_append, List.mem_append]
  exact not_or.2 ⟨hs, ht⟩

theorem isFlat_indentation (level : Nat) : IsFlat (indentation level) := by
  rw [IsFlat, indentation, Text.toList_ofList]
  intro h
  cases (List.mem_replicate.1 h).2

theorem indentation_add (level base : Nat) :
    indentation (level + base) = indentation level ++ indentation base := by
  rw [indentation, indentation, indentation, ← Text.ofList_append, List.replicate_append_replicate,
    Nat.mul_add]

/-- Spaces are inserted into joined texts and into what is between them. -/
theorem indented_joinWith (level : Nat) (separator : Text) (texts : List Text) :
    indented level (joinWith separator texts)
      = joinWith (indented level separator) (texts.map (indented level)) := by
  induction texts with
  | nil => rfl
  | cons first rest ih =>
    cases rest with
    | nil => rfl
    | cons second rest =>
      simp only [joinWith, List.map_cons, indented_append] at ih ⊢
      rw [ih]

/-- What stands in front of all texts can stand in front of the first one and behind separators. -/
theorem joinWith_map_append (separator lead first : Text) (rest : List Text) :
    joinWith separator ((first :: rest).map (lead ++ ·))
      = lead ++ joinWith (separator ++ lead) (first :: rest) := by
  induction rest generalizing first with
  | nil => rfl
  | cons second rest ih =>
    have hrest := ih second
    simp only [List.map_cons, joinWith] at hrest ⊢
    rw [hrest]
    simp only [Text.append_assoc]

/-! ## Layout -/

/-- The lines of an object literal at a deeper level: the spaces of the outer levels in front of a line
are the ones behind the line feed before it. -/
theorem lines_indented (level base : Nat) (first : Text) (rest : List Text) :
    joinWith ",\n" (((first :: rest).map (indented level)).map
        fun entry => indentation (level + base + 1) ++ entry)
      = indentation level ++ indented level (joinWith ",\n"
          ((first :: rest).map fun entry => indentation (base + 1) ++ entry)) := by
  have hline : (fun entry => indentation (level + base + 1) ++ entry) ∘ indented level
      = (indentation level ++ ·) ∘ indented level ∘ (indentation (base + 1) ++ ·) := by
    funext entry
    simp only [Function.comp_apply, indented_append, Nat.add_assoc, indentation_add level,
      indented_of_isFlat (isFlat_indentation (base + 1)), Text.append_assoc]
  have hseparator : indented level ",\n" = ",\n" ++ indentation level :=
    indented_line (show IsFlat "," by decide) level
  rw [List.map_map, hline, ← List.map_map, ← List.map_map, List.map_cons, List.map_cons,
    joinWith_map_append, ← hseparator, ← List.map_cons, ← indented_joinWith]

/-- **Object literals.**  At a deeper level, an object literal of entries with more spaces has more
spaces. -/
theorem objectLiteral_indented (level base : Nat) (entries : List Text) :
    objectLiteral (level + base) (entries.map (indented level))
      = indented level (objectLiteral base entries) := by
  match entries with
  | [] =>
    have hflat : IsFlat "\x7b\x7d" := by decide
    exact (indented_of_isFlat hflat level).symm
  | first :: rest =>
    have hopen : indented level "\x7b\n" = "\x7b\n" ++ indentation level :=
      indented_line (show IsFlat "\x7b" by decide) level
    have hclose : indented level "\x7d" = "\x7d" := indented_of_isFlat (by decide) level
    show "\x7b\n" ++ joinWith ",\n" (((first :: rest).map (indented level)).map
        fun entry => indentation (level + base + 1) ++ entry) ++ "\n" ++
          indentation (level + base) ++ "\x7d"
      = indented level ("\x7b\n" ++ joinWith ",\n"
          ((first :: rest).map fun entry => indentation (base + 1) ++ entry) ++ "\n" ++
            indentation base ++ "\x7d")
    rw [lines_indented, indentation_add level base]
    simp only [indented_append, hopen, hclose, indented_newline, Text.append_assoc,
      indented_of_isFlat (isFlat_indentation base)]

/-- The codec of a record at a deeper level. -/
theorem recordCodec_indented (level base : Nat) (required optional : List Text) :
    recordCodec (level + base) (required.map (indented level)) (optional.map (indented level))
      = indented level (recordCodec base required optional) := by
  have htype : indented level ("t.type(" ++ objectLiteral base required ++ ")")
      = "t.type(" ++ indented level (objectLiteral base required) ++ ")" :=
    indented_between (by decide) (by decide) level _
  have hpartial : indented level ("t.partial(" ++ objectLiteral base optional ++ ")")
      = "t.partial(" ++ indented level (objectLiteral base optional) ++ ")" :=
    indented_between (by decide) (by decide) level _
  rw [recordCodec, recordCodec, List.isEmpty_map, List.isEmpty_map, objectLiteral_indented,
    objectLiteral_indented, ← htype, ← hpartial]
  split
  · rfl
  split
  · rfl
  · have hcomma : indented level ", " = ", " := indented_of_isFlat (by decide) level
    simp only [indented_append, hcomma,
      indented_of_isFlat (show IsFlat "t.intersection([" by decide) level,
      indented_of_isFlat (show IsFlat "])" by decide) level]

/-- The codec of a set of texts at a deeper level: the texts are keys, and keys are on one line. -/
theorem keyofCodec_indented (level base : Nat) (values : List Text) :
    keyofCodec (level + base) values = indented level (keyofCodec base values) := by
  have hentries : (values.map fun value => propertyKey value ++ ": null").map (indented level)
      = values.map fun value => propertyKey value ++ ": null" := by
    rw [List.map_map]
    refine List.map_congr_left fun value _ => ?_
    exact indented_of_isFlat (isFlat_append (newline_notMem_propertyKey value) (by decide)) level
  rw [keyofCodec, keyofCodec, indented_between (by decide) (by decide), ← objectLiteral_indented,
    hentries]

/-! ## Codecs without line feeds -/

variable {style : Style}

/-- The codec of a primitive kind is on one line. -/
theorem isFlat_primitive (integers : IsFlat style.integerCodec.display) {kind codec : Text}
    (h : style.primitive kind = .ok codec) : IsFlat codec := by
  unfold Style.primitive at h
  split at h
  · cases h
    exact integers
  · split at h
    · next hlookup =>
      cases h
      obtain ⟨front, back, hentry, -⟩ := List.lookup_eq_some_iff.1 hlookup
      have hcodecs : ∀ entry ∈ primitiveCodecs, IsFlat entry.2 := by decide
      exact hcodecs _ (hentry ▸ List.mem_append_right front List.mem_cons_self)
    · cases h

/-- The codec of an identifier is on one line if the identifier is. -/
theorem isFlat_identifier {name : Text} (h : IsFlat name) : IsFlat (style.identifier name) := by
  have hcodec : style.identifier name = "t.unknown" ∨ style.identifier name = name :=
    ite_eq_or_eq _ _ _
  obtain hunknown | hname := hcodec
  · rw [hunknown]
    decide
  · rwa [hname]

/-- The key of a property is on one line. -/
theorem isFlat_fieldKey {name : Scalar} {key : Text} (h : fieldKey name = .ok key) :
    IsFlat key := by
  cases name with
  | text name =>
    cases h
    exact newline_notMem_propertyKey name
  | _ => cases h

/-- Members are joined at a deeper level; whether this can be done does not depend on their codecs. -/
theorem Style.join_indented (style : Style) (level : Nat) {combinator : Text}
    (hflat : IsFlat combinator) (members : List TypeExpr)
    (printed : Except Fault (List Text)) :
    (printed.map (List.map (indented level)) >>= style.join combinator members)
      = (printed >>= style.join combinator members).map (indented level) := by
  cases printed with
  | error fault => rfl
  | ok codecs =>
    have hseparator : indented level ", " = ", " := indented_of_isFlat (by decide) level
    have hcodecs : combinator ++ "([" ++ joinWith ", " (codecs.map (indented level)) ++ "])"
        = indented level (combinator ++ "([" ++ joinWith ", " codecs ++ "])") := by
      rw [indented_between (isFlat_append hflat (by decide)) (by decide), indented_joinWith,
        hseparator]
    show style.join combinator members (codecs.map (indented level))
      = (style.join combinator members codecs).map (indented level)
    rw [Style.join, Style.join]
    split
    · rfl
    · exact congrArg Except.ok hcodecs

/-! ## Codecs of types -/

mutual

/-- **Levels.**  At a deeper level the codec of a type has more spaces behind its line feeds, or there
is no codec for the same reason. -/
theorem print_add (integers : IsFlat style.integerCodec.display) (level base : Nat) :
    ∀ t : TypeExpr, (∀ name ∈ t.identifiers, IsFlat name) →
      print style (level + base) t = (print style base t).map (indented level)
  | .missing, _ => rfl
  | .bare, _ => rfl
  | .primitive kind, _ => by
    rw [print, print]
    cases hcodec : style.primitive kind with
    | error fault => rfl
    | ok codec =>
      exact congrArg Except.ok (indented_of_isFlat (isFlat_primitive integers hcodec) level).symm
  | .identifier name, names => by
    have hname := names name (List.mem_singleton_self name)
    rw [print, print]
    exact congrArg Except.ok (indented_of_isFlat (isFlat_identifier hname) level).symm
  | .array items, names => by
    rw [print, print, print_add integers level base items names]
    cases print style base items with
    | error fault => rfl
    | ok codec => exact congrArg Except.ok (indented_between (by decide) (by decide) level codec).symm
  | .record fields, names => by
    rw [print, print, printFields_add integers level base false fields names,
      printFields_add integers level base true fields names]
    cases printFields style base false fields with
    | error fault => rfl
    | ok required =>
      cases printFields style base true fields with
      | error fault => rfl
      | ok optional => exact congrArg Except.ok (recordCodec_indented level base required optional)
  | .union [], _ => congrArg Except.ok (indented_of_isFlat (by decide) level).symm
  | .union [member], names => by
    rw [print, print]
    exact print_add integers level base member fun name h => names name (List.mem_append_left [] h)
  | .union (first :: second :: rest), names => by
    have hmembers := printMembers_add integers level base (first :: second :: rest) names
    simp only [print, hmembers]
    exact Style.join_indented style level (by decide) _ _
  | .intersection [], _ => congrArg Except.ok (indented_of_isFlat (by decide) level).symm
  | .intersection [member], names => by
    rw [print, print]
    exact print_add integers level base member fun name h => names name (List.mem_append_left [] h)
  | .intersection (first :: second :: rest), names => by
    have hmembers := printMembers_add integers level base (first :: second :: rest) names
    simp only [print, hmembers]
    exact Style.join_indented style level (by decide) _ _
  | .keyof values, _ => congrArg Except.ok (keyofCodec_indented level base values)

/-- At a deeper level the entries of properties have more spaces. -/
theorem printFields_add (integers : IsFlat style.integerCodec.display) (level base : Nat)
    (optional : Bool) : ∀ fields : List (Field TypeExpr),
      (∀ name ∈ TypeExpr.fieldIdentifiers fields, IsFlat name) →
      printFields style (level + base) optional fields
        = (printFields style base optional fields).map (List.map (indented level))
  | [], _ => rfl
  | ⟨name, type, own⟩ :: rest, names => by
    have htype : ∀ name ∈ type.identifiers, IsFlat name := fun name h =>
      names name (List.mem_append_left _ h)
    -- The type of a property is one level deeper on both sides.
    have hcodec := print_add integers level (base + 1) type htype
    have hrest := printFields_add integers level base optional rest fun name h =>
      names name (List.mem_append_right _ h)
    rw [printFields, printFields, hrest]
    simp only [Nat.add_assoc, hcodec]
    split
    · cases hkey : fieldKey name with
      | error fault => rfl
      | ok key =>
        cases print style (base + 1) type with
        | error fault => rfl
        | ok codec =>
          cases printFields style base optional rest with
          | error fault => rfl
          | ok entries =>
            have hentry : key ++ ": " ++ indented level codec
                = indented level (key ++ ": " ++ codec) := by
              rw [indented_append, indented_of_isFlat
                (isFlat_append (isFlat_fieldKey hkey) (by decide))]
            exact congrArg (fun entry => Except.ok (entry :: entries.map (indented level))) hentry
    · rfl

/-- At a deeper level the codecs of members have more spaces. -/
theorem printMembers_add (integers : IsFlat style.integerCodec.display) (level base : Nat) :
    ∀ members : List TypeExpr, (∀ name ∈ TypeExpr.memberIdentifiers members, IsFlat name) →
      printMembers style (level + base) members
        = (printMembers style base members).map (List.map (indented level))
  | [], _ => rfl
  | member :: rest, names => by
    have hmember := print_add integers level base member fun name h =>
      names name (List.mem_append_left _ h)
    have hrest := printMembers_add integers level base rest fun name h =>
      names name (List.mem_append_right _ h)
    rw [printMembers, printMembers, hmember, hrest]
    cases print style base member with
    | error fault => rfl
    | ok codec =>
      cases printMembers style base rest with
      | error fault => rfl
      | ok codecs => rfl

end

/-- A codec with the spaces of some levels behind every line feed; a codec that is no text has no line
feeds. -/
def indentedValue (level : Nat) : Value → Value
  | .scalar (.text s) => .text (indented level s)
  | v => v

/-- The codec of integers stays as it is. -/
theorem indentedValue_of_isFlat {v : Value} (h : IsFlat v.display) (level : Nat) :
    indentedValue level v = v := by
  cases v with
  | scalar s =>
    cases s with
    | text s => exact congrArg Value.text (indented_of_isFlat h level)
    | _ => rfl
  | _ => rfl

/-- **Indentation.**  If neither the codec of integers nor an identifier in a type has line feeds, the
codec of the type at any level is the one at the outermost level with two spaces for each level behind
every line feed; names of properties and texts of a set are arbitrary.  Where one of the two fails, so
does the other. -/
theorem codecValue_indented (integers : IsFlat style.integerCodec.display) {t : TypeExpr}
    (names : ∀ name ∈ t.identifiers, IsFlat name) (level : Nat) :
    codecValue style level t = (codecValue style 0 t).map (indentedValue level) := by
  have hprint := print_add integers level 0 t names
  rw [Nat.add_zero] at hprint
  rw [codecValue, codecValue, hprint]
  cases print style 0 t with
  | error fault => rfl
  | ok codec =>
    cases hinteger : isIntegerCodec t with
    | true => exact congrArg Except.ok (indentedValue_of_isFlat integers level).symm
    | false => rfl

namespace BrokenNames

/-- The usual style. -/
def usual : Style := Style.ofConfig {} none

/-- A record of a record, with line feeds in the name of a property and in a text of a set. -/
def plan : TypeExpr :=
  .record [⟨.text "first\nsecond", .array (.record [⟨.text "kind", .keyof ["a\nb"], true⟩]), false⟩,
    ⟨.text "owner", .union [.identifier "Owner", .primitive "integer"], true⟩]

/-- At level two the codec has four more spaces in front of every line but the first. -/
theorem codecValue_plan :
    IsFlat usual.integerCodec.display ∧ (∀ name ∈ plan.identifiers, IsFlat name) ∧
      ∃ codec, ¬ IsFlat codec ∧ codecValue usual 0 plan = .ok (.text codec) ∧
        codecValue usual 2 plan = .ok (.text (indented 2 codec)) := by
  have integers : IsFlat usual.integerCodec.display := by decide
  have names : ∀ name ∈ plan.identifiers, IsFlat name := by decide
  obtain ⟨codec, hcodec⟩ : ∃ codec, codecValue usual 0 plan = .ok (.text codec) := ⟨_, rfl⟩
  refine ⟨integers, names, codec, ?_, hcodec, ?_⟩
  · cases hcodec
    decide +kernel
  · rw [codecValue_indented integers names 2, hcodec]
    rfl

end BrokenNames

end SchemaCodecs.Codec
