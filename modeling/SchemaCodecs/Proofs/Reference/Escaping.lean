/-
# References to any name

Any name can be written as a token: a tilde becomes `~0`, a slash `~1`, and every other character
stays.  This is the only spelling of the name, and decoding reads it back, although the two
replacements of decoding are made one after the other: a text such as `~1` is written `~01`, in which
the first replacement finds nothing to read.  As the token has no slash, it is what follows the last
slash of a reference, so each name has references and two names share none.

* `escaped` : the token of a name;
* `spells_iff_eq_escape` : it is the only spelling;
* `declarationName_escaped` : the reference that ends in the token means the name.
-/
import SchemaCodecs.Declaration.Build
import SchemaCodecs.Proofs.Reference.Decoding
import SchemaCodecs.Proofs.Reference.Selection

namespace SchemaCodecs.Reference

open Text

/-! ## Escaping -/

/-- A character as it stands in a token. -/
def escapeChar (c : Point) : List Point :=
  if c = '~' then [.char '~', .char '0'] else if c = '/' then [.char '~', .char '1'] else [c]

/-- A key as a token, character by character. -/
def escape (key : List Point) : List Point :=
  key.flatMap escapeChar

/-- The token of a name. -/
def escaped (name : Text) : Text :=
  Text.ofList (escape name.toList)

theorem toList_escaped (name : Text) : (escaped name).toList = escape name.toList :=
  Text.toList_ofList _

@[simp] theorem escape_tilde (key : List Point) :
    escape (.char '~' :: key) = .char '~' :: .char '0' :: escape key := rfl

@[simp] theorem escape_slash (key : List Point) :
    escape (.char '/' :: key) = .char '~' :: .char '1' :: escape key := rfl

theorem escape_plain {c : Point} (tilde : c ≠ '~') (slash : c ≠ '/') (key : List Point) :
    escape (c :: key) = c :: escape key := by
  rw [escape, List.flatMap_cons, escapeChar, if_neg tilde, if_neg slash]
  rfl

/-- The escaped key spells the key. -/
theorem spells_escape (key : List Point) : Spells (escape key) key := by
  induction key with
  | nil => exact .nil
  | cons c rest ih =>
    by_cases tilde : c = '~'
    · subst tilde
      exact .tilde ih
    · by_cases slash : c = '/'
      · subst slash
        exact .slash ih
      · rw [escape_plain tilde slash]
        exact .plain tilde slash ih

/-- Nothing else does. -/
theorem spells_iff_eq_escape {token key : List Point} : Spells token key ↔ token = escape key := by
  constructor
  · intro h
    induction h with
    | nil => rfl
    | plain tilde slash _ ih => rw [escape_plain tilde slash, ih]
    | tilde _ ih => rw [escape_tilde, ih]
    | slash _ ih => rw [escape_slash, ih]
  · rintro rfl
    exact spells_escape key

theorem decodeToken_escape (key : List Point) : decodeToken (escape key) = key :=
  decodeToken_of_spells (spells_escape key)

/-! ## References -/

theorem lastSegment_slash_escape (front key : List Point) :
    lastSegment '/' (front ++ .char '/' :: escape key) = escape key := by
  rw [lastSegment_append, lastSegment_of_notMem (slash_notMem_of_spells (spells_escape key))]

/-- A reference that ends in an escaped name means this name. -/
theorem declarationName_slash_escaped (front name : Text) :
    declarationName (front ++ "/" ++ escaped name) = name := by
  have hlist : (front ++ "/" ++ escaped name).toList
      = front.toList ++ .char '/' :: escape name.toList := by
    rw [Text.toList_append, Text.toList_append, toList_escaped, List.append_assoc]
    rfl
  rw [declarationName, hlist, lastSegment_slash_escape, decodeToken_escape, Text.ofList_toList]

/-- **Names in references.**  A reference that ends in an escaped name means this name, whatever
stands before it, and the token is decoded to the name.  So each name is resolved from the reference
to its component schema, and references to different names are never taken for each other. -/
theorem declarationName_escaped (front name : Text) :
    declarationName (front ++ "/" ++ escaped name) = name ∧
    decodeToken (escaped name).toList = name.toList ∧
    (∀ path, (Schema.Node.reference path (toSchema (escaped name))).resolve
      = ([], .ok (.identifier name))) ∧
    ∀ otherFront otherName : Text,
      declarationName (front ++ "/" ++ escaped name)
          = declarationName (otherFront ++ "/" ++ escaped otherName)
        ↔ name = otherName := by
  refine ⟨declarationName_slash_escaped front name, ?_, fun path => ?_, fun otherFront other => ?_⟩
  · rw [toList_escaped, decodeToken_escape]
  · rw [Schema.Node.resolve, toSchema, declarationName_slash_escaped]
  · rw [declarationName_slash_escaped, declarationName_slash_escaped]

/-- A name that looks like an escape keeps its tilde. -/
example : escaped "~1/~0" = "~01~1~00" ∧ declarationName "#/~01~1~00" = "~1/~0" := by decide

end SchemaCodecs.Reference
