/-
# Modules are unambiguous

The text of a module tells its declarations: how many there are, their names, which of them are
exported, and the normal forms of their types.  A text is read from left to right: the word in front
of an expression tells the outermost combinator, every part tells where it ends, and so what follows
it is known as well.

* `joinWith_cut`, `objectLiteral_cut` : lists and object literals tell their entries;
* `told` : an expression tells its normal form and where it ends;
* `printModule_unambiguous` : a module tells its declarations.
-/
import SchemaCodecs.Proofs.Codec.Key
import SchemaCodecs.Proofs.Codec.NormalForm
import Mathlib.Data.List.Forall2

namespace SchemaCodecs.Codec

open Text

/-! ## Lists of texts -/

/-- Items with separators between them: the first one, then each other one behind a separator. -/
theorem toList_joinWith (separator first : Text) (rest : List Text) :
    (joinWith separator (first :: rest)).toList
      = first.toList ++ rest.flatMap fun s => separator.toList ++ s.toList := by
  induction rest generalizing first with
  | nil => simp [joinWith]
  | cons second rest ih =>
    rw [joinWith, Text.toList_append, Text.toList_append, ih, List.flatMap_cons]
    · simp only [List.append_assoc]
    · simp

/-- An item of one list, with something behind it that is not of a kind, tells itself among the items
of another list. -/
def ToldAmong {α : Type} (write : α → List Point) (kind : Point → Bool) (a : α) (others : List α) :
    Prop :=
  ∀ b ∈ others, ∀ x y : List Point, EndsAt kind x → EndsAt kind y →
    write a ++ x = write b ++ y → a = b ∧ x = y

variable {α : Type} {write : α → List Point} {kind : Point → Bool}

theorem endsAt_cons {c : Point} (h : kind c = false) (cs : List Point) : EndsAt kind (c :: cs) := by
  intro d hd
  cases hd
  exact h

/-- What follows an item begins with a separator or with the closing character. -/
theorem endsAt_separated (write : α → List Point) (separator : List Point) {mark close : Point}
    (hmark : kind mark = false) (hclose : kind close = false) (items : List α) (z : List Point) :
    EndsAt kind ((items.flatMap fun a => mark :: separator ++ write a) ++ close :: z) := by
  cases items with
  | nil => exact endsAt_cons hclose z
  | cons a rest => exact endsAt_cons hmark _

/-- Items behind separators, up to a closing character, are told apart. -/
theorem separated_cut {mark close : Point} {separator : List Point} (hne : mark ≠ close)
    (hmark : kind mark = false) (hclose : kind close = false) {as bs : List α} {x y : List Point}
    (told : ∀ a ∈ as, ToldAmong write kind a bs)
    (h : (as.flatMap fun a => mark :: separator ++ write a) ++ close :: x
      = (bs.flatMap fun b => mark :: separator ++ write b) ++ close :: y) :
    as = bs ∧ x = y := by
  have hends := endsAt_separated write separator hmark hclose
  -- The next character is the separator or the closing one, and so tells whether there is an item.
  induction as generalizing bs with
  | nil =>
    cases bs with
    | nil => exact ⟨rfl, (List.cons.inj h).2⟩
    | cons b bs => exact absurd (List.cons.inj h).1.symm hne
  | cons a as ih =>
    cases bs with
    | nil => exact absurd (List.cons.inj h).1 hne
    | cons b bs =>
      simp only [List.flatMap_cons, List.append_assoc, List.cons_append, List.cons.injEq,
        true_and, List.append_cancel_left_eq] at h
      obtain ⟨hfirst, hrest⟩ := List.forall_mem_cons.1 told
      obtain ⟨rfl, htail⟩ := hfirst b List.mem_cons_self _ _ (hends as x) (hends bs y) h
      have htold : ∀ c ∈ as, ToldAmong write kind c bs :=
        fun c hc d hd => hrest c hc d (List.mem_cons_of_mem _ hd)
      obtain ⟨rfl, rfl⟩ := ih htold htail
      exact ⟨rfl, rfl⟩

/-- **Lists.**  Items with separators between them, up to a closing character with which none of them
begins, are told apart. -/
theorem joinWith_cut {separator : Text} {mark close : Point} {rest : List Point}
    (hseparator : separator.toList = mark :: rest) (hne : mark ≠ close)
    (hmark : kind mark = false) (hclose : kind close = false) {write : α → Text}
    {as bs : List α} {x y : List Point}
    (hstart : ∀ a ∈ as ++ bs, ∀ x y : List Point, (write a).toList ++ x ≠ close :: y)
    (told : ∀ a ∈ as, ToldAmong (fun a => (write a).toList) kind a bs)
    (h : (joinWith separator (as.map write)).toList ++ close :: x
      = (joinWith separator (bs.map write)).toList ++ close :: y) : as = bs ∧ x = y := by
  have hends := endsAt_separated (fun a => (write a).toList) rest hmark hclose
  -- The first item has no separator in front, so the lists are opened once by hand.
  cases as with
  | nil =>
    cases bs with
    | nil => exact ⟨rfl, (List.cons.inj h).2⟩
    | cons b bs =>
      rw [List.map_cons, toList_joinWith, List.append_assoc] at h
      exact absurd h.symm (hstart b (by simp) _ _)
  | cons a as =>
    cases bs with
    | nil =>
      rw [List.map_cons, toList_joinWith, List.append_assoc] at h
      exact absurd h (hstart a (by simp) _ _)
    | cons b bs =>
      rw [List.map_cons, List.map_cons, toList_joinWith, toList_joinWith, hseparator,
        List.append_assoc, List.append_assoc, List.flatMap_map, List.flatMap_map] at h
      obtain ⟨hfirst, hrest⟩ := List.forall_mem_cons.1 told
      obtain ⟨rfl, htail⟩ := hfirst b List.mem_cons_self _ _ (hends as x) (hends bs y) h
      have htold : ∀ c ∈ as, ToldAmong (fun a => (write a).toList) kind c bs :=
        fun c hc d hd => hrest c hc d (List.mem_cons_of_mem _ hd)
      obtain ⟨rfl, rfl⟩ := separated_cut hne hmark hclose htold htail
      exact ⟨rfl, rfl⟩

/-! ## Object literals -/

/-- The characters of an object literal with entries. -/
theorem toList_objectLiteral (level : Nat) {entries : List Text} (h : entries ≠ []) :
    (objectLiteral level entries).toList = .char '\x7b' :: .char '\n' ::
      ((joinWith ",\n" (entries.map fun entry => indentation (level + 1) ++ entry)).toList ++
        .char '\n' :: ((indentation level).toList ++ [.char '\x7d'])) := by
  have hopen : ("\x7b\n" : Text).toList = [.char '\x7b', .char '\n'] := rfl
  have hline : ("\n" : Text).toList = [.char '\n'] := rfl
  have hclose : ("\x7d" : Text).toList = [.char '\x7d'] := rfl
  rw [objectLiteral, if_neg (by simpa using h)]
  simp only [Text.toList_append, hopen, hline, hclose, List.append_assoc, List.cons_append,
    List.nil_append]

/-- The white space in front of a line is not empty. -/
theorem exists_indentation (level : Nat) :
    ∃ rest, (indentation (level + 1)).toList = .char ' ' :: rest := by
  refine ⟨List.replicate (2 * level + 1) (.char ' '), ?_⟩
  rw [indentation, Text.toList_ofList]
  rfl

/-- **Object literals.**  An object literal tells its entries. -/
theorem objectLiteral_cut {level : Nat} (hmark : kind ',' = false) (hclose : kind '\n' = false)
    {write : α → Text} {as bs : List α} {x y : List Point}
    (told : ∀ a ∈ as, ToldAmong (fun a => (write a).toList) kind a bs)
    (h : (objectLiteral level (as.map write)).toList ++ x
      = (objectLiteral level (bs.map write)).toList ++ y) : as = bs ∧ x = y := by
  have hempty : (objectLiteral level []).toList = [.char '\x7b', .char '\x7d'] := by
    rw [objectLiteral, if_pos List.isEmpty_nil]
    rfl
  -- The second character tells whether there are entries.
  have hfull : ∀ (a : α) (items : List α) (u v : List Point),
      (objectLiteral level ((a :: items).map write)).toList ++ u
        ≠ (objectLiteral level []).toList ++ v := by
    intro a items u v heq
    rw [toList_objectLiteral level (by simp), hempty] at heq
    simp at heq
  cases as with
  | nil =>
    cases bs with
    | nil => exact ⟨rfl, List.append_cancel_left h⟩
    | cons b bs => exact absurd h.symm (hfull b bs y x)
  | cons a as =>
    cases bs with
    | nil => exact absurd h (hfull a as x y)
    | cons b bs =>
      rw [toList_objectLiteral level (by simp), toList_objectLiteral level (by simp)] at h
      simp only [List.cons_append, List.append_assoc, List.cons.injEq, true_and, List.map_map] at h
      obtain ⟨indent, hindent⟩ := exists_indentation level
      -- A line is an item behind white space, which does not hide where the item ends.
      have htold : ∀ c ∈ a :: as, ToldAmong
          (fun c => (indentation (level + 1) ++ write c).toList) kind c (b :: bs) := by
        intro c hc d hd u v hu hv heq
        simp only [Text.toList_append, List.append_assoc, List.append_cancel_left_eq] at heq
        exact told c hc d hd u v hu hv heq
      have hstart : ∀ c ∈ (a :: as) ++ b :: bs, ∀ u v : List Point,
          (indentation (level + 1) ++ write c).toList ++ u ≠ .char '\n' :: v := by
        intro c _ u v heq
        rw [Text.toList_append, hindent] at heq
        exact absurd (List.cons.inj heq).1 (by decide)
      obtain ⟨hitems, hrest⟩ := joinWith_cut rfl (by decide) hmark hclose hstart htold h
      rw [List.append_cancel_left_eq] at hrest
      exact ⟨hitems, (List.cons.inj hrest).2⟩

/-! ## Heads of expressions -/

/-- The outermost part of a normal form. -/
inductive Head where
  /-- Nothing. -/
  | never
  /-- Everything. -/
  | unknown
  /-- A primitive type. -/
  | primitive (kind : Text)
  /-- An identifier. -/
  | identifier (name : Text)
  /-- Arrays. -/
  | array
  /-- Properties that must be there. -/
  | required
  /-- Properties that may be left out. -/
  | optional
  /-- A union. -/
  | union
  /-- An intersection. -/
  | intersection
  /-- A set of texts. -/
  | keyof

/-- The word in front of an expression. -/
def Head.word : Head → Text
  | never => "t.never"
  | unknown => "t.unknown"
  | primitive kind => (kindCodecs.lookup kind).getD ""
  | identifier name => name
  | array => "t.array"
  | required => "t.type"
  | optional => "t.partial"
  | union => "t.union"
  | intersection => "t.intersection"
  | keyof => "t.keyof"

/-- A head with a word of its own: an identifier, or a kind of primitive with a codec. -/
def Head.IsSpelled : Head → Prop
  | primitive kind => kind ∈ kindCodecs.map (·.1)
  | identifier name => isIdentifier name.toList = true
  | _ => True

namespace NormalType

/-- The outermost part of a normal form. -/
def head : NormalType → Head
  | never => .never
  | unknown => .unknown
  | primitive kind => .primitive kind
  | identifier name => .identifier name
  | array _ => .array
  | required _ => .required
  | optional _ => .optional
  | union _ => .union
  | intersection _ => .intersection
  | keyof _ => .keyof

/-- The argument of the outermost combinator, if the expression has one. -/
def argument? (level : Nat) : NormalType → Option Text
  | never | unknown | primitive _ | identifier _ => none
  | array items => some (items.text level)
  | required fields | optional fields => some (objectLiteral level (entryTexts level fields))
  | union members | intersection members => some (bracketed (memberTexts level members))
  | keyof values =>
    some (objectLiteral level (values.map fun value => propertyKey value ++ ": null"))

end NormalType

/-- An argument in parentheses. -/
def enclosed : Option Text → Text
  | none => ""
  | some argument => "(" ++ argument ++ ")"

theorem text_eq_word (level : Nat) (a : NormalType) :
    a.text level = a.head.word ++ enclosed (a.argument? level) := by
  cases a <;> simp only [NormalType.text, NormalType.head, Head.word, NormalType.argument?, enclosed,
    applied, Text.append_empty, Text.append_assoc]

/-- The head of a normal form has a word. -/
theorem isSpelled_head {a : NormalType} (h : IsNormal a) : a.head.IsSpelled := by
  cases h with
  | primitive known => exact known
  | identifier spelled => exact spelled
  | _ => trivial

/-- The words of all heads but identifiers. -/
def headWords : List (Text × Head) :=
  ("t.never", .never) :: ("t.unknown", .unknown) :: ("t.array", .array) :: ("t.type", .required) ::
    ("t.partial", .optional) :: ("t.union", .union) :: ("t.intersection", .intersection) ::
    ("t.keyof", .keyof) :: kindCodecs.map fun kind => (kind.2, .primitive kind.1)

/-- The head that a word stands for. -/
def readHead (word : Text) : Head :=
  (headWords.lookup word).getD (.identifier word)

/-- An identifier is none of the other words, which all have a point inside. -/
theorem lookup_headWords_of_isIdentifier {name : Text} (h : isIdentifier name.toList = true) :
    headWords.lookup name = none := by
  rw [List.lookup_eq_none_iff]
  intro entry hentry
  have hpoint : ∀ entry ∈ headWords, .char '.' ∈ entry.1.toList := by decide
  rw [bne_iff_ne]
  rintro rfl
  have hpart := List.all_eq_true.1 (all_isIdentifierPart h) '.' (hpoint entry hentry)
  revert hpart
  decide

theorem kinds_eq : kindCodecs.map (·.1)
    = (["integer", "string", "number", "boolean", "null"] : List Text) := rfl

/-- The word of a head tells the head. -/
theorem readHead_word {head : Head} (h : head.IsSpelled) : readHead head.word = head := by
  cases head with
  | primitive kind =>
    rw [Head.IsSpelled, kinds_eq] at h
    fin_cases h <;> rfl
  | identifier name =>
    rw [readHead, Head.word, lookup_headWords_of_isIdentifier h]
    rfl
  | _ => rfl

/-- A character inside a word. -/
def isWordChar (c : Point) : Bool :=
  isIdentifierPart c || c == '.'

/-- A word has no other characters. -/
theorem all_isWordChar_word {head : Head} (h : head.IsSpelled) :
    head.word.toList.all isWordChar = true := by
  cases head with
  | primitive kind =>
    rw [Head.IsSpelled, kinds_eq] at h
    fin_cases h <;> decide
  | identifier name =>
    refine List.all_eq_true.2 fun c hc => ?_
    rw [isWordChar, List.all_eq_true.1 (all_isIdentifierPart h) c hc, Bool.true_or]
  | _ => decide

/-- A word has a first character. -/
theorem exists_cons_word {head : Head} (h : head.IsSpelled) :
    ∃ c rest, head.word.toList = c :: rest := by
  cases head with
  | primitive kind =>
    rw [Head.IsSpelled, kinds_eq] at h
    fin_cases h <;> exact ⟨_, _, rfl⟩
  | identifier name =>
    obtain ⟨c, rest, hname, -⟩ := exists_cons_of_isIdentifier h
    exact ⟨c, rest, hname⟩
  | _ => exact ⟨_, _, rfl⟩

/-- A word ends where its argument begins. -/
theorem endsAt_enclosed (argument : Option Text) {x : List Point} (hx : EndsAt isWordChar x) :
    EndsAt isWordChar ((enclosed argument).toList ++ x) := by
  cases argument with
  | none => exact hx
  | some argument =>
    rw [enclosed, Text.toList_append, Text.toList_append, List.append_assoc, List.append_assoc]
    exact endsAt_cons (by decide) _

theorem toList_enclosed (argument : Text) (x : List Point) :
    (enclosed (some argument)).toList ++ x = .char '(' :: (argument.toList ++ .char ')' :: x) := by
  rw [enclosed, Text.toList_append, Text.toList_append, List.append_assoc, List.append_assoc]
  rfl

/-- An expression begins with a character of a word. -/
theorem exists_cons_text {a : NormalType} (h : IsNormal a) (level : Nat) :
    ∃ c rest, (a.text level).toList = c :: rest ∧ isWordChar c = true := by
  have hspelled := isSpelled_head h
  obtain ⟨c, rest, hcons⟩ := exists_cons_word hspelled
  refine ⟨c, rest ++ (enclosed (a.argument? level)).toList, ?_, ?_⟩
  · rw [text_eq_word, Text.toList_append, hcons, List.cons_append]
  · exact List.all_eq_true.1 (all_isWordChar_word hspelled) c (by simp [hcons])

/-! ## Expressions -/

/-- An expression, with something behind it that does not continue a word, tells its normal form and
what follows. -/
def Told (a : NormalType) : Prop :=
  ∀ (b : NormalType) (level : Nat) (x y : List Point), IsNormal b → EndsAt isWordChar x →
    EndsAt isWordChar y → (a.text level).toList ++ x = (b.text level).toList ++ y → a = b ∧ x = y

/-- The same expression begins with the same head, and has the same argument. -/
theorem head_cut {a b : NormalType} {level : Nat} {x y : List Point} (ha : IsNormal a)
    (hb : IsNormal b) (hx : EndsAt isWordChar x) (hy : EndsAt isWordChar y)
    (h : (a.text level).toList ++ x = (b.text level).toList ++ y) :
    a.head = b.head ∧ (enclosed (a.argument? level)).toList ++ x
      = (enclosed (b.argument? level)).toList ++ y := by
  rw [text_eq_word, text_eq_word, Text.toList_append, Text.toList_append, List.append_assoc,
    List.append_assoc] at h
  have hspelled := isSpelled_head ha
  have hother := isSpelled_head hb
  obtain ⟨hword, hrest⟩ := word_cut (all_isWordChar_word hspelled) (all_isWordChar_word hother)
    (endsAt_enclosed _ hx) (endsAt_enclosed _ hy) h
  refine ⟨?_, hrest⟩
  rw [← readHead_word hspelled, ← readHead_word hother, Text.toList_inj.1 hword]

/-- An expression without an argument tells its normal form. -/
theorem told_of_leaf {a : NormalType} (ha : IsNormal a)
    (hleaf : ∀ b : NormalType, a.head = b.head → a = b) : Told a := by
  intro b level x y hb hx hy h
  obtain ⟨hhead, hrest⟩ := head_cut ha hb hx hy h
  obtain rfl := hleaf b hhead
  exact ⟨rfl, List.append_cancel_left hrest⟩

/-- An array tells its items. -/
theorem told_array {items : NormalType} (hitems : IsNormal items) (htold : Told items) :
    Told (.array items) := by
  intro b level x y hb hx hy h
  obtain ⟨hhead, hrest⟩ := head_cut (.array hitems) hb hx hy h
  cases hb with
  | array hother =>
    simp only [NormalType.argument?, toList_enclosed, List.cons.injEq, true_and] at hrest
    obtain ⟨rfl, hclose⟩ := htold _ level _ _ hother (endsAt_cons (by decide) _)
      (endsAt_cons (by decide) _) hrest
    exact ⟨rfl, (List.cons.inj hclose).2⟩
  | _ => cases hhead

/-- A list of members in brackets tells the members. -/
theorem members_cut {as bs : List NormalType} {level : Nat} {x y : List Point}
    (has : ∀ a ∈ as, IsNormal a) (hbs : ∀ b ∈ bs, IsNormal b) (htold : ∀ a ∈ as, Told a)
    (h : (enclosed (some (bracketed (memberTexts level as)))).toList ++ x
      = (enclosed (some (bracketed (memberTexts level bs)))).toList ++ y) : as = bs ∧ x = y := by
  have hbracketed : ∀ (items : List NormalType) (z : List Point),
      (bracketed (memberTexts level items)).toList ++ z
        = .char '[' ::
          ((joinWith ", " (items.map (NormalType.text level))).toList ++ .char ']' :: z) := by
    intro items z
    rw [bracketed, Text.toList_append, Text.toList_append, List.append_assoc,
      List.append_assoc, memberTexts_eq_map]
    rfl
  -- No expression begins with the closing bracket, so an empty list is told from any other.
  have hstart : ∀ a ∈ as ++ bs, ∀ u v : List Point, (a.text level).toList ++ u ≠ .char ']' :: v := by
    intro a ha u v heq
    have hnormal : IsNormal a := (List.mem_append.1 ha).elim (has a) (hbs a)
    obtain ⟨c, rest, htext, hc⟩ := exists_cons_text hnormal level
    rw [htext] at heq
    obtain ⟨rfl, -⟩ := List.cons.inj heq
    revert hc
    decide
  rw [toList_enclosed, toList_enclosed, hbracketed, hbracketed] at h
  simp only [List.cons.injEq, true_and] at h
  obtain ⟨rfl, hrest⟩ := joinWith_cut rfl (by decide) (by decide) (by decide) hstart
    (fun a ha b hb u v hu hv heq => htold a ha b level u v (hbs b hb) hu hv heq) h
  exact ⟨rfl, (List.cons.inj hrest).2⟩

/-- A combination of types is told if its argument is the list of its members. -/
theorem told_combination {combine : List NormalType → NormalType} {members : List NormalType}
    (normal : IsNormal (combine members))
    (argument : ∀ members level,
      (combine members).argument? level = some (bracketed (memberTexts level members)))
    (same : ∀ b : NormalType, IsNormal b → (combine members).head = b.head →
      ∃ others, b = combine others ∧ ∀ member ∈ others, IsNormal member)
    (hmembers : ∀ member ∈ members, IsNormal member) (htold : ∀ member ∈ members, Told member) :
    Told (combine members) := by
  intro b level x y hb hx hy h
  obtain ⟨hhead, hrest⟩ := head_cut normal hb hx hy h
  obtain ⟨others, rfl, hothers⟩ := same b hb hhead
  rw [argument, argument] at hrest
  obtain ⟨rfl, rfl⟩ := members_cut hmembers hothers htold hrest
  exact ⟨rfl, rfl⟩

/-- A union tells its members. -/
theorem told_union {members : List NormalType} (two : 2 ≤ members.length)
    (hmembers : ∀ member ∈ members, IsNormal member) (htold : ∀ member ∈ members, Told member) :
    Told (.union members) := by
  refine told_combination (.union two hmembers) (fun _ _ => rfl) (fun b hb hhead => ?_) hmembers htold
  cases hb with
  | union _ hother => exact ⟨_, rfl, hother⟩
  | _ => cases hhead

/-- An intersection tells its members. -/
theorem told_intersection {members : List NormalType} (two : 2 ≤ members.length)
    (hmembers : ∀ member ∈ members, IsNormal member) (htold : ∀ member ∈ members, Told member) :
    Told (.intersection members) := by
  refine told_combination (.intersection two hmembers) (fun _ _ => rfl) (fun b hb hhead => ?_)
    hmembers htold
  cases hb with
  | intersection _ hother => exact ⟨_, rfl, hother⟩
  | _ => cases hhead

/-- Properties with text keys. -/
def IsNamed (fields : List (Scalar × NormalType)) : Prop :=
  ∀ field ∈ fields, ∃ name, field.1 = .text name

/-- An object literal of properties in parentheses tells the properties. -/
theorem fields_cut {fields others : List (Scalar × NormalType)} {level : Nat} {x y : List Point}
    (hnamed : IsNamed fields) (hothers : IsNamed others)
    (htypes : ∀ field ∈ others, IsNormal field.2) (htold : ∀ field ∈ fields, Told field.2)
    (h : (enclosed (some (objectLiteral level (entryTexts level fields)))).toList ++ x
      = (enclosed (some (objectLiteral level (entryTexts level others)))).toList ++ y) :
    fields = others ∧ x = y := by
  have hcolon : (": " : Text).toList = [.char ':', .char ' '] := rfl
  -- An entry is a key, which ends at the colon, and an expression.
  have hentry : ∀ field ∈ fields, ToldAmong (fun field : Scalar × NormalType =>
      (propertyKey field.1.display ++ ": " ++ field.2.text (level + 1)).toList)
      isWordChar field others := by
    rintro ⟨key, type⟩ hfield ⟨otherKey, otherType⟩ hother u v hu hv heq
    obtain ⟨name, rfl⟩ : ∃ name, key = .text name := hnamed _ hfield
    obtain ⟨otherName, rfl⟩ : ∃ name, otherKey = .text name := hothers _ hother
    simp only [Text.toList_append, List.append_assoc, hcolon, List.cons_append,
      List.nil_append] at heq
    obtain ⟨hkey, hrest⟩ := propertyKey_cut (endsAt_cons (by decide) _)
      (endsAt_cons (by decide) _) heq
    simp only [List.cons.injEq, true_and] at hrest
    obtain ⟨htype, htail⟩ := htold _ hfield _ _ u v (htypes _ hother) hu hv hrest
    obtain rfl : name = otherName := hkey
    obtain rfl : type = otherType := htype
    exact ⟨rfl, htail⟩
  rw [toList_enclosed, toList_enclosed, entryTexts_eq_map, entryTexts_eq_map] at h
  obtain ⟨hfields, hrest⟩ := objectLiteral_cut (by decide) (by decide) hentry (List.cons.inj h).2
  exact ⟨hfields, (List.cons.inj hrest).2⟩

/-- A record is told if its argument is the object literal of its properties. -/
theorem told_record {record : List (Scalar × NormalType) → NormalType}
    {fields : List (Scalar × NormalType)} (normal : IsNormal (record fields))
    (argument : ∀ fields level,
      (record fields).argument? level = some (objectLiteral level (entryTexts level fields)))
    (same : ∀ b : NormalType, IsNormal b → (record fields).head = b.head →
      ∃ others, b = record others ∧ IsNamed others ∧ ∀ field ∈ others, IsNormal field.2)
    (hnamed : IsNamed fields) (htold : ∀ field ∈ fields, Told field.2) : Told (record fields) := by
  intro b level x y hb hx hy h
  obtain ⟨hhead, hrest⟩ := head_cut normal hb hx hy h
  obtain ⟨others, rfl, hothers, hotherTypes⟩ := same b hb hhead
  rw [argument, argument] at hrest
  obtain ⟨rfl, rfl⟩ := fields_cut hnamed hothers hotherTypes htold hrest
  exact ⟨rfl, rfl⟩

/-- Properties that must be there are told. -/
theorem told_required {fields : List (Scalar × NormalType)} (hnamed : IsNamed fields)
    (htypes : ∀ field ∈ fields, IsNormal field.2) (htold : ∀ field ∈ fields, Told field.2) :
    Told (.required fields) := by
  refine told_record (.required hnamed htypes) (fun _ _ => rfl) (fun b hb hhead => ?_) hnamed htold
  cases hb with
  | required hothers hotherTypes => exact ⟨_, rfl, hothers, hotherTypes⟩
  | _ => cases hhead

/-- Properties that may be left out are told. -/
theorem told_optional {fields : List (Scalar × NormalType)} (hnamed : IsNamed fields)
    (htypes : ∀ field ∈ fields, IsNormal field.2) (htold : ∀ field ∈ fields, Told field.2) :
    Told (.optional fields) := by
  refine told_record (.optional hnamed htypes) (fun _ _ => rfl) (fun b hb hhead => ?_) hnamed htold
  cases hb with
  | optional hothers hotherTypes => exact ⟨_, rfl, hothers, hotherTypes⟩
  | _ => cases hhead

/-- A set of texts tells the texts. -/
theorem told_keyof (values : List Text) : Told (.keyof values) := by
  intro b level x y hb hx hy h
  obtain ⟨hhead, hrest⟩ := head_cut (.keyof values) hb hx hy h
  cases hb with
  | keyof others =>
    -- An entry is a key, which ends at the colon, and always the same value.
    have hnull : (": null" : Text).toList =
        [.char ':', .char ' ', .char 'n', .char 'u', .char 'l', .char 'l'] := rfl
    have hentry : ∀ value ∈ values, ToldAmong (fun value : Text =>
        (propertyKey value ++ ": null").toList) isWordChar value others := by
      intro value _ other _ u v _ _ heq
      simp only [Text.toList_append, List.append_assoc, hnull, List.cons_append,
        List.nil_append] at heq
      obtain ⟨hkey, htail⟩ := propertyKey_cut (endsAt_cons (by decide) _)
        (endsAt_cons (by decide) _) heq
      simp only [List.cons.injEq, true_and] at htail
      exact ⟨hkey, htail⟩
    simp only [NormalType.argument?, toList_enclosed, List.cons.injEq, true_and] at hrest
    obtain ⟨rfl, hclose⟩ := objectLiteral_cut (by decide) (by decide) hentry hrest
    exact ⟨rfl, (List.cons.inj hclose).2⟩
  | _ => cases hhead

/-- **Expressions.**  The text of a normal form tells the normal form and where the text ends. -/
theorem told {a : NormalType} (h : IsNormal a) : Told a := by
  induction h with
  | never => exact told_of_leaf .never fun b hb => by cases b <;> cases hb; rfl
  | unknown => exact told_of_leaf .unknown fun b hb => by cases b <;> cases hb; rfl
  | primitive known =>
    exact told_of_leaf (.primitive known) fun b hb => by cases b <;> cases hb; rfl
  | identifier spelled =>
    exact told_of_leaf (.identifier spelled) fun b hb => by cases b <;> cases hb; rfl
  | array items ih => exact told_array items ih
  | required named types ih => exact told_required named types ih
  | optional named types ih => exact told_optional named types ih
  | union two types ih => exact told_union two types ih
  | intersection two types ih => exact told_intersection two types ih
  | keyof values => exact told_keyof values

/-! ## Lines of modules -/

/-- A declaration that can be written down: its name is an identifier, and its type can be
printed. -/
structure IsWritten (d : Declaration) : Prop where
  /-- The name is an identifier. -/
  named : ∃ name, d.name = .text name ∧ isIdentifier name.toList = true
  /-- The type can be printed. -/
  typed : IsPrintable d.type

/-- Declarations with the same name and normal form, both exported or both not. -/
structure AgreesWith (d e : Declaration) : Prop where
  /-- The names are the same. -/
  name_eq : d.name = e.name
  /-- Both are exported, or neither is. -/
  exported_eq : d.exported.isTruthy = e.exported.isTruthy
  /-- The normal forms are the same. -/
  form_eq : normalForm d.type = normalForm e.type

/-- The line of a codec whose expression is the text of the normal form. -/
def formLine (d : Declaration) : Text :=
  codecLine d ((normalForm d.type).text 0)

/-- The codecs of declarations that can be written down. -/
theorem codecLines_eq_formLines {style : Style} (usual : style.IsUsual) {ds : List Declaration}
    (h : ∀ d ∈ ds, IsWritten d) : codecLines style ds = .ok (ds.map formLine) := by
  induction ds with
  | nil => rfl
  | cons d rest ih =>
    obtain ⟨hd, hrest⟩ := List.forall_mem_cons.1 h
    rw [codecLines, print_eq_text usual 0 hd.typed, ih hrest]
    rfl

/-- The beginning of a line tells whether the declaration is exported. -/
theorem exportWord_cut {d e : Declaration} {x y : List Point}
    (h : (exportWord d).toList ++ (("const " : Text).toList ++ x)
      = (exportWord e).toList ++ (("const " : Text).toList ++ y)) :
    d.exported.isTruthy = e.exported.isTruthy ∧ x = y := by
  rw [exportWord, exportWord] at h
  cases hd : d.exported.isTruthy <;> cases he : e.exported.isTruthy <;>
    rw [hd, he] at h <;> simp [Text.toList] at h <;> exact ⟨rfl, h⟩

/-- The beginning of a line tells whether it declares a codec or a type. -/
theorem exportWord_ne {d e : Declaration} {x y : List Point} :
    (exportWord d).toList ++ (("const " : Text).toList ++ x)
      ≠ (exportWord e).toList ++ (("type " : Text).toList ++ y) := by
  rw [exportWord, exportWord]
  cases d.exported.isTruthy <;> cases e.exported.isTruthy <;> simp [Text.toList]

/-- The characters of the line of a codec. -/
theorem toList_formLine (d : Declaration) (x : List Point) :
    (formLine d).toList ++ x =
      (exportWord d).toList ++ (("const " : Text).toList ++ (d.name.display.toList ++
        .char ' ' :: .char '=' :: .char ' ' ::
          (((normalForm d.type).text 0).toList ++ .char '\n' :: .char '\n' :: x))) := by
  have hequals : (" = " : Text).toList = [.char ' ', .char '=', .char ' '] := rfl
  have hend : ("\n\n" : Text).toList = [.char '\n', .char '\n'] := rfl
  rw [formLine, codecLine]
  simp only [Text.toList_append, List.append_assoc, hequals, hend, List.cons_append,
    List.nil_append]

theorem exists_toList_typeLine (d : Declaration) (x : List Point) :
    ∃ rest, (typeLine d).toList ++ x = (exportWord d).toList ++ (("type " : Text).toList ++ rest) := by
  rw [typeLine]
  simp only [Text.toList_append, List.append_assoc]
  exact ⟨_, rfl⟩

/-- The line of a codec tells the declaration and what follows. -/
theorem formLine_cut {d e : Declaration} (hd : IsWritten d) (he : IsWritten e) {x y : List Point}
    (h : (formLine d).toList ++ x = (formLine e).toList ++ y) : AgreesWith d e ∧ x = y := by
  obtain ⟨⟨name, hname, hspelled⟩, htype⟩ := hd
  obtain ⟨⟨otherName, hotherName, hotherSpelled⟩, hotherType⟩ := he
  -- From left to right: the export, the name up to the blank, the expression up to the line end.
  rw [toList_formLine, toList_formLine, hname, hotherName] at h
  obtain ⟨hexported, hnamed⟩ := exportWord_cut h
  obtain ⟨hsame, hequals⟩ := word_cut (all_isIdentifierPart hspelled)
    (all_isIdentifierPart hotherSpelled) (endsAt_cons (by decide) _) (endsAt_cons (by decide) _)
    hnamed
  simp only [List.cons.injEq, true_and] at hequals
  obtain ⟨hform, hend⟩ := told (isNormal_normalForm htype) _ 0 _ _
    (isNormal_normalForm hotherType) (endsAt_cons (by decide) _) (endsAt_cons (by decide) _) hequals
  simp only [List.cons.injEq, true_and] at hend
  refine ⟨⟨?_, hexported, hform⟩, hend⟩
  rw [hname, hotherName, Text.toList_inj.1 hsame]

/-- The lines of types do not read as the line of a codec. -/
theorem typeLines_ne (types : List Declaration) (d : Declaration) (x : List Point) :
    types.flatMap (fun t => (typeLine t).toList) ≠ (formLine d).toList ++ x := by
  rw [toList_formLine]
  cases types with
  | nil =>
    have hlength : (("const " : Text).toList).length = 6 := rfl
    intro heq
    have hcount := congrArg List.length heq
    simp only [List.flatMap_nil, List.length_nil, List.length_append, hlength] at hcount
    omega
  | cons t types =>
    rw [List.flatMap_cons]
    obtain ⟨rest, hrest⟩ := exists_toList_typeLine t (types.flatMap fun t => (typeLine t).toList)
    rw [hrest]
    exact fun heq => exportWord_ne heq.symm

/-- **Lines.**  The lines of codecs with lines of types behind them tell the declarations. -/
theorem formLines_cut {ds es : List Declaration} (hds : ∀ d ∈ ds, IsWritten d)
    (hes : ∀ e ∈ es, IsWritten e) (types otherTypes : List Declaration)
    (h : ds.flatMap (fun d => (formLine d).toList) ++ types.flatMap (fun t => (typeLine t).toList)
      = es.flatMap (fun e => (formLine e).toList)
        ++ otherTypes.flatMap fun t => (typeLine t).toList) :
    List.Forall₂ AgreesWith ds es := by
  -- Lines of types read differently, so both lists of codecs end at the same place.
  induction ds generalizing es with
  | nil =>
    cases es with
    | nil => exact .nil
    | cons e es =>
      rw [List.flatMap_nil, List.nil_append, List.flatMap_cons, List.append_assoc] at h
      exact absurd h (typeLines_ne types e _)
  | cons d ds ih =>
    rw [List.flatMap_cons, List.append_assoc] at h
    cases es with
    | nil => exact absurd h.symm (typeLines_ne otherTypes d _)
    | cons e es =>
      rw [List.flatMap_cons, List.append_assoc] at h
      obtain ⟨hd, hrest⟩ := List.forall_mem_cons.1 hds
      obtain ⟨he, hothers⟩ := List.forall_mem_cons.1 hes
      obtain ⟨hagree, htail⟩ := formLine_cut hd he h
      exact .cons hagree (ih hrest hothers htail)

/-! ## Modules -/

/-- The module of declarations whose types are given by their normal forms. -/
def formModule (config : Config) (ds : List Declaration) : Text :=
  head config.addGenerationComment.isTruthy ++ Text.join (ds.map formLine)
    ++ Text.join (ds.map typeLine)

/-- The module of declarations that can be written down. -/
theorem printModule_eq_formModule {config : Config} (hinteger : config.integerCodec = .text "t.Int")
    (hpolicy : config.danglingPolicy = .identifier) {ds : List Declaration}
    (h : ∀ d ∈ ds, IsWritten d) : printModule config ds = .ok (formModule config ds) := by
  have usual : (Style.ofConfig config (some (declaredNames ds))).IsUsual := ⟨hinteger, hpolicy⟩
  rw [printModule, codecLines_eq_formLines usual h]
  rfl

/-- The characters of a module. -/
theorem toList_formModule (config : Config) (ds : List Declaration) :
    (formModule config ds).toList = (head config.addGenerationComment.isTruthy).toList ++
      (ds.flatMap (fun d => (formLine d).toList) ++ ds.flatMap fun d => (typeLine d).toList) := by
  have hjoin : ∀ write : Declaration → Text,
      (Text.join (ds.map write)).toList = ds.flatMap fun d => (write d).toList := by
    intro write
    rw [Text.toList_join, List.flatMap_map]
  rw [formModule, Text.toList_append, Text.toList_append, hjoin, hjoin, List.append_assoc]

/-- **Modules are unambiguous.**  A list of declarations that can be written down has a module, in
which every codec is the text of the normal form of the type; all unions and intersections in it have
two members or more.  Two such lists with the same module agree, position by position, on names,
exports and normal forms. -/
theorem printModule_unambiguous (config : Config) (hinteger : config.integerCodec = .text "t.Int")
    (hpolicy : config.danglingPolicy = .identifier) :
    (∀ ds : List Declaration, (∀ d ∈ ds, IsWritten d) →
      printModule config ds = .ok (formModule config ds) ∧
        ∀ d ∈ ds, IsNormal (normalForm d.type)) ∧
    ∀ ds es : List Declaration, (∀ d ∈ ds, IsWritten d) → (∀ e ∈ es, IsWritten e) →
      printModule config ds = printModule config es → List.Forall₂ AgreesWith ds es := by
  refine ⟨fun ds hds => ⟨?_, fun d hd => ?_⟩, fun ds es hds hes h => ?_⟩
  · exact printModule_eq_formModule hinteger hpolicy hds
  · exact isNormal_normalForm (hds d hd).typed
  · rw [printModule_eq_formModule hinteger hpolicy hds,
      printModule_eq_formModule hinteger hpolicy hes] at h
    have hchars := congrArg Text.toList (Except.ok.inj h)
    rw [toList_formModule, toList_formModule, List.append_cancel_left_eq] at hchars
    exact formLines_cut hds hes ds es hchars

namespace WrappedPet

/-- A record with a property of a name that is no identifier. -/
def record : TypeExpr :=
  .record [⟨.text "it's, a \\ tag", .primitive "string", false⟩,
    ⟨.text "age", .primitive "integer", true⟩]

/-- The record as a declaration. -/
def plain : Declaration where
  name := .text "Pet"
  type := record
  exported := .bool true

/-- The same declaration with the record in a union and an intersection of its own. -/
def wrapped : Declaration where
  name := .text "Pet"
  type := .union [.intersection [record]]
  exported := .bool true

/-- The record can be printed. -/
theorem isPrintable_record : IsPrintable record := by
  refine .record (fun field hfield => ?_) fun field hfield => ?_ <;>
    rcases List.mem_cons.1 hfield with rfl | hfield
  · exact ⟨_, rfl⟩
  · obtain rfl := List.mem_singleton.1 hfield
    exact ⟨_, rfl⟩
  · exact .primitive (by decide)
  · obtain rfl := List.mem_singleton.1 hfield
    exact .primitive (by decide)

theorem isWritten_plain : ∀ d ∈ [plain], IsWritten d :=
  List.forall_mem_singleton.2 ⟨⟨"Pet", rfl, by decide⟩, isPrintable_record⟩

theorem isWritten_wrapped : ∀ d ∈ [wrapped], IsWritten d :=
  List.forall_mem_singleton.2 ⟨⟨"Pet", rfl, by decide⟩,
    .union (List.forall_mem_singleton.2
      (.intersection (List.forall_mem_singleton.2 isPrintable_record)))⟩

/-- The two have one module, and so one normal form. -/
theorem printModule_wrapped : ({} : Config).integerCodec = .text "t.Int" ∧
    ({} : Config).danglingPolicy = .identifier ∧
    printModule {} [plain] = .ok (formModule {} [plain]) ∧
    printModule {} [plain] = printModule {} [wrapped] ∧
    List.Forall₂ AgreesWith [plain] [wrapped] := by
  have hmain := printModule_unambiguous {} rfl rfl
  have hsame : printModule {} [plain] = printModule {} [wrapped] := rfl
  exact ⟨rfl, rfl, (hmain.1 _ isWritten_plain).1, hsame,
    hmain.2 _ _ isWritten_plain isWritten_wrapped hsame⟩

end WrappedPet

end SchemaCodecs.Codec
