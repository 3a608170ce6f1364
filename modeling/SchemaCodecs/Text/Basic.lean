/-
# Texts

A text is a list of code points.  Besides the characters there are lone surrogates, code points that
stand for no character: an escape in a document can name one, and then it is kept like any other code
point.  What holds a lone surrogate cannot be encoded.

Texts are ordered like their code points.
-/

namespace SchemaCodecs

/-! ## Code points -/

/-- A code point. -/
inductive Point where
  /-- A character. -/
  | char (c : Char)
  /-- A lone surrogate, by its number among the surrogates. -/
  | lone (k : Fin 0x800)
  deriving DecidableEq, Inhabited

namespace Point

instance : Coe Char Point := ⟨char⟩

/-- The first of the surrogates. -/
def firstSurrogate : Nat := 0xd800

/-- The number of a code point. -/
def toNat : Point → Nat
  | char c => c.toNat
  | lone k => firstSurrogate + k

/-- The code point with a number; one that is too large stands for the character NUL. -/
def ofNat (n : Nat) : Point :=
  if h : n - firstSurrogate < 0x800 ∧ firstSurrogate ≤ n then lone ⟨n - firstSurrogate, h.1⟩
  else char (Char.ofNat n)

instance : LE Point := ⟨fun a b => a.toNat ≤ b.toNat⟩

instance : LT Point := ⟨fun a b => a.toNat < b.toNat⟩

instance (a b : Point) : Decidable (a ≤ b) := inferInstanceAs (Decidable (a.toNat ≤ b.toNat))

instance (a b : Point) : Decidable (a < b) := inferInstanceAs (Decidable (a.toNat < b.toNat))

/-- A digit of ASCII. -/
def isDigit (c : Point) : Bool := '0' ≤ c && c ≤ '9'

/-- A capital letter of ASCII. -/
def isUpper (c : Point) : Bool := 'A' ≤ c && c ≤ 'Z'

/-- A small letter of ASCII. -/
def isLower (c : Point) : Bool := 'a' ≤ c && c ≤ 'z'

/-- A letter of ASCII. -/
def isAlpha (c : Point) : Bool := c.isUpper || c.isLower

/-- A letter or digit of ASCII. -/
def isAlphanum (c : Point) : Bool := c.isAlpha || c.isDigit

/-- A capital letter of ASCII as the small one; any other code point as it is. -/
def toLower : Point → Point
  | char c => char c.toLower
  | lone k => lone k

/-- Whether a code point can stand in the name of a file: some lone surrogates stand for the bytes from
`0x80` to `0xff` that belong to no character, the others for nothing. -/
def isNameable : Point → Bool
  | char _ => true
  | lone k => 0x480 ≤ k.val && k.val < 0x500

/-- The number of bytes of a code point in the name of a file. -/
def byteCount : Point → Nat
  | char c => c.utf8Size
  | lone _ => 1

/-- The digit with a value below sixteen. -/
def digitChar (n : Nat) : Point := char n.digitChar

/-- The digits of a number in a base, most significant first. -/
def digits (base n : Nat) : List Point := (Nat.toDigits base n).map char

end Point

/-! ## Texts -/

/-- The characters that code points are, if they are all characters. -/
def Point.chars? : List Point → Option (List Char)
  | [] => some []
  | char c :: rest => (chars? rest).map (c :: ·)
  | lone _ :: _ => none

/-- A text: a string of characters, or code points with a lone surrogate among them. -/
inductive Text where
  /-- The text of a string. -/
  | ofString (s : String)
  /-- A text with a lone surrogate in it. -/
  | broken (points : List Point) (isBroken : Point.chars? points = none)
  deriving DecidableEq

namespace Text

instance : Coe String Text := ⟨ofString⟩

instance : Inhabited Text := ⟨ofString ""⟩

/-! ## Code points of a text -/

/-- The code points of a text. -/
def toList : Text → List Point
  | ofString s => s.toList.map .char
  | broken points _ => points

/-- The text with the given code points. -/
def ofList (points : List Point) : Text :=
  match h : Point.chars? points with
  | some chars => ofString (String.ofList chars)
  | none => broken points h

/-- Characters are the characters of themselves only. -/
theorem chars?_eq_some_iff {points : List Point} {chars : List Char} :
    Point.chars? points = some chars ↔ points = chars.map .char := by
  induction points generalizing chars with
  | nil =>
    cases chars with
    | nil => exact iff_of_true rfl rfl
    | cons c chars => exact iff_of_false (by rintro ⟨⟩) (by rintro ⟨⟩)
  | cons point rest ih =>
    cases point with
    | lone k =>
      refine iff_of_false (by rintro ⟨⟩) ?_
      cases chars <;> rintro ⟨⟩
    | char c =>
      simp only [Point.chars?, Option.map_eq_some_iff, ih]
      constructor
      · rintro ⟨chars, rfl, rfl⟩
        rfl
      · intro h
        cases chars with
        | nil => cases h
        | cons d chars =>
          obtain ⟨hc, hrest⟩ := List.cons.inj h
          exact ⟨chars, hrest, by rw [Point.char.inj hc]⟩

@[simp] theorem toList_ofList (points : List Point) : (ofList points).toList = points := by
  unfold ofList
  split
  · next chars h => rw [toList, String.toList_ofList, chars?_eq_some_iff.1 h]
  · rfl

theorem ofList_toList (s : Text) : ofList s.toList = s := by
  cases s with
  | ofString s =>
    have hchars : Point.chars? (ofString s).toList = some s.toList := chars?_eq_some_iff.2 rfl
    unfold ofList
    split
    · next chars h =>
      obtain rfl := Option.some.inj (hchars.symm.trans h)
      rw [String.ofList_toList]
    · next h => cases hchars.symm.trans h
  | broken points isBroken =>
    unfold ofList
    split
    · next chars h => cases isBroken.symm.trans h
    · rfl

theorem toList_inj {s t : Text} : s.toList = t.toList ↔ s = t := by
  constructor
  · intro h
    rw [← ofList_toList s, h, ofList_toList]
  · rintro rfl
    rfl

/-- The code points of a string are its characters. -/
theorem toList_ofString_ofList (chars : List Char) :
    (ofString (String.ofList chars)).toList = chars.map .char := by
  rw [toList, String.toList_ofList]

/-! ## Texts one after the other -/

instance : Append Text where
  append
    | ofString s, ofString t => ofString (s ++ t)
    | s, t => ofList (s.toList ++ t.toList)

@[simp] theorem toList_append (s t : Text) : (s ++ t).toList = s.toList ++ t.toList := by
  cases s with
  | ofString s =>
    cases t with
    | ofString t =>
      show (s ++ t).toList.map Point.char = s.toList.map .char ++ t.toList.map .char
      rw [String.toList_append, List.map_append]
    | broken points isBroken => exact toList_ofList _
  | broken points isBroken => exact toList_ofList _

theorem ofList_append (cs ds : List Point) : ofList (cs ++ ds) = ofList cs ++ ofList ds := by
  rw [← toList_inj, toList_ofList, toList_append, toList_ofList, toList_ofList]

@[simp] theorem append_empty (s : Text) : s ++ ("" : Text) = s := by
  rw [← toList_inj, toList_append]
  exact List.append_nil _

theorem append_assoc (s t u : Text) : s ++ t ++ u = s ++ (t ++ u) := by
  simp only [← toList_inj, toList_append, List.append_assoc]

theorem append_right_inj {s t : Text} (u : Text) : u ++ s = u ++ t ↔ s = t := by
  rw [← toList_inj, toList_append, toList_append, List.append_right_inj, toList_inj]

/-- Texts one after the other. -/
protected def join (texts : List Text) : Text := texts.foldr (· ++ ·) ""

theorem toList_join (texts : List Text) : (Text.join texts).toList = texts.flatMap toList := by
  induction texts with
  | nil => rfl
  | cons s rest ih =>
    rw [Text.join] at ih ⊢
    rw [List.foldr_cons, toList_append, ih, List.flatMap_cons]

/-! ## The length of a text -/

/-- The number of code points. -/
protected def length (s : Text) : Nat := s.toList.length

/-- Whether a text has no code points. -/
protected def isEmpty (s : Text) : Bool := s.toList.isEmpty

theorem length_toList (s : Text) : s.toList.length = s.length := rfl

@[simp] theorem length_ofList (points : List Point) : (ofList points).length = points.length := by
  rw [Text.length, toList_ofList]

theorem length_append (s t : Text) : (s ++ t).length = s.length + t.length := by
  rw [Text.length, toList_append, List.length_append]
  rfl

/-- The number of bytes of a text as the name of a file. -/
def byteCount (s : Text) : Nat := s.toList.foldl (fun count c => count + c.byteCount) 0

/-! ## Numerals -/

/-- The decimal numeral of a number. -/
def numeral (n : Nat) : Text := toString n

/-- The decimal numeral of an integer. -/
def signedNumeral (n : Int) : Text := toString n

/-! ## Texts in order -/

instance : LT Text := ⟨fun s t => s.toList < t.toList⟩

instance : LE Text := ⟨fun s t => ¬ t < s⟩

/-- Characters are ordered like their code points. -/
theorem map_char_lt_iff (cs ds : List Char) : cs.map Point.char < ds.map Point.char ↔ cs < ds := by
  induction cs generalizing ds with
  | nil => cases ds <;> simp
  | cons c cs ih =>
    cases ds with
    | nil => simp
    | cons d ds =>
      have hlt : Point.char c < Point.char d ↔ c < d := Iff.rfl
      rw [List.map_cons, List.map_cons, List.cons_lt_cons_iff, List.cons_lt_cons_iff, ih, hlt,
        Point.char.injEq]

/-- Texts of characters are ordered like strings. -/
theorem ofString_lt_iff (s t : String) : ofString s < ofString t ↔ s < t :=
  map_char_lt_iff s.toList t.toList

instance decidableLT : (s t : Text) → Decidable (s < t)
  | ofString s, ofString t => decidable_of_iff (s < t) (ofString_lt_iff s t).symm
  | ofString s, broken points _ => inferInstanceAs (Decidable ((ofString s).toList < points))
  | broken points _, t => inferInstanceAs (Decidable (points < t.toList))

instance (s t : Text) : Decidable (s ≤ t) := inferInstanceAs (Decidable (¬ t < s))

/-! ## Encoding -/

/-- The bytes of a text; there are none if it holds a lone surrogate. -/
def encodeUtf8? : Text → Option (List UInt8)
  | ofString s => some s.toUTF8.data.toList
  | broken _ _ => none

end Text

end SchemaCodecs
