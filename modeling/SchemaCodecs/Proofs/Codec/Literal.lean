/-
# What keys stand for

A key of an object literal is a name or a string literal.  A string literal stands for code units of
sixteen bits; it ends at the next quote that is not escaped, and no line may end inside of it.  The key
of a property is a name just when the property has one; else it is a string literal which stands for
the property, unless there is a carriage return in it: this one is not escaped, and ends the line.

* `readKey` : what a key stands for, and what follows it;
* `readBody_escaped` : the string literal of a text is read back;
* `propertyKey_standsFor_iff` : which name a key stands for.
-/
import SchemaCodecs.Number.IntegerText
import SchemaCodecs.Proofs.Codec.Key
import SchemaCodecs.Proofs.Text.Points

namespace SchemaCodecs.Codec

open Number Text

/-! ## Code units -/

/-- The code units of a code point: itself, or two surrogates. -/
def unitsOfPoint (n : Nat) : List Nat :=
  if n < 0x10000 then [n] else [0xd800 + (n - 0x10000) / 0x400, 0xdc00 + (n - 0x10000) % 0x400]

/-- The code units of a text. -/
def unitsOf (cs : List Point) : List Nat :=
  cs.flatMap fun c => unitsOfPoint c.toNat

theorem toNat_lt_or_gt {c : Point} (h : ∀ k, c ≠ .lone k) :
    c.toNat < 0xd800 ∨ 0xdfff < c.toNat ∧ c.toNat < 0x110000 := by
  cases c with
  | char c => exact c.valid
  | lone k => exact absurd rfl (h k)

/-- The code units of two texts tell their first characters, and what follows in them. -/
theorem unitsOfPoint_cut {c d : Point} (hc : ∀ k, c ≠ .lone k) (hd : ∀ k, d ≠ .lone k)
    {x y : List Nat} (h : unitsOfPoint c.toNat ++ x = unitsOfPoint d.toNat ++ y) :
    c = d ∧ x = y := by
  have hc := toNat_lt_or_gt hc
  have hd := toNat_lt_or_gt hd
  -- A single unit is no surrogate, so both have one unit or both have two.
  have hpoints : c.toNat = d.toNat ∧ x = y := by
    unfold unitsOfPoint at h
    split at h <;> split at h <;>
      simp only [List.cons_append, List.nil_append, List.cons.injEq] at h
    · exact h
    · omega
    · omega
    · exact ⟨by omega, h.2.2⟩
  exact ⟨Point.toNat_injective hpoints.1, hpoints.2⟩

theorem unitsOfPoint_ne_nil (n : Nat) : unitsOfPoint n ≠ [] := by
  unfold unitsOfPoint
  split <;> simp

/-- The code units of a text of characters tell the text. -/
theorem unitsOf_cut {cs ds : List Point} (hcs : ∀ k, .lone k ∉ cs) (hds : ∀ k, .lone k ∉ ds)
    (h : unitsOf cs = unitsOf ds) : cs = ds := by
  have hne : ∀ (c : Point) (rest : List Point), unitsOf (c :: rest) ≠ [] := fun c rest hnil =>
    unitsOfPoint_ne_nil c.toNat (List.append_eq_nil_iff.1 hnil).1
  induction cs generalizing ds with
  | nil =>
    cases ds with
    | nil => rfl
    | cons d ds => exact absurd h.symm (hne d ds)
  | cons c cs ih =>
    cases ds with
    | nil => exact absurd h (hne c cs)
    | cons d ds =>
      simp only [List.mem_cons, not_or, forall_and] at hcs hds
      have hc : ∀ k, c ≠ .lone k := fun k => Ne.symm (hcs.1 k)
      have hd : ∀ k, d ≠ .lone k := fun k => Ne.symm (hds.1 k)
      obtain ⟨rfl, hrest⟩ := unitsOfPoint_cut hc hd h
      rw [ih hcs.2 hds.2 hrest]

/-! ## String literals -/

/-- The letters that mean one code unit behind a backslash. -/
def singleEscapes : List (Point × Nat) :=
  [('b', 0x08), ('t', 0x09), ('n', 0x0a), ('v', 0x0b), ('f', 0x0c), ('r', 0x0d), ('"', 0x22),
   ('\'', 0x27), ('\\', 0x5c)]

/-- The characters that end a line. -/
def lineEnds : List Point :=
  [.char '\n', .char '\r', .char '\u2028', .char '\u2029']

/-- Some code units in front of those that are read. -/
def inFront (units : List Nat) (read : Option (List Nat × List Point)) :
    Option (List Nat × List Point) :=
  read.map fun (value, rest) => (units ++ value, rest)

mutual

/-- The code units of a string literal behind its opening quote, and what follows the closing one.
There are none if a line ends before. -/
def readBody : List Point → Option (List Nat × List Point)
  | [] => none
  | c :: rest =>
    if c = '\'' then some ([], rest)
    else if c = '\\' then readEscape rest
    else if c = '\n' ∨ c = '\r' then none
    else inFront (unitsOfPoint c.toNat) (readBody rest)

/-- The same behind a backslash.  A line that ends here goes on; a zero stands for itself unless a
digit follows, and other digits mean nothing; any other character stands for itself. -/
def readEscape : List Point → Option (List Nat × List Point)
  | [] => none
  | c :: rest =>
    match singleEscapes.lookup c with
    | some unit => inFront [unit] (readBody rest)
    | none =>
      if c = '0' then
        if rest.head?.any Point.isDigit then none else inFront [0] (readBody rest)
      else if c.isDigit then none
      else if c = 'x' then readHex 1 0 rest
      else if c = 'u' then
        match rest with
        | '\x7b' :: rest => readBraced none rest
        | rest => readHex 3 0 rest
      else if c = '\r' then
        match rest with
        | '\n' :: rest => readBody rest
        | rest => readBody rest
      else if lineEnds.contains c then readBody rest
      else inFront (unitsOfPoint c.toNat) (readBody rest)

/-- The same inside of a hexadecimal escape, of which a number of digits follow the next one. -/
def readHex (more value : Nat) : List Point → Option (List Nat × List Point)
  | [] => none
  | c :: rest =>
    match hexValue? c with
    | none => none
    | some digit =>
      if more = 0 then inFront [16 * value + digit] (readBody rest)
      else readHex (more - 1) (16 * value + digit) rest

/-- The same inside of the braces around a code point. -/
def readBraced (value : Option Nat) : List Point → Option (List Nat × List Point)
  | [] => none
  | c :: rest =>
    if c = '\x7d' then
      match value with
      | none => none
      | some point =>
        if point ≤ 0x10ffff then inFront (unitsOfPoint point) (readBody rest) else none
    else
      match hexValue? c with
      | none => none
      | some digit => readBraced (some (16 * value.getD 0 + digit)) rest

end

/-- An escaped character other than a carriage return is read back. -/
theorem readBody_escapeChar {c : Point} (h : c ≠ '\r') (x : List Point) :
    readBody (escapeChar c ++ x) = inFront (unitsOfPoint c.toNat) (readBody x) := by
  unfold escapeChar
  split
  · next hc => rw [beq_iff_eq.1 hc]; rfl
  · next hbackslash =>
    split
    · next hc => rw [beq_iff_eq.1 hc]; rfl
    · next hquote =>
      split
      · next hc => rw [beq_iff_eq.1 hc]; rfl
      · next hline =>
        rw [beq_iff_eq] at hbackslash hquote hline
        rw [List.singleton_append, readBody, if_neg hquote, if_neg hbackslash,
          if_neg (not_or.2 ⟨hline, h⟩)]

@[simp] theorem readBody_return (x : List Point) : readBody (escapeChar '\r' ++ x) = none := rfl

/-- **String literals.**  The string literal of a text is read back, unless there is a carriage return
in the text. -/
theorem readBody_escaped (cs rest : List Point) :
    readBody (cs.flatMap escapeChar ++ .char '\'' :: rest)
      = if .char '\r' ∈ cs then none else some (unitsOf cs, rest) := by
  induction cs with
  | nil => rfl
  | cons c cs ih =>
    rw [List.flatMap_cons, List.append_assoc]
    by_cases hc : c = '\r'
    · rw [hc, readBody_return, if_pos List.mem_cons_self]
    · have hmem : .char '\r' ∈ c :: cs ↔ .char '\r' ∈ cs := by simp [Ne.symm hc]
      rw [readBody_escapeChar hc, ih]
      simp only [hmem]
      split <;> rfl

/-! ## Names -/

/-- A letter, an underscore or a dollar sign. -/
def IsNameStart (c : Point) : Prop :=
  'A' ≤ c ∧ c ≤ 'Z' ∨ 'a' ≤ c ∧ c ≤ 'z' ∨ c = '_' ∨ c = '$'

/-- One of these, or a digit. -/
def IsNamePart (c : Point) : Prop :=
  IsNameStart c ∨ '0' ≤ c ∧ c ≤ '9'

/-- A name: such characters, of which the first is no digit. -/
def IsName (cs : List Point) : Prop :=
  ∃ first rest, cs = first :: rest ∧ IsNameStart first ∧ ∀ c ∈ rest, IsNamePart c

/-- Names begin as identifiers do. -/
theorem isIdentifierStart_iff (c : Point) : isIdentifierStart c = true ↔ IsNameStart c := by
  have hupper : c.isUpper = (decide ('A' ≤ c) && decide (c ≤ 'Z')) := rfl
  have hlower : c.isLower = (decide ('a' ≤ c) && decide (c ≤ 'z')) := rfl
  have hstart : isIdentifierStart c = (c.isUpper || c.isLower || c == '_' || c == '$') := rfl
  simp only [hstart, hupper, hlower, Bool.or_eq_true, Bool.and_eq_true, decide_eq_true_iff,
    beq_iff_eq, IsNameStart, or_assoc]

/-- Names go on as identifiers do. -/
theorem isIdentifierPart_iff (c : Point) : isIdentifierPart c = true ↔ IsNamePart c := by
  have hpart : isIdentifierPart c = (isIdentifierStart c || c.isDigit) := by
    simp only [isIdentifierPart, isIdentifierStart, Point.isAlphanum]
    cases c.isAlpha <;> cases c.isDigit <;> cases c == '_' <;> cases c == '$' <;> rfl
  have hdigit : c.isDigit = true ↔ '0' ≤ c ∧ c ≤ '9' := by
    simp only [Point.isDigit, Bool.and_eq_true, decide_eq_true_iff]
  rw [hpart, Bool.or_eq_true, isIdentifierStart_iff, hdigit, IsNamePart]

/-- Names are the identifiers. -/
theorem isIdentifier_iff (cs : List Point) : isIdentifier cs = true ↔ IsName cs := by
  cases cs with
  | nil => simp [isIdentifier, IsName]
  | cons c rest =>
    simp only [isIdentifier, Bool.and_eq_true, isIdentifierStart_iff, List.all_eq_true,
      isIdentifierPart_iff, IsName, List.cons.injEq]
    constructor
    · rintro ⟨hc, hrest⟩
      exact ⟨c, rest, ⟨rfl, rfl⟩, hc, hrest⟩
    · rintro ⟨_, _, ⟨rfl, rfl⟩, hc, hrest⟩
      exact ⟨hc, hrest⟩

instance (c : Point) : Decidable (IsNamePart c) :=
  decidable_of_iff _ (isIdentifierPart_iff c)

instance (cs : List Point) : Decidable (IsName cs) :=
  decidable_of_iff _ (isIdentifier_iff cs)

/-! ## Keys -/

/-- The code units that the key in front of a text stands for, and what follows the key. -/
def readKey : List Point → Option (List Nat × List Point)
  | [] => none
  | c :: rest =>
    if c = '\'' then readBody rest
    else
      let name := (c :: rest).takeWhile fun c => IsNamePart c
      if IsName name then some (unitsOf name, (c :: rest).dropWhile fun c => IsNamePart c) else none

/-- A key stands for a name: with a colon behind it, and whatever follows there, the name is read. -/
def StandsFor (key name : Text) : Prop :=
  ∀ rest : List Point,
    readKey (key.toList ++ .char ':' :: rest) = some (unitsOf name.toList, .char ':' :: rest)

/-- A name is read up to the colon. -/
theorem readKey_name {name : List Point} (h : IsName name) (rest : List Point) :
    readKey (name ++ .char ':' :: rest) = some (unitsOf name, .char ':' :: rest) := by
  have hparts := all_isIdentifierPart ((isIdentifier_iff name).2 h)
  have hall : ∀ c ∈ name, decide (IsNamePart c) = true := fun c hc =>
    decide_eq_true ((isIdentifierPart_iff c).1 (List.all_eq_true.1 hparts c hc))
  have hcolon : decide (IsNamePart ':') = false := by decide
  have htake : (name ++ .char ':' :: rest).takeWhile (fun c => decide (IsNamePart c)) = name := by
    rw [List.takeWhile_append_of_pos hall, List.takeWhile_cons_of_neg (by simp [hcolon]),
      List.append_nil]
  have hdrop :
      (name ++ .char ':' :: rest).dropWhile (fun c => decide (IsNamePart c)) = .char ':' :: rest := by
    rw [List.dropWhile_append_of_pos hall, List.dropWhile_cons_of_neg (by simp [hcolon])]
  have hquote : ∀ c cs, name ++ .char ':' :: rest = c :: cs → c ≠ '\'' := by
    rintro c cs htext rfl
    exact identifier_ne_quote ((isIdentifier_iff name).2 h) htext
  generalize htext : name ++ .char ':' :: rest = text at htake hdrop hquote ⊢
  cases text with
  | nil => exact absurd htext (by simp)
  | cons c cs =>
    rw [readKey, if_neg (hquote c cs rfl)]
    simp only [htake, hdrop, if_pos h]

theorem propertyKey_of_isName {key : Text} (h : IsName key.toList) : propertyKey key = key :=
  propertyKey_of_isIdentifier ((isIdentifier_iff _).2 h)

theorem toList_propertyKey_of_not_isName {key : Text} (h : ¬ IsName key.toList) :
    (propertyKey key).toList = .char '\'' :: key.toList.flatMap escapeChar ++ [.char '\''] :=
  toList_propertyKey_of_not (Bool.eq_false_iff.2 (mt (isIdentifier_iff _).1 h))

theorem return_notMem_of_isName {name : List Point} (h : IsName name) : .char '\r' ∉ name :=
  notMem_of_isIdentifier ((isIdentifier_iff name).2 h) rfl

/-- What is read of a key: the property, unless there is a carriage return in it. -/
theorem readKey_propertyKey (key : Text) (rest : List Point) :
    readKey ((propertyKey key).toList ++ .char ':' :: rest)
      = if .char '\r' ∈ key.toList then none else some (unitsOf key.toList, .char ':' :: rest) := by
  by_cases h : IsName key.toList
  · rw [propertyKey_of_isName h, readKey_name h, if_neg (return_notMem_of_isName h)]
  · rw [toList_propertyKey_of_not_isName h, List.cons_append, List.cons_append, List.append_assoc,
      readKey, if_pos rfl]
    exact readBody_escaped key.toList (.char ':' :: rest)

/-- A key stands for the names with the code units of its property. -/
theorem standsFor_propertyKey_iff (key name : Text) : StandsFor (propertyKey key) name ↔
    unitsOf name.toList = unitsOf key.toList ∧ .char '\r' ∉ key.toList := by
  constructor
  · intro h
    have hread := h []
    rw [readKey_propertyKey] at hread
    split at hread
    · cases hread
    · next hplain => exact ⟨(Prod.mk.inj (Option.some.inj hread)).1.symm, hplain⟩
  · rintro ⟨hunits, hplain⟩ rest
    rw [readKey_propertyKey, if_neg hplain, hunits]

theorem propertyKey_injective : Function.Injective propertyKey := by
  intro s t h
  have hend : EndsAt isIdentifierPart [] := by simp [EndsAt]
  exact (propertyKey_cut hend hend (by rw [h])).1

/-- **Keys.**  The key of a property is the property itself if that is a name, else a string literal
without line feeds.  It stands for the property, and for what has the same code units, unless there is a
carriage return in it; then it cannot be read.  So it stands for no other text of characters.  Two
properties never have the same key. -/
theorem propertyKey_standsFor_iff (key : Text) :
    (if IsName key.toList then propertyKey key = key
      else ∃ body : List Point,
        (propertyKey key).toList = .char '\'' :: body ++ [.char '\''] ∧ .char '\n' ∉ body) ∧
    (∀ name, StandsFor (propertyKey key) name ↔
      unitsOf name.toList = unitsOf key.toList ∧ .char '\r' ∉ key.toList) ∧
    (key.OfChars → ∀ name : Text, name.OfChars →
      (StandsFor (propertyKey key) name ↔ name = key ∧ .char '\r' ∉ key.toList)) ∧
    (.char '\r' ∈ key.toList → ∀ rest, readKey ((propertyKey key).toList ++ .char ':' :: rest) = none) ∧
    ∀ other, propertyKey other = propertyKey key ↔ other = key := by
  refine ⟨?_, standsFor_propertyKey_iff key, fun hkey name hname => ?_, fun hreturn rest => ?_,
    fun other => propertyKey_injective.eq_iff⟩
  · split
    · next h => exact propertyKey_of_isName h
    · next h =>
      refine ⟨_, toList_propertyKey_of_not_isName h, fun hmem => ?_⟩
      obtain ⟨c, -, hc⟩ := List.mem_flatMap.1 hmem
      exact newline_notMem_escapeChar c hc
  · rw [standsFor_propertyKey_iff]
    apply and_congr_left
    intro _
    constructor
    · intro hunits
      exact Text.toList_inj.1 (unitsOf_cut hname hkey hunits)
    · rintro rfl
      rfl
  · rw [readKey_propertyKey, if_pos hreturn]

/-- The key of a carriage return holds it as it is, and cannot be read. -/
theorem propertyKey_return : propertyKey "\r" = "'\r'" ∧
    ∀ rest : List Point, readKey ((propertyKey "\r").toList ++ .char ':' :: rest) = none := by
  have hkey : propertyKey "\r" = "'\r'" := by decide
  refine ⟨hkey, fun rest => ?_⟩
  rw [hkey]
  rfl

end SchemaCodecs.Codec
