/-
# Reading back keys

The key of an object literal tells the name it stands for, and where it ends: a name that is an
identifier ends before the first character that cannot belong to one, any other name at its quote.
-/
import SchemaCodecs.Codec.Key
import SchemaCodecs.Proofs.Text.Coding

namespace SchemaCodecs.Codec

open Text

/-! ## Words -/

/-- A text does not begin with a character of a kind. -/
def EndsAt (kind : Point → Bool) (cs : List Point) : Prop :=
  ∀ c ∈ cs.head?, kind c = false

/-- Two words with something of another kind behind them are told apart. -/
theorem word_cut {kind : Point → Bool} {u v x y : List Point} (hu : u.all kind = true)
    (hv : v.all kind = true) (hx : EndsAt kind x) (hy : EndsAt kind y) (h : u ++ x = v ++ y) :
    u = v ∧ x = y := by
  induction u generalizing v with
  | nil =>
    cases v with
    | nil => exact ⟨rfl, h⟩
    | cons c v =>
      rw [List.nil_append, List.cons_append] at h
      rw [List.all_cons, Bool.and_eq_true] at hv
      have hc := hx c (by rw [h]; rfl)
      rw [hv.1] at hc
      cases hc
  | cons c u ih =>
    rw [List.all_cons, Bool.and_eq_true] at hu
    cases v with
    | nil =>
      rw [List.nil_append, List.cons_append] at h
      have hc := hy c (by rw [← h]; rfl)
      rw [hu.1] at hc
      cases hc
    | cons d v =>
      rw [List.all_cons, Bool.and_eq_true] at hv
      obtain ⟨rfl, htail⟩ := List.cons.inj h
      obtain ⟨rfl, rfl⟩ := ih hu.2 hv.2 htail
      exact ⟨rfl, rfl⟩

/-! ## Identifiers -/

theorem isIdentifierPart_of_start {c : Point} (h : isIdentifierStart c = true) :
    isIdentifierPart c = true := by
  simp only [isIdentifierStart, isIdentifierPart, Point.isAlphanum, Bool.or_eq_true] at h ⊢
  tauto

/-- All characters of an identifier may stand inside one. -/
theorem all_isIdentifierPart {name : List Point} (h : isIdentifier name = true) :
    name.all isIdentifierPart = true := by
  cases name with
  | nil => rfl
  | cons c rest =>
    rw [isIdentifier, Bool.and_eq_true] at h
    rw [List.all_cons, isIdentifierPart_of_start h.1, h.2]
    rfl

/-- A character that may not stand inside an identifier does not. -/
theorem notMem_of_isIdentifier {name : List Point} {c : Point} (h : isIdentifier name = true)
    (hc : isIdentifierPart c = false) : c ∉ name := by
  intro hmem
  rw [List.all_eq_true.1 (all_isIdentifierPart h) c hmem] at hc
  cases hc

/-- An identifier has a first character. -/
theorem exists_cons_of_isIdentifier {name : List Point} (h : isIdentifier name = true) :
    ∃ first rest, name = first :: rest ∧ isIdentifierStart first = true := by
  cases name with
  | nil => cases h
  | cons c rest =>
    rw [isIdentifier, Bool.and_eq_true] at h
    exact ⟨c, rest, rfl, h.1⟩

/-! ## String literals -/

/-- The first character that is meant by the body of a string literal, and what follows it. -/
def readEscaped : List Point → Option (Point × List Point)
  | '\\' :: 'n' :: rest => some ('\n', rest)
  | '\\' :: c :: rest => some (c, rest)
  | c :: rest => some (c, rest)
  | [] => none

@[simp] theorem readEscaped_escapeChar (c : Point) (x : List Point) :
    readEscaped (escapeChar c ++ x) = some (c, x) := by
  unfold escapeChar
  split
  · next hc => rw [beq_iff_eq.1 hc]; rfl
  · next hbackslash =>
    split
    · next hc => rw [beq_iff_eq.1 hc]; rfl
    split
    · next hc => rw [beq_iff_eq.1 hc]; rfl
    · rw [List.singleton_append]
      unfold readEscaped
      split <;> simp_all

/-- The body of a string literal can be read back. -/
theorem prefixCode_escapeChar : PrefixCode escapeChar '\'' where
  starts c := by
    unfold escapeChar
    split
    · exact ⟨_, _, rfl, by decide⟩
    split
    · exact ⟨_, _, rfl, by decide⟩
    · next hquote =>
      split
      · exact ⟨_, _, rfl, by decide⟩
      · exact ⟨_, _, rfl, by simpa using hquote⟩
  apart {c d x y} heq := by
    have hread := congrArg readEscaped heq
    rw [readEscaped_escapeChar, readEscaped_escapeChar] at hread
    exact Prod.mk.inj (Option.some.inj hread)

/-! ## Keys -/

theorem toList_propertyKey_of_not {name : Text} (h : isIdentifier name.toList = false) :
    (propertyKey name).toList = .char '\'' :: name.toList.flatMap escapeChar ++ [.char '\''] := by
  rw [propertyKey]
  simp only [h, Bool.false_eq_true, if_false, Text.toList_ofList]

theorem propertyKey_of_isIdentifier {name : Text} (h : isIdentifier name.toList = true) :
    propertyKey name = name := by
  rw [propertyKey]
  simp only [h, if_true]

/-- An identifier does not read as a string literal. -/
theorem identifier_ne_quote {name x y : List Point} (h : isIdentifier name = true) :
    name ++ x ≠ .char '\'' :: y := by
  obtain ⟨first, rest, rfl, hfirst⟩ := exists_cons_of_isIdentifier h
  intro heq
  obtain ⟨rfl, -⟩ := List.cons.inj heq
  revert hfirst
  decide

/-- Escaped characters are no line feeds. -/
theorem newline_notMem_escapeChar (c : Point) : .char '\n' ∉ escapeChar c := by
  unfold escapeChar
  split
  · decide
  split
  · decide
  split
  · decide
  · next hline => simpa using Ne.symm (by simpa using hline)

/-- There are no line feeds in a key. -/
theorem newline_notMem_propertyKey (name : Text) : .char '\n' ∉ (propertyKey name).toList := by
  cases h : isIdentifier name.toList with
  | true =>
    rw [propertyKey_of_isIdentifier h]
    exact notMem_of_isIdentifier h rfl
  | false =>
    rw [toList_propertyKey_of_not h]
    simp only [List.cons_append, List.mem_cons, List.mem_append, List.mem_flatMap, List.not_mem_nil,
      or_false]
    rintro (hquote | ⟨c, -, hc⟩ | hquote)
    · cases hquote
    · exact newline_notMem_escapeChar c hc
    · cases hquote

/-- **Keys.**  A key with something behind it that no identifier has inside tells the name and what
follows. -/
theorem propertyKey_cut {s t : Text} {x y : List Point} (hx : EndsAt isIdentifierPart x)
    (hy : EndsAt isIdentifierPart y)
    (h : (propertyKey s).toList ++ x = (propertyKey t).toList ++ y) : s = t ∧ x = y := by
  cases hs : isIdentifier s.toList <;> cases ht : isIdentifier t.toList
  · rw [toList_propertyKey_of_not hs, toList_propertyKey_of_not ht] at h
    simp only [List.cons_append, List.append_assoc, List.nil_append, List.cons.injEq,
      true_and] at h
    obtain ⟨hnames, hrest⟩ := prefixCode_escapeChar.cut h
    exact ⟨Text.toList_inj.1 hnames, hrest⟩
  · rw [toList_propertyKey_of_not hs, propertyKey_of_isIdentifier ht] at h
    exact absurd h.symm (identifier_ne_quote ht)
  · rw [toList_propertyKey_of_not ht, propertyKey_of_isIdentifier hs] at h
    exact absurd h (identifier_ne_quote hs)
  · rw [propertyKey_of_isIdentifier hs, propertyKey_of_isIdentifier ht] at h
    obtain ⟨hnames, hrest⟩ :=
      word_cut (all_isIdentifierPart hs) (all_isIdentifierPart ht) hx hy h
    exact ⟨Text.toList_inj.1 hnames, hrest⟩

end SchemaCodecs.Codec
