/-
# Names that references keep

A reference to a component schema holds the name as it is, but the name that a reference means is
its last token, decoded.  The two are the same exactly for names without a slash and without an
escape, because cutting and decoding never make a text longer and do make it shorter where there is
something to cut or to decode.

* `decodeToken_eq_self_iff` : the tokens that decoding leaves as they are;
* `declarationName_toSchema_iff` : the names that references keep.
-/
import SchemaCodecs.Reference.Syntax
import Mathlib.Data.List.TakeWhile

namespace SchemaCodecs

/-! ## Last segments -/

namespace Text

/-- A text up to the first separator does not reach beyond it. -/
theorem takeWhile_append_separator (separator : Point) (front back : List Point) :
    (front ++ separator :: back).takeWhile (· != separator)
      = front.takeWhile (· != separator) := by
  induction front with
  | nil => simp
  | cons c rest ih =>
    rw [List.cons_append, List.takeWhile_cons, List.takeWhile_cons, ih]

theorem lastSegment_append (separator : Point) (front back : List Point) :
    lastSegment separator (front ++ separator :: back) = lastSegment separator back := by
  unfold lastSegment
  rw [List.reverse_append, List.reverse_cons, List.append_assoc, List.singleton_append,
    takeWhile_append_separator]

/-- The last segment is the end of the text. -/
theorem lastSegment_suffix (separator : Point) (cs : List Point) :
    lastSegment separator cs <:+ cs := by
  have h : cs.reverse.takeWhile (· != separator) <+: cs.reverse := List.takeWhile_prefix _
  rw [← List.reverse_suffix, List.reverse_reverse] at h
  exact h

/-- The last segment of a text without a separator is all of it. -/
theorem lastSegment_of_notMem {separator : Point} {cs : List Point} (h : separator ∉ cs) :
    lastSegment separator cs = cs := by
  unfold lastSegment
  have hall : cs.reverse.takeWhile (· != separator) = cs.reverse := by
    rw [List.takeWhile_eq_self_iff]
    intro c hc
    rw [bne_iff_ne]
    rintro rfl
    exact h (List.mem_reverse.1 hc)
  rw [hall, List.reverse_reverse]

/-- A last segment has no separator. -/
theorem notMem_lastSegment (separator : Point) (cs : List Point) :
    separator ∉ lastSegment separator cs := by
  unfold lastSegment
  rw [List.mem_reverse]
  intro h
  have hne := List.mem_takeWhile_imp h
  simp at hne

end Text

/-! ## Decoding -/

namespace Reference

open Text

theorem unescape_cons {c : Point} (h : c ≠ '~') (mark meant : Point) (cs : List Point) :
    unescape mark meant (c :: cs) = c :: unescape mark meant cs := by
  cases cs with
  | nil => rfl
  | cons d rest => rw [unescape, if_neg fun hc => h hc.1]

theorem unescape_tilde_of_ne {d mark : Point} (h : d ≠ mark) (meant : Point) (cs : List Point) :
    unescape mark meant (.char '~' :: d :: cs) = .char '~' :: unescape mark meant (d :: cs) := by
  rw [unescape, if_neg fun hd => h hd.2]

theorem unescape_tilde (mark meant : Point) (cs : List Point) :
    unescape mark meant (.char '~' :: mark :: cs) = meant :: unescape mark meant cs := by
  rw [unescape, if_pos ⟨rfl, rfl⟩]

/-- A text is not decoded to nothing. -/
theorem exists_unescape_cons (mark meant c : Point) (cs : List Point) :
    ∃ d ds, unescape mark meant (c :: cs) = d :: ds := by
  cases cs with
  | nil => exact ⟨c, [], rfl⟩
  | cons d rest =>
    rw [unescape]
    split <;> exact ⟨_, _, rfl⟩

/-- Decoding leaves a text without an escape as it is, and makes one with an escape shorter. -/
theorem unescape_eq_self_or_lt (mark meant : Point) (cs : List Point) :
    occursIn [.char '~', mark] cs = false ∧ unescape mark meant cs = cs ∨
      occursIn [.char '~', mark] cs = true ∧ (unescape mark meant cs).length < cs.length := by
  fun_induction unescape mark meant cs with
  | case1 => exact Or.inl ⟨rfl, rfl⟩
  | case2 c => exact Or.inl ⟨by simp [occursIn, List.isPrefixOf], rfl⟩
  | case3 c d rest hescape ih =>
    obtain ⟨rfl, rfl⟩ := hescape
    refine Or.inr ⟨by simp [occursIn, List.isPrefixOf], ?_⟩
    rw [List.length_cons, List.length_cons, List.length_cons]
    rcases ih with ⟨-, hsame⟩ | ⟨-, hlt⟩
    · rw [hsame]
      omega
    · omega
  | case4 c d rest hne ih =>
    have hprefix : [.char '~', mark].isPrefixOf (c :: d :: rest) = false := by
      simp only [List.isPrefixOf, Bool.and_true]
      rw [Bool.and_eq_false_iff, beq_eq_false_iff_ne, beq_eq_false_iff_ne]
      by_cases hc : c = '~'
      · exact Or.inr fun hd => hne ⟨hc, hd.symm⟩
      · exact Or.inl fun hc' => hc hc'.symm
    rw [occursIn, hprefix, Bool.false_or]
    rcases ih with ⟨hnone, hsame⟩ | ⟨hoccurs, hlt⟩
    · exact Or.inl ⟨hnone, by rw [hsame]⟩
    · exact Or.inr ⟨hoccurs, Nat.succ_lt_succ hlt⟩

theorem length_unescape_le (mark meant : Point) (cs : List Point) :
    (unescape mark meant cs).length ≤ cs.length := by
  rcases unescape_eq_self_or_lt mark meant cs with ⟨-, hsame⟩ | ⟨-, hlt⟩
  · rw [hsame]
  · exact Nat.le_of_lt hlt

theorem unescape_of_occursIn_eq_false {mark meant : Point} {cs : List Point}
    (h : occursIn [.char '~', mark] cs = false) : unescape mark meant cs = cs := by
  rcases unescape_eq_self_or_lt mark meant cs with ⟨-, hsame⟩ | ⟨hoccurs, -⟩
  · exact hsame
  · cases h.symm.trans hoccurs

/-- A text is left as it is when it is not made shorter. -/
theorem unescape_eq_self_of_length_le {mark meant : Point} {cs : List Point}
    (h : cs.length ≤ (unescape mark meant cs).length) :
    occursIn [.char '~', mark] cs = false ∧ unescape mark meant cs = cs :=
  (unescape_eq_self_or_lt mark meant cs).resolve_right fun hlt => Nat.not_lt_of_le h hlt.2

theorem decodeToken_cons {c : Point} (h : c ≠ '~') (token : List Point) :
    decodeToken (c :: token) = c :: decodeToken token := by
  rw [decodeToken, decodeSlashes, unescape_cons h, decodeTildes, unescape_cons h]
  rfl

/-- The escape of a tilde stands for one. -/
theorem decodeToken_tilde (token : List Point) :
    decodeToken (.char '~' :: .char '0' :: token) = .char '~' :: decodeToken token := by
  rw [decodeToken, decodeSlashes, unescape_tilde_of_ne (by decide), unescape_cons (by decide),
    decodeTildes, unescape_tilde]
  rfl

theorem decodeToken_slash (token : List Point) :
    decodeToken (.char '~' :: .char '1' :: token) = .char '/' :: decodeToken token := by
  rw [decodeToken, decodeSlashes, unescape_tilde, decodeTildes, unescape_cons (by decide)]
  rfl

/-- A text with neither of the two escapes. -/
def HasNoEscape (cs : List Point) : Prop :=
  occursIn [.char '~', .char '1'] cs = false ∧ occursIn [.char '~', .char '0'] cs = false

theorem length_decodeToken_le (token : List Point) :
    (decodeToken token).length ≤ token.length := by
  rw [decodeToken, decodeTildes, decodeSlashes]
  exact Nat.le_trans (length_unescape_le _ _ _) (length_unescape_le _ _ _)

/-- Decoding leaves a token as it is exactly if there is no escape in it. -/
theorem decodeToken_eq_self_iff (token : List Point) :
    decodeToken token = token ↔ HasNoEscape token := by
  rw [decodeToken, decodeTildes, decodeSlashes]
  constructor
  · intro h
    have hlength := congrArg List.length h
    have htildes := length_unescape_le '0' '~' (unescape '1' '/' token)
    have hkept : token.length ≤ (unescape '1' '/' token).length := by omega
    obtain ⟨hslashes, hkeep⟩ := unescape_eq_self_of_length_le hkept
    rw [hkeep] at hlength
    exact ⟨hslashes, (unescape_eq_self_of_length_le (Nat.le_of_eq hlength.symm)).1⟩
  · rintro ⟨hslashes, htildes⟩
    rw [unescape_of_occursIn_eq_false hslashes, unescape_of_occursIn_eq_false htildes]

/-- A token is left as it is when it is not made shorter. -/
theorem decodeToken_eq_self_of_length_le {token : List Point}
    (h : token.length ≤ (decodeToken token).length) : decodeToken token = token := by
  rw [decodeToken, decodeTildes, decodeSlashes] at h ⊢
  have htildes := length_unescape_le '0' '~' (unescape '1' '/' token)
  have hkept : token.length ≤ (unescape '1' '/' token).length := by omega
  obtain ⟨-, hslashes⟩ := unescape_eq_self_of_length_le hkept
  rw [hslashes] at h ⊢
  exact (unescape_eq_self_of_length_le h).2

/-! ## References to component schemas -/

/-- A name without a slash and without an escape. -/
def IsPlainName (name : Text) : Prop :=
  .char '/' ∉ name.toList ∧ HasNoEscape name.toList

/-- The name that a reference to a component schema means is what decoding makes of the part after
the last slash. -/
theorem declarationName_toSchema (name : Text) :
    declarationName (toSchema name)
      = Text.ofList (decodeToken (lastSegment '/' name.toList)) := by
  have hlist : (toSchema name).toList = schemasPath.toList ++ .char '/' :: name.toList := by
    rw [toSchema, Text.toList_append, Text.toList_append, List.append_assoc]
    rfl
  rw [declarationName, hlist, lastSegment_append]

/-- A reference to a component schema keeps its name exactly if the name is plain. -/
theorem declarationName_toSchema_iff (name : Text) :
    declarationName (toSchema name) = name ↔ IsPlainName name := by
  rw [declarationName_toSchema]
  constructor
  · intro h
    have htoken : decodeToken (lastSegment '/' name.toList) = name.toList := by
      have hlist := congrArg Text.toList h
      rw [Text.toList_ofList] at hlist
      exact hlist
    have hlast : lastSegment '/' name.toList = name.toList := by
      have hdecoded := length_decodeToken_le (lastSegment '/' name.toList)
      rw [htoken] at hdecoded
      have hsuffix := lastSegment_suffix '/' name.toList
      exact hsuffix.eq_of_length (Nat.le_antisymm hsuffix.length_le hdecoded)
    rw [hlast, decodeToken_eq_self_iff] at htoken
    refine ⟨?_, htoken⟩
    rw [← hlast]
    exact notMem_lastSegment '/' name.toList
  · rintro ⟨hslash, hescape⟩
    rw [lastSegment_of_notMem hslash, (decodeToken_eq_self_iff _).2 hescape, Text.ofList_toList]

end Reference

end SchemaCodecs
