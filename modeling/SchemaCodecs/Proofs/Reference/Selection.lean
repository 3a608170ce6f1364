/-
# What a pointer selects

A pointer spells a list of keys, each behind a slash, with `~0` for a tilde and `~1` for a slash.  Key
by key it selects a part of a document: the value under the key in a mapping, or the item of a
sequence at the place that the key gives as a numeral.  Following a pointer finds this part, with two
exceptions: of several slashes in front only one is read, and a sequence also takes other spellings of
integers, negative ones too, for places in it.

* `Writes`, `Selects` : the keys that a pointer spells, and the part that keys select;
* `resolvePointer_of_selects` : what is selected is found;
* `Strays` : a spelling that is none of a place leads on all the same;
* `conforms_resolvePointer_iff` : when following a pointer conforms to this evaluation.
-/
import SchemaCodecs.Proofs.Number.Numeral
import SchemaCodecs.Proofs.Reference.Decoding
import SchemaCodecs.Proofs.Value.Sameness
import SchemaCodecs.Reference.Pointer

namespace SchemaCodecs

/-! ## Segments -/

namespace Text

variable {separator : Point} {token : List Point}

/-- A text without the separator is its only segment. -/
theorem segments_of_notMem (h : separator ∉ token) : segments separator token = [token] := by
  induction token with
  | nil => rfl
  | cons c rest ih =>
    obtain ⟨hc, hrest⟩ := not_or.1 (mt List.mem_cons.2 h)
    have hne : (c == separator) = false := beq_eq_false_iff_ne.2 fun heq => hc heq.symm
    rw [segments, hne, ih hrest]
    rfl

/-- The text before the first separator is the first segment. -/
theorem segments_append (h : separator ∉ token) (rest : List Point) :
    segments separator (token ++ separator :: rest) = token :: segments separator rest := by
  induction token with
  | nil => simp [segments]
  | cons c front ih =>
    obtain ⟨hc, hfront⟩ := not_or.1 (mt List.mem_cons.2 h)
    have hne : (c == separator) = false := beq_eq_false_iff_ne.2 fun heq => hc heq.symm
    rw [List.cons_append, segments, hne, ih hfront]
    rfl

end Text

namespace Reference

open Number Text

/-! ## Spelling keys -/

/-- A token spells a key: a tilde is written `~0`, a slash `~1`, and any other character as it is. -/
inductive Spells : List Point → List Point → Prop where
  /-- The empty key. -/
  | nil : Spells [] []
  /-- A character other than tilde and slash. -/
  | plain {c : Point} {token key : List Point} (tilde : c ≠ '~') (slash : c ≠ '/')
      (rest : Spells token key) : Spells (c :: token) (c :: key)
  /-- A tilde. -/
  | tilde {token key : List Point} (rest : Spells token key) :
      Spells (.char '~' :: .char '0' :: token) (.char '~' :: key)
  /-- A slash. -/
  | slash {token key : List Point} (rest : Spells token key) :
      Spells (.char '~' :: .char '1' :: token) (.char '/' :: key)

/-- A pointer spells some keys, each behind a slash. -/
inductive Writes : List Text → List Point → Prop where
  /-- The empty pointer. -/
  | nil : Writes [] []
  /-- One more key in front. -/
  | cons {key : Text} {keys : List Text} {token pointer : List Point}
      (spelled : Spells token key.toList) (rest : Writes keys pointer) :
      Writes (key :: keys) (.char '/' :: (token ++ pointer))

/-- A token is decoded to the key it spells. -/
theorem decodeToken_of_spells {token key : List Point} (h : Spells token key) :
    decodeToken token = key := by
  induction h with
  | nil => rfl
  | plain tilde slash _ ih => rw [decodeToken_cons tilde, ih]
  | tilde _ ih => rw [decodeToken_tilde, ih]
  | slash _ ih => rw [decodeToken_slash, ih]

/-- There is no slash in a token. -/
theorem slash_notMem_of_spells {token key : List Point} (h : Spells token key) : .char '/' ∉ token := by
  induction h with
  | nil => exact List.not_mem_nil
  | plain _ slash _ ih => simp [ih, Ne.symm slash]
  | tilde _ ih | slash _ ih => simp [ih]

/-- A key with neither tildes nor slashes spells itself. -/
theorem spells_self {key : List Point} (tilde : .char '~' ∉ key) (slash : .char '/' ∉ key) :
    Spells key key := by
  induction key with
  | nil => exact .nil
  | cons c rest ih =>
    obtain ⟨hc, hrest⟩ := not_or.1 (mt List.mem_cons.2 tilde)
    obtain ⟨hc', hrest'⟩ := not_or.1 (mt List.mem_cons.2 slash)
    exact .plain (Ne.symm hc) (Ne.symm hc') (ih hrest hrest')

theorem Writes.plain {key : Text} {keys : List Text} {pointer : List Point}
    (tilde : .char '~' ∉ key.toList) (slash : .char '/' ∉ key.toList) (rest : Writes keys pointer) :
    Writes (key :: keys) (.char '/' :: (key.toList ++ pointer)) :=
  .cons (spells_self tilde slash) rest

/-- The segments of a pointer behind its first slash are decoded to its keys. -/
theorem map_decodeToken_segments {token key pointer : List Point} {keys : List Text}
    (spelled : Spells token key) (rest : Writes keys pointer) :
    (segments '/' (token ++ pointer)).map decodeToken = key :: keys.map Text.toList := by
  have hslash := slash_notMem_of_spells spelled
  induction rest generalizing token key with
  | nil =>
    rw [List.append_nil, segments_of_notMem hslash, List.map_singleton,
      decodeToken_of_spells spelled, List.map_nil]
  | cons next _ ih =>
    rw [segments_append hslash, List.map_cons, decodeToken_of_spells spelled,
      ih next (slash_notMem_of_spells next), List.map_cons]

/-- A pointer tells the keys that it spells. -/
theorem Writes.unique {keys others : List Text} {pointer : List Point} (h : Writes keys pointer)
    (hothers : Writes others pointer) : keys = others := by
  generalize hpointer : pointer = text at hothers
  cases h with
  | nil =>
    cases hothers with
    | nil => rfl
    | cons => cases hpointer
  | cons spelled rest =>
    cases hothers with
    | nil => cases hpointer
    | cons spelled' rest' =>
      have htext := (List.cons.inj hpointer).2
      have hkeys := map_decodeToken_segments spelled rest
      rw [htext, map_decodeToken_segments spelled' rest', ← List.map_cons, ← List.map_cons] at hkeys
      exact (List.map_injective_iff.2 (fun _ _ => Text.toList_inj.1) hkeys).symm

/-- A pointer that does not begin with two slashes is read as the keys that it spells. -/
theorem pointerTokens_of_writes {key : Text} {keys : List Text} {pointer : List Point}
    (h : Writes (key :: keys) pointer) (single : ¬ [.char '/', .char '/'] <+: pointer) :
    pointerTokens pointer = (key :: keys).map Text.toList := by
  cases h with
  | cons spelled rest =>
    rename_i token pointer
    have hkept : (.char '/' :: (token ++ pointer)).dropWhile (· == .char '/') = token ++ pointer := by
      rw [List.dropWhile_cons_of_pos rfl]
      cases htext : token ++ pointer with
      | nil => rfl
      | cons c text =>
        refine List.dropWhile_cons_of_neg fun hc => single ?_
        rw [htext, beq_iff_eq.1 hc]
        exact ⟨text, rfl⟩
    rw [pointerTokens, hkept, map_decodeToken_segments spelled rest, List.map_cons]

/-! ## Selecting parts -/

/-- Keys select a part of a value, one step for each key.  The place of an item is a numeral: it has
neither a sign nor a zero in front. -/
inductive Selects : List Text → Value → Value → Prop where
  /-- No key selects the whole. -/
  | here (v : Value) : Selects [] v v
  /-- The value under a key. -/
  | member {key : Text} {keys : List Text} {label : Option Nat} {entries : Entries}
      {v part : Value} (mem : (.text key, v) ∈ entries) (inside : Selects keys v part) :
      Selects (key :: keys) (.mapping label entries) part
  /-- The item at a place. -/
  | item {index : Nat} {keys : List Text} {items : List Value} {v part : Value}
      (found : items[index]? = some v) (inside : Selects keys v part) :
      Selects (Text.numeral index :: keys) (.sequence items) part

/-- The places in all sequences of a document can be written as numerals. -/
def IsAddressable (document : Value) : Prop :=
  ∀ keys items, Selects keys document (.sequence items) → items.length ≤ 10 ^ digitLimit

/-- The keys to a part and those from there select one after the other. -/
theorem Selects.append {front back : List Text} {v middle part : Value}
    (h : Selects front v middle) (hback : Selects back middle part) :
    Selects (front ++ back) v part := by
  induction h with
  | here => exact hback
  | member mem _ ih => exact .member mem (ih hback)
  | item found _ ih => exact .item found (ih hback)

/-- What is selected in two stages goes through the part between them. -/
theorem exists_of_selects_append {front back : List Text} {v part : Value}
    (h : Selects (front ++ back) v part) : ∃ middle, Selects front v middle ∧
      Selects back middle part := by
  induction front generalizing v with
  | nil => exact ⟨v, .here v, h⟩
  | cons key rest ih =>
    cases h with
    | member mem inside =>
      obtain ⟨middle, hfront, hback⟩ := ih inside
      exact ⟨middle, .member mem hfront, hback⟩
    | item found inside =>
      obtain ⟨middle, hfront, hback⟩ := ih inside
      exact ⟨middle, .item found hfront, hback⟩

/-- A part of a value without repetitions has none. -/
theorem Selects.distinct {keys : List Text} {v part : Value} (h : Selects keys v part)
    (distinct : v.Distinct) : part.Distinct := by
  induction h with
  | here => exact distinct
  | member mem _ ih =>
    cases distinct with
    | mapping _ parts => exact ih (parts _ mem)
  | item found _ ih =>
    cases distinct with
    | sequence parts => exact ih (parts _ (List.mem_of_getElem? found))

theorem Selects.isAddressable {keys : List Text} {v part : Value} (h : Selects keys v part)
    (addressable : IsAddressable v) : IsAddressable part :=
  fun others items hitems => addressable (keys ++ others) items (h.append hitems)

theorem isAddressable_scalar (s : Scalar) : IsAddressable (.scalar s) := by
  intro keys items h
  cases h

theorem isAddressable_mapping {label : Option Nat} {entries : Entries}
    (parts : ∀ entry ∈ entries, IsAddressable entry.2) :
    IsAddressable (.mapping label entries) := by
  intro keys items h
  cases h with
  | member mem inside => exact parts _ mem _ _ inside

theorem isAddressable_single {label : Option Nat} {key : Scalar} {v : Value}
    (h : IsAddressable v) : IsAddressable (.mapping label [(key, v)]) :=
  isAddressable_mapping (List.forall_mem_singleton.2 h)

/-- A sequence of addressable values is addressable if it has no more items than there are places. -/
theorem isAddressable_sequence {items : List Value} (fits : items.length ≤ 10 ^ digitLimit)
    (parts : ∀ item ∈ items, IsAddressable item) : IsAddressable (.sequence items) := by
  intro keys others h
  cases h with
  | here => exact fits
  | item found inside => exact parts _ (List.mem_of_getElem? found) _ _ inside

theorem le_places {count : Nat} (h : count ≤ 10) : count ≤ 10 ^ digitLimit :=
  Nat.le_trans h (Nat.le_self_pow (by decide) 10)

/-! ## Following keys -/

theorem selectAll?_cons (token : List Point) (tokens : List (List Point)) (v : Value) :
    selectAll? (token :: tokens) v = (select? token v).bind (selectAll? tokens) :=
  List.foldlM_cons

theorem selectAll?_append (front back : List (List Point)) (v : Value) :
    selectAll? (front ++ back) v = (selectAll? front v).bind (selectAll? back) :=
  List.foldlM_append

theorem itemAt?_natCast {α : Type} (items : List α) (index : Nat) :
    itemAt? items (index : Int) = items[index]? := by
  rw [itemAt?, if_pos (Int.natCast_nonneg index), Int.toNat_natCast]

/-- **Selected parts.**  What keys select is found when they are followed. -/
theorem selectAll?_of_selects {keys : List Text} {v part : Value} (h : Selects keys v part)
    (distinct : v.Distinct) (addressable : IsAddressable v) :
    selectAll? (keys.map Text.toList) v = some part := by
  induction h with
  | here v => rfl
  | @member key keys label entries v part mem inside ih =>
    have hstep : select? key.toList (.mapping label entries) = some v := by
      cases distinct with
      | mapping apart _ =>
        rw [select?, Text.ofList_toList]
        exact apart.lookup_eq mem
    have hone : Selects [key] (.mapping label entries) v := .member mem (.here v)
    rw [List.map_cons, selectAll?_cons, hstep]
    exact ih (hone.distinct distinct) (hone.isAddressable addressable)
  | @item index keys items v part found inside ih =>
    have hindex : index < 10 ^ digitLimit :=
      Nat.lt_of_lt_of_le (List.getElem?_eq_some_iff.1 found).1 (addressable [] items (.here _))
    have hstep : select? (Text.numeral index).toList (.sequence items) = some v := by
      rw [select?, integerOfText?_numeral, if_pos hindex, Option.bind_some, itemAt?_natCast, found]
    have hone : Selects [Text.numeral index] (.sequence items) v := .item found (.here v)
    rw [List.map_cons, selectAll?_cons, hstep]
    exact ih (hone.distinct distinct) (hone.isAddressable addressable)

/-- A pointer with a key is followed through its tokens. -/
theorem resolvePointer_of_writes {key : Text} {keys : List Text} {pointer : Text}
    (written : Writes (key :: keys) pointer.toList) (document : Value) (ref : Text) :
    resolvePointer document pointer ref
      = match selectAll? (pointerTokens pointer.toList) document with
        | some part => .ok part
        | none => .error (.document (.unresolved ref)) := by
  rw [resolvePointer, alongPointer]
  generalize pointer.toList = text at written
  cases written with
  | cons => rfl

/-- What a pointer selects is found, if it does not begin with two slashes. -/
theorem resolvePointer_of_selects {key : Text} {keys : List Text} {pointer : Text}
    {document part : Value} (written : Writes (key :: keys) pointer.toList)
    (single : ¬ [.char '/', .char '/'] <+: pointer.toList) (distinct : document.Distinct)
    (addressable : IsAddressable document) (h : Selects (key :: keys) document part)
    (ref : Text) : resolvePointer document pointer ref = .ok part := by
  rw [resolvePointer_of_writes written, pointerTokens_of_writes written single,
    selectAll?_of_selects h distinct addressable]

/-! ## Places spelled otherwise -/

/-- A sequence on the way takes for a place what is no numeral of one, and the other keys lead on from
the item that it gives. -/
def Strays (document : Value) (keys : List Text) : Prop :=
  ∃ front key back items index item part, keys = front ++ key :: back ∧
    Selects front document (.sequence items) ∧ (∀ place : Nat, key ≠ Text.numeral place) ∧
      integerOfText? key.toList = some index ∧ itemAt? items index = some item ∧
        selectAll? (back.map Text.toList) item = some part

theorem Strays.cons {key : Text} {keys : List Text} {v inner : Value}
    (hone : Selects [key] v inner) (h : Strays inner keys) : Strays v (key :: keys) := by
  obtain ⟨front, other, back, items, index, item, part, rfl, hfront, hrest⟩ := h
  exact ⟨key :: front, other, back, items, index, item, part, rfl, hone.append hfront, hrest⟩

/-- What is found when keys are followed is selected, or a place was spelled otherwise. -/
theorem selects_or_strays {keys : List Text} {v part : Value}
    (h : selectAll? (keys.map Text.toList) v = some part) : Selects keys v part ∨ Strays v keys := by
  induction keys generalizing v with
  | nil =>
    cases h
    exact Or.inl (.here _)
  | cons key rest ih =>
    rw [List.map_cons, selectAll?_cons] at h
    obtain ⟨inner, hstep, hrest⟩ := Option.bind_eq_some_iff.1 h
    cases v with
    | mapping label entries =>
      rw [select?, Text.ofList_toList] at hstep
      have hmem := Value.mem_of_get? hstep
      exact (ih hrest).imp (.member hmem) (.cons (.member hmem (.here _)))
    | sequence items =>
      rw [select?] at hstep
      obtain ⟨index, hindex, hitem⟩ := Option.bind_eq_some_iff.1 hstep
      by_cases hplace : ∃ place : Nat, key = Text.numeral place
      · obtain ⟨place, rfl⟩ := hplace
        rw [integerOfText?_numeral] at hindex
        split at hindex
        · obtain rfl := Option.some.inj hindex
          rw [itemAt?_natCast] at hitem
          exact (ih hrest).imp (.item hitem) (.cons (.item hitem (.here inner)))
        · cases hindex
      · push Not at hplace
        exact Or.inr ⟨[], key, rest, items, index, inner, part, rfl, .here _, hplace, hindex, hitem,
          hrest⟩
    | _ => cases hstep

/-- Who strays finds something although nothing is selected. -/
theorem Strays.exists_found {keys : List Text} {v : Value} (h : Strays v keys)
    (distinct : v.Distinct) (addressable : IsAddressable v) :
    (∃ part, selectAll? (keys.map Text.toList) v = some part) ∧ ∀ part, ¬ Selects keys v part := by
  obtain ⟨front, key, back, items, index, item, part, rfl, hfront, hkey, hindex, hitem, hback⟩ := h
  have hfound := selectAll?_of_selects hfront distinct addressable
  refine ⟨⟨part, ?_⟩, fun other hother => ?_⟩
  · rw [List.map_append, selectAll?_append, hfound, Option.bind_some, List.map_cons, selectAll?_cons,
      select?, hindex, Option.bind_some, hitem, Option.bind_some, hback]
  · -- The keys in front lead to this sequence only, and it has no such place.
    obtain ⟨middle, hmiddle, hrest⟩ := exists_of_selects_append hother
    have hsame := selectAll?_of_selects hmiddle distinct addressable
    rw [hfound, Option.some.injEq] at hsame
    subst hsame
    cases hrest with
    | item => exact hkey _ rfl

/-! ## Conforming -/

/-- An outcome conforms to the evaluation of a pointer: it is the part that the keys select, or the
fault that the reference cannot be resolved if they select none. -/
structure Conforms (document : Value) (keys : List Text) (ref : Text)
    (outcome : Except Fault Value) : Prop where
  /-- A part is given just when it is selected. -/
  selects : ∀ part, outcome = .ok part ↔ Selects keys document part
  /-- Otherwise the fault names the reference. -/
  fails : ∀ fault, outcome = .error fault → fault = .document (.unresolved ref)

/-- Following the tokens of keys conforms if no place is spelled otherwise. -/
theorem conforms_iff_not_strays {key : Text} {keys : List Text} {pointer : Text}
    {document : Value} (written : Writes (key :: keys) pointer.toList)
    (single : ¬ [.char '/', .char '/'] <+: pointer.toList) (distinct : document.Distinct)
    (addressable : IsAddressable document) (ref : Text) :
    Conforms document (key :: keys) ref (resolvePointer document pointer ref)
      ↔ ¬ Strays document (key :: keys) := by
  rw [resolvePointer_of_writes written, pointerTokens_of_writes written single]
  constructor
  · intro conforms strays
    obtain ⟨⟨part, hpart⟩, hnone⟩ := strays.exists_found distinct addressable
    rw [hpart] at conforms
    exact hnone part ((conforms.selects part).1 rfl)
  · intro straight
    cases hfound : selectAll? ((key :: keys).map Text.toList) document with
    | some part =>
      have hpart : Selects (key :: keys) document part :=
        (selects_or_strays hfound).resolve_right straight
      refine ⟨fun other => ⟨fun heq => Except.ok.inj heq ▸ hpart, fun hother => ?_⟩, by simp⟩
      rw [selectAll?_of_selects hother distinct addressable] at hfound
      exact congrArg Except.ok (Option.some.inj hfound).symm
    | none =>
      refine ⟨fun other => ⟨fun heq => (by cases heq), fun hother => ?_⟩, by simp⟩
      rw [selectAll?_of_selects hother distinct addressable] at hfound
      cases hfound

/-! ## Pointers that begin with two slashes -/

/-- Mappings inside one another, with one of some keys each. -/
def nested : List Text → Value
  | [] => .null
  | key :: keys => .table [(.text key, nested keys)]

theorem selects_nested : ∀ keys : List Text, Selects keys (nested keys) .null
  | [] => .here _
  | _ :: keys => .member List.mem_cons_self (selects_nested keys)

theorem distinct_nested : ∀ keys : List Text, (nested keys).Distinct
  | [] => .scalar _
  | _ :: keys => .single (distinct_nested keys)

theorem isAddressable_nested : ∀ keys : List Text, IsAddressable (nested keys)
  | [] => isAddressable_scalar _
  | _ :: keys => isAddressable_single (isAddressable_nested keys)

theorem decodeToken_ne_nil (c : Point) (cs : List Point) : decodeToken (c :: cs) ≠ [] := by
  obtain ⟨d, ds, hd⟩ := exists_unescape_cons '1' '/' c cs
  obtain ⟨e, es, he⟩ := exists_unescape_cons '0' '~' d ds
  rw [decodeToken, decodeSlashes, hd, decodeTildes, he]
  exact List.cons_ne_nil e es

/-- The first token of a pointer is not empty unless it is the only one. -/
theorem pointerTokens_eq_or (pointer : List Point) :
    pointerTokens pointer = [[]] ∨
      ∃ token tokens, pointerTokens pointer = token :: tokens ∧ token ≠ [] := by
  rw [pointerTokens]
  cases hkept : pointer.dropWhile (· == .char '/') with
  | nil => exact Or.inl rfl
  | cons c rest =>
    have hc : (c == '/') = false := by
      have hhead := List.head?_dropWhile_not (· == .char '/') pointer
      rw [hkept] at hhead
      simpa using hhead
    refine Or.inr ?_
    rw [segments, hc]
    cases segments '/' rest with
    | nil => exact ⟨_, _, rfl, decodeToken_ne_nil c []⟩
    | cons part parts => exact ⟨_, _, rfl, decodeToken_ne_nil c part⟩

/-- A pointer that begins with two slashes spells an empty key in front of another one. -/
theorem exists_keys_of_double {keys : List Text} {pointer : List Point}
    (written : Writes keys pointer) (double : [.char '/', .char '/'] <+: pointer) :
    ∃ key others, keys = ("" : Text) :: key :: others := by
  obtain ⟨text, htext⟩ := double
  cases written with
  | nil => cases htext
  | @cons first rest token pointer spelled written =>
    have hbehind : .char '/' :: text = token ++ pointer := (List.cons.inj htext).2
    cases token with
    | cons c token =>
      have hslash := slash_notMem_of_spells spelled
      rw [(List.cons.inj hbehind).1] at hslash
      exact absurd List.mem_cons_self hslash
    | nil =>
      generalize hfirst : first.toList = chars at spelled
      cases spelled
      obtain rfl : first = "" := Text.toList_inj.1 hfirst
      cases written with
      | nil => cases hbehind
      | cons => exact ⟨_, _, rfl⟩

/-- The innermost of the mappings is not found by a pointer that begins with two slashes. -/
theorem not_conforms_nested {key : Text} {keys : List Text} {pointer : Text}
    (written : Writes ("" :: key :: keys) pointer.toList) (ref : Text) :
    ¬ Conforms (nested ("" :: key :: keys)) ("" :: key :: keys) ref
      (resolvePointer (nested ("" :: key :: keys)) pointer ref) := by
  intro conforms
  have hfound := (conforms.selects .null).2 (selects_nested _)
  rw [resolvePointer_of_writes written] at hfound
  rcases pointerTokens_eq_or pointer.toList with htokens | ⟨token, tokens, htokens, hgiven⟩
  · -- Only one of the empty keys is read.
    rw [htokens, selectAll?_cons] at hfound
    cases hfound
  · have hmissing : select? token (nested ("" :: key :: keys)) = none := by
      have hne : Scalar.text "" ≠ .text (Text.ofList token) := by
        intro heq
        have hempty : [] = (Text.ofList token).toList := congrArg Text.toList (Scalar.text.inj heq)
        rw [Text.toList_ofList] at hempty
        exact hgiven hempty.symm
      have hsame := (Scalar.same_text_eq_false_iff _ _).2 hne
      simp only [nested, select?, Entries.get?, Entries.lookup, List.find?_cons, hsame,
        List.find?_nil, Option.map_none]
    rw [htokens, selectAll?_cons, hmissing] at hfound
    cases hfound

/-- **Pointers.**  Following a pointer that does not begin with two slashes conforms to its evaluation
just when no sequence on the way takes for a place what is no numeral of one.  A pointer that begins
with two slashes does not conform on all documents. -/
theorem conforms_resolvePointer_iff {keys : List Text} {pointer : Text}
    (written : Writes keys pointer.toList) (given : pointer ≠ "") (ref : Text) :
    (¬ [.char '/', .char '/'] <+: pointer.toList → ∀ document : Value, document.Distinct →
      IsAddressable document →
        (Conforms document keys ref (resolvePointer document pointer ref)
          ↔ ¬ Strays document keys)) ∧
    ([.char '/', .char '/'] <+: pointer.toList → ∃ document : Value, document.Distinct ∧
      IsAddressable document ∧
        ¬ Conforms document keys ref (resolvePointer document pointer ref)) := by
  cases keys with
  | nil =>
    generalize hpointer : pointer.toList = text at written
    cases written
    exact absurd (Text.toList_inj.1 hpointer) given
  | cons key rest =>
    refine ⟨fun single document distinct addressable =>
      conforms_iff_not_strays written single distinct addressable ref, fun double => ?_⟩
    obtain ⟨next, others, hkeys⟩ := exists_keys_of_double written double
    rw [hkeys] at written ⊢
    exact ⟨_, distinct_nested _, isAddressable_nested _, not_conforms_nested written ref⟩

/-! ## A key that looks like a place, and a key that is empty -/

namespace LooseSlashes

/-- Steps of a plan, of which the second has a part named `-1`. -/
def plan : Value :=
  .table [(.text "a/b", .sequence [.null, .table [(.text "-1", .int 7)]])]

theorem distinct_plan : plan.Distinct := by
  have hpart : (Value.table [(.text "-1", .int 7)]).Distinct := .single (.scalar _)
  exact .single (.sequence (List.forall_mem_cons.2 ⟨.scalar _, List.forall_mem_singleton.2 hpart⟩))

/-- The plan has few steps. -/
theorem isAddressable_plan : IsAddressable plan := by
  have hpart : IsAddressable (.table [(.text "-1", .int 7)]) :=
    isAddressable_single (isAddressable_scalar _)
  refine isAddressable_single (isAddressable_sequence (le_places (by decide)) ?_)
  exact List.forall_mem_cons.2 ⟨isAddressable_scalar _, List.forall_mem_singleton.2 hpart⟩

/-- The keys to that part. -/
theorem selects_plan : Selects ["a/b", "1", "-1"] plan (.int 7) := by
  have hsteps : Selects [Text.numeral 1, "-1"]
      (.sequence [.null, .table [(.text "-1", .int 7)]]) (.int 7) :=
    .item rfl (.member List.mem_cons_self (.here _))
  exact .member List.mem_cons_self hsteps

/-- The pointer that spells them. -/
theorem writes_plan : Writes ["a/b", "1", "-1"] ("/a~1b/1/-1" : Text).toList := by
  have htext : ("/a~1b/1/-1" : Text).toList
      = .char '/' :: (.char 'a' :: .char '~' :: .char '1' :: .char 'b' :: [] ++
        .char '/' :: (("1" : Text).toList ++ .char '/' :: (("-1" : Text).toList ++ []))) := by decide
  have hspelled : Spells [.char 'a', .char '~', .char '1', .char 'b'] ("a/b" : Text).toList :=
    .plain (by decide) (by decide) (.slash (.plain (by decide) (by decide) .nil))
  rw [htext]
  exact .cons hspelled (.plain (by decide) (by decide) (.plain (by decide) (by decide) .nil))

/-- Following it conforms. -/
theorem conforms_plan : Writes ["a/b", "1", "-1"] ("/a~1b/1/-1" : Text).toList ∧ "/a~1b/1/-1" ≠ "" ∧
    ¬ [.char '/', .char '/'] <+: ("/a~1b/1/-1" : Text).toList ∧ plan.Distinct ∧ IsAddressable plan ∧
    ¬ Strays plan ["a/b", "1", "-1"] ∧
    Conforms plan ["a/b", "1", "-1"] "plan#/a~1b/1/-1"
      (resolvePointer plan "/a~1b/1/-1" "plan#/a~1b/1/-1") := by
  have straight : ¬ Strays plan ["a/b", "1", "-1"] := fun strays =>
    (strays.exists_found distinct_plan isAddressable_plan).2 _ selects_plan
  have single : ¬ [.char '/', .char '/'] <+: ("/a~1b/1/-1" : Text).toList := by decide
  exact ⟨writes_plan, by decide, single, distinct_plan, isAddressable_plan, straight,
    ((conforms_resolvePointer_iff writes_plan (by decide) _).1 single plan distinct_plan
      isAddressable_plan).2 straight⟩

/-- A part under the empty key, and another one beside it. -/
def beside : Value :=
  .table [(.text "", .table [(.text "a", .int 1)]), (.text "a", .int 2)]

theorem distinct_beside : beside.Distinct := by
  refine .mapping (by unfold Value.KeysApart; decide) ?_
  exact List.forall_mem_cons.2 ⟨.single (.scalar _), List.forall_mem_singleton.2 (.scalar _)⟩

theorem isAddressable_beside : IsAddressable beside := by
  refine isAddressable_mapping (List.forall_mem_cons.2 ⟨?_, List.forall_mem_singleton.2 ?_⟩)
  · exact isAddressable_single (isAddressable_scalar _)
  · exact isAddressable_scalar _

/-- The empty key is passed over, and the part beside it is found. -/
theorem resolvePointer_beside : beside.Distinct ∧ IsAddressable beside ∧
    Writes ["", "a"] ("//a" : Text).toList ∧ Selects ["", "a"] beside (.int 1) ∧
    resolvePointer beside "//a" "x#//a" = .ok (.int 2) ∧
    ¬ Conforms beside ["", "a"] "x#//a" (resolvePointer beside "//a" "x#//a") := by
  have hfound : resolvePointer beside "//a" "x#//a" = .ok (.int 2) := rfl
  have hselected : Selects ["", "a"] beside (.int 1) :=
    .member List.mem_cons_self (.member List.mem_cons_self (.here _))
  have hwritten : Writes ["", "a"]
      (.char '/' :: (("" : Text).toList ++ .char '/' :: (("a" : Text).toList ++ []))) :=
    .plain (by decide) (by decide) (.plain (by decide) (by decide) .nil)
  refine ⟨distinct_beside, isAddressable_beside, hwritten, hselected, hfound, fun conforms => ?_⟩
  have hother := (conforms.selects (.int 1)).2 hselected
  rw [hfound] at hother
  cases hother

end LooseSlashes

end Reference

end SchemaCodecs
