/-
# Entries under keys

What is found under a key of a mapping after its values were changed, or an entry was added, put in
place of another one or left out.

* `get?_map` : values that are changed;
* `get?_put_self`, `get?_put_of_ne` : a value that is put under a key;
* `put_eq_map` : it takes the place of the one that was there;
* `get?_append_comm` : the order of entries does not matter if no key is repeated.
-/
import SchemaCodecs.Proofs.Value.Sameness

namespace SchemaCodecs.Entries

open Value (KeysApart)

/-! ## Changing values -/

theorem lookup_map (change : Scalar × Value → Value) (key : Scalar) (entries : Entries) :
    lookup key (entries.map fun entry => (entry.1, change entry))
      = (entries.find? fun entry => entry.1.same key).map change := by
  rw [lookup, List.find?_map, Option.map_map]
  rfl

/-- What is found under a key is changed like all values under this key. -/
theorem get?_map {key : Text} {change : Scalar × Value → Value} {f : Value → Value}
    (h : ∀ v, change (.text key, v) = f v) (entries : Entries) :
    get? key (entries.map fun entry => (entry.1, change entry)) = (get? key entries).map f := by
  rw [get?, get?, lookup_map, lookup, Option.map_map]
  refine Option.map_congr fun entry hentry => ?_
  obtain ⟨own, v⟩ := entry
  obtain rfl := (Scalar.same_text_iff own key).1 (by simpa using List.find?_some hentry)
  exact h v

@[simp] theorem hasKey_map (change : Scalar × Value → Value) (key : Text) (entries : Entries) :
    hasKey key (entries.map fun entry => (entry.1, change entry)) = hasKey key entries := by
  rw [hasKey, hasKey, get?, get?, lookup_map, lookup, Option.isSome_map, Option.isSome_map]

/-- A change that keeps which values count as true can be made before or after choosing those. -/
theorem bind_truthy?_map {f : Value → Value} (h : ∀ v, (f v).isTruthy = v.isTruthy)
    (found : Option Value) : (found.map f).bind Value.truthy? = (found.bind Value.truthy?).map f := by
  cases found with
  | none => rfl
  | some v =>
    rw [Option.map_some, Option.bind_some, Option.bind_some, Value.truthy?, Value.truthy?, h]
    split <;> rfl

/-! ## Adding and putting -/

theorem get?_cons_of_ne {key : Text} {other : Scalar} (h : other ≠ .text key) (v : Value)
    (entries : Entries) : get? key ((other, v) :: entries) = get? key entries := by
  have hsame : other.same (.text key) = false := (Scalar.same_text_eq_false_iff _ _).2 h
  simp only [get?, lookup, List.find?_cons, hsame]

@[simp] theorem get?_cons_self (key : Text) (v : Value) (entries : Entries) :
    get? key ((.text key, v) :: entries) = some v := by
  simp only [get?, lookup, List.find?_cons, Scalar.same_refl, Option.map_some]

theorem get?_singleton_of_ne {key other : Text} (hne : key ≠ other) (v : Value) :
    get? other [(.text key, v)] = none :=
  get?_cons_of_ne (fun h => hne (Scalar.text.inj h)) v []

@[simp] theorem get?_put_self (key : Text) (v : Value) (entries : Entries) :
    get? key (put (.text key) v entries) = some v := by
  induction entries with
  | nil => exact get?_cons_self key v []
  | cons entry rest ih =>
    rw [put]
    split
    · next hsame =>
      rw [(Scalar.same_text_iff _ _).1 hsame]
      exact get?_cons_self key v rest
    · next hsame =>
      rw [get?_cons_of_ne fun h => hsame ((Scalar.same_text_iff _ _).2 h), ih]

/-- Putting a value under a key leaves those under other keys. -/
theorem get?_put_of_ne {key other : Text} (hne : key ≠ other) (v : Value) (entries : Entries) :
    get? other (put (.text key) v entries) = get? other entries := by
  have hkey : Scalar.text key ≠ .text other := fun h => hne (Scalar.text.inj h)
  induction entries with
  | nil => exact get?_cons_of_ne hkey v []
  | cons entry rest ih =>
    obtain ⟨own, w⟩ := entry
    rw [put]
    split
    · next hsame =>
      obtain rfl := (Scalar.same_text_iff _ _).1 hsame
      rw [get?_cons_of_ne hkey, get?_cons_of_ne hkey]
    · by_cases hentry : own = .text other
      · subst hentry
        rw [get?_cons_self, get?_cons_self]
      · rw [get?_cons_of_ne hentry, get?_cons_of_ne hentry, ih]

/-- An entry after a value has been put has this value or was there before. -/
theorem mem_put {key : Scalar} {v : Value} {entries : Entries} {entry : Scalar × Value}
    (h : entry ∈ put key v entries) : entry.2 = v ∨ entry ∈ entries := by
  induction entries with
  | nil =>
    obtain rfl := List.mem_singleton.1 h
    exact Or.inl rfl
  | cons first rest ih =>
    rw [put] at h
    split at h
    · rcases List.mem_cons.1 h with rfl | h
      · exact Or.inl rfl
      · exact Or.inr (List.mem_cons_of_mem _ h)
    · rcases List.mem_cons.1 h with rfl | h
      · exact Or.inr List.mem_cons_self
      · exact (ih h).imp_right (List.mem_cons_of_mem _)

@[simp] theorem get?_append (key : Text) (entries others : Entries) :
    get? key (entries ++ others) = (get? key entries).or (get? key others) := by
  rw [get?, get?, get?, lookup, lookup, lookup, List.find?_append, Option.map_or]

/-! ## Leaving out -/

section Filter

variable {key : Text} {p : Scalar × Value → Bool}

/-- What is found under a key is still found there if no entry with this key is left out. -/
theorem get?_filter (h : ∀ v, p (.text key, v) = true) (entries : Entries) :
    get? key (entries.filter p) = get? key entries := by
  induction entries with
  | nil => rfl
  | cons entry rest ih =>
    obtain ⟨own, v⟩ := entry
    by_cases hown : own = .text key
    · subst hown
      rw [List.filter_cons_of_pos (h v), get?_cons_self, get?_cons_self]
    · rw [List.filter_cons, get?_cons_of_ne hown]
      split
      · rw [get?_cons_of_ne hown, ih]
      · exact ih

theorem get?_filter_eq_none (h : ∀ v, p (.text key, v) = false) (entries : Entries) :
    get? key (entries.filter p) = none := by
  rw [get?, lookup, Option.map_eq_none_iff, List.find?_eq_none]
  rintro ⟨own, v⟩ hmem hown
  obtain rfl := (Scalar.same_text_iff own key).1 hown
  exact Bool.false_ne_true ((h v).symm.trans (List.mem_filter.1 hmem).2)

end Filter

/-! ## Entries without repetitions -/

variable {key : Text} {v : Value} {entries : Entries}

theorem same_eq_false_of_get? (h : get? key entries = none) {entry : Scalar × Value}
    (hentry : entry ∈ entries) : entry.1.same (.text key) = false := by
  rw [get?, lookup, Option.map_eq_none_iff, List.find?_eq_none] at h
  exact Bool.eq_false_iff.2 (h entry hentry)

theorem eq_of_get? (apart : KeysApart entries) (h : get? key entries = some v)
    {entry : Scalar × Value} (hentry : entry ∈ entries)
    (hkey : entry.1.same (.text key) = true) : entry.2 = v := by
  have hfound := apart.lookup_eq hentry
  rw [(Scalar.same_text_iff _ _).1 hkey] at hfound
  exact Option.some.inj (hfound.symm.trans h)

/-- If no key is repeated, a key of the entries behind is not one of those in front. -/
theorem get?_eq_none_of_append {others : Entries} (apart : KeysApart (entries ++ others))
    (h : get? key others = some v) : get? key entries = none := by
  cases hfront : get? key entries with
  | none => rfl
  | some w =>
    have hdiffer := (List.pairwise_append.1 apart).2.2 _ (Value.mem_of_get? hfront) _
      (Value.mem_of_get? h)
    rw [Scalar.same_refl] at hdiffer
    cases hdiffer

theorem get?_append_comm {others : Entries} (apart : KeysApart (entries ++ others)) (key : Text) :
    get? key (entries ++ others) = (get? key others).or (get? key entries) := by
  rw [get?_append]
  cases hback : get? key others with
  | none => rw [Option.or_none, Option.none_or]
  | some v => rw [get?_eq_none_of_append apart hback, Option.none_or, Option.or_none]

/-- A value that is put under a key of some entries changes the entry with this key. -/
theorem put_eq_map (apart : KeysApart entries) {own : Value} (h : get? key entries = some own) :
    put (.text key) v entries
      = entries.map fun entry => if entry.1.same (.text key) then (entry.1, v) else entry := by
  induction entries with
  | nil => cases h
  | cons entry rest ih =>
    obtain ⟨hfirst, hrest⟩ := List.pairwise_cons.1 apart
    rw [put, List.map_cons]
    split
    · next hsame =>
      -- No other entry has the key.
      refine congrArg _ ((List.map_id rest).symm.trans (List.map_congr_left fun other hother => ?_))
      have hother := hfirst other hother
      rw [(Scalar.same_text_iff _ _).1 hsame, Scalar.same_comm] at hother
      rw [if_neg (by simp [hother])]
      rfl
    · next hsame =>
      rw [get?_cons_of_ne fun heq => hsame ((Scalar.same_text_iff _ _).2 heq)] at h
      rw [ih hrest h]

end SchemaCodecs.Entries
