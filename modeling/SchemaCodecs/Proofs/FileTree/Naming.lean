/-
# Names that no file has

The name of a directory or file has an encoding, in which a lone surrogate can stand for a byte that
belongs to no character, and it is without the character NUL.  On the way along a path the first name
that is none counts.

* `Misnamed` : what is wrong with a name;
* `FirstMisnamed` : what is wrong with the first name on a path that no file has;
* `findSome?_eq_some_iff` : it is what the names of a path are searched for.
-/
import Mathlib.Data.List.Basic
import SchemaCodecs.FileTree.Path

namespace SchemaCodecs

/-- What is wrong with a name that no directory or file has. -/
inductive Misnamed (name : Text) : NameFault → Prop where
  /-- A lone surrogate in it stands for no byte. -/
  | unencodable {k : Fin 0x800} (lone : .lone k ∈ name.toList)
      (foreign : k.val < 0x480 ∨ 0x500 ≤ k.val) : Misnamed name .unencodable
  /-- It has an encoding, but the character NUL is in it. -/
  | nul (bytes : ∀ k : Fin 0x800, .lone k ∈ name.toList → 0x480 ≤ k.val ∧ k.val < 0x500)
      (nul : .char '\x00' ∈ name.toList) : Misnamed name .nul

/-- A text is made of code points that can stand in the name of a file. -/
theorem all_isNameable_iff (text : Text) : text.toList.all Point.isNameable = true ↔
    ∀ k : Fin 0x800, .lone k ∈ text.toList → 0x480 ≤ k.val ∧ k.val < 0x500 := by
  rw [List.all_eq_true]
  constructor
  · intro h k hk
    simpa [Point.isNameable] using h _ hk
  · intro h c hc
    cases c with
    | char c => rfl
    | lone k => simpa [Point.isNameable] using h k hc

namespace NameFault

variable {names : List Text} {name : Text} {cause : NameFault}

/-- A name is tested for what can be wrong with it. -/
theorem of?_eq_some_iff : of? name = some cause ↔ Misnamed name cause := by
  rw [of?]
  by_cases bytes : name.toList.all Point.isNameable = true
  · rw [if_neg (by simpa using bytes)]
    have hbytes := (all_isNameable_iff name).1 bytes
    constructor
    · intro h
      split at h
      · next hnul =>
        obtain rfl := Option.some.inj h
        exact .nul hbytes (List.contains_iff_mem.1 hnul)
      · cases h
    · intro h
      cases h with
      | @unencodable k lone foreign =>
        have hk := hbytes k lone
        omega
      | nul _ nul => rw [if_pos (List.contains_iff_mem.2 nul)]
  · rw [if_pos (by simpa using bytes)]
    constructor
    · intro h
      obtain rfl := Option.some.inj h
      rw [all_isNameable_iff] at bytes
      push Not at bytes
      obtain ⟨k, hk, hforeign⟩ := bytes
      refine .unencodable hk ?_
      omega
    · intro h
      cases h with
      | unencodable => rfl
      | nul hbytes _ => exact absurd ((all_isNameable_iff name).2 hbytes) bytes

theorem of?_eq_none_iff : of? name = none ↔ ∀ cause, ¬ Misnamed name cause := by
  simp only [← of?_eq_some_iff, Option.eq_none_iff_forall_ne_some, ne_eq]

/-- What is wrong with the first of some names that no file has. -/
def FirstMisnamed (names : List Text) (cause : NameFault) : Prop :=
  ∃ front name back, names = front ++ name :: back ∧
    (∀ other ∈ front, ∀ cause, ¬ Misnamed other cause) ∧ Misnamed name cause

/-- Names are searched for the first one that no file has. -/
theorem findSome?_eq_some_iff : names.findSome? of? = some cause ↔ FirstMisnamed names cause := by
  rw [List.findSome?_eq_some_iff]
  constructor
  · rintro ⟨front, name, back, rfl, hname, hfront⟩
    exact ⟨front, name, back, rfl, fun other hother => of?_eq_none_iff.1 (hfront other hother),
      of?_eq_some_iff.1 hname⟩
  · rintro ⟨front, name, back, rfl, hfront, hname⟩
    exact ⟨front, name, back, rfl, of?_eq_some_iff.2 hname,
      fun other hother => of?_eq_none_iff.2 (hfront other hother)⟩

end NameFault

open NameFault

end SchemaCodecs
