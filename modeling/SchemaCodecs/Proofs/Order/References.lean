/-
# The references of declarations

Declarations whose names are different texts can be told apart by their places.  The graph that is
sorted has a reference from one place to another just when the type of the declaration at the one
mentions the name of the declaration at the other.

* `NamedApart`, `Complete` : the declarations that can be sorted;
* `mem_next_iff` : the references of the graph.
-/
import SchemaCodecs.Order.Sort
import SchemaCodecs.Proofs.Declaration.Mention
import SchemaCodecs.Proofs.Order.Reach
import Mathlib.Data.List.Nodup

namespace SchemaCodecs.Order

variable {declarations : List Declaration}

/-! ## Declarations with different names -/

/-- Declarations whose names are texts, no two of them equal. -/
structure NamedApart (declarations : List Declaration) : Prop where
  /-- Every name is a text. -/
  text : ∀ d ∈ declarations, ∃ name, d.name = .text name
  /-- No name occurs twice. -/
  apart : (declarations.map (·.name)).Nodup

theorem text?_eq_some_iff {key : Scalar} {name : Text} :
    key.text? = some name ↔ key = .text name := by
  cases key <;> simp [Scalar.text?]

/-- The place of a name is that of a declaration of this name. -/
theorem getElem?_of_placeOf? {name : Text} {place : Nat}
    (h : placeOf? declarations name = some place) :
    ∃ d, declarations[place]? = some d ∧ d.name = .text name := by
  obtain ⟨hlt, hname, -⟩ := List.findIdx?_eq_some_iff_getElem.1 h
  refine ⟨declarations[place], List.getElem?_eq_getElem hlt, text?_eq_some_iff.1 ?_⟩
  exact beq_iff_eq.1 hname

/-- A declaration is at the place of its name. -/
theorem NamedApart.placeOf?_eq_some (h : NamedApart declarations) {place : Nat} {d : Declaration}
    (hd : declarations[place]? = some d) {name : Text} (hname : d.name = .text name) :
    placeOf? declarations name = some place := by
  obtain ⟨hlt, rfl⟩ := List.getElem?_eq_some_iff.1 hd
  refine List.findIdx?_eq_some_iff_getElem.2 ⟨hlt, ?_, fun other hother hsame => ?_⟩
  · rw [beq_iff_eq, text?_eq_some_iff]
    exact hname
  · -- An earlier declaration of the name would have the same name as this one.
    rw [beq_iff_eq, text?_eq_some_iff] at hsame
    have hbound : other < declarations.length := by omega
    have hnames : (declarations.map (·.name))[other]? = (declarations.map (·.name))[place]? := by
      rw [List.getElem?_map, List.getElem?_map, List.getElem?_eq_getElem hbound, hd,
        Option.map_some, Option.map_some, hsame, hname]
    have hplaces : other = place :=
      (List.getElem?_inj (by rwa [List.length_map]) h.apart).1 hnames
    omega

/-- Every declaration has a name. -/
theorem NamedApart.exists_nameAt? (h : NamedApart declarations) {place : Nat}
    (hplace : place < declarations.length) : ∃ name, nameAt? declarations place = some name := by
  obtain ⟨name, hname⟩ := h.text declarations[place] (List.getElem_mem hplace)
  refine ⟨name, ?_⟩
  rw [nameAt?, List.getElem?_eq_getElem hplace, Option.bind_some, hname]
  rfl

/-! ## The graph of references -/

/-- The graph of all references of some declarations. -/
def referenceGraph (declarations : List Declaration) : Graph :=
  graphOf declarations (declarations.map (·.references))

theorem length_referenceGraph (declarations : List Declaration) :
    List.length (referenceGraph declarations) = declarations.length := by
  rw [referenceGraph, graphOf, List.length_map, List.length_map]

/-- Every node has a name. -/
theorem NamedApart.named (h : NamedApart declarations) :
    ∀ place < List.length (referenceGraph declarations),
      ∃ name, nameAt? declarations place = some name := by
  rw [length_referenceGraph]
  exact fun place hplace => h.exists_nameAt? hplace

/-- The references from a place are the places of the names that are referred to there. -/
theorem next_referenceGraph {place : Nat} {d : Declaration}
    (hd : declarations[place]? = some d) :
    (referenceGraph declarations).next place = d.references.filterMap (placeOf? declarations) := by
  rw [Graph.next, referenceGraph, graphOf, List.getElem?_map, List.getElem?_map, hd]
  rfl

theorem next_referenceGraph_of_none {place : Nat} (hnone : declarations[place]? = none) :
    (referenceGraph declarations).next place = [] := by
  rw [Graph.next, referenceGraph, graphOf, List.getElem?_map, List.getElem?_map, hnone]
  rfl

/-- A reference leads from a declaration to another if its type mentions the name of the other. -/
theorem mem_next_iff (h : NamedApart declarations) {i j : Nat} {d e : Declaration}
    (hd : declarations[i]? = some d) (he : declarations[j]? = some e) {name : Text}
    (hname : e.name = .text name) :
    j ∈ (referenceGraph declarations).next i ↔ d.type.Mentions name := by
  rw [next_referenceGraph hd, List.mem_filterMap, ← Declaration.mem_references_iff]
  constructor
  · rintro ⟨other, hother, hplace⟩
    obtain ⟨e', he', hname'⟩ := getElem?_of_placeOf? hplace
    obtain rfl := Option.some.inj (he.symm.trans he')
    obtain rfl : name = other := Scalar.text.inj (hname.symm.trans hname')
    exact hother
  · intro hmention
    exact ⟨name, hmention, h.placeOf?_eq_some he hname⟩

/-- References lead to declarations. -/
theorem closed_referenceGraph (declarations : List Declaration) :
    (referenceGraph declarations).Closed := by
  intro i j hj
  cases hd : declarations[i]? with
  | none =>
    rw [next_referenceGraph_of_none hd] at hj
    cases hj
  | some d =>
    rw [next_referenceGraph hd] at hj
    obtain ⟨name, -, hplace⟩ := List.mem_filterMap.1 hj
    obtain ⟨e, he, -⟩ := getElem?_of_placeOf? hplace
    rw [length_referenceGraph]
    exact (List.getElem?_eq_some_iff.1 he).1

/-- No reference of a declaration is listed twice. -/
theorem nodup_next_referenceGraph (declarations : List Declaration) (i : Nat) :
    ((referenceGraph declarations).next i).Nodup := by
  cases hd : declarations[i]? with
  | none =>
    rw [next_referenceGraph_of_none hd]
    exact List.nodup_nil
  | some d =>
    rw [next_referenceGraph hd]
    refine List.Nodup.filterMap ?_ (nodup_distinctTexts _)
    intro name other place hname hother
    obtain ⟨e, he, htext⟩ := getElem?_of_placeOf? hname
    obtain ⟨e', he', htext'⟩ := getElem?_of_placeOf? hother
    obtain rfl := Option.some.inj (he.symm.trans he')
    exact Scalar.text.inj (htext.symm.trans htext')

/-! ## Complete declarations -/

/-- No member of a union or intersection in any of the types is missing. -/
def Complete (declarations : List Declaration) : Prop :=
  ∀ d ∈ declarations, d.type.lacksMember = false

/-- The references of complete declarations are found. -/
theorem mapM_references?_of_complete (h : Complete declarations) :
    declarations.mapM Declaration.references?
      = .ok (declarations.map (·.references)) := by
  induction declarations with
  | nil => rfl
  | cons d rest ih =>
    have hd : d.references? = .ok d.references := by
      rw [Declaration.references?, h d List.mem_cons_self]
      rfl
    rw [List.mapM_cons, hd, ih fun e he => h e (List.mem_cons_of_mem _ he)]
    rfl

/-- Declarations of which all references are found are complete. -/
theorem complete_of_mapM_references? {references : List (List Text)}
    (h : declarations.mapM Declaration.references? = .ok references) : Complete declarations := by
  induction declarations generalizing references with
  | nil =>
    intro d hd
    cases hd
  | cons first rest ih =>
    rw [List.mapM_cons, Declaration.references?] at h
    cases hfirst : first.type.lacksMember with
    | true =>
      rw [hfirst] at h
      cases h
    | false =>
      cases hrest : rest.mapM Declaration.references? with
      | error fault =>
        rw [hfirst, hrest] at h
        cases h
      | ok others =>
        intro d hd
        rcases List.mem_cons.1 hd with rfl | hd
        · exact hfirst
        · exact ih hrest d hd

end SchemaCodecs.Order
