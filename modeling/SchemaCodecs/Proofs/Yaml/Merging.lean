/-
# How merging changes nodes

Replacing merge keys changes the entries of mappings, and it makes ordinary texts of keys that stand
for the value of their mapping.  It leaves the texts of scalars and the types of nodes alone but for
these keys, so that no mapping stands for another value than before.

* `NodeTable.PassesOn` : a mapping stands for what one of its values stands for;
* `NodeTable.Evolves` : what merging leaves alone;
* `keeps_mergeKeys` : merging only refuses texts that are malformed, and it leaves this alone.
-/
import SchemaCodecs.Yaml.Merge

namespace SchemaCodecs.Yaml

/-! ## What merging leaves alone -/

namespace NodeTable

variable {table before after : NodeTable}

/-- A mapping stands for what its value under a key of that type stands for. -/
def PassesOn (table : NodeTable) (number value : Nat) : Prop :=
  ∃ tag entries key, table.node number = .mapping tag entries ∧ (key, value) ∈ entries ∧
    (table.node key).tag = .value

/-- The nodes of a table have come from those of another one by merging. -/
structure Evolves (before after : NodeTable) : Prop where
  /-- Scalars had their texts before. -/
  scalar : ∀ {number tag text}, after.node number = .scalar tag text →
    ∃ first, before.node number = .scalar first text
  /-- Mappings were mappings before. -/
  mapping : ∀ {number tag entries}, after.node number = .mapping tag entries →
    ∃ first others, before.node number = .mapping first others
  /-- Only keys that stood for a value have another type. -/
  tag : ∀ number, (after.node number).tag = (before.node number).tag ∨
    (before.node number).tag = .value ∧ (after.node number).tag = .text
  /-- What a mapping stands for it stood for before. -/
  passesOn : ∀ {number value}, after.PassesOn number value → before.PassesOn number value

namespace Evolves

theorem refl (table : NodeTable) : table.Evolves table :=
  ⟨fun h => ⟨_, h⟩, fun h => ⟨_, _, h⟩, fun _ => Or.inl rfl, id⟩

/-- A key that stands for a value did so before. -/
theorem tag_eq_value (h : before.Evolves after) {number : Nat}
    (hvalue : (after.node number).tag = .value) : (before.node number).tag = .value := by
  rcases h.tag number with hsame | ⟨-, htext⟩
  · rw [← hsame, hvalue]
  · rw [hvalue] at htext
    cases htext

theorem trans {last : NodeTable} (h : before.Evolves after) (hlast : after.Evolves last) :
    before.Evolves last where
  scalar hnode := by
    obtain ⟨between, hbetween⟩ := hlast.scalar hnode
    exact h.scalar hbetween
  mapping hnode := by
    obtain ⟨between, others, hbetween⟩ := hlast.mapping hnode
    exact h.mapping hbetween
  tag number := by
    rcases hlast.tag number with hsame | ⟨hvalue, htext⟩
    · rw [hsame]
      exact h.tag number
    · exact Or.inr ⟨h.tag_eq_value hvalue, htext⟩
  passesOn hpasses := h.passesOn (hlast.passesOn hpasses)

end Evolves

/-! ## Changes of nodes -/

/-- No key of some entries stands for the value of its mapping. -/
def Plain (table : NodeTable) (entries : List (Nat × Nat)) : Prop :=
  ∀ entry ∈ entries, (table.node entry.1).tag ≠ .value

theorem Plain.evolve {entries : List (Nat × Nat)} (h : before.Plain entries)
    (hevolves : before.Evolves after) : after.Plain entries :=
  fun entry hentry hvalue => h entry hentry (hevolves.tag_eq_value hvalue)

theorem node_put (table : NodeTable) (number place : Nat) (node : Node) :
    (table.put number node).node place
      = if number = place ∧ number < table.size then node else table.node place := by
  rw [NodeTable.node, NodeTable.node, put, Array.getD_eq_getD_getElem?, Array.getD_eq_getD_getElem?,
    Array.getElem?_setIfInBounds]
  by_cases hsame : number = place
  · subst hsame
    by_cases hlt : number < table.size
    · simp [hlt]
    · simp [hlt]
  · simp [hsame]

/-- A node that is no empty scalar has its place in the table. -/
theorem lt_size_of_ne_empty {number : Nat} (h : table.node number ≠ .empty) : number < table.size := by
  refine Nat.lt_of_not_le fun hle => h ?_
  rw [NodeTable.node, Array.getD_eq_getD_getElem?, Array.getElem?_eq_none hle]
  rfl

theorem lt_size_of_mapping {number : Nat} {tag : Tag} {entries : List (Nat × Nat)}
    (h : table.node number = .mapping tag entries) : number < table.size := by
  refine lt_size_of_ne_empty ?_
  rw [h]
  exact nofun

theorem node_put_self {number : Nat} {tag : Tag} {entries : List (Nat × Nat)}
    (h : table.node number = .mapping tag entries) (node : Node) :
    (table.put number node).node number = node := by
  rw [node_put, if_pos ⟨rfl, lt_size_of_mapping h⟩]

theorem node_put_of_ne {number place : Nat} (hne : number ≠ place) (node : Node) :
    (table.put number node).node place = table.node place := by
  rw [node_put, if_neg fun h => hne h.1]

/-- A node in whose place stands one with the same type. -/
theorem tag_node_put {number : Nat} {node : Node} (h : node.tag = (table.node number).tag)
    (place : Nat) : ((table.put number node).node place).tag = (table.node place).tag := by
  rw [node_put]
  split
  · next hsame => rw [h, hsame.1]
  · rfl

/-- A mapping that has no new key that stands for a value evolves. -/
theorem evolves_put {number : Nat} {tag : Tag} {entries others : List (Nat × Nat)}
    (hnode : table.node number = .mapping tag entries)
    (hentries : ∀ entry ∈ others, (table.node entry.1).tag = .value → entry ∈ entries) :
    table.Evolves (table.put number (.mapping tag others)) := by
  have htag : (Node.mapping tag others).tag = (table.node number).tag := by
    rw [hnode]
    rfl
  refine ⟨fun {place _ _} h => ?_, fun {place _ _} h => ?_,
    fun place => Or.inl (tag_node_put htag place), fun {place value} h => ?_⟩
  · by_cases hsame : number = place
    · subst hsame
      rw [node_put_self hnode] at h
      cases h
    · rw [node_put_of_ne hsame] at h
      exact ⟨_, h⟩
  · by_cases hsame : number = place
    · subst hsame
      exact ⟨tag, entries, hnode⟩
    · rw [node_put_of_ne hsame] at h
      exact ⟨_, _, h⟩
  · obtain ⟨kind, found, key, hfound, hmem, hvalue⟩ := h
    rw [tag_node_put htag] at hvalue
    by_cases hsame : number = place
    · subst hsame
      rw [node_put_self hnode] at hfound
      cases hfound
      exact ⟨tag, entries, key, hnode, hentries _ hmem hvalue, hvalue⟩
    · rw [node_put_of_ne hsame] at hfound
      exact ⟨kind, found, key, hfound, hmem, hvalue⟩

@[simp] theorem tag_withTag (tag : Tag) (node : Node) : (node.withTag tag).tag = tag := by
  cases node <;> rfl

/-- Making a key an ordinary text changes the type of that key only. -/
theorem node_plainKey_cases (table : NodeTable) (key place : Nat) :
    (table.plainKey key).node place = table.node place ∧
        (key = place → (table.node place).tag ≠ .value) ∨
      key = place ∧ (table.node place).tag = .value ∧
        (table.plainKey key).node place = (table.node place).withTag .text := by
  unfold plainKey
  dsimp only
  split
  · next hvalue =>
    rw [beq_iff_eq] at hvalue
    have hlt : key < table.size := by
      refine lt_size_of_ne_empty fun hempty => ?_
      rw [hempty] at hvalue
      cases hvalue
    by_cases hsame : key = place
    · subst hsame
      exact Or.inr ⟨rfl, hvalue, by rw [node_put, if_pos ⟨rfl, hlt⟩]⟩
    · exact Or.inl ⟨node_put_of_ne hsame _, fun heq => absurd heq hsame⟩
  · next hvalue =>
    rw [beq_iff_eq] at hvalue
    exact Or.inl ⟨rfl, fun heq => heq ▸ hvalue⟩

/-- A mapping keeps its entries when a key is made an ordinary text. -/
theorem mapping_plainKey (key : Nat) {number : Nat} {tag : Tag} {entries : List (Nat × Nat)}
    (h : table.node number = .mapping tag entries) :
    ∃ kind, (table.plainKey key).node number = .mapping kind entries := by
  rcases node_plainKey_cases table key number with ⟨hnode, -⟩ | ⟨-, -, hnode⟩
  · exact ⟨tag, hnode.trans h⟩
  · rw [h] at hnode
    exact ⟨.text, hnode⟩

/-- Making a key an ordinary text evolves. -/
theorem evolves_plainKey (table : NodeTable) (key : Nat) : table.Evolves (table.plainKey key) := by
  have htag : ∀ place, ((table.plainKey key).node place).tag = (table.node place).tag ∨
      (table.node place).tag = .value ∧ ((table.plainKey key).node place).tag = .text := by
    intro place
    rcases node_plainKey_cases table key place with ⟨hnode, -⟩ | ⟨-, hvalue, hnode⟩
    · exact Or.inl (by rw [hnode])
    · exact Or.inr ⟨hvalue, by rw [hnode, tag_withTag]⟩
  refine ⟨fun {place _ _} h => ?_, fun {place _ _} h => ?_, htag, fun {place value} h => ?_⟩
  · rcases node_plainKey_cases table key place with ⟨hnode, -⟩ | ⟨-, -, hnode⟩
    · exact ⟨_, hnode ▸ h⟩
    · rw [hnode] at h
      cases hplace : table.node place <;> rw [hplace] at h <;> cases h
      exact ⟨_, rfl⟩
  · rcases node_plainKey_cases table key place with ⟨hnode, -⟩ | ⟨-, -, hnode⟩
    · exact ⟨_, _, hnode ▸ h⟩
    · rw [hnode] at h
      cases hplace : table.node place <;> rw [hplace] at h <;> cases h
      exact ⟨_, _, rfl⟩
  · obtain ⟨kind, found, other, hfound, hmem, hvalue⟩ := h
    have hother : (table.node other).tag = .value := by
      rcases htag other with hsame | ⟨-, htext⟩
      · rw [← hsame, hvalue]
      · rw [hvalue] at htext
        cases htext
    rcases node_plainKey_cases table key place with ⟨hnode, -⟩ | ⟨-, -, hnode⟩
    · exact ⟨kind, found, other, hnode ▸ hfound, hmem, hother⟩
    · rw [hnode] at hfound
      cases hplace : table.node place <;> rw [hplace] at hfound <;> cases hfound
      exact ⟨_, found, other, hplace, hmem, hother⟩

/-- Making all keys of some entries ordinary texts evolves, and then they are plain. -/
theorem evolves_plainKeys (table : NodeTable) (entries : List (Nat × Nat)) :
    table.Evolves (entries.foldl (fun table entry => table.plainKey entry.1) table) ∧
      (entries.foldl (fun table entry => table.plainKey entry.1) table).Plain entries := by
  induction entries generalizing table with
  | nil => exact ⟨.refl table, by simp [Plain]⟩
  | cons entry rest ih =>
    obtain ⟨hevolves, hplain⟩ := ih (table.plainKey entry.1)
    have hfirst : ((table.plainKey entry.1).node entry.1).tag ≠ .value := by
      rcases node_plainKey_cases table entry.1 entry.1 with ⟨hnode, hne⟩ | ⟨-, -, hnode⟩
      · rw [hnode]
        exact hne rfl
      · rw [hnode, tag_withTag]
        exact nofun
    refine ⟨(evolves_plainKey table entry.1).trans hevolves, ?_⟩
    exact List.forall_mem_cons.2 ⟨fun hvalue => hfirst (hevolves.tag_eq_value hvalue), hplain⟩

theorem mapping_plainKeys (keyed : List (Nat × Nat)) {number : Nat} {tag : Tag}
    {entries : List (Nat × Nat)} (h : table.node number = .mapping tag entries) :
    ∃ kind, (keyed.foldl (fun table entry => table.plainKey entry.1) table).node number
      = .mapping kind entries := by
  induction keyed generalizing table tag with
  | nil => exact ⟨tag, h⟩
  | cons entry rest ih =>
    obtain ⟨kind, hkind⟩ := mapping_plainKey entry.1 h
    exact ih hkind

/-- The entries without the first merge key are entries. -/
theorem mem_of_takeMerge? {entries rest : List (Nat × Nat)} {value : Nat}
    (h : table.takeMerge? entries = some (value, rest)) : ∀ entry ∈ rest, entry ∈ entries := by
  induction entries generalizing rest with
  | nil => cases h
  | cons first others ih =>
    rw [takeMerge?] at h
    split at h
    · cases h
      exact fun entry => List.mem_cons_of_mem first
    · obtain ⟨⟨found, left⟩, hfound, heq⟩ := Option.map_eq_some_iff.1 h
      cases heq
      intro entry hentry
      rcases List.mem_cons.1 hentry with rfl | hleft
      · exact List.mem_cons_self
      · exact List.mem_cons_of_mem _ (ih hfound entry hleft)

/-- The entries of a mapping become plain and come after plain ones that were taken over. -/
theorem evolves_putPlain {number : Nat} {tag : Tag} {entries taken : List (Nat × Nat)}
    (hnode : table.node number = .mapping tag entries) (htaken : table.Plain taken) :
    let plain := entries.foldl (fun table entry => table.plainKey entry.1) table
    let after := plain.put number (.mapping (plain.node number).tag (taken ++ entries))
    table.Evolves after ∧ after.Plain (after.node number).entries := by
  obtain ⟨hevolves, hplain⟩ := evolves_plainKeys table entries
  obtain ⟨kind, hkind⟩ := mapping_plainKeys entries hnode
  dsimp only
  generalize entries.foldl (fun table entry => table.plainKey entry.1) table = plain at *
  have hall : plain.Plain (taken ++ entries) :=
    List.forall_mem_append.2 ⟨htaken.evolve hevolves, hplain⟩
  have hput : plain.Evolves
      (plain.put number (.mapping (plain.node number).tag (taken ++ entries))) := by
    rw [hkind]
    exact evolves_put hkind fun entry hentry hvalue => absurd hvalue (hall entry hentry)
  refine ⟨hevolves.trans hput, ?_⟩
  rw [node_put_self hkind]
  exact hall.evolve hput

end NodeTable

/-! ## Merging -/

namespace Merging

open NodeTable

variable {α β : Type} {P : α → NodeTable → Prop} {Q : β → NodeTable → Prop} {table : NodeTable}

/-- A step of merging that fails refuses a malformed text.  If it succeeds, the nodes of the table
evolve, and the result has a property in the new table. -/
def Keeps (table : NodeTable) (step : Merging α) (P : α → NodeTable → Prop) : Prop :=
  match step.run table with
  | .ok (a, after) => table.Evolves after ∧ P a after
  | .error fault => fault = .malformed

theorem keeps_pure {a : α} (h : P a table) : Keeps table (pure a) P :=
  ⟨.refl table, h⟩

theorem keeps_refuse : Keeps table (throw .malformed : Merging α) P :=
  rfl

theorem keeps_bind {step : Merging α} {next : α → Merging β} (hstep : Keeps table step P)
    (hnext : ∀ a after, table.Evolves after → P a after → Keeps after (next a) Q) :
    Keeps table (step >>= next) Q := by
  unfold Keeps at hstep ⊢
  rw [StateT.run_bind]
  cases hfirst : step.run table with
  | error fault =>
    rw [hfirst] at hstep
    exact hstep
  | ok first =>
    rw [hfirst] at hstep
    obtain ⟨hevolves, hP⟩ := hstep
    have hsecond := hnext first.1 first.2 hevolves hP
    unfold Keeps at hsecond
    simp only [bind, Except.bind]
    cases hlast : (next first.1).run first.2 with
    | error fault =>
      rw [hlast] at hsecond
      exact hsecond
    | ok last =>
      rw [hlast] at hsecond
      exact ⟨hevolves.trans hsecond.1, hsecond.2⟩

theorem keeps_get : Keeps table get fun found after => table = found ∧ table = after :=
  ⟨.refl table, rfl, rfl⟩

theorem keeps_set {after : NodeTable} (h : table.Evolves after) :
    Keeps table (set after) fun _ last => last = after :=
  ⟨h, rfl⟩

/-- Steps over a list that each keep what holds of the result so far. -/
theorem keeps_foldlM {step : β → α → Merging β} {items : List α} {start : β}
    (hstep : ∀ b a before, Q b before → Keeps before (step b a) Q) (h : Q start table) :
    Keeps table (items.foldlM step start) Q := by
  induction items generalizing start table with
  | nil => exact keeps_pure h
  | cons item rest ih =>
    rw [List.foldlM_cons]
    exact keeps_bind (hstep start item table h) fun b after _ hb => ih hb

/-- Merging keeps what evolving leaves alone.  After it the mapping has no key that stands for its
value, and neither have the entries that a merge key stands for. -/
theorem keeps_merging (fuel : Nat) :
    (∀ table number taken, Plain table taken →
      Keeps table (mergeKeys fuel number taken) fun _ after =>
        after.Plain (after.node number).entries) ∧
    ∀ table value, Keeps table (mergedEntries fuel value) fun entries after => after.Plain entries := by
  induction fuel with
  | zero => exact ⟨fun _ _ _ _ => keeps_refuse, fun _ _ => keeps_refuse⟩
  | succ fuel ih =>
    obtain ⟨ihkeys, ihentries⟩ := ih
    refine ⟨fun table number taken htaken => ?_, fun table value => ?_⟩
    · unfold mergeKeys
      refine keeps_bind keeps_get ?_
      rintro _ _ - ⟨rfl, rfl⟩
      split
      · next tag entries hnode =>
        split
        · next value rest hmerge =>
          -- The first merge key is gone, and the entries that it stands for are taken over.
          refine keeps_bind (keeps_set (evolves_put hnode fun entry hentry _ =>
            mem_of_takeMerge? hmerge entry hentry)) ?_
          rintro _ _ hput rfl
          refine keeps_bind (ihentries _ value) fun merged after hmerged hplain => ?_
          refine ihkeys after number _ fun entry hentry => ?_
          rcases List.mem_append.1 hentry with hold | hnew
          · exact htaken.evolve (hput.trans hmerged) entry hold
          · exact hplain entry hnew
        · -- No merge key is left: the keys become plain, and what was taken over comes first.
          exact evolves_putPlain hnode htaken
      · exact keeps_refuse
    · have hentriesOf : ∀ table mapping, Keeps table
          (do mergeKeys fuel mapping []; return ((← get).node mapping).entries)
          fun entries after => after.Plain entries := by
        intro table mapping
        refine keeps_bind (ihkeys table mapping [] (by simp [Plain])) fun _ after _ hplain => ?_
        refine keeps_bind keeps_get ?_
        rintro _ _ - ⟨rfl, rfl⟩
        exact keeps_pure hplain
      unfold mergedEntries
      refine keeps_bind keeps_get ?_
      rintro _ _ - ⟨rfl, rfl⟩
      split
      · next tag items hnode =>
        refine keeps_foldlM (Q := fun entries after => after.Plain entries)
          (fun taken item before htaken => ?_) (by simp [Plain])
        refine keeps_bind (hentriesOf before item) fun entries after hevolves hplain => ?_
        refine keeps_pure fun entry hentry => ?_
        rcases List.mem_append.1 hentry with hnew | hold
        · exact hplain entry hnew
        · exact htaken.evolve hevolves entry hold
      · exact hentriesOf _ value

end Merging

end SchemaCodecs.Yaml
