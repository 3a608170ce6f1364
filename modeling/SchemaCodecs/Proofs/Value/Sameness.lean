/-
# Sameness of values

Sameness is an equivalence on the values that a document can hold, in which the keys of a mapping
and the members of a set are all different.

* `Value.parts_induction` : induction on the parts of a value;
* `Value.Distinct` : no mapping repeats a key, and no set a member;
* `Value.same_refl`, `Value.same_symm`, `Value.same_trans` : the three laws.
-/
import Mathlib.Data.List.Forall2
import Mathlib.Data.List.Nodup
import Mathlib.Data.List.Pairwise
import Mathlib.Data.List.Perm.Subperm
import SchemaCodecs.Value.Basic

namespace SchemaCodecs

/-! ## Scalars -/

namespace Scalar

/-- What is compared of a scalar that equals no integer: the instant it names, or itself. -/
def instantOrSelf (s : Scalar) : (Int × Nat × Nat) ⊕ Scalar :=
  match s with
  | time t =>
    match t.universalMinute? with
    | some minute => .inl (minute, t.second, t.micro)
    | none => .inr (time t)
  | s => .inr s

/-- What is compared of a scalar: the integer it equals, the instant it names, or itself. -/
def compared (s : Scalar) : Int ⊕ (Int × Nat × Nat) ⊕ Scalar :=
  match s.integer? with
  | some n => .inl n
  | none => .inr s.instantOrSelf

theorem same_time_iff (t u : DateTime) :
    t.same u = true ↔ (time t).instantOrSelf = (time u).instantOrSelf := by
  simp only [DateTime.same, instantOrSelf]
  cases ht : t.universalMinute? <;> cases hu : u.universalMinute? <;> simp [and_assoc]

/-- Two scalars that equal no integer are the same when what is compared of them is equal. -/
theorem same_of_integer?_eq_none {a b : Scalar} (ha : a.integer? = none)
    (hb : b.integer? = none) : a.same b = true ↔ a.instantOrSelf = b.instantOrSelf := by
  unfold same
  rw [ha, hb]
  cases a with
  | time t =>
    cases b with
    | time u => exact same_time_iff t u
    | _ => cases ht : t.universalMinute? <;> simp [instantOrSelf, ht]
  | _ =>
    cases b with
    | time u => cases hu : u.universalMinute? <;> simp [instantOrSelf, hu]
    | _ => simp [instantOrSelf]

/-- Two scalars are the same when what is compared of them is equal. -/
theorem same_iff (a b : Scalar) : a.same b = true ↔ a.compared = b.compared := by
  unfold compared
  cases ha : a.integer? with
  | some m => cases hb : b.integer? <;> simp [same, ha, hb]
  | none =>
    cases hb : b.integer? with
    | some n => simp [same, ha, hb]
    | none =>
      rw [same_of_integer?_eq_none ha hb]
      exact ⟨congrArg Sum.inr, Sum.inr.inj⟩

@[simp] theorem same_refl (a : Scalar) : a.same a = true := by
  rw [same_iff]

theorem same_comm (a b : Scalar) : a.same b = b.same a := by
  rw [Bool.eq_iff_iff, same_iff, same_iff]
  exact eq_comm

theorem same_trans {a b c : Scalar} (hab : a.same b = true) (hbc : b.same c = true) :
    a.same c = true := by
  rw [same_iff] at hab hbc ⊢
  exact hab.trans hbc

theorem same_congr_right {a b : Scalar} (h : a.same b = true) (c : Scalar) :
    c.same a = c.same b := by
  rw [Bool.eq_iff_iff]
  exact ⟨fun hca => same_trans hca h, fun hcb => same_trans hcb (same_comm a b ▸ h)⟩

@[simp] theorem same_text_iff (a : Scalar) (s : Text) : a.same (.text s) = true ↔ a = .text s := by
  constructor
  · intro h
    rw [same_iff] at h
    have htext : (text s).compared = .inr (.inr (.text s)) := rfl
    rw [htext, compared] at h
    cases ha : a.integer? with
    | some n => rw [ha] at h; cases h
    | none =>
      rw [ha] at h
      have hself := Sum.inr.inj h
      cases a with
      | time t => cases ht : t.universalMinute? <;> simp [instantOrSelf, ht] at hself
      | _ => exact Sum.inr.inj hself
  · rintro rfl
    exact same_refl _

@[simp] theorem same_text_eq_false_iff (a : Scalar) (s : Text) :
    a.same (.text s) = false ↔ a ≠ .text s := by
  rw [Bool.eq_false_iff, ne_eq, same_text_iff]

end Scalar

/-! ## Induction on parts -/

namespace Value

/-- A value with a text is the text. -/
theorem eq_text_of_text? {v : Value} {s : Text} (h : v.text? = some s) : v = .text s := by
  cases v with
  | scalar key =>
    cases key <;> cases h
    rfl
  | _ => cases h

/-- A fact that passes from the parts of a value to the value holds of every value. -/
@[elab_as_elim]
theorem parts_induction {motive : Value → Prop} (scalar : ∀ s, motive (.scalar s))
    (sequence : ∀ items, (∀ v ∈ items, motive v) → motive (.sequence items))
    (mapping : ∀ label entries, (∀ entry ∈ entries, motive entry.2) →
      motive (.mapping label entries))
    (set : ∀ members, motive (.set members))
    (pair : ∀ first second, motive first → motive second → motive (.pair first second)) :
    ∀ v, motive v
  | .scalar s => scalar s
  | .sequence items =>
    sequence items fun v hv =>
      have := List.sizeOf_lt_of_mem hv
      parts_induction scalar sequence mapping set pair v
  | .mapping label entries =>
    mapping label entries fun entry hentry =>
      have := List.sizeOf_lt_of_mem hentry
      have : sizeOf entry.2 < sizeOf entry := by
        cases entry
        simp only [Prod.mk.sizeOf_spec]
        omega
      parts_induction scalar sequence mapping set pair entry.2
  | .set members => set members
  | .pair first second =>
    pair first second (parts_induction scalar sequence mapping set pair first)
      (parts_induction scalar sequence mapping set pair second)
termination_by v => sizeOf v
decreasing_by
  all_goals simp only [Value.sequence.sizeOf_spec, Value.mapping.sizeOf_spec, Value.pair.sizeOf_spec]
  all_goals omega

/-! ## Looking up keys -/

theorem exists_entry_of_lookup {key : Scalar} {entries : Entries} {v : Value}
    (h : Entries.lookup key entries = some v) :
    ∃ entry ∈ entries, entry.1.same key = true ∧ entry.2 = v := by
  obtain ⟨entry, hfind, rfl⟩ := Option.map_eq_some_iff.1 h
  refine ⟨entry, List.mem_of_find?_eq_some hfind, ?_, rfl⟩
  simpa using List.find?_some hfind

theorem mem_of_get? {key : Text} {entries : Entries} {v : Value}
    (h : Entries.get? key entries = some v) : (.text key, v) ∈ entries := by
  obtain ⟨⟨own, value⟩, hmem, hsame, rfl⟩ := exists_entry_of_lookup h
  obtain rfl := (Scalar.same_text_iff own key).1 hsame
  exact hmem

theorem lookup_congr {key other : Scalar} (h : key.same other = true) (entries : Entries) :
    Entries.lookup key entries = Entries.lookup other entries := by
  rw [Entries.lookup, Entries.lookup]
  congr 2
  funext entry
  exact Scalar.same_congr_right h entry.1

/-- Items whose keys are all different are told apart by them. -/
theorem eq_of_same_key {α : Type} {k : α → Scalar} {items : List α}
    (h : items.Pairwise fun a b => (k a).same (k b) = false) {a b : α} (ha : a ∈ items)
    (hb : b ∈ items) (hsame : (k a).same (k b) = true) : a = b := by
  by_contra hne
  have hsymm : Std.Symm fun a b : α => (k a).same (k b) = false :=
    ⟨fun a b hab => Scalar.same_comm (k b) (k a) ▸ hab⟩
  have hdiffer := List.Pairwise.forall h ha hb hne
  rw [hsame] at hdiffer
  cases hdiffer

/-- Items whose keys are all different are different. -/
theorem nodup_of_keys {α : Type} {k : α → Scalar} {items : List α}
    (h : items.Pairwise fun a b => (k a).same (k b) = false) : items.Nodup := by
  refine List.Pairwise.imp ?_ h
  rintro a b hab rfl
  rw [Scalar.same_refl] at hab
  cases hab

/-- No key of some entries is repeated. -/
def KeysApart (entries : Entries) : Prop :=
  entries.Pairwise fun a b => a.1.same b.1 = false

/-- Every entry is found under its key if no key is repeated. -/
theorem KeysApart.lookup_eq {entries : Entries} (h : KeysApart entries)
    {entry : Scalar × Value} (hentry : entry ∈ entries) :
    Entries.lookup entry.1 entries = some entry.2 := by
  rw [Entries.lookup, Option.map_eq_some_iff]
  have hsome : (entries.find? fun other => other.1.same entry.1).isSome := by
    rw [List.find?_isSome]
    exact ⟨entry, hentry, Scalar.same_refl _⟩
  obtain ⟨other, hfind⟩ := Option.isSome_iff_exists.1 hsome
  have heq : other = entry :=
    eq_of_same_key h (List.mem_of_find?_eq_some hfind) hentry
      (by simpa using List.find?_some hfind)
  exact ⟨other, hfind, congrArg Prod.snd heq⟩

/-! ## Values of documents -/

/-- A value in which no mapping repeats a key and no set a member. -/
inductive Distinct : Value → Prop where
  /-- A scalar. -/
  | scalar (s : Scalar) : Distinct (.scalar s)
  /-- A sequence of such values. -/
  | sequence {items : List Value} (parts : ∀ v ∈ items, Distinct v) : Distinct (.sequence items)
  /-- A mapping to such values. -/
  | mapping {label : Option Nat} {entries : Entries} (apart : KeysApart entries)
      (parts : ∀ entry ∈ entries, Distinct entry.2) : Distinct (.mapping label entries)
  /-- A set of different members. -/
  | set {members : List Scalar} (apart : members.Pairwise fun a b => a.same b = false) :
    Distinct (.set members)
  /-- A pair of such values. -/
  | pair {first second : Value} (left : Distinct first) (right : Distinct second) :
    Distinct (.pair first second)

theorem Distinct.single {label : Option Nat} {key : Scalar} {v : Value} (h : v.Distinct) :
    (Value.mapping label [(key, v)]).Distinct :=
  .mapping (List.pairwise_singleton _ _) (List.forall_mem_singleton.2 h)

/-! ## Sameness of parts -/

/-- Sequences are the same item by item. -/
theorem sameItems_iff (xs ys : List Value) :
    sameItems xs ys = true ↔ List.Forall₂ (fun x y => same x y = true) xs ys := by
  induction xs generalizing ys with
  | nil => cases ys <;> simp [sameItems]
  | cons x xs ih => cases ys <;> simp [sameItems, ih]

/-- Mappings are the same when each key of the first has the same value in the second. -/
theorem sameEntries_iff (xs ys : Entries) :
    sameEntries xs ys = true ↔
      ∀ x ∈ xs, ∃ y, Entries.lookup x.1 ys = some y ∧ same x.2 y = true := by
  induction xs with
  | nil => simp [sameEntries]
  | cons x xs ih =>
    rw [sameEntries, Bool.and_eq_true, ih, List.forall_mem_cons]
    refine and_congr_left fun _ => ?_
    cases hlookup : Entries.lookup x.1 ys <;> simp

/-! ## Matching lists -/

/-- Lists of equal length that match item by item go on matching along a third one. -/
theorem forall₂_trans_of_mem {α : Type} {R : α → α → Prop} {xs ys zs : List α}
    (h : ∀ x ∈ xs, ∀ y z, R x y → R y z → R x z) (hxy : List.Forall₂ R xs ys)
    (hyz : List.Forall₂ R ys zs) : List.Forall₂ R xs zs := by
  induction hxy generalizing zs with
  | nil => exact hyz
  | cons hhead _ ih =>
    cases hyz with
    | cons hhead' htail' =>
      refine List.Forall₂.cons (h _ List.mem_cons_self _ _ hhead hhead') (ih ?_ htail')
      exact fun x hx => h x (List.mem_cons_of_mem _ hx)

/-- Matching item by item goes both ways if it does so for every item. -/
theorem forall₂_symm_of_mem {α : Type} {R : α → α → Prop} {xs ys : List α}
    (h : ∀ x ∈ xs, ∀ y, R x y → R y x) (hxy : List.Forall₂ R xs ys) : List.Forall₂ R ys xs := by
  induction hxy with
  | nil => exact List.Forall₂.nil
  | cons hhead _ ih =>
    refine List.Forall₂.cons (h _ List.mem_cons_self _ hhead) (ih ?_)
    exact fun x hx => h x (List.mem_cons_of_mem _ hx)

/-- Lists match item by item in two ways alike if every item of the first one does. -/
theorem forall₂_congr_of_mem {α β : Type} {R S : α → β → Prop} {xs : List α} {ys : List β}
    (h : ∀ x ∈ xs, ∀ y, R x y ↔ S x y) : List.Forall₂ R xs ys ↔ List.Forall₂ S xs ys := by
  rw [List.forall₂_iff_zip, List.forall₂_iff_zip]
  refine and_congr_right fun _ => ?_
  constructor
  · exact fun hR x y hmem => (h x (List.of_mem_zip hmem).1 y).1 (hR hmem)
  · exact fun hS x y hmem => (h x (List.of_mem_zip hmem).1 y).2 (hS hmem)

/-- If every item of one list has a partner in a list that is not longer, and no two items share a
partner, then every item of the other list is a partner. -/
theorem exists_of_matching {α β : Type} {R : α → β → Prop} {xs : List α} {ys : List β}
    (hnodup : xs.Nodup) (hlength : xs.length = ys.length)
    (hmatch : ∀ x ∈ xs, ∃ y ∈ ys, R x y)
    (hinj : ∀ x ∈ xs, ∀ x' ∈ xs, ∀ y, R x y → R x' y → x = x') :
    ∀ y ∈ ys, ∃ x ∈ xs, R x y := by
  intro y hy
  have : Nonempty β := ⟨y⟩
  choose! f hmem hR using hmatch
  have hmap : (xs.map f).Nodup := by
    refine List.Nodup.map_on ?_ hnodup
    intro x hx x' hx' heq
    exact hinj x hx x' hx' (f x) (hR x hx) (heq ▸ hR x' hx')
  have hsub : xs.map f ⊆ ys := by
    intro z hz
    obtain ⟨x, hx, rfl⟩ := List.mem_map.1 hz
    exact hmem x hx
  have hperm : (xs.map f).Perm ys :=
    (hmap.subperm hsub).perm_of_length_le (by simp [hlength])
  obtain ⟨x, hx, rfl⟩ := List.mem_map.1 (hperm.mem_iff.2 hy)
  exact ⟨x, hx, hR x hx⟩

/-- If no key is repeated and all entries have the same values in entries that are not more, these have
no other keys. -/
theorem exists_partner_of_entry {xs ys : Entries} (apart : KeysApart xs)
    (hlength : xs.length = ys.length)
    (h : ∀ x ∈ xs, ∃ value, Entries.lookup x.1 ys = some value ∧ same x.2 value = true)
    {y : Scalar × Value} (hy : y ∈ ys) :
    ∃ x ∈ xs, y.1.same x.1 = true ∧ same x.2 y.2 = true := by
  refine exists_of_matching (R := fun x y => y.1.same x.1 = true ∧ same x.2 y.2 = true)
    (nodup_of_keys apart) hlength ?_ ?_ y hy
  · intro x hx
    obtain ⟨value, hlookup, hsame⟩ := h x hx
    obtain ⟨entry, hentry, hkey, rfl⟩ := exists_entry_of_lookup hlookup
    exact ⟨entry, hentry, hkey, hsame⟩
  · intro x hx x' hx' y hxy hxy'
    exact eq_of_same_key apart hx hx' (Scalar.same_trans (Scalar.same_comm x.1 y.1 ▸ hxy.1) hxy'.1)

/-- If no member is repeated and all members are the same as one of some that are not more, these have
no other members. -/
theorem exists_partner_of_member {xs ys : List Scalar}
    (apart : xs.Pairwise fun a b => a.same b = false) (hlength : xs.length = ys.length)
    (h : ∀ a ∈ xs, ∃ b ∈ ys, a.same b = true) {b : Scalar} (hb : b ∈ ys) :
    ∃ a ∈ xs, b.same a = true := by
  obtain ⟨a, ha, hab⟩ := exists_of_matching (R := fun a b : Scalar => a.same b = true)
    (nodup_of_keys (k := id) apart) hlength h
    (fun a ha a' ha' b hab hab' =>
      eq_of_same_key (k := id) apart ha ha' (Scalar.same_trans hab (Scalar.same_comm b a' ▸ hab')))
    b hb
  exact ⟨a, ha, Scalar.same_comm b a ▸ hab⟩

/-! ## The laws of sameness -/

@[simp] theorem same_refl {v : Value} (h : v.Distinct) : same v v = true := by
  induction h with
  | scalar s =>
    rw [same]
    exact Scalar.same_refl s
  | sequence _ ih =>
    rw [same, sameItems_iff, List.forall₂_same]
    exact ih
  | mapping apart _ ih =>
    rw [same, Bool.and_eq_true, beq_iff_eq, sameEntries_iff]
    exact ⟨rfl, fun entry hentry => ⟨entry.2, apart.lookup_eq hentry, ih entry hentry⟩⟩
  | set _ =>
    simp only [same, Bool.and_eq_true, beq_iff_eq, List.all_eq_true, List.any_eq_true, true_and]
    exact fun s hs => ⟨s, hs, Scalar.same_refl s⟩
  | pair _ _ ihleft ihright => rw [same, ihleft, ihright, Bool.and_self]

/-- Sameness goes both ways, seen from a value of a document. -/
theorem same_symm {u v : Value} (h : u.Distinct) (huv : same u v = true) : same v u = true := by
  induction h generalizing v with
  | scalar s =>
    cases v <;> simp only [same, Bool.false_eq_true] at huv
    rw [same, Scalar.same_comm]
    exact huv
  | sequence _ ih =>
    cases v <;> simp only [same, Bool.false_eq_true] at huv
    rw [sameItems_iff] at huv
    rw [same, sameItems_iff]
    exact forall₂_symm_of_mem (fun x hx y hxy => ih x hx hxy) huv
  | @mapping _ xs apart _ ih =>
    cases v <;> simp only [same, Bool.false_eq_true] at huv
    next ys =>
    rw [Bool.and_eq_true, beq_iff_eq, sameEntries_iff] at huv
    rw [same, Bool.and_eq_true, beq_iff_eq, sameEntries_iff]
    refine ⟨huv.1.symm, ?_⟩
    intro y hy
    obtain ⟨x, hx, hkey, hsame⟩ := exists_partner_of_entry apart huv.1 huv.2 hy
    refine ⟨x.2, ?_, ih x hx hsame⟩
    rw [lookup_congr hkey]
    exact apart.lookup_eq hx
  | @set xs apart =>
    cases v <;> simp only [same, Bool.false_eq_true] at huv
    simp only [Bool.and_eq_true, beq_iff_eq, List.all_eq_true, List.any_eq_true] at huv
    simp only [same, Bool.and_eq_true, beq_iff_eq, List.all_eq_true, List.any_eq_true]
    exact ⟨huv.1.symm, fun b hb => exists_partner_of_member apart huv.1 huv.2 hb⟩
  | pair _ _ ihleft ihright =>
    cases v <;> simp only [same, Bool.false_eq_true] at huv
    rw [Bool.and_eq_true] at huv
    rw [same, Bool.and_eq_true]
    exact ⟨ihleft huv.1, ihright huv.2⟩

/-- Values that are the same as a third one are the same. -/
theorem same_trans {u v w : Value} (huv : same u v = true) (hvw : same v w = true) :
    same u w = true := by
  induction u using parts_induction generalizing v w with
  | scalar s =>
    cases v <;> simp only [same, Bool.false_eq_true] at huv
    cases w <;> simp only [same, Bool.false_eq_true] at hvw
    rw [same]
    exact Scalar.same_trans huv hvw
  | sequence items ih =>
    cases v <;> simp only [same, Bool.false_eq_true] at huv
    cases w <;> simp only [same, Bool.false_eq_true] at hvw
    rw [sameItems_iff] at huv hvw
    rw [same, sameItems_iff]
    exact forall₂_trans_of_mem (fun x hx y z hxy hyz => ih x hx hxy hyz) huv hvw
  | mapping label entries ih =>
    cases v <;> simp only [same, Bool.false_eq_true] at huv
    cases w <;> simp only [same, Bool.false_eq_true] at hvw
    rw [Bool.and_eq_true, beq_iff_eq, sameEntries_iff] at huv hvw
    rw [same, Bool.and_eq_true, beq_iff_eq, sameEntries_iff]
    refine ⟨huv.1.trans hvw.1, ?_⟩
    intro x hx
    -- the partner of the partner, found under a key that is the same
    obtain ⟨y, hy, hxy⟩ := huv.2 x hx
    obtain ⟨entry, hentry, hkey, rfl⟩ := exists_entry_of_lookup hy
    obtain ⟨z, hz, hyz⟩ := hvw.2 entry hentry
    exact ⟨z, lookup_congr hkey _ ▸ hz, ih x hx hxy hyz⟩
  | set members =>
    cases v <;> simp only [same, Bool.false_eq_true] at huv
    cases w <;> simp only [same, Bool.false_eq_true] at hvw
    simp only [Bool.and_eq_true, beq_iff_eq, List.all_eq_true, List.any_eq_true] at huv hvw
    simp only [same, Bool.and_eq_true, beq_iff_eq, List.all_eq_true, List.any_eq_true]
    refine ⟨huv.1.trans hvw.1, ?_⟩
    intro a ha
    obtain ⟨b, hb, hab⟩ := huv.2 a ha
    obtain ⟨c, hc, hbc⟩ := hvw.2 b hb
    exact ⟨c, hc, Scalar.same_trans hab hbc⟩
  | pair first second ihfirst ihsecond =>
    cases v <;> simp only [same, Bool.false_eq_true] at huv
    cases w <;> simp only [same, Bool.false_eq_true] at hvw
    rw [Bool.and_eq_true] at huv hvw
    rw [same, Bool.and_eq_true]
    exact ⟨ihfirst huv.1 hvw.1, ihsecond huv.2 hvw.2⟩

end Value

end SchemaCodecs
