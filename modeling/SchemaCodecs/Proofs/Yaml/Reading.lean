/-
# Reading texts without aliases

Where no mapping of a text stands at several places, reading it only drops the labels: the value is
the one that the nodes stand for.
-/
import SchemaCodecs.Proofs.Bundle.Relocation
import SchemaCodecs.Proofs.Text.Points
import SchemaCodecs.Proofs.Yaml.Distinct
import SchemaCodecs.Traced

namespace SchemaCodecs

namespace Yaml

/-! ## Labels that are kept -/

/-- Numbers in a list without repetitions do not stand next to equal ones. -/
theorem repeatedNeighbours_of_nodup {numbers : List Nat} (h : numbers.Nodup) :
    repeatedNeighbours numbers = [] := by
  induction numbers with
  | nil => rfl
  | cons a rest ih =>
    cases rest with
    | nil => rfl
    | cons b rest =>
      obtain ⟨hmem, hrest⟩ := List.nodup_cons.1 h
      have hne : a ≠ b := fun heq => hmem (heq ▸ List.mem_cons_self)
      rw [repeatedNeighbours, if_neg (by simpa using hne)]
      exact ih hrest

/-- Labels that occur once are dropped. -/
theorem sharedLabels_of_nodup {v : Value} (h : v.isFinite = true ∧ (labels v).Nodup) :
    sharedLabels v = keepLabels [] v := by
  have hsorted : ((labels v).mergeSort fun a b => decide (a ≤ b)).Nodup :=
    (List.mergeSort_perm _ _).nodup_iff.2 h.2
  rw [sharedLabels, if_pos h.1, repeatedNeighbours_of_nodup hsorted]

/-! ## Reading -/

/-- The value of a text, in which every mapping has a label. -/
def readLabelled (file : Text) (cs : List Point) : Reading Value := do
  unless cs.all isAllowed do throw (cutShort cs)
  match ← parse cs with
  | none => return .null
  | some tree => tree.value file

/-- Reading keeps the labels that occur several times. -/
theorem read_eq_map (file : Text) (cs : List Point) :
    read file cs = (readLabelled file cs).map sharedLabels := by
  simp only [read, readLabelled]
  split
  · cases parse cs with
    | error fault => rfl
    | ok nodes =>
      cases nodes with
      | none => rfl
      | some nodes =>
        simp only [bind, Except.bind]
        cases nodes.value file <;> rfl
  · rfl

end Yaml

/-- The bytes of a text of ASCII characters. -/
def Text.asciiBytes (text : Text) : List UInt8 :=
  text.toList.map fun c => UInt8.ofNat c.toNat

/-- The bytes of ASCII characters are read as these characters. -/
theorem Text.decodeAux_ascii {cs : List Point} (h : ∀ c ∈ cs, c.toNat < 128) (position : Nat)
    (found : List Point) :
    decodeAux position 0 found (cs.map fun c => UInt8.ofNat c.toNat) = .ok (cs.reverse ++ found) := by
  induction cs generalizing position found with
  | nil => rfl
  | cons c rest ih =>
    obtain ⟨hc, hrest⟩ := List.forall_mem_cons.1 h
    have hbyte : (UInt8.ofNat c.toNat).toNat = c.toNat := by
      rw [UInt8.toNat_ofNat']
      omega
    have hfirst : firstChar (UInt8.ofNat c.toNat) (rest.map fun c => UInt8.ofNat c.toNat)
        = .char c 1 := by
      rw [firstChar, hbyte, leadByte?, if_pos hc]
      simp only [continueChar, Point.ofNat_toNat]
    rw [List.map_cons, decodeAux]
    simp only [hfirst]
    rw [ih hrest, List.reverse_cons, List.append_assoc]
    rfl

/-- The bytes of a text of ASCII characters are read as the text. -/
theorem Text.decodeUtf8_asciiBytes {text : Text}
    (h : (text.toList.all fun c => decide (c.toNat < 128)) = true) :
    decodeUtf8 (asciiBytes text) = .ok text := by
  have hcharacters : ∀ c ∈ text.toList, c.toNat < 128 := by
    intro c hc
    exact of_decide_eq_true (List.all_eq_true.1 h c hc)
  rw [decodeUtf8, asciiBytes, decodeAux_ascii hcharacters, List.append_nil]
  show Except.ok (Text.ofList text.toList.reverse.reverse) = _
  rw [List.reverse_reverse, Text.ofList_toList]

/-- The document in a file of ASCII characters is the value that its nodes stand for, with the labels
that occur several times. -/
theorem readDocument_eq_sharedLabels {tree : FileTree} {file : Path} {text : Text}
    {cs : List Point} {v : Value} (htext : text.toList = cs)
    (hread : tree.read file = .ok (Text.asciiBytes text))
    (hascii : (cs.all fun c => decide (c.toNat < 128)) = true)
    (hvalue : (Yaml.readLabelled file.text (Text.normalizeLineEnds cs)).toOption = some v) :
    readDocument tree file = .ok (Yaml.sharedLabels v) := by
  subst htext
  have hlabelled := eq_ok_of_toOption hvalue
  unfold readDocument parseDocument readText
  rw [hread]
  simp only [Text.decodeUtf8_asciiBytes hascii, Yaml.read_eq_map, hlabelled]
  rfl

/-- The document in a file of ASCII characters without aliases is the value that its nodes stand
for. -/
theorem readDocument_of_ascii {tree : FileTree} {file : Path} {text : Text} {cs : List Point}
    {v : Value} (htext : text.toList = cs)
    (hread : tree.read file = .ok (Text.asciiBytes text))
    (hascii : (cs.all fun c => decide (c.toNat < 128)) = true)
    (hvalue : (Yaml.readLabelled file.text (Text.normalizeLineEnds cs)).toOption = some v)
    (once : v.isFinite = true ∧ (Yaml.labels v).Nodup) :
    readDocument tree file = .ok (Yaml.keepLabels [] v) := by
  rw [readDocument_eq_sharedLabels htext hread hascii hvalue, Yaml.sharedLabels_of_nodup once]

end SchemaCodecs
