/-
# What is written in a file and stands for nothing

Reading a file ends in a fault that is none of the document if something that is written in it stands
for nothing: a number that gives a character or a version, or a node that has no value in its type.

A file whose text is cut short, by bytes that belong to no character or by a character that may not
stand there, is an error of the document.  Only if it is longer than what is checked first, and a number
in front of the cut stands for nothing, is it left open which of the two is met; this is a fault of its
own.

* `Misread` : something that is written in a file stands for nothing;
* `readText_eq_content_iff` : these are the files at which reading ends so.
-/
import SchemaCodecs.Proofs.Yaml.Distinct
import SchemaCodecs.Proofs.Yaml.NodeReading

namespace SchemaCodecs

open Text

/-- A fault that is reported as an error of the document. -/
def Fault.IsDocument (fault : Fault) : Prop := ∃ cause, fault = .document cause

/-- Of a text that is cut short more can be read than what is checked first, and something in it stands
for nothing: whether that is met before the end depends on how far the text is read ahead. -/
def Yaml.Unsettled (front : List Point) : Prop :=
  checkedFirst ≤ (front.takeWhile isAllowed).length ∧
    ∃ cause, Misnumbered (front.takeWhile isAllowed) cause ∧
      parse (front.takeWhile isAllowed) = .error (.content cause)

/-- A text that is cut short is malformed, or it is left open what is met first. -/
theorem Yaml.cutShort_eq_content_iff (front : List Point) (fault : Fault) :
    cutShort front = .content fault ↔ fault = .unsettled ∧ Unsettled front := by
  unfold cutShort
  dsimp only
  split
  · next short =>
    simp only [reduceCtorEq, false_iff, not_and]
    rintro - ⟨long, -⟩
    exact absurd short (Nat.not_lt.2 long)
  · next long =>
    split
    · next cause hparse =>
      have unsettled : Unsettled front :=
        ⟨Nat.not_lt.1 long, cause, misnumbered_of_parse hparse, hparse⟩
      simp [unsettled, eq_comm]
    · next hparse =>
      simp only [reduceCtorEq, false_iff, not_and]
      rintro - ⟨-, cause, -, hcause⟩
      exact hparse cause hcause

/-- A text with a character that may not stand there is cut short. -/
theorem Yaml.read_of_barred (file : Text) {cs : List Point} (barred : cs.all isAllowed = false) :
    read file cs = .error (cutShort cs) := by
  simp [read, barred, bind, Except.bind, throw, throwThe, MonadExceptOf.throw]

/-- In a text of characters that may stand there a fault is met in reading its nodes or in reading the
value of one. -/
theorem Yaml.read_eq_content_iff {file : Text} {cs : List Point} (allowed : cs.all isAllowed = true)
    (fault : Fault) :
    read file cs = .error (.content fault) ↔ parse cs = .error (.content fault) ∨
      ∃ tree, parse cs = .ok (some tree) ∧ tree.value file = .error (.content fault) := by
  unfold read
  cases hparse : parse cs with
  | error cause => simp [allowed, bind, Except.bind]
  | ok tree? =>
    cases tree? with
    | none => simp [allowed, bind, Except.bind, pure, Except.pure]
    | some tree =>
      cases hvalue : tree.value file <;> simp [allowed, hvalue, bind, Except.bind, pure, Except.pure]

/-- Something that is written in a file stands for nothing. -/
inductive Misread (file : Path) (bytes : List UInt8) : Fault → Prop where
  /-- The number of a character or of a version stands for nothing, and this is what is met first. -/
  | number {fault : Fault} {text : Text} (decoded : decodeUtf8 bytes = .ok text)
      (allowed : (normalizeLineEnds text.toList).all Yaml.isAllowed = true)
      (misnumbered : Yaml.Misnumbered (normalizeLineEnds text.toList) fault)
      (first : Yaml.parse (normalizeLineEnds text.toList) = .error (.content fault)) :
    Misread file bytes fault
  /-- A node has no value in its type, and this is what is met first. -/
  | scalar {fault : Fault} {text : Text} {tree : Yaml.NodeTree}
      (decoded : decodeUtf8 bytes = .ok text)
      (allowed : (normalizeLineEnds text.toList).all Yaml.isAllowed = true)
      (parsed : Yaml.parse (normalizeLineEnds text.toList) = .ok (some tree))
      (lacks : tree.nodes.LacksValue fault)
      (first : tree.value file.text = .error (.content fault)) :
    Misread file bytes fault
  /-- A number stands for nothing; behind it, and behind what is checked first, comes a character that
  may not stand in a text. -/
  | barred {text : Text} (decoded : decodeUtf8 bytes = .ok text)
      (barred : (normalizeLineEnds text.toList).all Yaml.isAllowed = false)
      (front : Yaml.Unsettled (normalizeLineEnds text.toList)) :
    Misread file bytes .unsettled
  /-- A number stands for nothing; behind it, and behind what is checked first, come bytes that belong
  to no character. -/
  | undecoded {found : Utf8Fault} (undecoded : decodeUtf8 bytes = .error found)
      (front : Yaml.Unsettled (normalizeLineEnds (found.front bytes).toList)) :
    Misread file bytes .unsettled

/-- Reading a file ends in a fault of what is written in it exactly if that stands for nothing. -/
theorem readText_eq_content_iff (file : Path) (bytes : List UInt8) (fault : Fault) :
    readText file bytes = .error (.content fault) ↔ Misread file bytes fault := by
  unfold readText
  constructor
  · intro h
    split at h
    · next found hdecode =>
      obtain ⟨rfl, front⟩ := (Yaml.cutShort_eq_content_iff _ _).1 (Except.error.inj h)
      exact .undecoded hdecode front
    · next text hdecode =>
      cases hallowed : (normalizeLineEnds text.toList).all Yaml.isAllowed with
      | false =>
        rw [Yaml.read_of_barred _ hallowed] at h
        obtain ⟨rfl, front⟩ := (Yaml.cutShort_eq_content_iff _ _).1 (Except.error.inj h)
        exact .barred hdecode hallowed front
      | true =>
        rcases (Yaml.read_eq_content_iff hallowed _).1 h with hparse | ⟨tree, hparse, hvalue⟩
        · exact .number hdecode hallowed (Yaml.misnumbered_of_parse hparse) hparse
        · exact .scalar hdecode hallowed hparse (Yaml.NodeTree.lacksValue_of_value hvalue) hvalue
  · intro h
    cases h with
    | number decoded allowed _ first =>
      rw [decoded]
      exact (Yaml.read_eq_content_iff allowed _).2 (Or.inl first)
    | scalar decoded allowed parsed _ first =>
      rw [decoded]
      exact (Yaml.read_eq_content_iff allowed _).2 (Or.inr ⟨_, parsed, first⟩)
    | barred decoded barred front =>
      rw [decoded]
      exact (Yaml.read_of_barred _ barred).trans
        (congrArg Except.error ((Yaml.cutShort_eq_content_iff _ _).2 ⟨rfl, front⟩))
    | undecoded undecoded front =>
      rw [undecoded]
      exact congrArg Except.error ((Yaml.cutShort_eq_content_iff _ _).2 ⟨rfl, front⟩)

/-- What stands for nothing is no error of the document. -/
theorem Misread.not_isDocument {file : Path} {bytes : List UInt8} {fault : Fault}
    (h : Misread file bytes fault) : ¬ fault.IsDocument := by
  rintro ⟨cause, rfl⟩
  cases h with
  | number decoded allowed misnumbered first => cases misnumbered
  | scalar decoded allowed parsed lacks first =>
    cases lacks with
    | scalar stands lacks => exact lacks.ne_document rfl

end SchemaCodecs
