/-
# Positions in a text

Whatever reads a text goes on in it: the position that it comes to is followed by an end of the text.

* `Cursor.Within` : a position in a text;
* `Yields`, `Gives` : what reading a part of a text comes to, and how it may fail;
* `Misnumbered` : a number that is written in a text stands for nothing.
-/
import SchemaCodecs.Proofs.Yaml.ScalarFaults
import SchemaCodecs.Yaml.Scalar

namespace SchemaCodecs.Yaml

/-! ## Positions -/

/-- A position in a text: an end of the text follows. -/
def Cursor.Within (cursor : Cursor) (cs : List Point) : Prop :=
  cursor.rest <:+ cs

namespace Cursor.Within

variable {cursor : Cursor} {cs : List Point}

theorem step (h : cursor.Within cs) : cursor.step.Within cs := by
  unfold Cursor.step
  split
  · exact h
  · next c rest hrest =>
    have hsuffix : rest <:+ cs := by
      refine (List.suffix_cons c rest).trans ?_
      rw [← hrest]
      exact h
    dsimp only
    split
    · exact hsuffix
    · exact hsuffix

theorem skip (h : cursor.Within cs) (n : Nat) : (cursor.skip n).Within cs := by
  induction n generalizing cursor with
  | zero => exact h
  | succ n ih => exact ih h.step

theorem takeWhile (h : cursor.Within cs) (p : Point → Bool) : (cursor.takeWhile p).2.Within cs :=
  h.skip _

theorem skipWhile (h : cursor.Within cs) (p : Point → Bool) : (cursor.skipWhile p).Within cs :=
  h.takeWhile p

theorem takeBreak? (h : cursor.Within cs) {c : Point} {after : Cursor}
    (hbreak : cursor.takeBreak? = some (c, after)) : after.Within cs := by
  unfold Cursor.takeBreak? at hbreak
  split at hbreak
  · split at hbreak
    · cases hbreak
      exact h.step
    · split at hbreak
      · cases hbreak
        exact h.step
      · cases hbreak
  · cases hbreak

theorem skipComment (h : cursor.Within cs) :
    (if cursor.rest.head? == some (.char '#') then cursor.skipWhile (!isBreak ·) else cursor).Within
      cs := by
  split
  · exact h.skipWhile _
  · exact h

theorem skipLineRest? (h : cursor.Within cs) {after : Cursor}
    (hline : cursor.skipLineRest? = some after) : after.Within cs := by
  have hblanks := (h.skipWhile (· == .char ' ')).skipComment
  unfold Cursor.skipLineRest? at hline
  dsimp only at hline
  revert hblanks hline
  generalize (if (cursor.skipWhile (· == .char ' ')).rest.head? == some (.char '#') then
    (cursor.skipWhile (· == .char ' ')).skipWhile (!isBreak ·)
    else cursor.skipWhile (· == .char ' ')) = blanks
  intro hline hblanks
  split at hline
  · cases hline
    split
    · next hbreak => exact hblanks.takeBreak? hbreak
    · exact hblanks
  · cases hline

end Cursor.Within

/-! ## Numbers that stand for nothing -/

/-- A number that is written in a text stands for nothing. -/
inductive Misnumbered (cs : List Point) : Fault → Prop where
  /-- A character is given by a number beyond that of the last one. -/
  | point {rest : List Point} {code length : Nat} (place : rest <:+ cs)
      (escape : escapedCode? rest = some (code, length)) (beyond : 0x110000 ≤ code)
      (narrow : code < Nat.pow 2 31) :
    Misnumbered cs (.invalid .codePoint)
  /-- A character is given by a number of more than thirty-one bits. -/
  | wide {rest : List Point} {code length : Nat} (place : rest <:+ cs)
      (escape : escapedCode? rest = some (code, length)) (wide : Nat.pow 2 31 ≤ code) :
    Misnumbered cs (.illTyped .tooLarge)
  /-- A version has more digits than are read. -/
  | version {rest digits : List Point} (place : rest <:+ cs)
      (run : rest.takeWhile Point.isDigit = digits) (long : Number.digitLimit < digits.length) :
    Misnumbered cs (.invalid (.longNumeral digits.length))

/-! ## Results of reading -/

section Yields

variable {α β : Type} {cs : List Point} {P : α → Prop} {Q : β → Prop}

/-- What reading a part of a text comes to has a property.  If reading fails and the text is not
malformed, a number that is written in it stands for nothing. -/
def Yields (cs : List Point) (reading : Reading α) (P : α → Prop) : Prop :=
  match reading with
  | .ok a => P a
  | .error .malformed => True
  | .error (.content fault) => Misnumbered cs fault

namespace Yields

theorem ok {a : α} (h : P a) : Yields cs (.ok a) P :=
  h

theorem malformed : Yields cs (.error .malformed : Reading α) P :=
  trivial

theorem bind {reading : Reading α} {next : α → Reading β} (h : Yields cs reading P)
    (hnext : ∀ a, P a → Yields cs (next a) Q) : Yields cs (reading >>= next) Q := by
  match reading with
  | .ok a => exact hnext a h
  | .error .malformed => exact trivial
  | .error (.content fault) => exact h

theorem ite {c : Prop} [Decidable c] {first second : Reading α} (h : Yields cs first P)
    (hsecond : Yields cs second P) : Yields cs (if c then first else second) P := by
  split
  · exact h
  · exact hsecond

theorem mapM {items : List α} {step : α → Reading β} (h : ∀ a, Yields cs (step a) fun _ => True) :
    Yields cs (items.mapM step) fun _ => True := by
  induction items with
  | nil => exact ok trivial
  | cons item rest ih =>
    rw [List.mapM_cons]
    exact bind (h item) fun _ _ => bind ih fun _ _ => ok trivial

end Yields

/-- What reading a part of a text comes to has a property if the text is well formed there. -/
def Gives (reading : Option α) (P : α → Prop) : Prop :=
  ∀ a, reading = some a → P a

namespace Gives

theorem some {a : α} (h : P a) : Gives (some a) P := by
  rintro _ ⟨⟩
  exact h

theorem none : Gives (none : Option α) P :=
  nofun

theorem bind {reading : Option α} {next : α → Option β} (h : Gives reading P)
    (hnext : ∀ a, P a → Gives (next a) Q) : Gives (reading >>= next) Q := by
  intro b hb
  obtain ⟨a, ha, hb⟩ := Option.bind_eq_some_iff.1 hb
  exact hnext a (h a ha) b hb

theorem required {reading : Option α} (h : Gives reading P) : Yields cs (required reading) P := by
  cases reading with
  | none => exact trivial
  | some a => exact h a rfl

end Gives

end Yields

end SchemaCodecs.Yaml
