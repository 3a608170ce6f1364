/-
# Scalars without a value

A scalar may have a type in which its text stands for nothing: the type is stated by a tag, or it is
one that the text suggests although no such day or number exists.  Reading then ends in a fault that
is not one of a malformed text.

* `FirstFault` : the first fault of the items of a list;
* `DateText.complaints` : what can be wrong with a date, in the order in which it is found;
* `LacksValue` : the scalars without a value;
* `scalarValue_eq_content_iff` : these are the scalars at which reading ends in such a fault.
-/
import SchemaCodecs.Proofs.Reference.Selection
import SchemaCodecs.Traced
import SchemaCodecs.Yaml.ScalarValue

namespace SchemaCodecs.Yaml

open Number Text

theorem required_ne_content {α : Type} (x : Option α) (fault : Fault) :
    required x ≠ .error (.content fault) := by
  cases x <;> exact nofun

/-! ## First faults -/

section FirstFault

variable {α β : Type} {bad : α → Fault → Prop} {a : α} {rest : List α} {fault : Fault}

/-- The first fault of the items of a list. -/
inductive FirstFault (bad : α → Fault → Prop) : List α → Fault → Prop where
  /-- The first item has the fault. -/
  | here {a : α} {rest : List α} {fault : Fault} (h : bad a fault) : FirstFault bad (a :: rest) fault
  /-- The first item has none. -/
  | later {a : α} {rest : List α} {fault : Fault} (sound : ∀ other, ¬ bad a other)
      (h : FirstFault bad rest fault) : FirstFault bad (a :: rest) fault

theorem not_firstFault_nil : ¬ FirstFault bad [] fault := nofun

theorem firstFault_cons_iff : FirstFault bad (a :: rest) fault ↔
    bad a fault ∨ (∀ other, ¬ bad a other) ∧ FirstFault bad rest fault := by
  constructor
  · intro h
    cases h with
    | here h => exact Or.inl h
    | later sound h => exact Or.inr ⟨sound, h⟩
  · rintro (h | ⟨sound, h⟩)
    · exact .here h
    · exact .later sound h

theorem firstFault_singleton_iff : FirstFault bad [a] fault ↔ bad a fault := by
  rw [firstFault_cons_iff]
  exact or_iff_left fun h => not_firstFault_nil h.2

theorem firstFault_map_iff {f : β → α} {items : List β} :
    FirstFault bad (items.map f) fault ↔ FirstFault (fun b => bad (f b)) items fault := by
  induction items with
  | nil => exact iff_of_false not_firstFault_nil not_firstFault_nil
  | cons b rest ih => rw [List.map_cons, firstFault_cons_iff, firstFault_cons_iff, ih]

theorem FirstFault.exists_mem {items : List α} (h : FirstFault bad items fault) :
    ∃ a ∈ items, bad a fault := by
  induction h with
  | here h => exact ⟨_, List.mem_cons_self, h⟩
  | later _ _ ih =>
    obtain ⟨a, ha, hbad⟩ := ih
    exact ⟨a, List.mem_cons_of_mem _ ha, hbad⟩

/-- Without a first fault no item has one. -/
theorem forall_not_firstFault_iff {items : List α} :
    (∀ fault, ¬ FirstFault bad items fault) ↔ ∀ a ∈ items, ∀ fault, ¬ bad a fault := by
  induction items with
  | nil => exact iff_of_true (fun _ => not_firstFault_nil) (by simp)
  | cons a rest ih =>
    rw [List.forall_mem_cons, ← ih]
    constructor
    · intro h
      have sound : ∀ fault, ¬ bad a fault := fun fault hbad => h fault (.here hbad)
      exact ⟨sound, fun fault hrest => h fault (.later sound hrest)⟩
    · rintro ⟨sound, hrest⟩ fault h
      rcases firstFault_cons_iff.1 h with hbad | ⟨-, h⟩
      · exact sound fault hbad
      · exact hrest fault h

/-- Steps over a list end in the first fault of its items. -/
theorem mapM_eq_error_iff {step : α → Except Fault β}
    (hbad : ∀ a fault, step a = .error fault ↔ bad a fault) (items : List α) (fault : Fault) :
    items.mapM step = .error fault ↔ FirstFault bad items fault := by
  induction items with
  | nil => exact iff_of_false nofun not_firstFault_nil
  | cons a rest ih =>
    rw [List.mapM_cons, firstFault_cons_iff, ← hbad, ← ih]
    simp only [← hbad]
    cases step a with
    | error found => simp [bind, Except.bind]
    | ok b => cases hrest : rest.mapM step <;> simp [bind, Except.bind, pure, Except.pure]

/-- Steps over a list have a result for every item. -/
theorem length_of_mapM {step : α → Except Fault β} {items : List α} {results : List β}
    (h : items.mapM step = .ok results) : results.length = items.length := by
  induction items generalizing results with
  | nil =>
    cases h
    rfl
  | cons a rest ih =>
    rw [List.mapM_cons] at h
    obtain ⟨b, -, h⟩ := (bind_eq_ok_iff _ _ _).1 h
    obtain ⟨bs, hbs, h⟩ := (bind_eq_ok_iff _ _ _).1 h
    cases h
    rw [List.length_cons, List.length_cons, ih hbs]

end FirstFault

/-! ## Integers -/

/-- The text of an integer without underscores and without its sign. -/
def unsignedText (s : Text) : List Point :=
  dropSign (withoutMarks s.toList)

/-- The numerals that make up an unsigned integer, with the base of each. -/
def numerals : List Point → List (Nat × List Point)
  | ['0'] => []
  | '0' :: 'b' :: rest => [(2, rest)]
  | '0' :: 'x' :: rest => [(16, rest)]
  | '0' :: rest => [(8, .char '0' :: rest)]
  | cs => (segments ':' cs).map fun group => (10, group)

/-- A numeral stands for no integer in its base, or it is longer than those that are read. -/
inductive LacksInteger : Nat × List Point → Fault → Prop where
  /-- It stands for none. -/
  | malformed {base : Nat} {cs : List Point} (h : integerInBase base cs = .error .malformed) :
    LacksInteger (base, cs) (.invalid (.scalar (integerComplaint base cs)))
  /-- It is too long. -/
  | tooLong {base digits : Nat} {cs : List Point}
      (h : integerInBase base cs = .error (.tooLong digits)) :
    LacksInteger (base, cs) (.invalid (.longNumeral digits))

theorem checkedInteger_eq_error_iff (base : Nat) (cs : List Point) (fault : Fault) :
    checkedInteger base cs = .error fault ↔ LacksInteger (base, cs) fault := by
  unfold checkedInteger
  constructor
  · intro h
    split at h
    · cases h
    · next hmalformed =>
      cases h
      exact .malformed hmalformed
    · next digits hlong =>
      cases h
      exact .tooLong hlong
  · intro h
    cases h with
    | malformed h => simp only [h, scalarFault]
    | tooLong h => simp only [h]

/-- The numerals of a text that begins with another digit than zero are decimal. -/
theorem numerals_of_positive {cs : List Point} (h : ∀ rest, cs ≠ .char '0' :: rest) :
    numerals cs = (segments ':' cs).map fun group => (10, group) := by
  unfold numerals
  split
  · exact absurd rfl (h _)
  · exact absurd rfl (h _)
  · exact absurd rfl (h _)
  · exact absurd rfl (h _)
  · rfl

/-- An unsigned integer has the first fault of its numerals; it must not be empty. -/
theorem unsignedInteger_eq_error_iff (cs : List Point) (fault : Fault) :
    unsignedInteger cs = .error fault ↔
      cs = [] ∧ fault = .illTyped .emptyText ∨
        cs ≠ [] ∧ FirstFault LacksInteger (numerals cs) fault := by
  fun_cases unsignedInteger cs with
  | case1 => simp [eq_comm, numerals]
  | case2 => simp [numerals, not_firstFault_nil]
  | case3 rest => simp [numerals, firstFault_singleton_iff, checkedInteger_eq_error_iff]
  | case4 rest => simp [numerals, firstFault_singleton_iff, checkedInteger_eq_error_iff]
  | case5 rest => simp [numerals, firstFault_singleton_iff, checkedInteger_eq_error_iff]
  | case6 cs empty _ _ _ positive hcolon =>
    have some : cs ≠ [] := empty
    rw [numerals_of_positive positive, firstFault_map_iff,
      ← mapM_eq_error_iff (checkedInteger_eq_error_iff 10)]
    cases (segments ':' cs).mapM (checkedInteger 10) with
    | error found => simp [some, bind, Except.bind]
    | ok groups => simp [some, bind, Except.bind, pure, Except.pure]
  | case7 cs empty _ _ _ positive hcolon =>
    have some : cs ≠ [] := empty
    rw [List.contains_iff_mem] at hcolon
    rw [numerals_of_positive positive, segments_of_notMem hcolon, List.map_singleton,
      firstFault_singleton_iff, checkedInteger_eq_error_iff]
    simp [some]

/-- The sign of a text is read unless the text is empty. -/
theorem takeSign_eq (cs : List Point) :
    takeSign cs = if cs = [] then .error (.illTyped .emptyText)
      else .ok (cs.head? == some (.char '-'), dropSign cs) := by
  unfold takeSign dropSign
  split
  · rfl
  · rfl
  · rfl
  · next some minus plus =>
    have hminus : (cs.head? == Option.some (.char '-')) = false := by
      rw [beq_eq_false_iff_ne]
      intro hhead
      obtain ⟨rest, hrest⟩ := List.head?_eq_some_iff.1 hhead
      exact minus rest hrest
    rw [if_neg some, hminus]
    split
    · exact absurd rfl (minus _)
    · exact absurd rfl (plus _)
    · rfl

/-- The integer of a scalar has the first fault of its numerals; a sign alone is no integer. -/
theorem integerOfScalar_eq_error_iff (s : Text) (fault : Fault) :
    integerOfScalar s = .error fault ↔
      unsignedText s = [] ∧ fault = .illTyped .emptyText ∨
        unsignedText s ≠ [] ∧
          FirstFault LacksInteger (numerals (unsignedText s)) fault := by
  rw [← unsignedInteger_eq_error_iff, unsignedText, integerOfScalar, takeSign_eq]
  split
  · next empty =>
    rw [empty]
    rfl
  · exact bind_pure_eq_error_iff _ _ _

/-! ## Numbers with a fraction -/

/-- The text of a number in lower case and without underscores. -/
def numberText (s : Text) : List Point :=
  lowerCase (withoutMarks s.toList)

/-- A part of a number stands for none. -/
def LacksNumber (part : List Point) (fault : Fault) : Prop :=
  numberOfText? part = none ∧
    fault = .invalid (.scalar ("could not convert string to float: " ++ quoted (Text.ofList part)))

theorem numberOfText_eq_error_iff (part : List Point) (fault : Fault) :
    numberOfText part = .error fault ↔ LacksNumber part fault := by
  unfold numberOfText LacksNumber
  cases numberOfText? part with
  | none => simp [scalarFault, eq_comm]
  | some x => simp

theorem not_lacksNumber_iff {part : List Point} :
    (∀ fault, ¬ LacksNumber part fault) ↔ (numberOfText? part).isSome := by
  rw [Option.isSome_iff_ne_none]
  exact ⟨fun h hnone => h _ ⟨hnone, rfl⟩, fun h _ hlacks => h hlacks.1⟩

/-- An unsigned number has the first fault of its parts; there must not be too many. -/
theorem unsignedNumber_eq_error_iff (body : List Point) (fault : Fault) :
    unsignedNumber body = .error fault ↔
      FirstFault LacksNumber (segments ':' body) fault ∨
        (∀ part ∈ segments ':' body, (numberOfText? part).isSome) ∧
          groupLimit < (segments ':' body).length ∧ fault = .illTyped .tooLarge := by
  unfold unsignedNumber
  split
  · next hcolon =>
    rw [← mapM_eq_error_iff numberOfText_eq_error_iff]
    cases hparts : (segments ':' body).mapM numberOfText with
    | error found =>
      have hfirst := (mapM_eq_error_iff numberOfText_eq_error_iff _ _).1 hparts
      have hsome : ¬ ∀ part ∈ segments ':' body, (numberOfText? part).isSome := fun numbers =>
        forall_not_firstFault_iff.2 (fun part hpart => not_lacksNumber_iff.2 (numbers part hpart))
          found hfirst
      simp [hsome, bind, Except.bind]
    | ok groups =>
      have numbers : ∀ part ∈ segments ':' body, (numberOfText? part).isSome := by
        intro part hpart
        refine not_lacksNumber_iff.1 (forall_not_firstFault_iff.1 ?_ part hpart)
        intro other hother
        rw [(mapM_eq_error_iff numberOfText_eq_error_iff _ _).2 hother] at hparts
        cases hparts
      show base60Sum groups.reverse = .error fault ↔ _
      rw [base60Sum, List.length_reverse, length_of_mapM hparts]
      simp only [reduceCtorEq, false_or]
      split
      · next many =>
        rw [Except.error.injEq, eq_comm]
        exact (and_iff_right numbers).symm.trans (and_congr_right' (and_iff_right many).symm)
      · next few => exact iff_of_false nofun fun h => few h.2.1
  · next hcolon =>
    rw [List.contains_iff_mem] at hcolon
    rw [segments_of_notMem hcolon, firstFault_singleton_iff, numberOfText_eq_error_iff]
    refine (or_iff_left ?_).symm
    rintro ⟨-, many, -⟩
    simp [groupLimit] at many

/-! ## Dates -/

/-- A complaint, if there is reason for it. -/
def complaint (wrong : Prop) [Decidable wrong] (message : Text) : Option Text :=
  if wrong then some message else none

/-- The complaint about a distance from universal time. -/
def offsetComplaint? : Option (Option Point × List Point × List Point) → Option Text
  | some (some sign, hours, minutes) =>
    let distance : Int := Json.digitsNumber hours * 60 + Json.digitsNumber minutes
    complaint (1440 ≤ distance)
      ("offset must be a timedelta strictly between -timedelta(hours=24) and " ++
        "timedelta(hours=24), not " ++
        durationExpression (if sign == '-' then -distance else distance) ++ ".")
  | _ => none

/-- What can be wrong with a day, in the order in which it is found. -/
def dayComplaints (year month day : Nat) : List (Option Text) :=
  [complaint (year = 0) "year 0 is out of range",
   complaint (month = 0 ∨ 12 < month) "month must be in 1..12",
   complaint (day = 0 ∨ daysInMonth year month < day) "day is out of range for month"]

/-- What can be wrong with a date, in the order in which it is found. -/
def DateText.complaints : DateText → List (Option Text)
  | ⟨(year, month, day), time, zone⟩ =>
    let number := Json.digitsNumber
    let ofDay := dayComplaints (number year) (number month) (number day)
    match time with
    | none => ofDay
    | some (hour, minute, second, _) =>
      offsetComplaint? zone :: ofDay ++
        [complaint (23 < number hour) "hour must be in 0..23",
         complaint (59 < number minute) "minute must be in 0..59",
         complaint (59 < number second) "second must be in 0..59"]

/-- A computation ends in the first of some complaints, or it succeeds if there is none. -/
def Complains {α : Type} (x : Except Fault α) (complaints : List (Option Text)) : Prop :=
  ∀ fault, x = .error fault ↔
    ∃ message, complaints.findSome? id = some message ∧ fault = .invalid (.scalar message)

namespace Complains

variable {α β : Type}

theorem pure (a : α) : Complains (.ok a) [] := by
  intro fault
  simp

theorem quiet (a : α) : Complains (.ok a) [none] := by
  intro fault
  simp

/-- The complaints of two computations follow each other. -/
theorem bind {x : Except Fault α} {f : α → Except Fault β} {first second : List (Option Text)}
    (hx : Complains x first) (hf : ∀ a, Complains (f a) second) :
    Complains (x >>= f) (first ++ second) := by
  intro fault
  rw [List.findSome?_append]
  cases x with
  | error found =>
    obtain ⟨message, hmessage, rfl⟩ := (hx found).1 rfl
    rw [hmessage]
    simp [Bind.bind, Except.bind, eq_comm]
  | ok a =>
    cases hfirst : first.findSome? id with
    | none => exact hf a fault
    | some message => exact absurd ((hx _).2 ⟨message, hfirst, rfl⟩) nofun

theorem first {x : Except Fault α} {f : α → Except Fault β} {message : Option Text}
    {rest : List (Option Text)} (hx : Complains x [message]) (hf : ∀ a, Complains (f a) rest) :
    Complains (x >>= f) (message :: rest) :=
  hx.bind hf

theorem guard {wrong reason : Prop} [Decidable wrong] [Decidable reason] {message : Text}
    {failed x : Except Fault α} {rest : List (Option Text)} (hwrong : wrong ↔ reason)
    (hfailed : failed = scalarFault message) (h : Complains x rest) :
    Complains (if wrong then failed else x) (complaint reason message :: rest) := by
  subst hfailed
  intro fault
  simp only [hwrong, complaint]
  split
  · simp [scalarFault, eq_comm]
  · exact h fault

theorem check {fine reason : Prop} [Decidable fine] [Decidable reason] {message : Text} {a : α}
    {failed : Except Fault α} (hfine : ¬ fine ↔ reason) (hfailed : failed = scalarFault message) :
    Complains (if fine then .ok a else failed) [complaint reason message] := by
  rw [← ite_not]
  exact guard hfine hfailed (.pure a)

end Complains

theorem complains_checkedDate (year month day : Nat) :
    Complains (checkedDate year month day) (dayComplaints year month day) := by
  unfold checkedDate dayComplaints
  apply Complains.guard Iff.rfl rfl
  apply Complains.guard (by simp) rfl
  exact Complains.guard (by simp) rfl (.pure _)

theorem complains_checkedOffset (zone : Option (Option Point × List Point × List Point)) :
    Complains (checkedOffset zone) [offsetComplaint? zone] := by
  match zone with
  | none => exact .quiet none
  | some (none, _, _) => exact .quiet (some 0)
  | some (some sign, hours, minutes) =>
    unfold checkedOffset offsetComplaint?
    apply Complains.check Int.not_lt rfl

/-- Of a text of the form of a date the first complaint is the fault. -/
theorem dateOfScalar_eq_error_iff (s : Text) (fault : Fault) :
    dateOfScalar s = .error fault ↔
      dateText? (dropLineFeed s.toList) = none ∧ fault = .illTyped .lacksPart ∨
        ∃ date message, dateText? (dropLineFeed s.toList) = some date ∧
          date.complaints.findSome? id = some message ∧ fault = .invalid (.scalar message) := by
  unfold dateOfScalar
  split
  · next hform => simp [hform, eq_comm]
  · next year month day time zone hform =>
    simp only [hform, reduceCtorEq, false_and, false_or, Option.some.injEq, exists_and_left,
      exists_eq_left']
    cases time with
    | none => exact (Complains.bind (complains_checkedDate _ _ _) fun date => .pure _) fault
    | some time =>
      obtain ⟨hour, minute, second, fraction⟩ := time
      refine (complains_checkedOffset zone).first (fun offset => ?_) fault
      apply Complains.bind (complains_checkedDate _ _ _)
      intro date
      apply Complains.guard Iff.rfl rfl
      apply Complains.guard Iff.rfl rfl
      exact Complains.guard Iff.rfl rfl (.pure _)

/-! ## All scalars -/

/-- A scalar of a type has no value, for the reason that a fault tells. -/
inductive LacksValue : Tag → Text → Fault → Prop where
  /-- A word is none of those for truth values. -/
  | word {s : Text} (unknown : Text.ofList (lowerCase s.toList) ∉
      (["yes", "true", "on", "no", "false", "off"] : List Text)) :
    LacksValue .bool s (.illTyped .unknownWord)
  /-- An integer has no digits, but a sign at most. -/
  | noDigits {s : Text} (bare : unsignedText s = []) :
    LacksValue .int s (.illTyped .emptyText)
  /-- A numeral of an integer stands for none. -/
  | integer {s : Text} {fault : Fault} (some : unsignedText s ≠ [])
      (first : FirstFault LacksInteger (numerals (unsignedText s)) fault) :
    LacksValue .int s fault
  /-- A number has no characters. -/
  | noNumber {s : Text} (bare : numberText s = []) :
    LacksValue .float s (.illTyped .emptyText)
  /-- A part of a number, which is none of the words for infinity and for no number, stands for none. -/
  | number {s : Text} {fault : Fault} (some : numberText s ≠ [])
      (word : dropSign (numberText s) ∉ ([".inf", ".nan"] : List Text).map Text.toList)
      (first : FirstFault LacksNumber (segments ':' (dropSign (numberText s))) fault) :
    LacksValue .float s fault
  /-- A number has too many parts. -/
  | tooLarge {s : Text} {parts : List (List Point)}
      (unsigned : segments ':' (dropSign (numberText s)) = parts)
      (numbers : ∀ part ∈ parts, (numberOfText? part).isSome) (many : groupLimit < parts.length) :
    LacksValue .float s (.illTyped .tooLarge)
  /-- A text has not the form of a date. -/
  | noDate {s : Text} (form : dateText? (dropLineFeed s.toList) = none) :
    LacksValue .timestamp s (.illTyped .lacksPart)
  /-- There is no such day, hour or distance from universal time. -/
  | date {s message : Text} {date : DateText}
      (form : dateText? (dropLineFeed s.toList) = some date)
      (first : date.complaints.findSome? id = some message) :
    LacksValue .timestamp s (.invalid (.scalar message))

theorem LacksValue.ne_document {tag : Tag} {s : Text} {fault : Fault} (h : LacksValue tag s fault)
    {cause : DocumentFault} : fault ≠ .document cause := by
  rintro rfl
  cases h with
  | integer some first =>
    obtain ⟨numeral, -, hlacks⟩ := first.exists_mem
    cases hlacks
  | number some word first =>
    obtain ⟨part, -, -, hfault⟩ := first.exists_mem
    cases hfault

theorem asContent_eq_content_iff (x : Except Fault Scalar) (fault : Fault) :
    asContent x = .error (.content fault) ↔ x = .error fault := by
  cases x <;> simp [asContent]

theorem asContent_map_eq_content_iff {α : Type} (x : Except Fault α) (f : α → Scalar) (fault : Fault) :
    asContent (x.map f) = .error (.content fault) ↔ x = .error fault := by
  cases x <;> simp [asContent, Except.map]

theorem boolOfText_eq_error_iff (s : Text) (fault : Fault) :
    boolOfText s = .error fault ↔
      Text.ofList (lowerCase s.toList) ∉ (["yes", "true", "on", "no", "false", "off"] : List Text) ∧
        fault = .illTyped .unknownWord := by
  unfold boolOfText
  dsimp only
  generalize Text.ofList (lowerCase s.toList) = word
  have hwords : word ∈ (["yes", "true", "on", "no", "false", "off"] : List Text) ↔
      word ∈ (["yes", "true", "on"] : List Text) ∨ word ∈ (["no", "false", "off"] : List Text) := by
    simp only [List.mem_cons, List.not_mem_nil, or_false, or_assoc]
  rw [hwords, not_or]
  split
  · next hyes => simp [hyes]
  · next hyes =>
    split
    · next hno => simp [hno]
    · next hno =>
      simp only [hyes, hno, not_false_eq_true, and_self, true_and, Except.error.injEq, eq_comm]

/-- A number without a sign has a fault unless it is one of the words for no number. -/
theorem numberOfScalar_eq_error_iff (origin : NaNOrigin) (s : Text) (fault : Fault) :
    numberOfScalar origin s = .error fault ↔
      numberText s = [] ∧ fault = .illTyped .emptyText ∨
        numberText s ≠ [] ∧
          dropSign (numberText s) ∉ ([".inf", ".nan"] : List Text).map Text.toList ∧
            unsignedNumber (dropSign (numberText s)) = .error fault := by
  unfold numberOfScalar
  rw [takeSign_eq, ← numberText]
  split
  · next empty => simp [empty, eq_comm, bind, Except.bind]
  · next some =>
    generalize dropSign (numberText s) = body
    simp only [List.map_cons, List.map_nil, List.mem_cons, List.not_mem_nil, or_false, not_or,
      some, ne_eq, not_false_eq_true, false_and, false_or, true_and, bind, Except.bind]
    split
    · next hword => simp [beq_iff_eq.1 hword, pure, Except.pure]
    · next hinf =>
      split
      · next hword => simp [beq_iff_eq.1 hword, pure, Except.pure]
      · next hnan =>
        rw [beq_iff_eq] at hinf hnan
        simp only [hinf, hnan, not_false_eq_true, true_and]
        exact bind_pure_eq_error_iff _ _ _

/-- **Scalars without a value.**  Reading a scalar ends in a fault that is none of a malformed text
exactly if the scalar has no value for that reason. -/
theorem scalarValue_eq_content_iff (origin : NaNOrigin) (tag : Tag) (s : Text) (fault : Fault) :
    scalarValue origin tag s = .error (.content fault) ↔ LacksValue tag s fault := by
  constructor
  · intro h
    cases tag with
    | bool =>
      obtain ⟨unknown, rfl⟩ :=
        (boolOfText_eq_error_iff _ _).1 ((asContent_map_eq_content_iff _ _ _).1 h)
      exact .word unknown
    | int =>
      rcases (integerOfScalar_eq_error_iff _ _).1 ((asContent_map_eq_content_iff _ _ _).1 h) with
        ⟨bare, rfl⟩ | ⟨some, first⟩
      · exact .noDigits bare
      · exact .integer some first
    | float =>
      rcases (numberOfScalar_eq_error_iff _ _ _).1 ((asContent_eq_content_iff _ _).1 h) with
        ⟨bare, rfl⟩ | ⟨some, word, hunsigned⟩
      · exact .noNumber bare
      · rcases (unsignedNumber_eq_error_iff _ _).1 hunsigned with first | ⟨numbers, many, rfl⟩
        · exact .number some word first
        · exact .tooLarge rfl numbers many
    | timestamp =>
      rcases (dateOfScalar_eq_error_iff _ _).1 ((asContent_eq_content_iff _ _).1 h) with
        ⟨form, rfl⟩ | ⟨date, message, form, first, rfl⟩
      · exact .noDate form
      · exact .date form first
    | binary =>
      simp only [scalarValue] at h
      cases hbytes : bytesOfScalar? s <;> simp [hbytes, required, Except.map] at h
    | _ => cases h
  · intro h
    cases h with
    | word unknown =>
      exact (asContent_map_eq_content_iff _ _ _).2 ((boolOfText_eq_error_iff _ _).2 ⟨unknown, rfl⟩)
    | noDigits bare =>
      exact (asContent_map_eq_content_iff _ _ _).2
        ((integerOfScalar_eq_error_iff _ _).2 (Or.inl ⟨bare, rfl⟩))
    | integer some first =>
      exact (asContent_map_eq_content_iff _ _ _).2
        ((integerOfScalar_eq_error_iff _ _).2 (Or.inr ⟨some, first⟩))
    | noNumber bare =>
      exact (asContent_eq_content_iff _ _).2
        ((numberOfScalar_eq_error_iff _ _ _).2 (Or.inl ⟨bare, rfl⟩))
    | number some word first =>
      refine (asContent_eq_content_iff _ _).2
        ((numberOfScalar_eq_error_iff _ _ _).2 (Or.inr ⟨some, word, ?_⟩))
      exact (unsignedNumber_eq_error_iff _ _).2 (Or.inl first)
    | tooLarge unsigned numbers many =>
      subst unsigned
      refine (asContent_eq_content_iff _ _).2
        ((numberOfScalar_eq_error_iff _ _ _).2 (Or.inr ⟨?_, ?_, ?_⟩))
      · intro bare
        rw [bare] at many
        exact absurd many (by decide)
      · intro hword
        simp only [List.map_cons, List.map_nil, List.mem_cons, List.not_mem_nil, or_false] at hword
        rcases hword with heq | heq <;>
          · rw [heq] at many
            exact absurd many (by decide)
      · exact (unsignedNumber_eq_error_iff _ _).2 (Or.inr ⟨numbers, many, rfl⟩)
    | noDate form =>
      exact (asContent_eq_content_iff _ _).2 ((dateOfScalar_eq_error_iff _ _).2 (Or.inl ⟨form, rfl⟩))
    | date form first =>
      exact (asContent_eq_content_iff _ _).2
        ((dateOfScalar_eq_error_iff _ _).2 (Or.inr ⟨_, _, form, first, rfl⟩))

end SchemaCodecs.Yaml
