/-
# Walks along references

Following references one task after another, without the shelf and the allowance that the search
carries along.  A walk takes a turn with each task: it goes past what stays inside or is known,
goes into a new target, or is refused.  No target is gone into twice, whatever the documents are
like.

* `InStep` : computations that end in related results or in the same fault;
* `Trail.turn`, `Trail.Takes` : what one task leads to, as a function and by the kinds of task;
* `Walk`, `Ends` : some turns, and all turns up to a result or a fault;
* `ends_ok_iff` : the walks that end in a result are the derivations;
* `Ends.lockstep` : walks through related documents end in related ways.
-/
import SchemaCodecs.Proofs.Bundle.Gathering

namespace SchemaCodecs

/-! ## Computations in step -/

/-- Two computations give related results, or fail with the same fault. -/
inductive InStep {α β : Type} (R : α → β → Prop) : Except Fault α → Except Fault β → Prop where
  /-- Both give a result. -/
  | ok {a : α} {b : β} (related : R a b) : InStep R (.ok a) (.ok b)
  /-- Both fail. -/
  | error (fault : Fault) : InStep R (.error fault) (.error fault)

namespace InStep

variable {α β γ δ : Type} {R : α → β → Prop} {S : γ → δ → Prop} {x : Except Fault α}
  {y : Except Fault β}

/-- Computations in step go on in step. -/
theorem bind {f : α → Except Fault γ} {g : β → Except Fault δ} (h : InStep R x y)
    (hnext : ∀ a b, x = .ok a → y = .ok b → R a b → InStep S (f a) (g b)) :
    InStep S (x >>= f) (y >>= g) := by
  cases h with
  | ok related => exact hnext _ _ rfl rfl related
  | error fault => exact .error fault

theorem imp {S : α → β → Prop} (h : InStep R x y) (himp : ∀ a b, R a b → S a b) : InStep S x y := by
  cases h with
  | ok related => exact .ok (himp _ _ related)
  | error fault => exact .error fault

/-- Results of computations in step may be changed in a way that fits. -/
theorem map {f : α → γ} {g : β → δ} (h : InStep R x y) (hfits : ∀ a b, R a b → S (f a) (g b)) :
    InStep S (x.map f) (y.map g) := by
  cases h with
  | ok related => exact .ok (hfits _ _ related)
  | error fault => exact .error fault

theorem refl (x : Except Fault α) : InStep (fun a b => b = a) x x := by
  cases x with
  | ok a => exact .ok rfl
  | error fault => exact .error fault

theorem eq {y : Except Fault α} (h : InStep (fun a b => b = a) x y) : y = x := by
  cases h with
  | ok related => rw [related]
  | error fault => rfl

end InStep

/-! ## Turns -/

/-- A walk on its way: what was gathered so far, and what remains to be done. -/
structure Trail where
  /-- What was gathered. -/
  gathering : Gathering := {}
  /-- The tasks that remain. -/
  tasks : List Task

/-- What the next task of a trail leads to. -/
inductive Turn where
  /-- No task remains. -/
  | finished
  /-- The task cannot be carried out. -/
  | refused (fault : Fault)
  /-- The task adds nothing. -/
  | past (next : Trail)
  /-- The task adds a target and the references in what it denotes. -/
  | into (target : Target) (next : Trail)

/-- The trail of a root document before the first turn. -/
def Trail.start (root : Path) (document : Value) : Trail where
  tasks := tasksFor root root document

/-- The next turn in the documents of a tree and a shelf. -/
def Trail.turn (tree : FileTree) (shelf : Shelf) (root : Path) : Trail → Turn
  | ⟨_, []⟩ => .finished
  | ⟨gathering, .close _ _ :: rest⟩ => .past ⟨gathering, rest⟩
  | ⟨_, .goRound :: _⟩ => .refused .endless
  | ⟨gathering, .follow base ref :: rest⟩ =>
    match meaning root base ref with
    | .error fault => .refused fault
    | .ok (.external target) =>
      if target ∈ gathering.targets then .past ⟨gathering, rest⟩
      else
        match documentAt tree shelf target.file >>= gathering.takeIn target ref with
        | .error fault => .refused fault
        | .ok (source, next) =>
          .into target ⟨next, tasksFor root target.file source ++ .close ref target.name :: rest⟩
    | .ok _ => .past ⟨gathering, rest⟩

section Turns

variable {tree : FileTree} {shelf : Shelf} {root base : Path} {gathering : Gathering} {ref : Text}
  {rest : List Task} {target : Target}

/-- A target of a file is taken in if it denotes a part that does not conflict. -/
theorem bind_takeIn_eq_ok_iff {source : Value} {next : Gathering} :
    (documentAt tree shelf target.file >>= gathering.takeIn target ref) = .ok (source, next) ↔
      sourceAt? tree shelf target = some source ∧
        gathering.conflicts target.name source = false ∧
          next = gathering.extend target source := by
  rw [bind_eq_ok_iff, sourceAt?_eq_some_iff]
  simp only [Gathering.takeIn_eq_ok_iff]
  constructor
  · rintro ⟨document, hdocument, part, agrees, rfl⟩
    exact ⟨⟨document, hdocument, part⟩, agrees, rfl⟩
  · rintro ⟨⟨document, hdocument, part⟩, agrees, rfl⟩
    exact ⟨document, hdocument, part, agrees, rfl⟩

theorem turn_of_error {fault : Fault} (means : meaning root base ref = .error fault) :
    Trail.turn tree shelf root ⟨gathering, .follow base ref :: rest⟩ = .refused fault := by
  rw [Trail.turn]
  simp only [means]

/-- A reference that stays in the root document or leads to a known target is passed. -/
theorem turn_of_passes (passes : Passes root gathering.targets base ref) :
    Trail.turn tree shelf root ⟨gathering, .follow base ref :: rest⟩
      = .past ⟨gathering, rest⟩ := by
  obtain ⟨meant, means, known⟩ := passes
  rw [Trail.turn]
  cases meant with
  | itself => simp only [means]
  | inRoot pointer => simp only [means]
  | external target => simp only [means, if_pos (known target rfl)]

/-- A new target is refused if it cannot be taken in. -/
theorem turn_of_refused {fault : Fault} (means : meaning root base ref = .ok (.external target))
    (notMem : target ∉ gathering.targets)
    (taken : (documentAt tree shelf target.file >>= gathering.takeIn target ref) = .error fault) :
    Trail.turn tree shelf root ⟨gathering, .follow base ref :: rest⟩ = .refused fault := by
  rw [Trail.turn]
  simp only [means, if_neg notMem, taken]

/-- A new target is gone into if it can be taken in. -/
theorem turn_of_taken {source : Value} {next : Gathering}
    (means : meaning root base ref = .ok (.external target)) (notMem : target ∉ gathering.targets)
    (taken : (documentAt tree shelf target.file >>= gathering.takeIn target ref)
      = .ok (source, next)) :
    Trail.turn tree shelf root ⟨gathering, .follow base ref :: rest⟩
      = .into target
          ⟨next, tasksFor root target.file source ++ .close ref target.name :: rest⟩ := by
  rw [Trail.turn]
  simp only [means, if_neg notMem, taken]

end Turns

/-- What the next task of a trail leads to, by the kind of the task. -/
inductive Trail.Takes (tree : FileTree) (shelf : Shelf) (root : Path) : Trail → Turn → Prop where
  /-- No task remains. -/
  | finished (gathering : Gathering) : Takes tree shelf root ⟨gathering, []⟩ .finished
  /-- A report is passed. -/
  | close (gathering : Gathering) (ref name : Text) (rest : List Task) :
    Takes tree shelf root ⟨gathering, .close ref name :: rest⟩ (.past ⟨gathering, rest⟩)
  /-- Going round does not come to an end. -/
  | goRound (gathering : Gathering) (rest : List Task) :
    Takes tree shelf root ⟨gathering, .goRound :: rest⟩ (.refused .endless)
  /-- A reference that stays in the root document or leads to a known target is passed. -/
  | pass {gathering : Gathering} {base : Path} {ref : Text}
      (passes : Passes root gathering.targets base ref) (rest : List Task) :
    Takes tree shelf root ⟨gathering, .follow base ref :: rest⟩ (.past ⟨gathering, rest⟩)
  /-- A reference that means nothing is refused. -/
  | invalid {gathering : Gathering} {base : Path} {ref : Text} {fault : Fault}
      (means : meaning root base ref = .error fault) (rest : List Task) :
    Takes tree shelf root ⟨gathering, .follow base ref :: rest⟩ (.refused fault)
  /-- A reference to a new target that cannot be taken in is refused. -/
  | refused {gathering : Gathering} {base : Path} {ref : Text} {target : Target} {fault : Fault}
      (means : meaning root base ref = .ok (.external target))
      (notMem : target ∉ gathering.targets)
      (taken : (documentAt tree shelf target.file >>= gathering.takeIn target ref) = .error fault)
      (rest : List Task) :
    Takes tree shelf root ⟨gathering, .follow base ref :: rest⟩ (.refused fault)
  /-- A reference to a new target goes into it and adds the references in its source. -/
  | new {gathering : Gathering} {base : Path} {ref : Text} {target : Target} {source : Value}
      (means : meaning root base ref = .ok (.external target))
      (notMem : target ∉ gathering.targets)
      (denotes : sourceAt? tree shelf target = some source)
      (agrees : gathering.conflicts target.name source = false) (rest : List Task) :
    Takes tree shelf root ⟨gathering, .follow base ref :: rest⟩
      (.into target ⟨gathering.extend target source,
        tasksFor root target.file source ++ .close ref target.name :: rest⟩)

/-- **Turns.**  A turn is what the next task leads to. -/
theorem Trail.takes_iff {tree : FileTree} {shelf : Shelf} {root : Path} {trail : Trail}
    {turn : Turn} : trail.Takes tree shelf root turn ↔ trail.turn tree shelf root = turn := by
  constructor
  · intro h
    cases h with
    | finished gathering => rfl
    | close gathering ref name rest => rfl
    | goRound gathering rest => rfl
    | pass passes rest => exact turn_of_passes passes
    | invalid means rest => exact turn_of_error means
    | refused means notMem taken rest => exact turn_of_refused means notMem taken
    | new means notMem denotes agrees rest =>
      exact turn_of_taken means notMem (bind_takeIn_eq_ok_iff.2 ⟨denotes, agrees, rfl⟩)
  · rintro rfl
    obtain ⟨gathering, tasks⟩ := trail
    match tasks with
    | [] => exact .finished gathering
    | .close ref name :: rest => exact .close gathering ref name rest
    | .goRound :: rest => exact .goRound gathering rest
    | .follow base ref :: rest =>
      cases means : meaning root base ref with
      | error fault => exact turn_of_error means ▸ .invalid means rest
      | ok meant =>
        by_cases hnew : ∃ target, meant = .external target ∧ target ∉ gathering.targets
        · obtain ⟨target, rfl, notMem⟩ := hnew
          cases taken : documentAt tree shelf target.file >>= gathering.takeIn target ref with
          | error fault =>
            exact turn_of_refused means notMem taken ▸ .refused means notMem taken rest
          | ok part =>
            rw [turn_of_taken means notMem taken]
            obtain ⟨denotes, agrees, heq⟩ := bind_takeIn_eq_ok_iff.1 taken
            exact heq ▸ .new means notMem denotes agrees rest
        · have passes : Passes root gathering.targets base ref :=
            ⟨meant, means, fun target htarget => not_not.1 fun notMem => hnew ⟨target, htarget, notMem⟩⟩
          exact turn_of_passes passes ▸ .pass passes rest

/-! ## Walks -/

section Walking

variable (tree : FileTree) (shelf : Shelf) (root : Path)

/-- One turn leads from a trail to another. -/
def Trail.Leads (trail next : Trail) : Prop :=
  trail.turn tree shelf root = .past next ∨ ∃ target, trail.turn tree shelf root = .into target next

/-- Some turns lead from a trail to another, through the given targets. -/
inductive Walk : Trail → List Target → Trail → Prop where
  /-- No turn is taken. -/
  | here (trail : Trail) : Walk trail [] trail
  /-- The first turn adds nothing. -/
  | past {trail next last : Trail} {entered : List Target}
      (turn_eq : trail.turn tree shelf root = .past next) (walk : Walk next entered last) :
    Walk trail entered last
  /-- The first turn goes into a target. -/
  | into {trail next last : Trail} {entered : List Target} {target : Target}
      (turn_eq : trail.turn tree shelf root = .into target next) (walk : Walk next entered last) :
    Walk trail (target :: entered) last

/-- All turns lead from a trail to what was gathered in the end, or to a fault. -/
inductive Ends : Trail → Except Fault Gathering → Prop where
  /-- No task remains. -/
  | finished {trail : Trail} (turn_eq : trail.turn tree shelf root = .finished) :
    Ends trail (.ok trail.gathering)
  /-- The next task is refused. -/
  | refused {trail : Trail} {fault : Fault} (turn_eq : trail.turn tree shelf root = .refused fault) :
    Ends trail (.error fault)
  /-- The next turn adds nothing. -/
  | past {trail next : Trail} {outcome : Except Fault Gathering}
      (turn_eq : trail.turn tree shelf root = .past next) (ends : Ends next outcome) :
    Ends trail outcome
  /-- The next turn goes into a target. -/
  | into {trail next : Trail} {outcome : Except Fault Gathering} {target : Target}
      (turn_eq : trail.turn tree shelf root = .into target next) (ends : Ends next outcome) :
    Ends trail outcome

variable {tree shelf root}

/-- A trail has one end. -/
theorem Ends.unique {trail : Trail} {first second : Except Fault Gathering}
    (hfirst : Ends tree shelf root trail first) (hsecond : Ends tree shelf root trail second) :
    first = second := by
  induction hfirst with
  | finished turn_eq => cases hsecond <;> simp_all
  | refused turn_eq => cases hsecond <;> simp_all
  | past turn_eq _ ih =>
    apply ih
    cases hsecond <;> simp_all
  | into turn_eq _ ih =>
    apply ih
    cases hsecond <;> simp_all

/-- A walk ends alike where the same turns are taken. -/
theorem Ends.congr {tree' : FileTree} {shelf' : Shelf}
    (hturns : Trail.turn tree shelf root = Trail.turn tree' shelf' root) {trail : Trail}
    {outcome : Except Fault Gathering} (h : Ends tree shelf root trail outcome) :
    Ends tree' shelf' root trail outcome := by
  induction h with
  | finished turn_eq => exact .finished (hturns ▸ turn_eq)
  | refused turn_eq => exact .refused (hturns ▸ turn_eq)
  | past turn_eq _ ih => exact .past (hturns ▸ turn_eq) ih
  | into turn_eq _ ih => exact .into (hturns ▸ turn_eq) ih

/-- The same turns are a walk where they are taken too. -/
theorem Walk.congr {tree' : FileTree} {shelf' : Shelf}
    (hturns : Trail.turn tree shelf root = Trail.turn tree' shelf' root) {trail last : Trail}
    {entered : List Target} (h : Walk tree shelf root trail entered last) :
    Walk tree' shelf' root trail entered last := by
  induction h with
  | here trail => exact .here trail
  | past turn_eq _ ih => exact .past (hturns ▸ turn_eq) ih
  | into turn_eq _ ih => exact .into (hturns ▸ turn_eq) ih

/-- A walk goes on to its end from where some turns lead. -/
theorem Walk.ends {trail last : Trail} {entered : List Target} {outcome : Except Fault Gathering}
    (h : Walk tree shelf root trail entered last) (ends : Ends tree shelf root last outcome) :
    Ends tree shelf root trail outcome := by
  induction h with
  | here trail => exact ends
  | past turn_eq _ ih => exact .past turn_eq (ih ends)
  | into turn_eq _ ih => exact .into turn_eq (ih ends)

/-- From a trail with an end no walk goes on for ever. -/
theorem Ends.acc {trail : Trail} {outcome : Except Fault Gathering}
    (h : Ends tree shelf root trail outcome) :
    Acc (fun next trail => Trail.Leads tree shelf root trail next) trail := by
  induction h with
  | finished turn_eq =>
    constructor
    rintro next (hpast | ⟨target, hinto⟩) <;> simp_all
  | refused turn_eq =>
    constructor
    rintro next (hpast | ⟨target, hinto⟩) <;> simp_all
  | past turn_eq _ ih =>
    constructor
    rintro next (hpast | ⟨target, hinto⟩) <;> simp_all
  | into turn_eq _ ih =>
    constructor
    rintro next (hpast | ⟨target, hinto⟩) <;> simp_all

/-- **Results.**  The walks that end in a result are the derivations. -/
theorem ends_ok_iff {gathering final : Gathering} {tasks : List Task} :
    Ends tree shelf root ⟨gathering, tasks⟩ (.ok final) ↔
      Gathers tree shelf root gathering tasks final := by
  constructor
  · intro h
    generalize htrail : (⟨gathering, tasks⟩ : Trail) = trail at h
    generalize houtcome : (Except.ok final : Except Fault Gathering) = outcome at h
    induction h generalizing gathering tasks with
    | finished turn_eq =>
      subst htrail
      cases houtcome
      cases Trail.takes_iff.2 turn_eq with
      | finished _ => exact .done _
    | refused _ => cases houtcome
    | past turn_eq _ ih =>
      subst htrail
      cases Trail.takes_iff.2 turn_eq with
      | close _ ref name _ => exact .close ref name (ih rfl houtcome)
      | pass passes _ => exact .pass passes (ih rfl houtcome)
    | into turn_eq _ ih =>
      subst htrail
      cases Trail.takes_iff.2 turn_eq with
      | new means notMem denotes agrees _ => exact .new means notMem denotes agrees (ih rfl houtcome)
  · intro h
    induction h with
    | done gathering => exact .finished rfl
    | close ref name _ ih => exact .past rfl ih
    | stay means inside _ ih => exact .past (turn_of_passes (passes_of_inside means inside)) ih
    | known means mem _ ih => exact .past (turn_of_passes (passes_of_known means mem)) ih
    | new means notMem denotes agrees _ ih =>
      exact .into (Trail.takes_iff.1 (.new means notMem denotes agrees _)) ih

end Walking

/-! ## Two walks in step -/

/-- Two turns are of the same kind and lead to what the given relations hold of. -/
def Turn.Matches (R : Trail → Trail → Prop) (Q : Fault → Fault → Prop) : Turn → Turn → Prop
  | .finished, .finished => True
  | .refused fault, .refused other => Q fault other
  | .past next, .past other => R next other
  | .into _ next, .into _ other => R next other
  | _, _ => False

/-- Two references that mean the same take turns of the same kind where the same targets are known:
if the reference is passed, what remains has to be related, and if it leads to a new target, taking it
in has to go in step. -/
theorem Turn.matches_follow {tree other : FileTree} {shelf shelf' : Shelf} {root base : Path}
    {R : Trail → Trail → Prop} {gathering gathering' : Gathering} {ref : Text}
    {rest rest' : List Task} (targets : gathering'.targets = gathering.targets)
    (past : Passes root gathering.targets base ref → R ⟨gathering, rest⟩ ⟨gathering', rest'⟩)
    (into : ∀ target, meaning root base ref = .ok (.external target) → target ∉ gathering.targets →
      InStep (fun taken taken' =>
          R ⟨taken.2, tasksFor root target.file taken.1 ++ .close ref target.name :: rest⟩
            ⟨taken'.2, tasksFor root target.file taken'.1 ++ .close ref target.name :: rest'⟩)
        (documentAt tree shelf target.file >>= gathering.takeIn target ref)
        (documentAt other shelf' target.file >>= gathering'.takeIn target ref)) :
    (Trail.turn tree shelf root ⟨gathering, .follow base ref :: rest⟩).Matches R Eq
      (Trail.turn other shelf' root ⟨gathering', .follow base ref :: rest'⟩) := by
  cases means : meaning root base ref with
  | error fault =>
    rw [turn_of_error means, turn_of_error means]
    exact rfl
  | ok meant =>
    by_cases hnew : ∃ target, meant = .external target ∧ target ∉ gathering.targets
    · obtain ⟨target, rfl, notMem⟩ := hnew
      have notMem' : target ∉ gathering'.targets := targets ▸ notMem
      have hstep := into target means notMem
      cases taken : documentAt tree shelf target.file >>= gathering.takeIn target ref <;>
        cases taken' : documentAt other shelf' target.file >>= gathering'.takeIn target ref <;>
        rw [taken, taken'] at hstep <;> cases hstep
      · rw [turn_of_refused means notMem taken, turn_of_refused means notMem' taken']
        exact rfl
      · next related =>
        rw [turn_of_taken means notMem taken, turn_of_taken means notMem' taken']
        exact related
    · have passes : Passes root gathering.targets base ref :=
        ⟨meant, means, fun target htarget => not_not.1 fun notMem => hnew ⟨target, htarget, notMem⟩⟩
      have passes' : Passes root gathering'.targets base ref := targets ▸ passes
      rw [turn_of_passes passes, turn_of_passes passes']
      exact past passes

theorem tasks_of_finished {tree : FileTree} {shelf : Shelf} {root : Path} {trail : Trail}
    (h : trail.turn tree shelf root = .finished) : trail.tasks = [] := by
  cases Trail.takes_iff.2 h with
  | finished gathering => rfl

/-- **Lockstep.**  If related trails take turns of the same kind to related trails, walks from them
end in step. -/
theorem Ends.lockstep {tree tree' : FileTree} {shelf shelf' : Shelf} {root root' : Path}
    {R : Trail → Trail → Prop}
    (turns : ∀ trail other, R trail other →
      (trail.turn tree shelf root).Matches R Eq (other.turn tree' shelf' root'))
    {trail other : Trail} {outcome : Except Fault Gathering} (related : R trail other)
    (h : Ends tree shelf root trail outcome) :
    ∃ outcome', Ends tree' shelf' root' other outcome' ∧
      InStep (fun gathering gathering' => R ⟨gathering, []⟩ ⟨gathering', []⟩) outcome outcome' := by
  induction h generalizing other with
  | @finished trail turn_eq =>
    have hturn := turns trail other related
    rw [turn_eq] at hturn
    cases hother : other.turn tree' shelf' root' <;> rw [hother] at hturn
    · refine ⟨.ok other.gathering, .finished hother, ?_⟩
      have htasks := tasks_of_finished turn_eq
      have htasks' := tasks_of_finished hother
      obtain ⟨gathering, tasks⟩ := trail
      obtain ⟨gathering', tasks'⟩ := other
      simp only at htasks htasks'
      subst htasks htasks'
      exact .ok related
    all_goals exact hturn.elim
  | @refused trail fault turn_eq =>
    have hturn := turns trail other related
    rw [turn_eq] at hturn
    cases hother : other.turn tree' shelf' root' <;> rw [hother] at hturn
    case refused fault' =>
      obtain rfl : fault = fault' := hturn
      exact ⟨.error fault, .refused hother, .error fault⟩
    all_goals exact hturn.elim
  | @past trail next outcome turn_eq _ ih =>
    have hturn := turns trail other related
    rw [turn_eq] at hturn
    cases hother : other.turn tree' shelf' root' <;> rw [hother] at hturn
    case past next' =>
      obtain ⟨outcome', hends, halike⟩ := ih hturn
      exact ⟨outcome', .past hother hends, halike⟩
    all_goals exact hturn.elim
  | @into trail next outcome target turn_eq _ ih =>
    have hturn := turns trail other related
    rw [turn_eq] at hturn
    cases hother : other.turn tree' shelf' root' <;> rw [hother] at hturn
    case into target' next' =>
      obtain ⟨outcome', hends, halike⟩ := ih hturn
      exact ⟨outcome', .into hother hends, halike⟩
    all_goals exact hturn.elim

/-! ## Targets that are gone into -/

section Entering

variable {tree : FileTree} {shelf : Shelf} {root : Path}

/-- A target of a reference is not in the root document. -/
theorem file_ne_root_of_meaning {base : Path} {ref : Text} {target : Target}
    (h : meaning root base ref = .ok (.external target)) : target.file ≠ root := by
  simp only [meaning] at h
  split at h
  · cases h
  · split at h
    · cases h
    · split at h
      · cases h
      · split at h
        · cases h
        · next hne =>
          cases h
          exact hne

/-- A turn past a task keeps what was gathered. -/
theorem gathering_of_past {trail next : Trail} (h : trail.turn tree shelf root = .past next) :
    next.gathering = trail.gathering := by
  cases Trail.takes_iff.2 h with
  | close gathering ref name rest => rfl
  | pass passes rest => rfl

/-- A turn into a target adds this target, which is new and outside the root document. -/
theorem targets_of_into {trail next : Trail} {target : Target}
    (h : trail.turn tree shelf root = .into target next) :
    next.gathering.targets = target :: trail.gathering.targets ∧
      target ∉ trail.gathering.targets ∧ target.file ≠ root := by
  cases Trail.takes_iff.2 h with
  | new means notMem denotes agrees rest => exact ⟨rfl, notMem, file_ne_root_of_meaning means⟩

/-- The targets that a walk goes into are different from each other and from those it begins with,
and none of them is in the root document. -/
theorem Walk.entered {trail last : Trail} {entered : List Target}
    (h : Walk tree shelf root trail entered last) :
    entered.Nodup ∧ (∀ target ∈ entered, target ∉ trail.gathering.targets) ∧
      ∀ target ∈ entered, target.file ≠ root := by
  induction h with
  | here trail => simp
  | past turn_eq _ ih =>
    rw [gathering_of_past turn_eq] at ih
    exact ih
  | @into trail next last entered target turn_eq _ ih =>
    obtain ⟨htargets, hnew, hfile⟩ := targets_of_into turn_eq
    obtain ⟨hnodup, hothers, hfiles⟩ := ih
    -- A target that is gone into later is not among those that include this one.
    rw [htargets] at hothers
    have hlater : target ∉ entered := fun hmem => hothers target hmem List.mem_cons_self
    refine ⟨List.nodup_cons.2 ⟨hlater, hnodup⟩, ?_, ?_⟩
    · intro other hother
      rcases List.mem_cons.1 hother with rfl | hother
      · exact hnew
      · exact fun hmem => hothers other hother (List.mem_cons_of_mem _ hmem)
    · exact List.forall_mem_cons.2 ⟨hfile, hfiles⟩

end Entering

end SchemaCodecs
