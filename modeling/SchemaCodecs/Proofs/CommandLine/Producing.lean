/-
# Making and saving the module

The module is made first, then saved as a whole, and at last the file is announced.  So the module
reaches its file, with at most directories above the file new otherwise, or the run fails and no file is
touched.  A file that cannot be announced holds the module all the same.  In strict mode the same module
is made, unless the document is refused; then nothing is saved.

* `Delivery`, `deliveryOf` : a file and the text for it, as computed on a tree;
* `Delivers` : what a run comes to;
* `delivers_produce` : making and saving is all or nothing;
* `produce_strictly` : making and saving in strict mode.
-/
import SchemaCodecs.Proofs.Compile.Siblings
import SchemaCodecs.Proofs.Compile.Strictness
import SchemaCodecs.Proofs.Save.Atomic

namespace SchemaCodecs.CommandLine

/-! ## What is to be delivered -/

/-- A file and the text for it. -/
structure Delivery where
  /-- The file. -/
  target : Path
  /-- The text. -/
  text : Text

/-- What is to be delivered under a configuration: the module of the document, in the file of the
configured name inside the output directory. -/
def deliveryOf (tree : FileTree) (places : Places) (config : Config) : Option Delivery := do
  let text ← (moduleFor tree config places.input).outcome.toOption
  let name ← config.outputFilename.text?
  return { target := places.output.join name, text }

/-- The settings for the output, if the configuration has some, keep to temporary files. -/
def KeepsAtomic (config : Config) : Prop :=
  ∀ output, config.output = some (.settings output) → output.atomicWrite.isTruthy = true

theorem keepsAtomic_of_output {config : Config} (h : config.output = some (.settings {})) :
    KeepsAtomic config := by
  intro output houtput
  obtain rfl := OutputOption.settings.inj (Option.some.inj (h.symm.trans houtput))
  rfl

/-- A delivery has reached its target, and at most directories above it are new otherwise. -/
structure Delivery.Reached (delivery : Delivery) (before after : FileTree) : Prop where
  /-- The target holds the text. -/
  holds : ∃ bytes, delivery.text.encodeUtf8? = some bytes ∧ after.read delivery.target = .ok bytes
  /-- All other places are as they were, but for directories. -/
  others : ∀ place, place ≠ delivery.target.plain →
    GrownAt (Above delivery.target) before after place

/-- The places above the target of a delivery, if there is one. -/
def AboveTarget (delivery? : Option Delivery) (place : Path) : Prop :=
  ∃ delivery, delivery? = some delivery ∧ Above delivery.target place

/-- A run fails, and before anything is saved. -/
def Ending.FailsEarly (ending : Ending) : Prop :=
  ending.exitCode ≠ 0 ∧ ending.savedAt? = none

/-- What a run comes to where the standard output shows some texts: the run fails before anything is
saved, and at most directories above the target are new; or the delivery has reached its target, which
is announced if its path can be shown. -/
inductive Delivers (shows : Text → Bool) (delivery? : Option Delivery) (before : FileTree)
    (run : Run) : Prop where
  /-- The run fails, in reading, making or saving. -/
  | nothing (failed : run.ending.FailsEarly)
    (grown : GrownBy (AboveTarget delivery?) before run.disk.tree) :
    Delivers shows delivery? before run
  /-- The run ends well. -/
  | all (delivery : Delivery) (succeeded : run.ending = .saved delivery.target)
    (shown : shows delivery.target.text = true) (expected : delivery? = some delivery)
    (reached : delivery.Reached before run.disk.tree) : Delivers shows delivery? before run
  /-- The run only fails to announce the target. -/
  | silent (delivery : Delivery) (failed : run.ending = .unannounced delivery.target)
    (hidden : shows delivery.target.text = false) (expected : delivery? = some delivery)
    (reached : delivery.Reached before run.disk.tree) : Delivers shows delivery? before run

/-- A run that delivers and ends well has saved its module. -/
theorem Delivers.isSome_savedAt? {shows : Text → Bool} {delivery? : Option Delivery}
    {before : FileTree} {run : Run} (h : Delivers shows delivery? before run)
    (succeeded : run.ending.exitCode = 0) : run.ending.savedAt?.isSome = true := by
  cases h with
  | nothing failed => exact absurd succeeded failed.1
  | all _ saved =>
    rw [saved]
    rfl
  | silent _ failed =>
    rw [failed]
    rfl

/-- A run in strict mode ends like the run without it and leaves the same disk behind, or a report is
refused and the disk is as it was. -/
inductive SameOrRefused (before : Disk) (run stricter : Run) : Prop where
  /-- Strict mode makes no difference. -/
  | same (ending : stricter.ending = run.ending) (disk : stricter.disk = run.disk) :
    SameOrRefused before run stricter
  /-- A report is refused. -/
  | refused (report : Diagnostic) (reported : stricter.ending = .reported (.strict report))
    (failed : stricter.ending.exitCode = 1) (disk : stricter.disk = before) :
    SameOrRefused before run stricter

@[simp] theorem exitCode_ofFault (fault : Fault) : (Ending.ofFault fault).exitCode = 1 := by
  rw [Ending.ofFault]
  split <;> rfl

theorem failsEarly_ofFault (fault : Fault) : (Ending.ofFault fault).FailsEarly := by
  rw [Ending.ofFault]
  split <;> exact ⟨Nat.one_ne_zero, rfl⟩

/-! ## Making and saving the module -/

section Produce

variable {config : Config} {places : Places} {input directory : Path} {shows : Text → Bool}
  {disk : Disk}

/-- A text, the file for it and how it is written. -/
def madeFor (tree : FileTree) (config : Config) (input directory : Path) :
    Except Fault (Text × Path × OutputConfig) :=
  (moduleFor tree config input).outcome.bind fun text =>
    (destination config directory).bind fun saving => .ok (text, saving.1, saving.2)

/-- Without a text and a file for it a run fails and leaves the disk as it is. -/
theorem produce_of_error (tokens : List Text) {fault : Fault}
    (h : madeFor disk.tree config input directory = .error fault) :
    (produce config input directory shows tokens disk).ending = .ofFault fault ∧
      (produce config input directory shows tokens disk).disk = disk := by
  rw [madeFor] at h
  unfold produce
  simp [h]

/-- A text that was made is saved in its file. -/
theorem produce_of_ok (tokens : List Text) {text : Text} {target : Path}
    {output : OutputConfig}
    (h : madeFor disk.tree config input directory = .ok (text, target, output)) :
    (produce config input directory shows tokens disk).disk
        = (save output tokens target text disk).1 ∧
      (produce config input directory shows tokens disk).ending =
        match (save output tokens target text disk).2 with
        | .error fault => .ofFault fault
        | .ok _ => if shows target.text then .saved target else .unannounced target := by
  rw [madeFor] at h
  unfold produce
  simp [h]
  rcases save output tokens target text disk with ⟨disk', fault | _⟩
  · exact ⟨rfl, rfl⟩
  · exact ⟨rfl, rfl⟩

/-- The file for the module is the configured one, and it is written as the configuration says. -/
theorem eq_of_destination {target : Path} {output : OutputConfig}
    (h : destination config directory = .ok (target, output)) :
    ∃ name, config.outputFilename.text? = some name ∧ target = directory.join name ∧
      (config.output = some (.settings output) ∨ output = {}) := by
  rw [destination] at h
  split at h
  · next name hname =>
    refine ⟨name, by rw [hname]; rfl, ?_⟩
    split at h
    · cases h
    · next settings hsettings =>
      obtain ⟨rfl, rfl⟩ := Prod.mk.inj (Except.ok.inj h)
      exact ⟨rfl, Or.inl hsettings⟩
    · split at h
      · cases h
      · obtain ⟨rfl, rfl⟩ := Prod.mk.inj (Except.ok.inj h)
        exact ⟨rfl, Or.inr rfl⟩
  · cases h

/-- What is made for a file is what is to be delivered. -/
theorem deliveryOf_of_madeFor {tree : FileTree} {text : Text} {target : Path}
    {output : OutputConfig}
    (h : madeFor tree config places.input places.output = .ok (text, target, output)) :
    deliveryOf tree places config = some ⟨target, text⟩ ∧
      (config.output = some (.settings output) ∨ output = {}) := by
  rw [madeFor] at h
  obtain ⟨text', hmodule, h⟩ := (bind_eq_ok_iff _ _ _).1 h
  obtain ⟨saving, hdestination, h⟩ := (bind_eq_ok_iff _ _ _).1 h
  obtain ⟨rfl, hsaving⟩ := Prod.mk.inj (Except.ok.inj h)
  obtain rfl : saving = (target, output) := hsaving
  obtain ⟨name, hname, htarget, houtput⟩ := eq_of_destination hdestination
  refine ⟨?_, houtput⟩
  rw [deliveryOf, hmodule, hname, htarget]
  rfl

/-- What is made is the same in strict mode, unless strict mode refuses the document. -/
theorem madeFor_strictly {tree : FileTree} {made : Text × Path × OutputConfig}
    (h : madeFor tree config input directory = .ok made) :
    madeFor tree config.strictly input directory = .ok made ∨
      ∃ d, madeFor tree config.strictly input directory = .error (.strict d) := by
  rw [madeFor, outcome_moduleFor] at h ⊢
  obtain ⟨text, htext, hsaving⟩ := (bind_eq_ok_iff _ _ _).1 h
  obtain ⟨document, hload, hgenerate⟩ := (bind_eq_ok_iff _ _ _).1 htext
  rw [hload]
  show Except.bind (generate config.strictly document).outcome _ = _ ∨
    ∃ d, Except.bind (generate config.strictly document).outcome _ = _
  rcases outcome_generate_strictly hgenerate with hstrict | ⟨d, hstrict⟩
  · rw [hstrict]
    exact Or.inl hsaving
  · rw [hstrict]
    exact Or.inr ⟨d, rfl⟩

/-- **Making and saving.**  A module reaches its file, or the run fails and at most directories above
the file are new. -/
theorem delivers_produce (shows : Text → Bool) (tokens : List Text) (atomic : KeepsAtomic config) :
    Delivers shows (deliveryOf disk.tree places config) disk.tree
      (produce config places.input places.output shows tokens disk) := by
  cases hmade : madeFor disk.tree config places.input places.output with
  | error fault =>
    obtain ⟨hending, hdisk⟩ := produce_of_error tokens hmade
    refine .nothing ?_ ?_
    · rw [hending]
      exact failsEarly_ofFault fault
    · rw [hdisk]
      exact .refl _
  | ok made =>
    obtain ⟨text, target, output⟩ := made
    obtain ⟨hdelivery, houtput⟩ := deliveryOf_of_madeFor hmade
    have hatomic : output.atomicWrite.isTruthy = true := by
      rcases houtput with hsettings | rfl
      · exact atomic _ hsettings
      · rfl
    obtain ⟨hdisk, hending⟩ := @produce_of_ok config places.input places.output shows disk tokens
      text target output hmade
    have hsave := @save_allOrNothing output tokens target text disk hatomic
    rw [← hdisk] at hsave
    cases houtcome : (save output tokens target text disk).2 with
    | error fault =>
      rw [houtcome] at hending hsave
      cases hsave with
      | nothing grown =>
        refine .nothing ?_ fun place => (grown place).mono fun above => ⟨_, hdelivery, above⟩
        rw [hending]
        exact failsEarly_ofFault fault
    | ok _ =>
      rw [houtcome] at hending hsave
      cases hsave with
      | all encoded holds others =>
        have reached : Delivery.Reached ⟨target, text⟩ disk.tree
            (produce config places.input places.output shows tokens disk).disk.tree :=
          ⟨⟨_, encoded, holds⟩, others⟩
        cases hshown : shows target.text with
        | true =>
          refine .all ⟨target, text⟩ ?_ hshown hdelivery reached
          rw [hending, hshown]
          rfl
        | false =>
          refine .silent ⟨target, text⟩ ?_ hshown hdelivery reached
          rw [hending, hshown]
          rfl

/-- Making and saving ends well exactly if there is a text with a file for it, saving succeeds and the
path of the file can be shown. -/
theorem exitCode_produce_eq_zero_iff (tokens : List Text) :
    (produce config input directory shows tokens disk).ending.exitCode = 0 ↔
      ∃ text target output,
        madeFor disk.tree config input directory = .ok (text, target, output) ∧
          (save output tokens target text disk).2 = .ok () ∧ shows target.text = true := by
  cases hmade : madeFor disk.tree config input directory with
  | error fault =>
    rw [(produce_of_error tokens hmade).1, exitCode_ofFault]
    simp
  | ok made =>
    obtain ⟨text, target, output⟩ := made
    rw [(produce_of_ok tokens hmade).2]
    cases hsave : (save output tokens target text disk).2 with
    | error fault =>
      refine iff_of_false (by rw [exitCode_ofFault]; exact Nat.one_ne_zero) ?_
      rintro ⟨_, _, _, hsame, hsaved, -⟩
      cases hsame
      cases hsave.symm.trans hsaved
    | ok _ =>
      cases hshown : shows target.text with
      | true => exact iff_of_true rfl ⟨text, target, output, rfl, hsave, hshown⟩
      | false =>
        refine iff_of_false Nat.one_ne_zero ?_
        rintro ⟨_, _, _, hsame, -, hshown'⟩
        cases hsame
        cases hshown.symm.trans hshown'

/-- **Making and saving in strict mode.**  A run that ends well ends alike in strict mode, or a report
is refused and the disk is as it was. -/
theorem produce_strictly {tokens : List Text}
    (h : (produce config input directory shows tokens disk).ending.exitCode = 0) :
    SameOrRefused disk (produce config input directory shows tokens disk)
      (produce config.strictly input directory shows tokens disk) := by
  obtain ⟨text, target, output, hmade, -⟩ := (exitCode_produce_eq_zero_iff tokens).1 h
  rcases madeFor_strictly hmade with hstrict | ⟨d, hstrict⟩
  · obtain ⟨hdisk, hending⟩ := produce_of_ok tokens hmade
    obtain ⟨hdisk', hending'⟩ := produce_of_ok tokens hstrict
    exact .same (hending'.trans hending.symm) (hdisk'.trans hdisk.symm)
  · obtain ⟨hending, hdisk⟩ := produce_of_error tokens hstrict
    exact .refused d hending (by rw [hending, exitCode_ofFault]) hdisk

end Produce

end SchemaCodecs.CommandLine
