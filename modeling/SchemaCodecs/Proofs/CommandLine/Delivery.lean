/-
# Delivery

A run of the program either delivers its module as a whole or touches no file.  When it ends well, the
file that the configuration names holds the module made from the tree as it was before the run; when it
does not, whatever the reason and whichever step on the disk is refused, every file has the content that
it had and no file is new.  All that can be new otherwise are directories above the file.  The one
exception is a run that fails after all that, since the standard output cannot show the path of the
file; then the module is delivered.  Strict mode changes nothing about a run that ends well, unless it
refuses the document and leaves the disk alone.

* `RunRequest.delivery?` : what a run is to deliver, as computed on the tree before it;
* `RunRequest.delivers_run`, `RunRequest.run_addsStrict` : one run, and the same run in strict mode;
* `RunStep.Sound` : a run is all or nothing, and strict mode can only refuse it;
* `runs_allOrNothing` : after every run of a sequence of runs;
* `SilentRun.run_fails_delivered` : a run that fails after it has delivered.
-/
import SchemaCodecs.Proofs.CommandLine.Arguments
import SchemaCodecs.Proofs.CommandLine.Producing

namespace SchemaCodecs.CommandLine

/-! ## What a run is asked for -/

/-- A run that is asked for. -/
structure RunRequest where
  /-- The working directory. -/
  here : Path
  /-- The arguments of the program. -/
  arguments : List Text
  /-- The tokens for temporary files. -/
  tokens : List Text
  /-- The texts that the standard output shows. -/
  shows : Text → Bool := isEncodable

namespace RunRequest

/-- Whether only an explanation is asked for. -/
def asksHelp (request : RunRequest) : Bool :=
  request? request.arguments == some .help

/-- The places that a run works with, and its configuration, if it gets so far on a tree. -/
def settings? (request : RunRequest) (tree : FileTree) : Option (Places × Config) :=
  match request? request.arguments with
  | some (.generate arguments) => do
    let places ← (placesOf request.here tree arguments).toOption
    let config ← (configOf tree places.config (arguments.flags.contains .strict)).toOption
    return (places, config)
  | _ => none

/-- What a run is to deliver, as computed on a tree. -/
def delivery? (request : RunRequest) (tree : FileTree) : Option Delivery := do
  let (places, config) ← request.settings? tree
  deliveryOf tree places config

end RunRequest

/-! ## Failing -/

section Failing

variable {here : Path} {tree : FileTree} {arguments : Arguments} {ending : Ending}

/-- A run whose paths cannot be resolved fails. -/
theorem failsEarly_of_resolveSettings {settings : List (Setting × Text)}
    (h : resolveSettings here tree settings = .error ending) : ending.FailsEarly := by
  induction settings with
  | nil => cases h
  | cons option rest ih =>
    obtain ⟨setting, text⟩ := option
    rw [resolveSettings] at h
    split at h
    · cases h
      exact ⟨Nat.one_ne_zero, rfl⟩
    · split at h
      · cases h
        exact ⟨Nat.succ_ne_zero 1, rfl⟩
      · cases hrest : resolveSettings here tree rest with
        | error last =>
          rw [hrest] at h
          cases h
          exact ih hrest
        | ok paths =>
          rw [hrest] at h
          cases h

/-- A run without its places fails. -/
theorem failsEarly_of_placesOf (h : placesOf here tree arguments = .error ending) :
    ending.FailsEarly := by
  rw [placesOf] at h
  cases hpaths : resolveSettings here tree arguments.settings with
  | error last =>
    rw [hpaths] at h
    cases h
    exact failsEarly_of_resolveSettings hpaths
  | ok paths =>
    simp only [hpaths, bind, Except.bind] at h
    split at h
    · split at h
      · cases h
      · cases h
        exact ⟨Nat.succ_ne_zero 1, rfl⟩
    · cases h
      exact ⟨Nat.succ_ne_zero 1, rfl⟩

/-- A run whose configuration cannot be read fails. -/
theorem failsEarly_of_readConfig {file : Path} (h : readConfig tree file = .error ending) :
    ending.FailsEarly := by
  rw [readConfig] at h
  -- The file cannot be read, its text is none, or the text is no configuration.
  repeat' split at h
  all_goals cases h <;> exact ⟨Nat.one_ne_zero, rfl⟩

/-- A run without a configuration fails. -/
theorem failsEarly_of_configOf {file : Option Path} {strict : Bool}
    (h : configOf tree file strict = .error ending) : ending.FailsEarly := by
  cases file with
  | none => cases h
  | some file =>
    cases hread : readConfig tree file with
    | error last =>
      simp only [configOf, hread, bind, Except.bind] at h
      cases h
      exact failsEarly_of_readConfig hread
    | ok config =>
      simp only [configOf, hread, bind, Except.bind] at h
      cases h

end Failing

/-! ## Strict mode -/

section Strict

variable {here : Path} {tree : FileTree} {arguments stricter : Arguments} {config : Config}

theorem placesOf_strictly (h : arguments.Strictly stricter) :
    placesOf here tree stricter = placesOf here tree arguments := by
  rw [placesOf, placesOf, h.settings_eq, h.others]

/-- The configuration is the same in strict mode, but for strictness. -/
theorem configOf_strictly {file : Option Path} {strict : Bool}
    (h : configOf tree file strict = .ok config) :
    configOf tree file true = .ok config.strictly := by
  cases file with
  | none =>
    obtain rfl := Except.ok.inj h
    cases strict <;> rfl
  | some file =>
    cases hread : readConfig tree file with
    | error ending =>
      simp only [configOf, hread, bind, Except.bind] at h
      cases h
    | ok read =>
      simp only [configOf, hread, bind, Except.bind] at h ⊢
      obtain rfl := Except.ok.inj h
      cases strict <;> rfl

end Strict

/-! ## One run -/

namespace RunRequest

variable {request : RunRequest} {disk : Disk}

/-- The run on a disk. -/
def run (request : RunRequest) (disk : Disk) : Run :=
  CommandLine.run request.here request.shows request.arguments request.tokens disk

/-- The configuration that a run reads on a tree, if it gets so far, keeps to temporary files. -/
def KeepsAtomic (request : RunRequest) (tree : FileTree) : Prop :=
  ∀ places config, request.settings? tree = some (places, config) → CommandLine.KeepsAtomic config

theorem run_of_asksHelp (disk : Disk) (h : request.asksHelp = true) :
    request.run disk = { ending := .explained, disk } := by
  have hhelp : request? request.arguments = some .help := eq_of_beq h
  rw [run, CommandLine.run, hhelp]

/-- A run gets so far when it is asked for a module, finds its places and reads its configuration. -/
theorem settings?_eq_some_iff {tree : FileTree} {places : Places} {config : Config} :
    request.settings? tree = some (places, config) ↔
      ∃ arguments, request? request.arguments = some (.generate arguments) ∧
        placesOf request.here tree arguments = .ok places ∧
          configOf tree places.config (arguments.flags.contains .strict) = .ok config := by
  rw [settings?]
  constructor
  · intro h
    split at h
    · next arguments hrequest =>
      cases hplaces : placesOf request.here tree arguments with
      | error ending =>
        rw [hplaces] at h
        cases h
      | ok found =>
        cases hconfig : configOf tree found.config (arguments.flags.contains .strict) with
        | error ending =>
          rw [hplaces] at h
          simp only [Except.toOption, Option.bind_eq_bind, Option.bind_some, hconfig,
            Option.bind_none] at h
          cases h
        | ok read =>
          simp only [hplaces, hconfig, Except.toOption, Option.bind_eq_bind, Option.bind_some,
            Option.pure_def, Option.some.injEq, Prod.mk.injEq] at h
          obtain ⟨rfl, rfl⟩ := h
          exact ⟨arguments, hrequest, hplaces, hconfig⟩
    · cases h
  · rintro ⟨arguments, hrequest, hplaces, hconfig⟩
    simp only [hrequest, hplaces, hconfig, Except.toOption, Option.bind_eq_bind, Option.bind_some,
      Option.pure_def]

theorem asksHelp_of_generate {arguments : Arguments}
    (h : request? request.arguments = some (.generate arguments)) : request.asksHelp = false := by
  rw [asksHelp, h]
  rfl

/-- A run keeps to temporary files if the configuration that it reads does. -/
theorem keepsAtomic_of_settings? {tree : FileTree} {places : Places} {config : Config}
    (h : request.settings? tree = some (places, config)) (atomic : CommandLine.KeepsAtomic config) :
    request.KeepsAtomic tree := by
  intro others config' h'
  obtain ⟨-, rfl⟩ := Prod.mk.inj (Option.some.inj (h.symm.trans h'))
  exact atomic

/-- What a run makes on a tree is what it is to deliver. -/
theorem delivery?_of_madeFor {tree : FileTree} {places : Places} {config : Config} {text : Text}
    {target : Path} {output : OutputConfig} (h : request.settings? tree = some (places, config))
    (made : madeFor tree config places.input places.output = .ok (text, target, output)) :
    request.delivery? tree = some ⟨target, text⟩ := by
  rw [delivery?, h, Option.bind_eq_bind, Option.bind_some]
  exact (deliveryOf_of_madeFor made).1

/-- A run that gets so far makes and saves its module. -/
theorem run_of_settings? {places : Places} {config : Config}
    (h : request.settings? disk.tree = some (places, config)) :
    (request.run disk).ending
        = (produce config places.input places.output request.shows request.tokens disk).ending ∧
      (request.run disk).disk
        = (produce config places.input places.output request.shows request.tokens disk).disk := by
  obtain ⟨arguments, hrequest, hplaces, hconfig⟩ := settings?_eq_some_iff.1 h
  simp only [run, CommandLine.run, hrequest, runGenerate, hplaces, hconfig, and_self]

/-- A run that does not get so far, but for an explanation, fails and leaves the disk as it is. -/
theorem run_of_settings?_eq_none (hhelp : request.asksHelp = false)
    (h : request.settings? disk.tree = none) :
    (request.run disk).ending.FailsEarly ∧ (request.run disk).disk = disk := by
  rw [run, CommandLine.run]
  cases hrequest : request? request.arguments with
  | none => exact ⟨⟨Nat.succ_ne_zero 1, rfl⟩, rfl⟩
  | some asked =>
    cases asked with
    | help =>
      rw [asksHelp, hrequest] at hhelp
      cases hhelp
    | generate arguments =>
      simp only [runGenerate]
      cases hplaces : placesOf request.here disk.tree arguments with
      | error ending => exact ⟨failsEarly_of_placesOf hplaces, rfl⟩
      | ok places =>
        simp only
        cases hconfig : configOf disk.tree places.config (arguments.flags.contains .strict) with
        | error ending => exact ⟨failsEarly_of_configOf hconfig, rfl⟩
        | ok config =>
          have hsome := settings?_eq_some_iff.2 ⟨arguments, hrequest, hplaces, hconfig⟩
          cases h.symm.trans hsome

/-- **Delivery.**  A run that is not asked for an explanation delivers, or it fails. -/
theorem delivers_run (hhelp : request.asksHelp = false) (atomic : request.KeepsAtomic disk.tree) :
    Delivers request.shows (request.delivery? disk.tree) disk.tree (request.run disk) := by
  cases hsettings : request.settings? disk.tree with
  | none =>
    obtain ⟨hfailed, hdisk⟩ := run_of_settings?_eq_none hhelp hsettings
    refine .nothing hfailed ?_
    rw [hdisk]
    exact .refl _
  | some settings =>
    obtain ⟨places, config⟩ := settings
    have hdelivery : request.delivery? disk.tree = deliveryOf disk.tree places config := by
      rw [delivery?, hsettings]
      rfl
    obtain ⟨hending, hdisk⟩ := run_of_settings? hsettings
    rw [hdelivery]
    cases delivers_produce request.shows request.tokens (atomic _ _ hsettings) with
    | nothing failed grown =>
      rw [← hending] at failed
      rw [← hdisk] at grown
      exact .nothing failed grown
    | all delivery succeeded shown expected reached =>
      rw [← hending] at succeeded
      rw [← hdisk] at reached
      exact .all delivery succeeded shown expected reached
    | silent delivery failed hidden expected reached =>
      rw [← hending] at failed
      rw [← hdisk] at reached
      exact .silent delivery failed hidden expected reached

/-- With the option for strictness a run has the same places and the same configuration, but for
strictness. -/
theorem settings?_addsStrict {tree : FileTree} {places : Places} {config : Config}
    (h : request.settings? tree = some (places, config)) {stricter : List Text}
    (added : AddsStrict request.arguments stricter) :
    RunRequest.settings? { request with arguments := stricter } tree
      = some (places, config.strictly) := by
  obtain ⟨arguments, hrequest, hplaces, hconfig⟩ := settings?_eq_some_iff.1 h
  rcases request?_addsStrict added hrequest with
    ⟨hhelp, -⟩ | ⟨_, arguments', hasked, hrequest', hstrictly⟩
  · cases hhelp
  · cases hasked
    refine settings?_eq_some_iff.2 ⟨arguments', hrequest', ?_, ?_⟩
    · rw [placesOf_strictly hstrictly]
      exact hplaces
    · rw [hstrictly.contains_strict]
      exact configOf_strictly hconfig

/-- With the option for strictness an explanation is still only an explanation. -/
theorem asksHelp_addsStrict (h : request.asksHelp = true) {stricter : List Text}
    (added : AddsStrict request.arguments stricter) :
    RunRequest.asksHelp { request with arguments := stricter } = true := by
  rcases request?_addsStrict added (eq_of_beq h) with ⟨-, hhelp⟩ | ⟨_, _, hasked, -⟩
  · exact beq_iff_eq.2 hhelp
  · cases hasked

/-- **Strict mode.**  When the option for strictness is added to a run that ends well, it ends alike, or
a report is refused and the disk is as it was. -/
theorem run_addsStrict (h : (request.run disk).ending.exitCode = 0) {stricter : List Text}
    (added : AddsStrict request.arguments stricter) :
    SameOrRefused disk (request.run disk)
      (RunRequest.run { request with arguments := stricter } disk) := by
  cases hhelp : request.asksHelp with
  | true =>
    have hsame := run_of_asksHelp disk (asksHelp_addsStrict hhelp added)
    rw [hsame, run_of_asksHelp disk hhelp]
    exact .same rfl rfl
  | false =>
    cases hsettings : request.settings? disk.tree with
    | none => exact absurd h (run_of_settings?_eq_none hhelp hsettings).1.1
    | some settings =>
      obtain ⟨places, config⟩ := settings
      obtain ⟨hending, hdisk⟩ := run_of_settings? hsettings
      obtain ⟨hending', hdisk'⟩ := run_of_settings? (settings?_addsStrict hsettings added)
      rw [hending] at h
      cases produce_strictly h with
      | same ending disk =>
        exact .same (by rw [hending', ending, hending]) (by rw [hdisk', disk, hdisk])
      | refused report reported failed disk =>
        exact .refused report (hending'.trans reported) (by rw [hending', failed])
          (hdisk'.trans disk)

/-- A run that is not asked for an explanation ends well exactly if it finds its places and reads its
configuration, and the module is made, saved and announced. -/
theorem exitCode_run_eq_zero_iff (hhelp : request.asksHelp = false) :
    (request.run disk).ending.exitCode = 0 ↔
      ∃ places config text target output,
        request.settings? disk.tree = some (places, config) ∧
          madeFor disk.tree config places.input places.output = .ok (text, target, output) ∧
            (save output request.tokens target text disk).2 = .ok () ∧
              request.shows target.text = true := by
  cases hsettings : request.settings? disk.tree with
  | none =>
    refine iff_of_false (run_of_settings?_eq_none hhelp hsettings).1.1 ?_
    rintro ⟨_, _, _, _, _, hsome, -⟩
    cases hsome
  | some settings =>
    obtain ⟨places, config⟩ := settings
    rw [(run_of_settings? hsettings).1, exitCode_produce_eq_zero_iff]
    constructor
    · rintro ⟨text, target, output, hsaved⟩
      exact ⟨places, config, text, target, output, rfl, hsaved⟩
    · rintro ⟨_, _, text, target, output, hsame, hsaved⟩
      cases hsame
      exact ⟨text, target, output, hsaved⟩

end RunRequest

/-! ## Sequences of runs -/

/-- A run of a sequence. -/
structure RunStep where
  /-- The run that was asked for. -/
  request : RunRequest
  /-- The disk before. -/
  before : Disk

namespace RunStep

/-- The run. -/
def run (step : RunStep) : Run :=
  step.request.run step.before

/-- The tree afterwards. -/
def after (step : RunStep) : FileTree :=
  step.run.disk.tree

/-- What was to be delivered, as computed on the tree before. -/
def delivery? (step : RunStep) : Option Delivery :=
  step.request.delivery? step.before.tree

/-- The text that a run has delivered at a place. -/
def deliveredAt? (step : RunStep) (place : Path) : Option Text :=
  if step.run.ending.savedAt?.isSome then
    (step.delivery?.filter fun delivery => delivery.target.plain = place).map (·.text)
  else none

/-- A run that is all or nothing, and that strict mode can only refuse. -/
structure Sound (step : RunStep) : Prop where
  /-- An explanation leaves the disk as it was. -/
  explains : step.request.asksHelp = true →
    step.run = { ending := .explained, disk := step.before }
  /-- Any other run delivers, or it fails. -/
  delivers : step.request.asksHelp = false →
    Delivers step.request.shows step.delivery? step.before.tree step.run
  /-- It ends well exactly if the module can be made, saved and announced. -/
  succeeds : step.request.asksHelp = false →
    (step.run.ending.exitCode = 0 ↔ ∃ places config text target output,
      step.request.settings? step.before.tree = some (places, config) ∧
        madeFor step.before.tree config places.input places.output = .ok (text, target, output) ∧
          (save output step.request.tokens target text step.before).2 = .ok () ∧
            step.request.shows target.text = true)
  /-- If it ends well, it ends alike in strict mode, or a report is refused. -/
  strict : step.run.ending.exitCode = 0 → ∀ stricter, AddsStrict step.request.arguments stricter →
    SameOrRefused step.before step.run
      (RunRequest.run { step.request with arguments := stricter } step.before)

/-- Every run is sound, if its configuration keeps to temporary files. -/
theorem sound {step : RunStep} (atomic : step.request.KeepsAtomic step.before.tree) : step.Sound where
  explains := RunRequest.run_of_asksHelp step.before
  delivers hhelp := RunRequest.delivers_run hhelp atomic
  succeeds := RunRequest.exitCode_run_eq_zero_iff
  strict h _ := RunRequest.run_addsStrict h

/-- Nothing is delivered with an explanation. -/
theorem delivery?_of_asksHelp {step : RunStep} (h : step.request.asksHelp = true) :
    step.delivery? = none := by
  have hhelp : request? step.request.arguments = some .help := eq_of_beq h
  rw [delivery?, RunRequest.delivery?, RunRequest.settings?, hhelp]
  rfl

/-- What is delivered by a run that saves its module is delivered at its target. -/
theorem deliveredAt?_eq {step : RunStep} {delivery : Delivery}
    (saved : step.run.ending.savedAt?.isSome = true) (expected : step.delivery? = some delivery)
    (place : Path) :
    step.deliveredAt? place = if delivery.target.plain = place then some delivery.text else none := by
  rw [deliveredAt?, if_pos saved, expected, Option.filter_some]
  by_cases hplace : delivery.target.plain = place
  · rw [if_pos (decide_eq_true hplace), if_pos hplace]
    rfl
  · rw [if_neg (by simpa using hplace), if_neg hplace]
    rfl

/-- Where a delivery has reached its target, the target holds the text and other places have grown. -/
theorem holdsLast_of_reached {step : RunStep} {delivery : Delivery}
    (saved : step.run.ending.savedAt?.isSome = true) (expected : step.delivery? = some delivery)
    (reached : delivery.Reached step.before.tree step.after) (place : Path) :
    HoldsLast (step.deliveredAt? place) (AboveTarget step.delivery?) step.before.tree step.after
      place := by
  rw [deliveredAt?_eq saved expected]
  by_cases hplace : delivery.target.plain = place
  · subst hplace
    obtain ⟨bytes, hbytes, hread⟩ := reached.holds
    rw [if_pos rfl]
    exact ⟨bytes, hbytes, find?_plain_of_read hread⟩
  · rw [if_neg hplace]
    exact (reached.others place (Ne.symm hplace)).mono fun above => ⟨_, expected, above⟩

/-- After a sound run a place holds the text that was delivered there, or it has grown. -/
theorem Sound.holdsLast {step : RunStep} (h : step.Sound) (place : Path) :
    HoldsLast (step.deliveredAt? place) (AboveTarget step.delivery?) step.before.tree step.after
      place := by
  cases hhelp : step.request.asksHelp with
  | true =>
    rw [deliveredAt?, delivery?_of_asksHelp hhelp, Option.filter_none, Option.map_none, ite_self,
      after, h.explains hhelp]
    exact Or.inl rfl
  | false =>
    cases h.delivers hhelp with
    | nothing failed grown =>
      rw [deliveredAt?, failed.2]
      exact grown place
    | all delivery succeeded shown expected reached =>
      have saved : step.run.ending.savedAt?.isSome = true := by
        rw [succeeded]
        rfl
      exact holdsLast_of_reached saved expected reached place
    | silent delivery failed hidden expected reached =>
      have saved : step.run.ending.savedAt?.isSome = true := by
        rw [failed]
        rfl
      exact holdsLast_of_reached saved expected reached place

end RunStep

/-- The runs of a sequence, one after the other. -/
def runSteps : Disk → List RunRequest → List RunStep
  | _, [] => []
  | disk, request :: rest => ⟨request, disk⟩ :: runSteps (request.run disk).disk rest

/-- The disk after the runs of a sequence. -/
def runAll (disk : Disk) (requests : List RunRequest) : Disk :=
  requests.foldl (fun disk request => (request.run disk).disk) disk

/-- The text that was delivered last at a place. -/
def lastDeliveredAt? (place : Path) : List RunStep → Option Text
  | [] => none
  | step :: rest => (lastDeliveredAt? place rest).or (step.deliveredAt? place)

/-- After a sequence of runs each place holds the text that was delivered there last, or it has
grown. -/
theorem holdsLast_runAll {requests : List RunRequest} {disk : Disk}
    (sound : ∀ step ∈ runSteps disk requests, step.Sound) (place : Path) :
    HoldsLast (lastDeliveredAt? place (runSteps disk requests))
      (fun dir => ∃ step ∈ runSteps disk requests, AboveTarget step.delivery? dir) disk.tree
      (runAll disk requests).tree place := by
  induction requests generalizing disk with
  | nil => exact Or.inl rfl
  | cons request rest ih =>
    rw [runSteps] at sound ⊢
    obtain ⟨hfirst, hrest⟩ := List.forall_mem_cons.1 sound
    exact ((hfirst.holdsLast place).mono fun above => ⟨_, List.mem_cons_self, above⟩).trans
      ((ih hrest).mono fun ⟨step, hstep, above⟩ => ⟨step, List.mem_cons_of_mem _ hstep, above⟩)

/-- A place holds in the end what was delivered there last. -/
theorem find?_runAll {requests : List RunRequest} {disk : Disk} {place : Path} {text : Text}
    (sound : ∀ step ∈ runSteps disk requests, step.Sound)
    (h : lastDeliveredAt? place (runSteps disk requests) = some text) :
    HoldsText (runAll disk requests).tree place text := by
  have hplace := holdsLast_runAll sound place
  rw [h] at hplace
  exact hplace

/-- **Runs are all or nothing.**  Whichever steps on the disk are refused, every run of a sequence
whose configurations keep to temporary files delivers its module as a whole or touches no file: if it
ends well, it delivers, and if it fails in reading, making or saving, it touches none.  Only a run that
cannot announce its file fails after it has delivered.  Strict mode can only refuse a run; afterwards
each place holds the text that was delivered there last, and where none was delivered, it is as it
was, or a directory above a target is new. -/
theorem runs_allOrNothing (disk : Disk) (requests : List RunRequest)
    (atomic : ∀ step ∈ runSteps disk requests, step.request.KeepsAtomic step.before.tree) :
    (∀ step ∈ runSteps disk requests, step.Sound) ∧
      ∀ place, HoldsLast (lastDeliveredAt? place (runSteps disk requests))
        (fun dir => ∃ step ∈ runSteps disk requests, AboveTarget step.delivery? dir) disk.tree
        (runAll disk requests).tree place :=
  have sound := fun step hstep => RunStep.sound (atomic step hstep)
  ⟨sound, holdsLast_runAll sound⟩

/-! ## Two runs, of which the first is refused -/

namespace SecondRun

open SiblingReference (treeOf namesakeAlone moduleText)

/-- The run that is asked for twice. -/
def request : RunRequest where
  here := .root
  arguments := ["generate", "-i", "root", "-o", "out"]
  tokens := ["x"]

/-- A disk with a document that refuses its first step, which makes the output directory. -/
def disk : Disk where
  tree := treeOf namesakeAlone
  outages := [some (.occupied "/")]

/-- The places of the run. -/
def places : Places where
  input := SiblingReference.root
  output := { names := ["out"] }
  config := none

/-- The file to save in. -/
def target : Path := { names := ["out", "file.ts"] }

/-- What the arguments say. -/
def arguments : Arguments where
  values := [(.output, "out"), (.input, "root")]

theorem request?_arguments : request? request.arguments = some (.generate arguments) := by
  rfl

theorem settings_arguments :
    arguments.settings = ([(.input, "root"), (.output, "out")] : List (Setting × Text)) := by
  rfl

/-- The places are found on every tree. -/
theorem placesOf_arguments (tree : FileTree) : placesOf .root tree arguments = .ok places := by
  have hpaths : resolveSettings .root tree [(.input, "root"), (.output, "out")]
      = .ok [(.input, places.input), (.output, places.output)] := rfl
  rw [placesOf, settings_arguments, hpaths]
  rfl

theorem settings?_request (tree : FileTree) : request.settings? tree = some (places, {}) :=
  RunRequest.settings?_eq_some_iff.2
    ⟨arguments, request?_arguments, placesOf_arguments tree, rfl⟩

/-- The module is made. -/
theorem madeFor_places : madeFor (treeOf namesakeAlone) {} places.input places.output
    = .ok (moduleText, target, {}) := by
  have hdestination : destination {} places.output = .ok (target, {}) := rfl
  have hmodule : (moduleFor (treeOf namesakeAlone) {} places.input).outcome = .ok moduleText :=
    SiblingReference.namesake_noticed.2.2.2
  rw [madeFor, hmodule, hdestination]
  rfl

/-- The first step on the disk is refused, and the tree stays as it is. -/
theorem save_refused : save {} request.tokens target moduleText disk
    = (⟨disk.tree, []⟩, .error (.write (.failed target.text (.occupied "/")))) := by
  have habsent : disk.tree.isDirectory target.parent = false := by decide
  have hmake : Disk.makeDirectories target.parent disk
      = Disk.acceptDirectory target.parent (.occupied "/") ⟨disk.tree, []⟩ := rfl
  have hrefused : Disk.acceptDirectory target.parent (.occupied "/") ⟨disk.tree, []⟩
      = .error (.occupied "/") ⟨disk.tree, []⟩ := by
    have hlook : Disk.isDirectory target.parent ⟨disk.tree, []⟩ = .ok false ⟨disk.tree, []⟩ := by
      rw [Disk.isDirectory, habsent]
    rw [Disk.acceptDirectory, Disk.bind_of_ok hlook]
    rfl
  have hwrite : writeFile true request.tokens target moduleText.encodeUtf8? disk
      = .error (.occupied "/") ⟨disk.tree, []⟩ := by
    unfold writeFile
    rw [Disk.bind_of_error (hmake.trans hrefused)]
  have hname : NameFault.of? target.text = none := by decide
  have hparent : NameFault.of? target.parent.text = none := by decide
  have hguard : guardTarget {} disk.tree target = .ok () := by
    rw [guardTarget]
    rfl
  have hatomic : ({} : OutputConfig).atomicWrite.isTruthy = true := rfl
  simp only [save, saving, hguard, hname, hparent, hatomic]
  rw [Disk.bind_of_error hwrite]

theorem save_accepted :
    (save {} request.tokens target moduleText ⟨disk.tree, []⟩).2 = .ok () :=
  eq_ok_of_toOption (by decide +kernel)

/-- The first run fails and leaves the tree as it is. -/
theorem run_first : (request.run disk).ending.exitCode = 1 ∧
    (request.run disk).disk = ⟨disk.tree, []⟩ := by
  obtain ⟨hending, hdisk⟩ := RunRequest.run_of_settings? (settings?_request disk.tree)
  have hmade : madeFor disk.tree {} places.input places.output = .ok (moduleText, target, {}) :=
    madeFor_places
  obtain ⟨hsaved, hend⟩ := produce_of_ok request.tokens hmade
  rw [save_refused] at hsaved hend
  refine ⟨?_, hdisk.trans hsaved⟩
  rw [hending, hend]
  exact exitCode_ofFault _

theorem asksHelp_request : request.asksHelp = false :=
  RunRequest.asksHelp_of_generate request?_arguments

/-- The configuration keeps to temporary files. -/
theorem keepsAtomic_request (tree : FileTree) : request.KeepsAtomic tree :=
  RunRequest.keepsAtomic_of_settings? (settings?_request tree) (keepsAtomic_of_output rfl)

/-- The second run ends well. -/
theorem run_second : (request.run ⟨disk.tree, []⟩).ending.exitCode = 0 := by
  have hshown : request.shows target.text = true := by decide
  exact (RunRequest.exitCode_run_eq_zero_iff asksHelp_request).2 ⟨places, {}, moduleText, target, {},
    settings?_request disk.tree, madeFor_places, save_accepted, hshown⟩

theorem runSteps_twice :
    runSteps disk [request, request] = [⟨request, disk⟩, ⟨request, ⟨disk.tree, []⟩⟩] := by
  rw [runSteps, runSteps, runSteps, run_first.2]

/-- What is delivered in the end. -/
theorem lastDeliveredAt?_target :
    lastDeliveredAt? target (runSteps disk [request, request]) = some moduleText := by
  have hdelivery : RunStep.delivery? ⟨request, ⟨disk.tree, []⟩⟩ = some ⟨target, moduleText⟩ :=
    RunRequest.delivery?_of_madeFor (settings?_request _) madeFor_places
  have hsaved : (RunStep.mk request ⟨disk.tree, []⟩).run.ending.savedAt?.isSome = true :=
    (RunRequest.delivers_run asksHelp_request (keepsAtomic_request _)).isSome_savedAt? run_second
  have hplain : target.plain = target := rfl
  rw [runSteps_twice, lastDeliveredAt?, lastDeliveredAt?, lastDeliveredAt?,
    RunStep.deliveredAt?_eq hsaved hdelivery, if_pos hplain, Option.none_or, Option.some_or]

/-- Both runs are sound, the first fails and the second delivers the module. -/
theorem runs_allOrNothing_second :
    (∀ step ∈ runSteps disk [request, request], step.request.KeepsAtomic step.before.tree) ∧
      (runSteps disk [request, request]).map (·.run.ending.exitCode) = [1, 0] ∧
        (∀ step ∈ runSteps disk [request, request], step.Sound) ∧
          HoldsText (runAll disk [request, request]).tree target moduleText := by
  have atomic : ∀ step ∈ runSteps disk [request, request],
      step.request.KeepsAtomic step.before.tree := by
    rw [runSteps_twice]
    exact List.forall_mem_cons.2
      ⟨keepsAtomic_request _, List.forall_mem_singleton.2 (keepsAtomic_request _)⟩
  obtain ⟨sound, -⟩ := runs_allOrNothing disk [request, request] atomic
  refine ⟨atomic, ?_, sound, find?_runAll sound lastDeliveredAt?_target⟩
  rw [runSteps_twice]
  exact congrArg₂ (fun first second => [first, second]) run_first.1 run_second

end SecondRun

/-! ## A run that cannot announce its file -/

namespace SilentRun

/-- The file with the document. -/
def root : Path := { names := ["root"] }

/-- The file with the configuration. -/
def settings : Path := { names := ["settings"] }

/-- The text of a document without schemas. -/
def documentText : Text := "openapi: 1\n"

/-- The text of a configuration that names the output file with lone surrogates. -/
def settingsText : Text := "\x7b\"output_filename\": \"\\udcc3\\udca9.ts\"\x7d"

/-- The two files. -/
def tree : FileTree :=
  ⟨[(root, .file (Text.asciiBytes documentText)),
    (settings, .file (Text.asciiBytes settingsText))]⟩

/-- The run that is asked for. -/
def request : RunRequest where
  here := .root
  arguments := ["generate", "-i", "root", "-o", "out", "-c", "settings"]
  tokens := ["x"]

/-- The name of the output file; each lone surrogate in it stands for a byte. -/
def fileName : Text := .broken [.lone 0x4c3, .lone 0x4a9, '.', 't', 's'] rfl

/-- The file to save in. -/
def target : Path := { names := ["out", fileName] }

/-- The configuration. -/
def config : Config := { outputFilename := .text fileName }

/-- The places of the run. -/
def places : Places where
  input := root
  output := { names := ["out"] }
  config := some settings

/-- What the arguments say. -/
def arguments : Arguments where
  values := [(.config, "settings"), (.output, "out"), (.input, "root")]

/-- The document. -/
def document : Value := .table [(.text "openapi", .int 1)]

/-- What the nodes of the document stand for. -/
def documentLabelled : Value := .mapping (some 0) [(.text "openapi", .int 1)]

/-- The module without codecs. -/
def moduleText : Text := "/* eslint-disable */\nimport * as t from 'io-ts'\n\n"

theorem request?_arguments : request? request.arguments = some (.generate arguments) := by
  rfl

theorem settings_arguments : arguments.settings
    = ([(.input, "root"), (.output, "out"), (.config, "settings")] : List (Setting × Text)) := by
  rfl

theorem placesOf_arguments : placesOf .root tree arguments = .ok places := by
  have hpaths : resolveSettings .root tree
      [(.input, "root"), (.output, "out"), (.config, "settings")]
      = .ok [(.input, places.input), (.output, places.output), (.config, settings)] := rfl
  rw [placesOf, settings_arguments, hpaths]
  rfl

theorem read_settingsText : (Json.read settingsText).toOption
    = some (.mapping none [(.text "output_filename", .text fileName)]) := by
  decide +kernel

/-- The configuration is read. -/
theorem readConfig_settings : readConfig tree settings = .ok config := by
  have hread : tree.read settings = .ok (Text.asciiBytes settingsText) := rfl
  have hdecoded : Text.decodeUtf8 (Text.asciiBytes settingsText) = .ok settingsText :=
    Text.decodeUtf8_asciiBytes (by decide)
  have hconfig : Config.ofValue (.mapping none [(.text "output_filename", .text fileName)])
      = .ok config := rfl
  rw [readConfig, hread]
  simp only [hdecoded, eq_ok_of_toOption read_settingsText, hconfig]

theorem settings?_request : request.settings? tree = some (places, config) := by
  refine RunRequest.settings?_eq_some_iff.2 ⟨arguments, request?_arguments, placesOf_arguments, ?_⟩
  have hconfig : places.config = some settings := rfl
  have hstrict : arguments.flags.contains .strict = false := rfl
  rw [hconfig, hstrict, configOf, readConfig_settings]
  rfl

/-- What is read from the file with the document. -/
theorem readDocument_root : readDocument tree root = .ok document := by
  refine @readDocument_of_ascii tree root documentText _ documentLabelled
    (Text.toList_ofString_ofList _) rfl ?_ ?_ ?_
  · decide
  · decide +kernel
  · decide

/-- The document is loaded as it is. -/
theorem load_root : (load tree {} root).2.outcome = .ok document := by
  have hgather : (gatherFrom tree {} root document).outcome = .ok {} := by
    rw [gatherFrom_outcome_eq_ok_iff]
    exact .done _
  rw [outcome_load_of_ok rfl readDocument_root rfl, hgather]
  rfl

theorem compile_document : (compile config document).outcome
    = .ok { declarations := [], diagnostics := [], cycles := [] } := by
  refine compile_outcome_eq_ok_iff.2 ⟨⟨{
    components := []
    declarations := []
    sorted := ⟨[], [], []⟩
    checked := rfl
    classified := by cbv
    built := by cbv
    sort_eq := by cbv
    result_eq := by cbv }⟩, ?_⟩
  intro hstrict
  cases hstrict

theorem printModule_nil : (Codec.printModule config []).toOption = some moduleText := by
  rfl

/-- The module is made. -/
theorem madeFor_places :
    madeFor tree config places.input places.output = .ok (moduleText, target, {}) := by
  have hjoin : places.output.join fileName = target := by decide
  have hdestination : destination config places.output = .ok (target, {}) := by
    simp only [destination, config, hjoin]
  have hmodule : (moduleFor tree config places.input).outcome = .ok moduleText := by
    rw [outcome_moduleFor, places, load_root]
    show (generate config document).outcome = .ok moduleText
    rw [generate, Traced.outcome_bind_of_ok compile_document]
    exact eq_ok_of_toOption printModule_nil
  rw [madeFor, hmodule, hdestination]
  rfl

theorem save_accepted : (save {} request.tokens target moduleText { tree }).2 = .ok () :=
  eq_ok_of_toOption (by decide +kernel)

/-- The path of the file is not shown. -/
theorem ending_run : (request.run { tree }).ending = .unannounced target := by
  have hhidden : request.shows target.text = false := by decide
  obtain ⟨hending, -⟩ := @RunRequest.run_of_settings? request { tree } places config
    settings?_request
  obtain ⟨-, hend⟩ := @produce_of_ok config places.input places.output request.shows { tree }
    request.tokens _ _ _ madeFor_places
  rw [hending, hend, save_accepted, hhidden]
  rfl

/-- **A run that fails after it has delivered.**  The configuration keeps to temporary files, and the
run fails, but there is a new file with the module. -/
theorem run_fails_delivered :
    request.KeepsAtomic tree ∧ (request.run { tree }).ending.exitCode = 1 ∧
      tree.find? target = none ∧ HoldsText (request.run { tree }).disk.tree target moduleText := by
  have atomic : request.KeepsAtomic tree :=
    RunRequest.keepsAtomic_of_settings? settings?_request (keepsAtomic_of_output rfl)
  have hdelivers := @RunRequest.delivers_run request { tree }
    (RunRequest.asksHelp_of_generate request?_arguments) atomic
  refine ⟨atomic, by rw [ending_run]; rfl, by decide, ?_⟩
  cases hdelivers with
  | nothing failed =>
    rw [ending_run] at failed
    cases failed.2
  | all delivery succeeded =>
    rw [ending_run] at succeeded
    cases succeeded
  | silent delivery failed hidden expected reached =>
    obtain rfl := Option.some.inj
      ((RunRequest.delivery?_of_madeFor settings?_request madeFor_places).symm.trans expected)
    have hplain : target.plain = target := by decide
    obtain ⟨bytes, hbytes, hread⟩ := reached.holds
    exact ⟨bytes, hbytes, hplain ▸ find?_plain_of_read hread⟩

end SilentRun

end SchemaCodecs.CommandLine
