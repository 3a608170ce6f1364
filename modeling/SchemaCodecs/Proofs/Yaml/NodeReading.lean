/-
# Reading nodes from tokens

Reading nodes refuses tokens that make up no document.  Besides this it only fails where the tokens
end, with what is found there: a number in the text that stands for nothing.

* `Parse.Reads` : how steps of reading fail;
* `Parse.reads_document` : this holds of reading a document;
* `misnumbered_of_parse` : nodes are read from a text unless a number in it stands for nothing.
-/
import SchemaCodecs.Proofs.Steps
import SchemaCodecs.Proofs.Yaml.TokenFaults

namespace SchemaCodecs.Yaml

namespace Parse

variable {ending : ReadFault} {α β : Type}

/-! ## Steps -/

/-- A step refuses its tokens, or it fails with what is found behind them; otherwise the same is found
behind the tokens that are left. -/
abbrev Reads (ending : ReadFault) (step : Parse α) : Prop :=
  Maintains (fun state : ParseState => state.ending = ending)
    (fun fault => fault = .malformed ∨ fault = ending) step fun _ => True

theorem reads_pure (a : α) : Reads ending (pure a) :=
  .pure trivial

theorem reads_refuse : Reads ending (refuse : Parse α) :=
  .throw (Or.inl rfl)

theorem reads_bind {step : Parse α} {next : α → Parse β} (hstep : Reads ending step)
    (hnext : ∀ a, Reads ending (next a)) : Reads ending (step >>= next) :=
  .bind hstep fun a _ => hnext a

/-- One of two steps is followed by the same steps. -/
theorem reads_either {c : Prop} [Decidable c] {first second : Parse α} {next : α → Parse β}
    (hfirst : Reads ending first) (hsecond : Reads ending second) (hnext : ∀ a, Reads ending (next a)) :
    Reads ending (if c then first >>= next else second >>= next) :=
  .ite (reads_bind hfirst hnext) (reads_bind hsecond hnext)

/-- A step that may be left out is followed by the same steps. -/
theorem reads_unless {c : Prop} [Decidable c] {step : Parse Unit} {next : Unit → Parse β}
    (hstep : Reads ending step) (hnext : ∀ u, Reads ending (next u)) :
    Reads ending (if c then next () else step >>= next) :=
  .ite (hnext ()) (reads_bind hstep hnext)

/-! ## Tokens and the table -/

theorem reads_peek : Reads ending peek := by
  unfold peek
  refine .bind .get fun state hstate => ?_
  split
  · exact reads_pure _
  · exact .throw (Or.inr hstate)

theorem reads_take : Reads ending take := by
  unfold take
  refine reads_bind reads_peek fun token => ?_
  exact reads_bind (.modify fun _ h => h) fun _ => reads_pure token

theorem reads_takeIf (token : Token) : Reads ending (takeIf token) := by
  unfold takeIf
  refine reads_bind reads_peek fun next => .ite ?_ (reads_pure _)
  exact reads_bind (.discard reads_take) fun _ => reads_pure _

theorem reads_expect (token : Token) : Reads ending (expect token) := by
  unfold expect
  refine reads_bind (reads_takeIf token) fun found => ?_
  exact .ite (reads_pure _) reads_refuse

theorem reads_add (node : Node) : Reads ending (add node) :=
  fun _ hending => ⟨trivial, hending⟩

theorem reads_complete (number : Nat) (node : Node) : Reads ending (complete number node) :=
  .modify fun _ h => h

theorem reads_begin (anchor : Option Text) : Reads ending (begin anchor) := by
  unfold begin
  refine reads_bind (reads_add _) fun number => ?_
  cases anchor with
  | none => exact reads_pure _
  | some name =>
    refine .bind .get fun state hstate => ?_
    refine .ite (reads_bind reads_refuse fun _ => ?_) ?_
    · exact reads_bind (.set hstate) fun _ => reads_pure _
    · exact reads_bind (.set hstate) fun _ => reads_pure _

theorem reads_repeated (name : Text) : Reads ending (repeated name) := by
  unfold repeated
  refine .bind .get fun state _ => ?_
  split
  · exact reads_pure _
  · exact reads_refuse

/-! ## Properties of nodes -/

theorem reads_fullTag (name : TagName) : Reads ending (fullTag name) := by
  unfold fullTag
  split
  · exact reads_pure _
  · refine .bind .get fun state _ => ?_
    split
    · exact reads_pure _
    · exact reads_refuse

theorem reads_properties : Reads ending properties := by
  unfold properties
  refine reads_bind reads_peek fun token => ?_
  split
  · refine reads_bind (.discard reads_take) fun _ => ?_
    refine reads_bind reads_peek fun next => ?_
    split
    · refine reads_bind (.discard reads_take) fun _ => ?_
      exact reads_bind (reads_fullTag _) fun _ => reads_pure _
    · exact reads_pure _
  · refine reads_bind (.discard reads_take) fun _ => ?_
    refine reads_bind reads_peek fun next => ?_
    split
    · refine reads_bind (.discard reads_take) fun _ => ?_
      refine reads_bind (reads_pure _) fun _ => ?_
      exact reads_bind (reads_fullTag _) fun _ => reads_pure _
    · refine reads_bind (reads_pure _) fun _ => ?_
      exact reads_bind (reads_fullTag _) fun _ => reads_pure _
  · exact reads_pure _

/-! ## Nodes -/

/-- All kinds of nodes and parts of nodes are read so with an allowance. -/
structure ReadsNodes (ending : ReadFault) (fuel : Nat) : Prop where
  node : ∀ context, Reads ending (node context fuel)
  content : ∀ context anchored tag, Reads ending (content context anchored tag fuel)
  blockItems : Reads ending (blockItems fuel)
  looseEntries : Reads ending (looseEntries fuel)
  blockPart : Reads ending (blockPart fuel)
  blockPairs : Reads ending (blockPairs fuel)
  flowPart : ∀ closing isKey, Reads ending (flowPart closing isKey fuel)
  flowValue : ∀ closing, Reads ending (flowValue closing fuel)
  flowItems : ∀ first, Reads ending (flowItems first fuel)
  flowPairs : ∀ first, Reads ending (flowPairs first fuel)

namespace ReadsNodes

variable {fuel : Nat}

theorem node_succ (h : ReadsNodes ending fuel) (context : NodeContext) :
    Reads ending (Parse.node context (fuel + 1)) := by
  rw [Parse.node]
  refine reads_bind reads_peek fun token => ?_
  split
  · exact reads_bind (.discard reads_take) fun _ => reads_repeated _
  · refine reads_bind reads_properties fun found => ?_
    refine reads_bind (.discard reads_peek) fun _ => ?_
    refine reads_bind (reads_begin _) fun number => ?_
    refine reads_bind (h.content _ _ _) fun node => ?_
    exact reads_bind (reads_complete _ _) fun _ => reads_pure _

theorem content_succ (h : ReadsNodes ending fuel) (context : NodeContext) (anchored : Bool)
    (tag : Option Text) : Reads ending (Parse.content context anchored tag (fuel + 1)) := by
  rw [Parse.content]
  refine reads_bind reads_peek fun token => ?_
  refine .ite (reads_bind h.looseEntries fun _ => reads_pure _) ?_
  split
  · exact reads_bind (.discard reads_take) fun _ => reads_pure _
  · refine reads_bind (.discard reads_take) fun _ => ?_
    exact reads_bind (h.flowItems _) fun _ => reads_pure _
  · refine reads_bind (.discard reads_take) fun _ => ?_
    exact reads_bind (h.flowPairs _) fun _ => reads_pure _
  · refine .ite (reads_bind (.discard reads_take) fun _ => ?_) ?_
    · exact reads_bind h.blockItems fun _ => reads_pure _
    · refine .ite (reads_bind (.discard reads_take) fun _ => ?_) ?_
      · exact reads_bind h.blockPairs fun _ => reads_pure _
      · exact .ite (reads_pure _) reads_refuse

theorem blockItems_succ (h : ReadsNodes ending fuel) : Reads ending (Parse.blockItems (fuel + 1)) := by
  rw [Parse.blockItems]
  refine reads_bind (reads_takeIf _) fun found => .ite ?_ ?_
  · refine reads_bind reads_peek fun next => reads_either (reads_add _) (h.node _) fun item => ?_
    exact reads_bind h.blockItems fun _ => reads_pure _
  · exact reads_bind (reads_expect _) fun _ => reads_pure _

theorem looseEntries_succ (h : ReadsNodes ending fuel) :
    Reads ending (Parse.looseEntries (fuel + 1)) := by
  rw [Parse.looseEntries]
  refine reads_bind (reads_takeIf _) fun found => .ite ?_ (reads_pure _)
  refine reads_bind reads_peek fun next => reads_either (reads_add _) (h.node _) fun item => ?_
  exact reads_bind h.looseEntries fun _ => reads_pure _

theorem blockPart_succ (h : ReadsNodes ending fuel) : Reads ending (Parse.blockPart (fuel + 1)) := by
  rw [Parse.blockPart]
  exact reads_bind reads_peek fun next => .ite (reads_add _) (h.node _)

theorem blockPairs_succ (h : ReadsNodes ending fuel) : Reads ending (Parse.blockPairs (fuel + 1)) := by
  rw [Parse.blockPairs]
  refine reads_bind (reads_takeIf _) fun found => .ite ?_ ?_
  · refine reads_bind h.blockPart fun key => reads_bind (reads_takeIf _) fun valued => ?_
    refine reads_either h.blockPart (reads_add _) fun value => ?_
    exact reads_bind h.blockPairs fun _ => reads_pure _
  · exact reads_bind (reads_expect _) fun _ => reads_pure _

theorem flowPart_succ (h : ReadsNodes ending fuel) (closing : Token) (isKey : Bool) :
    Reads ending (Parse.flowPart closing isKey (fuel + 1)) := by
  rw [Parse.flowPart]
  exact reads_bind reads_peek fun next => .ite (reads_add _) (h.node _)

theorem flowValue_succ (h : ReadsNodes ending fuel) (closing : Token) :
    Reads ending (Parse.flowValue closing (fuel + 1)) := by
  rw [Parse.flowValue]
  exact reads_bind (reads_takeIf _) fun found => .ite (h.flowPart _ _) (reads_add _)

theorem flowItems_succ (h : ReadsNodes ending fuel) (first : Bool) :
    Reads ending (Parse.flowItems first (fuel + 1)) := by
  rw [Parse.flowItems]
  refine reads_bind (reads_takeIf _) fun found => .ite (reads_pure _) ?_
  refine reads_unless (reads_expect _) fun _ => reads_bind (reads_takeIf _) fun keyed => ?_
  refine .ite ?_ (reads_bind (reads_takeIf _) fun closed => .ite (reads_pure _) ?_)
  · refine reads_bind (reads_begin _) fun item => ?_
    refine reads_bind (h.flowPart _ _) fun key => reads_bind (h.flowValue _) fun value => ?_
    refine reads_bind (reads_complete _ _) fun _ => ?_
    exact reads_bind (h.flowItems _) fun _ => reads_pure _
  · refine reads_bind (h.node _) fun item => ?_
    exact reads_bind (h.flowItems _) fun _ => reads_pure _

theorem flowPairs_succ (h : ReadsNodes ending fuel) (first : Bool) :
    Reads ending (Parse.flowPairs first (fuel + 1)) := by
  rw [Parse.flowPairs]
  refine reads_bind (reads_takeIf _) fun found => .ite (reads_pure _) ?_
  refine reads_unless (reads_expect _) fun _ => reads_bind (reads_takeIf _) fun keyed => ?_
  refine .ite ?_ (reads_bind (reads_takeIf _) fun closed => .ite (reads_pure _) ?_)
  · refine reads_bind (h.flowPart _ _) fun key => reads_bind (h.flowValue _) fun value => ?_
    exact reads_bind (h.flowPairs _) fun _ => reads_pure _
  · refine reads_bind (h.node _) fun key => reads_bind (reads_add _) fun value => ?_
    exact reads_bind (h.flowPairs _) fun _ => reads_pure _

end ReadsNodes

theorem readsNodes (ending : ReadFault) (fuel : Nat) : ReadsNodes ending fuel := by
  induction fuel with
  | zero =>
    constructor
    all_goals intros; exact reads_refuse
  | succ fuel ih =>
    exact ⟨ih.node_succ, ih.content_succ, ih.blockItems_succ, ih.looseEntries_succ, ih.blockPart_succ,
      ih.blockPairs_succ, ih.flowPart_succ, ih.flowValue_succ, ih.flowItems_succ, ih.flowPairs_succ⟩

/-! ## Documents -/

theorem reads_directives (fuel : Nat) (versioned : Bool) (handles : List (Text × Text)) :
    Reads ending (directives fuel versioned handles) := by
  induction fuel generalizing versioned handles with
  | zero => exact reads_refuse
  | succ fuel ih =>
    rw [directives]
    refine reads_bind reads_peek fun token => ?_
    split
    · refine reads_bind (.discard reads_take) fun _ => ?_
      split
      · exact .ite reads_refuse (ih _ _)
      · exact .ite reads_refuse (ih _ _)
      · exact ih _ _
    · exact reads_pure _

theorem reads_skipEnds (fuel : Nat) : Reads ending (skipEnds fuel) := by
  induction fuel with
  | zero => exact reads_refuse
  | succ fuel ih =>
    rw [skipEnds]
    exact reads_bind (reads_takeIf _) fun found => .ite ih (reads_pure _)

theorem reads_finish (fuel : Nat) : Reads ending (finish fuel) := by
  unfold finish
  refine reads_bind (reads_skipEnds fuel) fun _ => reads_bind reads_peek fun token => ?_
  refine .ite (reads_pure _) ?_
  exact reads_bind (.discard (reads_directives _ _ _)) fun _ => reads_refuse

/-- A document with directives or a marker in front. -/
theorem reads_marked (fuel : Nat) :
    Reads ending do
      let handles ← directives fuel false []
      modify fun state => { state with handles := handles ++ usualHandles }
      expect .documentStart
      let root ← if endsDocument (← peek) then add .empty else node ⟨true, false⟩ fuel
      finish fuel
      return some root := by
  refine reads_bind (reads_directives _ _ _) fun handles => ?_
  refine reads_bind (.modify fun _ h => h) fun _ => ?_
  refine reads_bind (reads_expect _) fun _ => reads_bind reads_peek fun token => ?_
  refine reads_either (reads_add _) ((readsNodes ending fuel).node _) fun root => ?_
  exact reads_bind (reads_finish _) fun _ => reads_pure _

theorem reads_document (ending : ReadFault) (fuel : Nat) : Reads ending (document fuel) := by
  unfold document
  refine reads_bind reads_peek fun token => ?_
  split
  · exact reads_pure _
  · exact reads_marked fuel
  · exact reads_marked fuel
  · refine reads_bind ((readsNodes ending fuel).node _) fun root => ?_
    exact reads_bind (reads_finish _) fun _ => reads_pure _

end Parse

/-- Nodes are read from a text unless it is malformed or a number in it stands for nothing. -/
theorem misnumbered_of_parse {cs : List Point} {fault : Fault}
    (h : parse cs = .error (.content fault)) : Misnumbered cs fault := by
  have htokens := yields_ofText cs
  unfold parse at h
  rcases (bind_eq_error_iff _ _ _).1 h with hstream | ⟨stream, hstream, hnodes⟩
  · rw [hstream] at htokens
    exact htokens
  · rw [hstream] at htokens
    unfold NodeTree.ofTokens at hnodes
    rcases (bind_eq_error_iff _ _ _).1 hnodes with hdocument | ⟨read, -, hread⟩
    · have hkeeps := Parse.reads_document stream.ending (4 * stream.tokens.length + 8)
        { tokens := stream.tokens, ending := stream.ending, handles := Parse.usualHandles } rfl
      rw [hdocument] at hkeeps
      rcases hkeeps with heq | heq
      · cases heq
      · exact htokens fault heq.symm
    · cases hread

end SchemaCodecs.Yaml
