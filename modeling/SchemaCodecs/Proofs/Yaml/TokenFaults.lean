/-
# Numbers that stand for nothing

Tokens are scanned one after the other.  Scanning goes on in the text, and it only fails if the text
is malformed or if a number that is written in it stands for nothing: that of a character in a quoted
scalar, or that of a version.

* `yields_scanQuoted`, `yields_scanDirective` : the scalars and directives in which there are numbers;
* `yields_fetch` : one more token is scanned;
* `misnumbered_of_parse` : nodes are read from tokens unless a number stands for nothing.
-/
import SchemaCodecs.Proofs.Yaml.Positions
import SchemaCodecs.Yaml.Document

namespace SchemaCodecs.Yaml

variable {cs : List Point} {cursor : Cursor}

/-! ## Quoted scalars -/

/-- The number of an escape stands for a character unless it is beyond that of the last one. -/
theorem yields_codeEscape (h : cursor.Within cs) :
    Yields cs (codeEscape cursor.rest) fun _ => True := by
  unfold codeEscape
  cases hescape : escapedCode? cursor.rest with
  | none => exact .malformed
  | some found =>
    obtain ⟨code, length⟩ := found
    show Yields cs (pointOfCode code >>= fun c => .ok (c, length)) _
    refine .bind (P := fun _ => True) ?_ fun _ _ => .ok trivial
    unfold pointOfCode
    split
    · exact .ok trivial
    · next beyond =>
      split
      · next narrow => exact Misnumbered.point h hescape (Nat.le_of_not_lt beyond) narrow
      · next wide => exact Misnumbered.wide h hescape (Nat.le_of_not_lt wide)

theorem yields_quotedBreaks (fuel : Nat) (found : List Point) (h : cursor.Within cs) :
    Yields cs (quotedBreaks fuel cursor found) fun result => result.2.Within cs := by
  induction fuel generalizing cursor found with
  | zero => exact .malformed
  | succ fuel ih =>
    rw [quotedBreaks]
    split
    · exact .malformed
    · have hblanks := h.skipWhile fun c => c == ' ' || c == '\t'
      dsimp only
      split
      · next c after hbreak => exact ih _ (hblanks.takeBreak? hbreak)
      · exact .ok hblanks

/-- The characters of a quoted scalar are scanned unless the number of one stands for nothing. -/
theorem yields_quotedRun (isDouble : Bool) (fuel : Nat) (found : List Point) (h : cursor.Within cs) :
    Yields cs (quotedRun isDouble fuel cursor found) fun result => result.2.Within cs := by
  induction fuel generalizing cursor found with
  | zero => exact .malformed
  | succ fuel ih =>
    rw [quotedRun]
    split
    · exact .ok h
    · split
      · exact ih _ h.step
      · split
        · exact ih _ (h.skip 2)
        · exact .ok h
    · split
      · exact .ok h
      · exact ih _ h.step
    · split
      · split
        · exact .malformed
        · split
          · exact ih _ (h.skip 2)
          · split
            · refine .bind (yields_quotedBreaks fuel _ (h.skip 2)) fun result hresult => ?_
              exact ih _ hresult
            · refine .bind (yields_codeEscape h) fun result _ => ?_
              exact ih _ (h.skip _)
      · exact ih _ h.step
    · split
      · exact .ok h
      · exact ih _ h.step

theorem yields_quotedGap (found : List Point) (h : cursor.Within cs) :
    Yields cs (quotedGap cursor found) fun result => result.2.Within cs := by
  have hblanks := h.takeWhile fun c => c == ' ' || c == '\t'
  unfold quotedGap
  dsimp only
  split
  · exact .malformed
  · split
    · exact .ok hblanks
    · next c after hbreak =>
      refine .bind (yields_quotedBreaks _ _ (hblanks.takeBreak? hbreak)) fun result hresult => ?_
      exact .ok hresult

theorem yields_quotedRest (isDouble : Bool) (fuel : Nat) (found : List Point) (h : cursor.Within cs) :
    Yields cs (quotedRest isDouble fuel cursor found) fun result => result.2.Within cs := by
  induction fuel generalizing cursor found with
  | zero => exact .malformed
  | succ fuel ih =>
    rw [quotedRest]
    generalize Point.char (if isDouble then '"' else '\'') = quote
    refine .bind (yields_quotedRun isDouble _ _ h) fun run hrun => ?_
    dsimp only
    split
    · exact .ok hrun.step
    · exact .bind (yields_quotedGap _ hrun) fun gap hgap => ih _ hgap

theorem yields_scanQuoted (isDouble : Bool) (h : cursor.Within cs) :
    Yields cs (scanQuoted isDouble cursor) fun result => result.2.Within cs := by
  unfold scanQuoted
  exact .bind (yields_quotedRest isDouble _ _ h.step) fun result hresult => .ok hresult

/-! ## Other scalars -/

theorem within_blockLead (fuel : Nat) (breaks : List Point) (widest : Nat) (h : cursor.Within cs) :
    (blockLead fuel cursor breaks widest).2.2.Within cs := by
  induction fuel generalizing cursor breaks widest with
  | zero => exact h
  | succ fuel ih =>
    rw [blockLead]
    split
    · exact ih _ _ h.step
    · split
      · next c after hbreak => exact ih _ _ (h.takeBreak? hbreak)
      · exact h

theorem within_blockBreaks (indent fuel : Nat) (breaks : List Point) (h : cursor.Within cs) :
    (blockBreaks indent fuel cursor breaks).2.Within cs := by
  induction fuel generalizing cursor breaks with
  | zero => exact h
  | succ fuel ih =>
    rw [blockBreaks]
    split
    · next c after hbreak => exact ih _ ((h.skip _).takeBreak? hbreak)
    · exact h.skip _

theorem within_takeLineEnd (h : cursor.Within cs) : (takeLineEnd cursor).2.Within cs := by
  unfold takeLineEnd
  split
  · next hbreak => exact h.takeBreak? hbreak
  · exact h

theorem within_blockLines (folded : Bool) (indent fuel : Nat) (breaks found : List Point)
    (h : cursor.Within cs) :
    (blockLines folded indent fuel cursor breaks found).2.2.2.Within cs := by
  induction fuel generalizing cursor breaks found with
  | zero => exact h
  | succ fuel ih =>
    rw [blockLines]
    have hline := within_takeLineEnd (h.takeWhile (!isBreak ·))
    have hbreaks := within_blockBreaks indent
      ((takeLineEnd (cursor.takeWhile (!isBreak ·)).2).2.left + 1) [] hline
    dsimp only
    split
    · exact ih _ _ hbreaks
    · exact hbreaks

theorem within_blockSigns (h : cursor.Within cs) : (blockSigns cursor).2.2.Within cs := by
  unfold blockSigns
  dsimp only
  split
  · split
    · exact h.step.step
    · exact h.step
  · split
    · split
      · exact h.step.step
      · exact h.step
    · exact h

theorem gives_blockHeader (h : cursor.Within cs) :
    Gives (blockHeader cursor) fun result => result.2.2.Within cs := by
  unfold blockHeader
  dsimp only
  split
  · exact .some (within_blockSigns h)
  · exact .none

theorem within_blockStart (least : Nat) (increment : Option Nat) (h : cursor.Within cs) :
    (blockStart least increment cursor).2.2.Within cs := by
  unfold blockStart
  split
  · exact within_blockLead _ _ _ h
  · exact within_blockBreaks _ _ _ h

theorem within_blockBody (folded : Bool) (indent : Nat) (breaks : List Point) (h : cursor.Within cs) :
    (blockBody folded indent breaks cursor).2.2.2.Within cs := by
  unfold blockBody
  split
  · exact within_blockLines _ _ _ _ _ h
  · exact h

theorem gives_scanBlock (folded : Bool) (parent : Nat) (h : cursor.Within cs) :
    Gives (scanBlock folded parent cursor) fun result => result.2.Within cs := by
  unfold scanBlock
  refine .bind (gives_blockHeader h.step) fun header hheader => ?_
  refine .bind (P := fun after : Cursor => after.Within cs)
    (fun after hafter => hheader.skipLineRest? hafter) fun after hafter => ?_
  exact .some (within_blockBody _ _ _ (within_blockStart _ _ hafter))

theorem within_plainBreaks (fuel : Nat) (breaks : List Point) (h : cursor.Within cs) :
    (plainBreaks fuel cursor breaks).2.Within cs := by
  induction fuel generalizing cursor breaks with
  | zero => exact h
  | succ fuel ih =>
    rw [plainBreaks]
    have hblanks := h.skipWhile (· == .char ' ')
    split
    · next c after hbreak =>
      have hafter := hblanks.takeBreak? hbreak
      split
      · exact hafter
      · exact ih _ hafter
    · exact hblanks

theorem within_plainGap (h : cursor.Within cs) : (plainGap cursor).2.1.Within cs := by
  have hblanks := h.takeWhile (· == .char ' ')
  unfold plainGap
  dsimp only
  split
  · exact hblanks
  · next c after hbreak =>
    have hafter := hblanks.takeBreak? hbreak
    split
    · exact hafter
    · have hbreaks := within_plainBreaks (after.left + 1) [] hafter
      split
      · next hnone =>
        rw [hnone] at hbreaks
        exact hbreaks
      · next hsome =>
        rw [hsome] at hbreaks
        exact hbreaks

theorem within_plainParts (inFlow : Bool) (parent fuel : Nat) (gap found : List Point) (newLine : Bool)
    (h : cursor.Within cs) :
    (plainParts inFlow parent fuel cursor gap found newLine).2.1.Within cs := by
  induction fuel generalizing cursor gap found newLine with
  | zero => exact h
  | succ fuel ih =>
    rw [plainParts]
    dsimp only
    split
    · exact h
    · have hgap := within_plainGap (h.skip (plainLength inFlow cursor.rest))
      split
      · exact hgap
      · exact ih _ _ _ hgap

theorem within_scanPlain (inFlow : Bool) (parent : Nat) (h : cursor.Within cs) :
    (scanPlain inFlow parent cursor).2.1.Within cs :=
  within_plainParts inFlow parent (cursor.left + 1) [] [] false h

namespace Lexer

/-! ## Directives, anchors and tags -/

/-- A numeral is scanned unless it has more digits than are read. -/
theorem yields_scanNumber (h : cursor.Within cs) :
    Yields cs (scanNumber cursor) fun result => result.2.Within cs := by
  unfold scanNumber
  dsimp only
  split
  · exact .malformed
  · split
    · next long => exact Misnumbered.version h rfl long
    · exact .ok (h.takeWhile _)

theorem gives_scanHandle (h : cursor.Within cs) :
    Gives (scanHandle cursor) fun result => result.2.Within cs := by
  unfold scanHandle
  split
  · exact .some h.step
  · dsimp only
    split
    · exact .some (h.step.takeWhile _).step
    · exact .none
  · exact .none

theorem gives_uriEscapes (fuel : Nat) (found : List UInt8) (h : cursor.Within cs) :
    Gives (uriEscapes fuel cursor found) fun result => result.2.Within cs := by
  induction fuel generalizing cursor found with
  | zero => exact .none
  | succ fuel ih =>
    rw [uriEscapes]
    split
    · exact .bind (P := fun _ => True) (fun _ _ => trivial) fun code _ => ih _ (h.skip 3)
    · exact .none
    · exact .some h

theorem gives_uriChars (fuel : Nat) (found : List Point) (h : cursor.Within cs) :
    Gives (uriChars fuel cursor found) fun result => result.2.Within cs := by
  induction fuel generalizing cursor found with
  | zero => exact .none
  | succ fuel ih =>
    rw [uriChars]
    split
    · refine .bind (gives_uriEscapes _ _ h) fun escapes hescapes => ?_
      exact .bind (P := fun _ => True) (fun _ _ => trivial) fun text _ => ih _ hescapes
    · split
      · exact ih _ h.step
      · exact .some h
    · exact .some h

theorem gives_scanUri (h : cursor.Within cs) :
    Gives (scanUri cursor) fun result => result.2.Within cs := by
  unfold scanUri
  refine .bind (gives_uriChars _ _ h) fun found hfound => ?_
  dsimp only
  split
  · exact .none
  · exact .some hfound

theorem yields_scanVersion (h : cursor.Within cs) :
    Yields cs (scanVersion cursor) fun result => result.2.Within cs := by
  unfold scanVersion
  refine .bind (yields_scanNumber h) fun major hmajor => ?_
  dsimp only
  split
  · exact .malformed
  · refine .bind (yields_scanNumber hmajor.step) fun minor hminor => ?_
    split
    · exact .malformed
    · exact .ok hminor

theorem gives_scanHandleMeaning (h : cursor.Within cs) :
    Gives (scanHandleMeaning cursor) fun result => result.2.Within cs := by
  unfold scanHandleMeaning
  refine .bind (gives_scanHandle h) fun handle hhandle => ?_
  dsimp only
  split
  · exact .none
  · refine .bind (gives_scanUri (hhandle.skipWhile _)) fun meaning hmeaning => ?_
    split
    · exact .some hmeaning
    · exact .none

theorem yields_scanDirective (h : cursor.Within cs) :
    Yields cs (scanDirective cursor) fun result => result.2.Within cs := by
  unfold scanDirective
  have hname := h.step.takeWhile isWordChar
  dsimp only
  split
  · exact .malformed
  · refine .bind (P := fun result => result.2.Within cs) ?_ fun directive hdirective => ?_
    · unfold scanDirectiveValue
      split
      · exact yields_scanVersion (hname.skipWhile _)
      · split
        · exact (gives_scanHandleMeaning (hname.skipWhile _)).required
        · exact .ok (hname.skipWhile _)
    · have hrest : Gives directive.2.skipLineRest? fun after => after.Within cs :=
        fun after hafter => hdirective.skipLineRest? hafter
      exact .bind hrest.required fun after hafter => .ok hafter

theorem gives_scanAnchorName (h : cursor.Within cs) :
    Gives (scanAnchorName cursor) fun result => result.2.Within cs := by
  unfold scanAnchorName
  dsimp only
  split
  · exact .none
  · exact .some (h.step.takeWhile _)

theorem gives_scanTagHandle (rest : List Point) (h : cursor.Within cs) :
    Gives (scanTagHandle rest cursor) fun result => result.2.Within cs := by
  unfold scanTagHandle
  split
  · exact gives_scanHandle h
  · exact .some h.step

theorem gives_scanTagName (h : cursor.Within cs) :
    Gives (scanTagName cursor) fun result => result.2.Within cs := by
  unfold scanTagName
  split
  · refine .bind (gives_scanUri (h.skip 2)) fun suffix hsuffix => ?_
    dsimp only
    split
    · exact .some hsuffix.step
    · exact .none
  · split
    · exact .some h.step
    · refine .bind (gives_scanTagHandle _ h) fun handle hhandle => ?_
      exact .bind (gives_scanUri hhandle) fun suffix hsuffix => .some hsuffix
  · exact .none

theorem gives_scanTag (h : cursor.Within cs) :
    Gives (scanTag cursor) fun result => result.2.Within cs := by
  unfold scanTag
  refine .bind (gives_scanTagName h) fun name hname => ?_
  dsimp only
  split
  · exact .some hname
  · exact .none

/-! ## Tokens -/

variable {lexer : Lexer}

theorem yields_dropPlace (h : lexer.cursor.Within cs) :
    Yields cs lexer.dropPlace fun after => after.cursor.Within cs := by
  unfold dropPlace
  split
  · split
    · exact .malformed
    · exact .ok h
  · exact .ok h

theorem yields_refreshed (lexer : Lexer) (place : Option KeyPlace) :
    Yields cs (lexer.refreshed place) fun _ => True := by
  unfold refreshed
  split
  · exact .ok trivial
  · split
    · exact .ok trivial
    · split
      · exact .malformed
      · exact .ok trivial

theorem yields_dropStale (h : lexer.cursor.Within cs) :
    Yields cs lexer.dropStale fun after => after.cursor.Within cs := by
  unfold dropStale
  refine .bind (.mapM fun place => yields_refreshed lexer place) fun outer _ => ?_
  exact .bind (yields_refreshed lexer lexer.place) fun place _ => .ok h

theorem yields_savePlace (h : lexer.cursor.Within cs) :
    Yields cs lexer.savePlace fun after => after.cursor.Within cs := by
  unfold savePlace
  split
  · exact .bind (yields_dropPlace h) fun after hafter => .ok hafter
  · exact .ok h

theorem within_skipGap (fuel : Nat) (h : lexer.cursor.Within cs) :
    (lexer.skipGap fuel).cursor.Within cs := by
  induction fuel generalizing lexer with
  | zero => exact h
  | succ fuel ih =>
    rw [skipGap]
    have hgap := (h.skipWhile (· == .char ' ')).skipComment
    dsimp only
    split
    · next hbreak => exact ih (hgap.takeBreak? hbreak)
    · exact hgap

theorem within_toNextToken (h : lexer.cursor.Within cs) : lexer.toNextToken.cursor.Within cs := by
  unfold toNextToken
  dsimp only
  split
  · exact within_skipGap _ h.step
  · exact within_skipGap _ h

theorem cursor_unwind (lexer : Lexer) (column : Nat) : (lexer.unwind column).cursor = lexer.cursor := by
  unfold unwind
  split <;> rfl

theorem cursor_unwindAll (lexer : Lexer) : lexer.unwindAll.cursor = lexer.cursor := by
  unfold unwindAll
  split <;> rfl

theorem yields_lexBoundary (token : Token) (length : Nat) (h : lexer.cursor.Within cs) :
    Yields cs (lexer.lexBoundary token length) fun after => after.cursor.Within cs := by
  unfold lexBoundary
  refine .bind (yields_dropPlace ?_) fun after hafter => .ok (hafter.skip length)
  rwa [cursor_unwindAll]

theorem yields_lexDirective (h : lexer.cursor.Within cs) :
    Yields cs lexer.lexDirective fun after => after.cursor.Within cs := by
  unfold lexDirective
  refine .bind (yields_dropPlace ?_) fun after hafter => ?_
  · rwa [cursor_unwindAll]
  · exact .bind (yields_scanDirective hafter) fun directive hdirective => .ok hdirective

theorem yields_lexOpening (token : Token) (h : lexer.cursor.Within cs) :
    Yields cs (lexer.lexOpening token) fun after => after.cursor.Within cs := by
  unfold lexOpening
  exact .bind (yields_savePlace h) fun after hafter => .ok hafter.step

theorem yields_lexClosing (token : Token) (h : lexer.cursor.Within cs) :
    Yields cs (lexer.lexClosing token) fun after => after.cursor.Within cs := by
  unfold lexClosing
  refine .bind (yields_dropPlace h) fun after hafter => ?_
  split
  · exact .ok hafter.step
  · exact .malformed

theorem yields_lexComma (h : lexer.cursor.Within cs) :
    Yields cs lexer.lexComma fun after => after.cursor.Within cs := by
  unfold lexComma
  exact .bind (yields_dropPlace h) fun after hafter => .ok hafter.step

theorem yields_beginEntry (token : Token) (h : lexer.cursor.Within cs) :
    Yields cs (lexer.beginEntry token) fun after => after.cursor.Within cs := by
  unfold beginEntry
  split
  · exact .ok h
  · split
    · unfold beginBlock
      split
      · exact .ok h
      · exact .ok h
    · exact .malformed

theorem yields_lexHyphen (h : lexer.cursor.Within cs) :
    Yields cs lexer.lexHyphen fun after => after.cursor.Within cs := by
  unfold lexHyphen
  refine .bind (yields_beginEntry _ h) fun entry hentry => ?_
  exact .bind (yields_dropPlace hentry) fun after hafter => .ok hafter.step

theorem yields_lexQuestionMark (h : lexer.cursor.Within cs) :
    Yields cs lexer.lexQuestionMark fun after => after.cursor.Within cs := by
  unfold lexQuestionMark
  refine .bind (yields_beginEntry _ h) fun entry hentry => ?_
  exact .bind (yields_dropPlace hentry) fun after hafter => .ok hafter.step

theorem yields_lexColon (h : lexer.cursor.Within cs) :
    Yields cs lexer.lexColon fun after => after.cursor.Within cs := by
  unfold lexColon
  split
  · dsimp only
    split
    · exact .ok h.step
    · exact .ok h.step
  · refine .bind (yields_beginEntry _ h) fun entry hentry => ?_
    exact .bind (yields_dropPlace hentry) fun after hafter => .ok hafter.step

theorem yields_lexInKey {α : Type} {scan : Cursor → Reading (α × Cursor)} (token : α → Token)
    (hscan : ∀ {cursor : Cursor}, cursor.Within cs →
      Yields cs (scan cursor) fun result => result.2.Within cs)
    (h : lexer.cursor.Within cs) :
    Yields cs (lexer.lexInKey scan token) fun after => after.cursor.Within cs := by
  unfold lexInKey
  refine .bind (yields_savePlace h) fun saved hsaved => ?_
  exact .bind (hscan hsaved) fun found hfound => .ok hfound

theorem yields_lexBlockScalar (folded : Bool) (h : lexer.cursor.Within cs) :
    Yields cs (lexer.lexBlockScalar folded) fun after => after.cursor.Within cs := by
  unfold lexBlockScalar
  refine .bind (yields_dropPlace h) fun after hafter => ?_
  exact .bind (gives_scanBlock _ _ hafter).required fun found hfound => .ok hfound

theorem yields_lexPlain (h : lexer.cursor.Within cs) :
    Yields cs lexer.lexPlain fun after => after.cursor.Within cs := by
  unfold lexPlain
  exact .bind (yields_savePlace h) fun after hafter => .ok (within_scanPlain _ _ hafter)

/-- One more token is scanned unless a number stands for nothing. -/
theorem yields_fetch (h : lexer.cursor.Within cs) :
    Yields cs lexer.fetch fun after => after.cursor.Within cs := by
  unfold fetch
  refine .bind (yields_dropStale (within_toNextToken h)) fun next hnext => ?_
  have hplace : (next.unwind next.cursor.column).cursor.Within cs := by rwa [cursor_unwind]
  dsimp only
  split
  · exact yields_lexBoundary _ _ hplace
  · -- One case for every way in which a token may begin, in the order in which they are tried.
    refine .ite (yields_lexDirective hplace) ?_
    refine .ite (yields_lexBoundary _ _ hplace) ?_
    refine .ite (yields_lexBoundary _ _ hplace) ?_
    refine .ite (yields_lexOpening _ hplace) ?_
    refine .ite (yields_lexOpening _ hplace) ?_
    refine .ite (yields_lexClosing _ hplace) ?_
    refine .ite (yields_lexClosing _ hplace) ?_
    refine .ite (yields_lexComma hplace) ?_
    refine .ite (yields_lexHyphen hplace) ?_
    refine .ite (yields_lexQuestionMark hplace) ?_
    refine .ite (yields_lexColon hplace) ?_
    refine .ite (yields_lexInKey _ (fun h => (gives_scanAnchorName h).required) hplace) ?_
    refine .ite (yields_lexInKey _ (fun h => (gives_scanAnchorName h).required) hplace) ?_
    refine .ite (yields_lexInKey _ (fun h => (gives_scanTag h).required) hplace) ?_
    refine .ite (yields_lexBlockScalar _ hplace) ?_
    refine .ite (yields_lexBlockScalar _ hplace) ?_
    refine .ite (yields_lexInKey _ (yields_scanQuoted false) hplace) ?_
    refine .ite (yields_lexInKey _ (yields_scanQuoted true) hplace) ?_
    exact .ite (yields_lexPlain hplace) .malformed

/-- Behind the tokens of a text either it is malformed, or a number in it stands for nothing. -/
def SoundEnding (cs : List Point) (stream : TokenStream) : Prop :=
  ∀ fault, stream.ending = .content fault → Misnumbered cs fault

theorem yields_run (fuel : Nat) (h : lexer.cursor.Within cs) :
    Yields cs (run fuel lexer) (SoundEnding cs) := by
  induction fuel generalizing lexer with
  | zero => exact .malformed
  | succ fuel ih =>
    have hfetch := yields_fetch h
    rw [run]
    split
    · exact .malformed
    · next fault hfault =>
      rw [hfault] at hfetch
      unfold endingIn
      refine .bind (yields_dropStale h) fun after _ => .ok ?_
      rintro cause ⟨⟩
      exact hfetch
    · next after hafter =>
      rw [hafter] at hfetch
      split
      · exact .ok nofun
      · exact ih hfetch

end Lexer

/-- The tokens of a text are scanned, up to a number in it that stands for nothing if there is one. -/
theorem yields_ofText (cs : List Point) :
    Yields cs (TokenStream.ofText cs) (Lexer.SoundEnding cs) :=
  Lexer.yields_run _ (List.suffix_refl cs)

end SchemaCodecs.Yaml
