import SessionKeeper.Yaml.Lexer
import Mathlib.Data.List.Infix

/-!
# What stops the cutting of a text

Whatever is read next is the end of the text that was to be read before. So all that the lexer
comes across stands in the text, and a fault in it that is not one of grammar comes from an escape
in double quotes: the only number in the text that is looked at as a number of something is that
of a code point, and it may be one beyond the last.
-/
namespace SessionKeeper.Yaml

/-- That a text begins with the letter and the digits of an escape for a number that no code point
has. -/
def StartsFarEscape (text : List Char) : Prop :=
  ∃ kind digits after, text = kind :: (digits ++ after) ∧
    escapeWidth? kind = some digits.length ∧ (∀ c ∈ digits, isHexDigit c = true) ∧
    0x110000 ≤ ofHexDigits digits

/-- That an escape for a number that no code point has stands in a text. -/
def HasFarEscape (text : List Char) : Prop :=
  ∃ escape, '\\' :: escape <:+ text ∧ StartsFarEscape escape

/-- That what was read from a text leaves an end of it, or was refused for its grammar or because
of an escape in the text. -/
inductive ReadsIn {α : Type} (text : List Char) (rest : α → List Char) : Except Fault α → Prop where
  | ok {a : α} (h : rest a <:+ text) : ReadsIn text rest (.ok a)
  | grammar : ReadsIn text rest (.error .grammar)
  | escape {fault : ValueFault} (h : HasFarEscape text) : ReadsIn text rest (.error (.value fault))

namespace ReadsIn

variable {α β : Type} {text : List Char} {rest : α → List Char} {left : β → List Char}

theorem bind {x : Except Fault α} {f : α → Except Fault β} (hx : ReadsIn text rest x)
    (hf : ∀ a, rest a <:+ text → ReadsIn text left (f a)) : ReadsIn text left (x >>= f) := by
  cases hx with
  | ok h => exact hf _ h
  | grammar => exact .grammar
  | escape h => exact .escape h

theorem pure {a : α} (h : rest a <:+ text) : ReadsIn text rest (Pure.pure a) := .ok h

theorem ungrammatical : ReadsIn text rest ungrammatical := .grammar

theorem ite {c : Prop} [Decidable c] {x y : Except Fault α} (hx : ReadsIn text rest x)
    (hy : ReadsIn text rest y) : ReadsIn text rest (if c then x else y) := by
  split_ifs
  · exact hx
  · exact hy

end ReadsIn

namespace Cursor

variable {text : List Char} {cursor : Cursor}

theorem rest_step (cursor : Cursor) : cursor.step.rest = cursor.rest.drop 1 := by
  unfold step
  split
  · rename_i h
    simp [h]
  · rename_i h
    split <;> simp [h]

theorem rest_advance (n : Nat) (cursor : Cursor) : (cursor.advance n).rest = cursor.rest.drop n := by
  induction n generalizing cursor with
  | zero => rfl
  | succ n ih => rw [advance, ih, rest_step, List.drop_drop, Nat.add_comm]

theorem step_in (h : cursor.rest <:+ text) : cursor.step.rest <:+ text := by
  rw [rest_step]
  exact (List.drop_suffix _ _).trans h

theorem advance_in (n : Nat) (h : cursor.rest <:+ text) : (cursor.advance n).rest <:+ text := by
  rw [rest_advance]
  exact (List.drop_suffix _ _).trans h

theorem skip_in (test : Char → Bool) (h : cursor.rest <:+ text) : (cursor.skip test).rest <:+ text :=
  advance_in _ h

theorem skipBlanks_in (h : cursor.rest <:+ text) : cursor.skipBlanks.rest <:+ text := skip_in _ h

theorem skipComment_in (h : cursor.rest <:+ text) : cursor.skipComment.rest <:+ text := by
  unfold skipComment
  split_ifs
  · exact skip_in _ h
  · exact h

theorem takeBreak_in (h : cursor.rest <:+ text) : cursor.takeBreak.2.rest <:+ text := by
  unfold takeBreak
  dsimp only
  split_ifs
  · exact advance_in 2 h
  · exact step_in h
  · exact step_in h
  · exact h

theorem takeBreaksWithin_in (indent fuel : Nat) (h : cursor.rest <:+ text) :
    (takeBreaksWithin indent fuel cursor).2.rest <:+ text := by
  induction fuel generalizing cursor with
  | zero => exact h
  | succ fuel ih =>
    unfold takeBreaksWithin
    split_ifs
    · exact ih (step_in h)
    · exact ih (takeBreak_in h)
    · exact h

theorem takeLeadingBreaks_in (fuel : Nat) (h : cursor.rest <:+ text) :
    (takeLeadingBreaks fuel cursor).2.2.rest <:+ text := by
  induction fuel generalizing cursor with
  | zero => exact h
  | succ fuel ih =>
    unfold takeLeadingBreaks
    split_ifs
    · exact ih (step_in h)
    · exact ih (takeBreak_in h)
    · exact h

theorem takePlainBreaks_in (fuel : Nat) (h : cursor.rest <:+ text) :
    (takePlainBreaks fuel cursor).2.rest <:+ text := by
  induction fuel generalizing cursor with
  | zero => exact h
  | succ fuel ih =>
    unfold takePlainBreaks
    dsimp only
    split_ifs
    · exact ih (step_in h)
    · exact takeBreak_in h
    · exact ih (takeBreak_in h)
    · exact h

theorem takeQuotedBreaks_in (fuel : Nat) (h : cursor.rest <:+ text) :
    ReadsIn text (fun read => read.2.rest) (takeQuotedBreaks fuel cursor) := by
  induction fuel generalizing cursor with
  | zero => exact .ok h
  | succ fuel ih =>
    unfold takeQuotedBreaks
    dsimp only
    split_ifs
    · exact .ungrammatical
    · exact (ih (takeBreak_in (skip_in _ h))).bind fun read inside => .ok inside
    · exact .ok (skip_in _ h)

end Cursor

variable {text : List Char} {cursor : Cursor}

theorem plainGap_in (h : cursor.rest <:+ text) : (plainGap cursor).2.2.rest <:+ text := by
  have line := Cursor.takeBreak_in (Cursor.skipBlanks_in h)
  have breaks := Cursor.takePlainBreaks_in (cursor.skipBlanks.takeBreak.2.fuel) line
  unfold plainGap
  dsimp only
  split_ifs
  · exact line
  · split
    · rename_i read
      rwa [read] at breaks
    · rename_i read
      rwa [read] at breaks
  · exact Cursor.skipBlanks_in h

theorem takePlain_in (inFlow : Bool) (indent : Int) (fuel : Nat) (gap : List Char)
    (h : cursor.rest <:+ text) : (takePlain inFlow indent fuel gap cursor).2.2.rest <:+ text := by
  induction fuel generalizing gap cursor with
  | zero => exact h
  | succ fuel ih =>
    unfold takePlain
    dsimp only
    generalize (if cursor.here = '#' then [] else plainRun inFlow cursor.rest) = run
    have behind := plainGap_in (Cursor.advance_in run.length h)
    generalize plainGap (cursor.advance run.length) = read at behind ⊢
    generalize (if read.2.2.here = '#' then [] else plainRun inFlow read.2.2.rest) = following
    split_ifs
    · exact behind
    · exact behind
    · exact ih _ behind

/-- Before the end of the text the next character stands in it. -/
theorem Cursor.rest_eq (h : cursor.here ≠ endChar) : cursor.rest = cursor.here :: cursor.step.rest := by
  rw [rest_step]
  unfold here peek at h ⊢
  cases rest : cursor.rest with
  | nil =>
    rw [rest] at h
    exact absurd rfl h
  | cons c more => rfl

theorem takeEscape_in (h : '\\' :: cursor.rest <:+ text) :
    ReadsIn text (fun read => read.2.rest) (takeEscape cursor) := by
  have inside : cursor.rest <:+ text := (List.suffix_cons _ _).trans h
  unfold takeEscape
  split
  · exact .ok (Cursor.step_in inside)
  split
  · rename_i width known
    dsimp only
    split_ifs with full
    · obtain ⟨long, digits⟩ := Bool.and_eq_true_iff.mp full
      rw [escapedPoint]
      split_ifs with fits
      · exact .ok (Cursor.advance_in _ inside)
      all_goals
        have there : cursor.here ≠ endChar := fun ended => by
          rw [ended] at known
          cases known
        refine .escape ⟨cursor.rest, h, cursor.here, cursor.step.rest.take width,
          cursor.step.rest.drop width, ?_, ?_, List.all_eq_true.mp digits, by omega⟩
        · rw [List.take_append_drop]
          exact Cursor.rest_eq there
        · rw [known, of_decide_eq_true long]
    · exact .ungrammatical
  · split_ifs
    · exact (Cursor.takeQuotedBreaks_in _ (Cursor.takeBreak_in inside)).bind fun read stays =>
        .ok stays
    · exact .ungrammatical

theorem takeQuoted_in (double : Bool) (fuel : Nat) (h : cursor.rest <:+ text) :
    ReadsIn text (fun read => read.2.rest) (takeQuoted double fuel cursor) := by
  induction fuel generalizing cursor with
  | zero => exact .grammar
  | succ fuel ih =>
    unfold takeQuoted
    dsimp only
    generalize (cursor.run fun c => !endsQuotedRun c) = run
    have stop := Cursor.advance_in run.length h
    generalize cursor.advance run.length = cursor at stop ⊢
    have goOn (piece : Text) {next : Cursor} (inside : next.rest <:+ text) :
        ReadsIn text (fun read => read.2.rest) (takeQuoted double fuel next >>= fun read =>
          pure (Text.ofChars run ++ piece ++ read.1, read.2)) :=
      (ih inside).bind fun _ stays => .ok stays
    split_ifs with pair plain backslash closing ended broken
    · exact goOn _ (Cursor.advance_in 2 stop)
    · exact goOn _ (Cursor.step_in stop)
    · have here : cursor.here = '\\' := of_decide_eq_true (Bool.and_eq_true_iff.mp backslash).2
      have there : cursor.here ≠ endChar := by
        rw [here]
        decide
      rw [Cursor.rest_eq there, here] at stop
      exact (takeEscape_in stop).bind fun read inside => goOn _ inside
    · exact .ok stop
    · exact .grammar
    · exact (Cursor.takeQuotedBreaks_in _ (Cursor.takeBreak_in (Cursor.advance_in _ stop))).bind
        fun read inside => goOn _ inside
    · exact goOn _ (Cursor.advance_in _ stop)

theorem takeChomping_in (h : cursor.rest <:+ text) : (takeChomping cursor).2.rest <:+ text := by
  unfold takeChomping
  split_ifs
  · exact Cursor.step_in h
  · exact Cursor.step_in h
  · exact h

theorem takeIncrement_in (h : cursor.rest <:+ text) :
    ReadsIn text (fun read => read.2.rest) (takeIncrement cursor) := by
  unfold takeIncrement
  split_ifs
  · exact .ungrammatical
  · exact .ok (Cursor.step_in h)
  · exact .ok h

theorem takeBlockHeader_in (h : cursor.rest <:+ text) :
    ReadsIn text (fun read => read.2.rest) (takeBlockHeader cursor) := by
  have first := takeChomping_in h
  unfold takeBlockHeader
  generalize takeChomping cursor = before at first ⊢
  refine (takeIncrement_in first).bind fun read inside => ?_
  dsimp only
  have second : (if before.1.isNone && read.1.isSome then takeChomping read.2
      else (none, read.2)).2.rest <:+ text := by
    split_ifs
    · exact takeChomping_in inside
    · exact inside
  generalize (if before.1.isNone && read.1.isSome then takeChomping read.2 else (none, read.2)) =
    after at second ⊢
  split_ifs
  · exact .ok second
  · exact .ungrammatical

theorem takeEmptyLine_in (h : cursor.rest <:+ text) :
    ReadsIn text Cursor.rest (takeEmptyLine cursor) := by
  have inside := Cursor.skipComment_in (Cursor.skipBlanks_in h)
  unfold takeEmptyLine
  dsimp only
  split_ifs
  · exact .ok (Cursor.takeBreak_in inside)
  · exact .ungrammatical

theorem takeBlockLines_in (fold : Bool) (indent fuel : Nat) (breaks : List Char)
    (h : cursor.rest <:+ text) :
    (takeBlockLines fold indent fuel breaks cursor).2.2.2.rest <:+ text := by
  induction fuel generalizing breaks cursor with
  | zero => exact h
  | succ fuel ih =>
    unfold takeBlockLines
    dsimp only
    generalize (cursor.run fun c => !isBreakOrEnd c) = run
    have broken := Cursor.takeBreak_in (Cursor.advance_in run.length h)
    generalize (cursor.advance run.length).takeBreak = next at broken ⊢
    have behind := Cursor.takeBreaksWithin_in indent next.2.fuel broken
    generalize Cursor.takeBreaksWithin indent next.2.fuel next.2 = last at behind ⊢
    by_cases more : last.2.column = indent && last.2.here ≠ endChar
    · rw [if_pos more]
      exact ih _ behind
    · rw [if_neg more]
      exact behind

theorem takeBlock_in (fold : Bool) (indent : Int) (h : cursor.rest <:+ text) :
    ReadsIn text (fun read => read.2.rest) (takeBlock fold indent cursor) := by
  unfold takeBlock
  refine (takeBlockHeader_in h).bind fun ⟨⟨chomping, increment⟩, next⟩ opened => ?_
  refine (takeEmptyLine_in opened).bind fun body inside => ?_
  cases increment with
  | some n =>
    have first := Cursor.takeBreaksWithin_in (max (indent + 1) 1 + n - 1).toNat body.fuel inside
    dsimp only
    refine .pure ?_
    dsimp only
    generalize Cursor.takeBreaksWithin _ body.fuel body = read at first ⊢
    split_ifs
    · exact takeBlockLines_in _ _ _ _ first
    · exact first
  | none =>
    have first := Cursor.takeLeadingBreaks_in body.fuel inside
    dsimp only
    refine .pure ?_
    dsimp only
    generalize Cursor.takeLeadingBreaks body.fuel body = read at first ⊢
    split_ifs
    · exact takeBlockLines_in _ _ _ _ first
    · exact first

theorem takeAnchorName_in (h : cursor.rest <:+ text) :
    ReadsIn text (fun read => read.2.rest) (takeAnchorName cursor) := by
  unfold takeAnchorName
  dsimp only
  split_ifs
  · exact .ungrammatical
  · exact .ok (Cursor.advance_in _ h)

theorem takeTagHandle_in (h : cursor.rest <:+ text) :
    ReadsIn text (fun read => read.2.rest) (takeTagHandle cursor) := by
  unfold takeTagHandle
  dsimp only
  split_ifs
  · exact .ungrammatical
  · exact .ok (Cursor.step_in h)
  · exact .ok (Cursor.step_in (Cursor.advance_in _ h))
  · exact .ungrammatical

theorem takeAddressEscapes_in (fuel : Nat) (h : cursor.rest <:+ text) :
    ReadsIn text (fun read => read.2.rest) (takeAddressEscapes fuel cursor) := by
  induction fuel generalizing cursor with
  | zero => exact .ok h
  | succ fuel ih =>
    unfold takeAddressEscapes
    split_ifs
    · exact (ih (Cursor.advance_in 3 h)).bind fun read inside => .ok inside
    · exact .ungrammatical
    · exact .ok h

theorem takeAddressFrom_in (fuel : Nat) (h : cursor.rest <:+ text) :
    ReadsIn text (fun read => read.2.rest) (takeAddressFrom fuel cursor) := by
  induction fuel generalizing cursor with
  | zero => exact .ok h
  | succ fuel ih =>
    unfold takeAddressFrom
    split_ifs
    · refine (takeAddressEscapes_in _ h).bind fun read inside => ?_
      dsimp only
      split
      · exact (ih inside).bind fun more stays => .ok stays
      · exact .ungrammatical
    · exact (ih (Cursor.step_in h)).bind fun read inside => .ok inside
    · exact .ok h

theorem takeAddress_in (h : cursor.rest <:+ text) :
    ReadsIn text (fun read => read.2.rest) (takeAddress cursor) := by
  unfold takeAddress
  split_ifs
  · exact (takeAddressFrom_in _ h).bind fun read inside => .ok inside
  · exact .ungrammatical

theorem takeTag_in (h : cursor.rest <:+ text) :
    ReadsIn text (fun read => read.2.rest) (takeTag cursor) := by
  have ending (written : WrittenTag) {last : Cursor} (inside : last.rest <:+ text) :
      ReadsIn text (fun read => read.2.rest)
        (if isGapOrEnd last.here then pure (written, last) else ungrammatical) := by
    split_ifs
    · exact .ok inside
    · exact .ungrammatical
  unfold takeTag
  dsimp only
  split_ifs
  · refine (takeAddress_in (Cursor.advance_in 2 h)).bind fun read inside => ?_
    split_ifs
    · exact ending _ (Cursor.step_in inside)
    · exact .grammar
  · exact ending _ (Cursor.step_in h)
  · exact (takeTagHandle_in h).bind fun handle inside =>
      (takeAddress_in inside).bind fun suffix stays => ending _ stays
  · exact (takeAddress_in (Cursor.step_in h)).bind fun suffix stays => ending _ stays

theorem takeVersionNumber_in (h : cursor.rest <:+ text) :
    ReadsIn text (fun read => read.2.rest) (takeVersionNumber cursor) := by
  unfold takeVersionNumber
  dsimp only
  split_ifs
  · exact .ungrammatical
  · exact .ok (Cursor.advance_in _ h)

theorem takeVersion_in (h : cursor.rest <:+ text) :
    ReadsIn text (fun read => read.2.rest) (takeVersion cursor) := by
  refine (takeVersionNumber_in (Cursor.skipBlanks_in h)).bind fun major inside => ?_
  dsimp only
  split_ifs
  · exact .ungrammatical
  · refine (takeVersionNumber_in (Cursor.step_in inside)).bind fun minor inside => ?_
    split_ifs
    · exact .ok inside
    · exact .ungrammatical

theorem takeTagDirective_in (h : cursor.rest <:+ text) :
    ReadsIn text (fun read => read.2.rest) (takeTagDirective cursor) := by
  refine (takeTagHandle_in (Cursor.skipBlanks_in h)).bind fun handle inside => ?_
  dsimp only
  split_ifs
  · exact .ungrammatical
  · refine (takeAddress_in (Cursor.skipBlanks_in inside)).bind fun start inside => ?_
    split_ifs
    · exact .ok inside
    · exact .ungrammatical

theorem takeDirective_in (h : cursor.rest <:+ text) :
    ReadsIn text (fun read => read.2.rest) (takeDirective cursor) := by
  have ending (token : Token) {last : Cursor} (inside : last.rest <:+ text) :
      ReadsIn text (fun read => read.2.rest)
        (takeEmptyLine last >>= fun stop => pure (token, stop)) :=
    (takeEmptyLine_in inside).bind fun stop stays => .ok stays
  unfold takeDirective
  dsimp only
  generalize cursor.run isNameChar = name
  have named := Cursor.advance_in name.length h
  split_ifs
  · exact .ungrammatical
  · exact (takeVersion_in named).bind fun read inside => ending read.1 inside
  · exact (takeTagDirective_in named).bind fun read inside => ending read.1 inside
  · rw [pure_bind]
    exact ending _ (Cursor.skip_in _ named)

namespace Lexer

/-- What a lexer has in front of it. -/
def ahead (lexer : Lexer) : List Char := lexer.cursor.rest

variable {lexer : Lexer}

theorem skipGap_in (h : lexer.ahead <:+ text) : lexer.skipGap.ahead <:+ text := by
  have mark : (skipGap.skipMark lexer).ahead <:+ text := by
    unfold skipGap.skipMark
    split_ifs
    · exact Cursor.step_in h
    · exact h
  suffices rounds : ∀ fuel (lexer : Lexer), lexer.ahead <:+ text →
      (skipGap.rounds fuel lexer).ahead <:+ text from rounds _ _ mark
  intro fuel
  induction fuel with
  | zero => exact fun _ h => h
  | succ fuel ih =>
    intro lexer h
    have skipped := Cursor.skipComment_in (Cursor.skipBlanks_in h)
    unfold skipGap.rounds
    dsimp only
    split_ifs
    · exact ih _ (Cursor.takeBreak_in skipped)
    · exact skipped

theorem dropStale_in (h : lexer.ahead <:+ text) : ReadsIn text ahead lexer.dropStale := by
  unfold dropStale
  dsimp only
  split_ifs
  · exact .ungrammatical
  · exact .ok h

theorem dropCandidate_in (h : lexer.ahead <:+ text) : ReadsIn text ahead lexer.dropCandidate := by
  unfold dropCandidate
  split
  · split_ifs
    · exact .ungrammatical
    · exact .ok h
  · exact .ok h

theorem saveCandidate_in (h : lexer.ahead <:+ text) : ReadsIn text ahead lexer.saveCandidate := by
  unfold saveCandidate
  split_ifs
  · exact (dropCandidate_in h).bind fun _ inside => .pure inside
  · exact .ok h

theorem unwind_ahead (column : Int) (lexer : Lexer) : (lexer.unwind column).ahead = lexer.ahead := by
  suffices go : ∀ outer (lexer : Lexer), (unwind.go column outer lexer).ahead = lexer.ahead by
    unfold unwind
    split_ifs
    · rfl
    · exact go _ _
  intro outer
  induction outer with
  | nil => exact fun _ => rfl
  | cons indent outer ih =>
    intro lexer
    unfold unwind.go
    split_ifs
    · exact ih _
    · rfl

theorem closed_in (column : Int) (h : lexer.ahead <:+ text) :
    ReadsIn text ahead (lexer.unwind column).dropCandidate :=
  dropCandidate_in (by rwa [unwind_ahead])

theorem openBlock_in (token : Token) (h : lexer.ahead <:+ text) :
    ReadsIn text ahead (lexer.openBlock token) := by
  unfold openBlock
  split_ifs
  · exact .ok h
  · exact .ungrammatical
  · exact .ok h
  · exact .ok h

/-- What starts with a token in a block structure opens that structure first where it is needed. -/
theorem opened_in (token : Token) {f : Lexer → Except Fault Lexer} (h : lexer.ahead <:+ text)
    (hf : ∀ opened : Lexer, opened.ahead <:+ text → ReadsIn text ahead (f opened)) :
    ReadsIn text ahead (lexer.openBlock token >>= fun opened => opened.dropCandidate >>= f) :=
  (openBlock_in token h).bind fun _ inside => (dropCandidate_in inside).bind hf

theorem takeDirectiveToken_in (h : lexer.ahead <:+ text) :
    ReadsIn text ahead lexer.takeDirectiveToken :=
  (closed_in _ h).bind fun _ inside =>
    (takeDirective_in (Cursor.step_in inside)).bind fun _ stays => .pure stays

theorem takeMarker_in (token : Token) (h : lexer.ahead <:+ text) :
    ReadsIn text ahead (lexer.takeMarker token) :=
  (closed_in _ h).bind fun _ inside => .pure (Cursor.advance_in 3 inside)

theorem takeFlowStart_in (token : Token) (h : lexer.ahead <:+ text) :
    ReadsIn text ahead (lexer.takeFlowStart token) :=
  (saveCandidate_in h).bind fun _ inside => .pure (Cursor.step_in inside)

theorem takeFlowEnd_in (token : Token) (h : lexer.ahead <:+ text) :
    ReadsIn text ahead (lexer.takeFlowEnd token) := by
  refine (dropCandidate_in h).bind fun _ inside => ?_
  split_ifs
  · exact .pure (Cursor.step_in inside)
  · exact .ungrammatical

theorem takeFlowEntry_in (h : lexer.ahead <:+ text) : ReadsIn text ahead lexer.takeFlowEntry :=
  (dropCandidate_in h).bind fun _ inside => .pure (Cursor.step_in inside)

theorem takeBlockEntry_in (h : lexer.ahead <:+ text) : ReadsIn text ahead lexer.takeBlockEntry :=
  opened_in _ h fun _ inside => .pure (Cursor.step_in inside)

theorem takeKey_in (h : lexer.ahead <:+ text) : ReadsIn text ahead lexer.takeKey :=
  opened_in _ h fun _ inside => .pure (Cursor.step_in inside)

theorem takeValue_in (h : lexer.ahead <:+ text) : ReadsIn text ahead lexer.takeValue := by
  unfold takeValue
  split
  · dsimp only
    split_ifs
    · exact .ok (Cursor.step_in h)
    · exact .ok (Cursor.step_in h)
  · exact opened_in _ h fun _ inside => .pure (Cursor.step_in inside)

theorem takeName_in (token : String → Token) (h : lexer.ahead <:+ text) :
    ReadsIn text ahead (lexer.takeName token) :=
  (saveCandidate_in h).bind fun _ inside =>
    (takeAnchorName_in (Cursor.step_in inside)).bind fun _ stays => .pure stays

theorem takeTagToken_in (h : lexer.ahead <:+ text) : ReadsIn text ahead lexer.takeTagToken :=
  (saveCandidate_in h).bind fun _ inside => (takeTag_in inside).bind fun _ stays => .pure stays

theorem takeBlockScalar_in (fold : Bool) (h : lexer.ahead <:+ text) :
    ReadsIn text ahead (lexer.takeBlockScalar fold) :=
  (dropCandidate_in h).bind fun _ inside =>
    (takeBlock_in _ _ (Cursor.step_in inside)).bind fun _ stays => .pure stays

theorem takeQuotedScalar_in (double : Bool) (h : lexer.ahead <:+ text) :
    ReadsIn text ahead (lexer.takeQuotedScalar double) :=
  (saveCandidate_in h).bind fun _ inside =>
    (takeQuoted_in _ _ (Cursor.step_in inside)).bind fun _ stays => .pure (Cursor.step_in stays)

theorem takePlainScalar_in (h : lexer.ahead <:+ text) :
    ReadsIn text ahead lexer.takePlainScalar := by
  refine (saveCandidate_in h).bind fun saved inside => ?_
  have plain := takePlain_in saved.inFlow (saved.indent + 1) saved.cursor.fuel [] inside
  dsimp only
  generalize takePlain saved.inFlow (saved.indent + 1) saved.cursor.fuel [] saved.cursor = read
    at plain ⊢
  exact .pure plain

theorem takeToken_in (h : lexer.ahead <:+ text) : ReadsIn text ahead lexer.takeToken := by
  unfold takeToken
  dsimp only
  refine .ite (takeDirectiveToken_in h) ?_
  refine .ite (takeMarker_in _ h) (.ite (takeMarker_in _ h) ?_)
  refine .ite (takeFlowStart_in _ h) (.ite (takeFlowStart_in _ h) ?_)
  refine .ite (takeFlowEnd_in _ h) (.ite (takeFlowEnd_in _ h) ?_)
  refine .ite (takeFlowEntry_in h) (.ite (takeBlockEntry_in h) ?_)
  refine .ite (takeKey_in h) (.ite (takeValue_in h) ?_)
  refine .ite (takeName_in _ h) (.ite (takeName_in _ h) (.ite (takeTagToken_in h) ?_))
  refine .ite (takeBlockScalar_in _ h) (.ite (takeBlockScalar_in _ h) ?_)
  refine .ite (takeQuotedScalar_in _ h) (.ite (takeQuotedScalar_in _ h) ?_)
  exact .ite (takePlainScalar_in h) .ungrammatical

theorem fetch_in (h : lexer.ahead <:+ text) :
    ReadsIn text (fun read => read.1.ahead) lexer.fetch := by
  unfold fetch
  refine (dropStale_in (skipGap_in h)).bind fun fresh inside => ?_
  have unwound : (fresh.unwind fresh.cursor.column).ahead <:+ text := by rwa [unwind_ahead]
  dsimp only
  split_ifs
  · exact (closed_in _ unwound).bind fun _ stays => .pure stays
  · exact (takeToken_in unwound).bind fun _ stays => .pure stays

/-- A fault that no token can be read behind is one of grammar, or the text has an escape for a
number that no code point has. -/
theorem finish_stop (fuel : Nat) (h : lexer.ahead <:+ text) {fault : Fault}
    (stopped : (finish fuel lexer).stop = some fault) :
    fault = .grammar ∨ ∃ value, fault = .value value ∧ HasFarEscape text := by
  induction fuel generalizing lexer with
  | zero => exact .inl (Option.some.inj stopped).symm
  | succ fuel ih =>
    have read := fetch_in h
    rw [finish] at stopped
    generalize lexer.fetch = fetched at read stopped
    rw [goOn.eq_def] at stopped
    cases read with
    | @ok result inside =>
      rcases result with ⟨after, _ | _⟩
      · exact ih inside stopped
      · cases stopped
    | grammar => exact .inl (Option.some.inj stopped).symm
    | escape far => exact .inr ⟨_, (Option.some.inj stopped).symm, far⟩

end Lexer

theorem tokens_stop {fault : Fault} (stopped : (tokens text).stop = some fault) :
    fault = .grammar ∨ ∃ value, fault = .value value ∧ HasFarEscape text := by
  unfold tokens at stopped
  split_ifs at stopped
  · exact Lexer.finish_stop _ List.suffix_rfl stopped
  · exact .inl (Option.some.inj stopped).symm

end SessionKeeper.Yaml
