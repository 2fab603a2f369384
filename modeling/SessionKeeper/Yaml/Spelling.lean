import SessionKeeper.Yaml.Token

/-!
# How scalars, names and directives are spelled

Each function here reads one piece of a YAML text from a cursor and gives it with
the place behind it. The loops take fuel, of which the length of the text is always
enough, because every round moves the cursor on.
-/
namespace SessionKeeper.Yaml

/-- Refuses the text. -/
def ungrammatical {α : Type} : Except Fault α := .error .grammar

namespace Cursor

/-- Enough fuel to reach the end of the text. -/
def fuel (cursor : Cursor) : Nat := cursor.rest.length + 1

/-- Skips breaks, and blanks that are right of the indentation by less than the given column;
the result holds the breaks. -/
def takeBreaksWithin (indent : Nat) : (fuel : Nat) → Cursor → List Char × Cursor
  | 0, cursor => ([], cursor)
  | fuel + 1, cursor =>
    if cursor.column < indent && cursor.here = ' ' then takeBreaksWithin indent fuel cursor.step
    else if isBreak cursor.here then
      let (line, next) := cursor.takeBreak
      let (more, last) := takeBreaksWithin indent fuel next
      (line ++ more, last)
    else ([], cursor)

/-- Skips blanks and breaks; the result holds the breaks and the rightmost column a blank
ended in. -/
def takeLeadingBreaks : (fuel : Nat) → Cursor → List Char × Nat × Cursor
  | 0, cursor => ([], 0, cursor)
  | fuel + 1, cursor =>
    if cursor.here = ' ' then
      let (breaks, column, last) := takeLeadingBreaks fuel cursor.step
      (breaks, max cursor.step.column column, last)
    else if isBreak cursor.here then
      let (line, next) := cursor.takeBreak
      let (breaks, column, last) := takeLeadingBreaks fuel next
      (line ++ breaks, column, last)
    else ([], 0, cursor)

/-- Skips blanks and breaks between the lines of a plain scalar; there is no result where a
document marker stands at the start of a line. -/
def takePlainBreaks : (fuel : Nat) → Cursor → Option (List Char) × Cursor
  | 0, cursor => (some [], cursor)
  | fuel + 1, cursor =>
    if cursor.here = ' ' then takePlainBreaks fuel cursor.step
    else if isBreak cursor.here then
      let (line, next) := cursor.takeBreak
      if next.atAnyMarker then (none, next)
      else
        let (more, last) := takePlainBreaks fuel next
        (more.map (line ++ ·), last)
    else (some [], cursor)

/-- Skips blanks, tabs and breaks between the lines of a quoted scalar, where no document
marker may stand. -/
def takeQuotedBreaks : (fuel : Nat) → Cursor → Except Fault (List Char × Cursor)
  | 0, cursor => .ok ([], cursor)
  | fuel + 1, cursor =>
    if cursor.atAnyMarker then ungrammatical
    else
      let cursor := cursor.skip fun c => c = ' ' || c = '\t'
      if isBreak cursor.here then do
        let (line, next) := cursor.takeBreak
        let (more, last) ← takeQuotedBreaks fuel next
        return (line ++ more, last)
      else .ok ([], cursor)

end Cursor

/-- What a line break and the breaks after it are folded to: a single line feed becomes a
blank, and otherwise a line feed is dropped. -/
def folded (line breaks : List Char) : List Char :=
  if line ≠ ['\n'] then line ++ breaks
  else if breaks.isEmpty then [' ']
  else breaks

/-- Whether the character is one that flow collections are made of. -/
def isFlowIndicator (c : Char) : Bool :=
  c = ',' || c = '[' || c = ']' || c = '\x7b' || c = '\x7d'

/-- The characters of a plain scalar up to the next gap or indicator. -/
def plainRun (inFlow : Bool) : List Char → List Char
  | [] => []
  | c :: rest =>
    let next := rest.headD endChar
    if isSpaceOrEnd c || (c = ':' && (isSpaceOrEnd next || (inFlow && isFlowIndicator next)))
        || (inFlow && (isFlowIndicator c || c = '?')) then []
    else c :: plainRun inFlow rest

/-- The gap behind a run of a plain scalar, and whether a line was broken in it. -/
def plainGap (cursor : Cursor) : List Char × Bool × Cursor :=
  let blanks := cursor.run (· = ' ')
  let cursor := cursor.skipBlanks
  if isBreak cursor.here then
    let (line, next) := cursor.takeBreak
    if next.atAnyMarker then ([], true, next)
    else match Cursor.takePlainBreaks next.fuel next with
      | (some breaks, last) => (folded line breaks, true, last)
      | (none, last) => ([], true, last)
  else (blanks, false, cursor)

/-- Reads a plain scalar: its text and whether a line was broken behind it. -/
def takePlain (inFlow : Bool) (indent : Int) : (fuel : Nat) → (gap : List Char) → Cursor →
    List Char × Bool × Cursor
  | 0, _, cursor => ([], false, cursor)
  | fuel + 1, gap, cursor =>
    let run := if cursor.here = '#' then [] else plainRun inFlow cursor.rest
    let (next, broken, last) := plainGap (cursor.advance run.length)
    if next.isEmpty || last.here = '#' || (!inFlow && last.column < indent) then
      (gap ++ run, broken, last)
    else
      let following := if last.here = '#' then [] else plainRun inFlow last.rest
      if following.isEmpty then (gap ++ run, broken, last)
      else
        let (more, broken, last) := takePlain inFlow indent fuel next last
        (gap ++ run ++ more, broken, last)

/-- Whether the character is a hexadecimal digit. -/
def isHexDigit (c : Char) : Bool :=
  c.isDigit || ('a' ≤ c && c ≤ 'f') || ('A' ≤ c && c ≤ 'F')

/-- The number that hexadecimal digits spell. -/
def ofHexDigits (cs : List Char) : Nat :=
  cs.foldl (fun n c =>
    n * 16 + (if c.isDigit then c.toNat - 48 else if 'a' ≤ c then c.toNat - 87 else c.toNat - 55)) 0

/-- The characters that stand for others behind a backslash. -/
def escapes : List (Char × Char) :=
  [('0', '\x00'), ('a', '\x07'), ('b', '\x08'), ('t', '\t'), ('\t', '\t'), ('n', '\n'),
   ('v', '\x0b'), ('f', '\x0c'), ('r', '\r'), ('e', '\x1b'), (' ', ' '), ('\x22', '\x22'),
   ('\\', '\\'), ('/', '/'), ('N', '\u0085'), ('_', '\u00a0'), ('L', '\u2028'), ('P', '\u2029')]

/-- How many hexadecimal digits follow an escape by number. -/
def escapeWidth? (c : Char) : Option Nat :=
  if c = 'x' then some 2 else if c = 'u' then some 4 else if c = 'U' then some 8 else none

/-- The code point with a number that an escape gives. -/
def escapedPoint (n : Nat) : Except Fault Point :=
  if n < 0x110000 then .ok (Point.ofCode n)
  else if n < Nat.pow 2 31 then .error (.value .codePoint)
  else .error (.value .hugeCodePoint)

/-- Reads an escape whose backslash has been read. -/
def takeEscape (cursor : Cursor) : Except Fault (Text × Cursor) :=
  match escapes.lookup cursor.here with
  | some c => .ok ([.char c], cursor.step)
  | none =>
    match escapeWidth? cursor.here with
    | some width =>
      let digits := cursor.step.rest.take width
      if digits.length = width && digits.all isHexDigit then do
        let point ← escapedPoint (ofHexDigits digits)
        return ([point], cursor.advance (width + 1))
      else ungrammatical
    | none =>
      if isBreak cursor.here then do
        let (_, next) := cursor.takeBreak
        let (breaks, last) ← Cursor.takeQuotedBreaks next.fuel next
        return (Text.ofChars breaks, last)
      else ungrammatical

def singleQuote : Char := '\x27'

def doubleQuote : Char := '\x22'

def endsQuotedRun (c : Char) : Bool :=
  c = singleQuote || c = doubleQuote || c = '\\' || isSpaceOrEnd c

/-- Reads the inside of a quoted scalar up to its closing quote. -/
def takeQuoted (double : Bool) : (fuel : Nat) → Cursor → Except Fault (Text × Cursor)
  | 0, _ => ungrammatical
  | fuel + 1, cursor => do
    let run := cursor.run fun c => !endsQuotedRun c
    let cursor := cursor.advance run.length
    let c := cursor.here
    let (piece, next) ←
      if !double && c = singleQuote && cursor.peek 1 = singleQuote then
        pure (([.char singleQuote] : Text), cursor.advance 2)
      else if (double && c = singleQuote) || (!double && (c = doubleQuote || c = '\\')) then
        pure (([.char c] : Text), cursor.step)
      else if double && c = '\\' then takeEscape cursor.step
      else if c = singleQuote || c = doubleQuote then return (Text.ofChars run, cursor)
      else
        let blanks := cursor.run fun c => c = ' ' || c = '\t'
        let cursor := cursor.advance blanks.length
        if cursor.here = endChar then ungrammatical
        else if isBreak cursor.here then do
          let (line, next) := cursor.takeBreak
          let (breaks, last) ← Cursor.takeQuotedBreaks next.fuel next
          pure (Text.ofChars (folded line breaks), last)
        else pure (Text.ofChars blanks, cursor)
    let (more, last) ← takeQuoted double fuel next
    return (Text.ofChars run ++ piece ++ more, last)

/-- What happens to the line breaks at the end of a block scalar. -/
inductive Chomping where
  | strip
  | clip
  | keep
deriving DecidableEq, Repr

/-- Reads a chomping indicator, if one stands here. -/
def takeChomping (cursor : Cursor) : Option Chomping × Cursor :=
  if cursor.here = '+' then (some .keep, cursor.step)
  else if cursor.here = '-' then (some .strip, cursor.step)
  else (none, cursor)

/-- Reads an indentation indicator, if one stands here; it cannot be zero. -/
def takeIncrement (cursor : Cursor) : Except Fault (Option Nat × Cursor) :=
  if cursor.here.isDigit then
    if cursor.here = '0' then ungrammatical
    else .ok (some (cursor.here.toNat - 48), cursor.step)
  else .ok (none, cursor)

/-- Reads the indicators behind the start of a block scalar, in either order. -/
def takeBlockHeader (cursor : Cursor) : Except Fault ((Chomping × Option Nat) × Cursor) := do
  let (before, cursor) := takeChomping cursor
  let (increment, cursor) ← takeIncrement cursor
  let (after, cursor) := if before.isNone && increment.isSome then takeChomping cursor
    else (none, cursor)
  if isGapOrEnd cursor.here then return ((((before.or after).getD .clip), increment), cursor)
  else ungrammatical

/-- Reads the rest of a line that holds nothing but a comment. -/
def takeEmptyLine (cursor : Cursor) : Except Fault Cursor :=
  let cursor := cursor.skipBlanks.skipComment
  if isBreakOrEnd cursor.here then .ok cursor.takeBreak.2 else ungrammatical

/-- Reads the lines of a block scalar. `breaks` are the line breaks before the next line; the
result ends with the last line's break and the breaks behind it. -/
def takeBlockLines (fold : Bool) (indent : Nat) : (fuel : Nat) → (breaks : List Char) → Cursor →
    List Char × List Char × List Char × Cursor
  | 0, breaks, cursor => ([], [], breaks, cursor)
  | fuel + 1, breaks, cursor =>
    let isText := cursor.here ≠ ' ' && cursor.here ≠ '\t'
    let run := cursor.run fun c => !isBreakOrEnd c
    let (line, next) := (cursor.advance run.length).takeBreak
    let (following, last) := Cursor.takeBreaksWithin indent next.fuel next
    if last.column = indent && last.here ≠ endChar then
      let joint :=
        if fold && line = ['\n'] && isText && last.here ≠ ' ' && last.here ≠ '\t' then
          (if following.isEmpty then [' '] else [])
        else line
      let (more, lastLine, tail, stop) := takeBlockLines fold indent fuel following last
      (breaks ++ run ++ joint ++ more, lastLine, tail, stop)
    else (breaks ++ run, line, following, last)

/-- Reads a block scalar whose start has been read. -/
def takeBlock (fold : Bool) (indent : Int) (cursor : Cursor) :
    Except Fault (List Char × Cursor) := do
  let ((chomping, increment), cursor) ← takeBlockHeader cursor
  let cursor ← takeEmptyLine cursor
  let least := max (indent + 1) 1
  let (breaks, column, cursor) := match increment with
    | some n =>
      let column := (least + n - 1).toNat
      let (breaks, next) := Cursor.takeBreaksWithin column cursor.fuel cursor
      (breaks, column, next)
    | none =>
      let (breaks, column, next) := Cursor.takeLeadingBreaks cursor.fuel cursor
      (breaks, max least.toNat column, next)
  let (body, line, tail, last) :=
    if cursor.column = column && cursor.here ≠ endChar then
      takeBlockLines fold column cursor.fuel breaks cursor
    else ([], [], breaks, cursor)
  let ending := match chomping with
    | .strip => []
    | .clip => line
    | .keep => line ++ tail
  return (body ++ ending, last)

def takeAnchorName (cursor : Cursor) : Except Fault (String × Cursor) :=
  let name := cursor.run isNameChar
  let cursor := cursor.advance name.length
  let c := cursor.here
  if name.isEmpty || !(isSpaceOrEnd c || "?:,]\x7d%@\x60".toList.contains c) then ungrammatical
  else .ok (String.ofList name, cursor)

/-- Reads a tag handle: an exclamation mark, alone or with a name and another one. -/
def takeTagHandle (cursor : Cursor) : Except Fault (String × Cursor) :=
  if cursor.here ≠ '!' then ungrammatical
  else if cursor.peek 1 = ' ' then .ok ("!", cursor.step)
  else
    let name := cursor.step.run isNameChar
    let cursor := cursor.advance (name.length + 1)
    if cursor.here = '!' then .ok (String.ofList ('!' :: name ++ ['!']), cursor.step)
    else ungrammatical

/-- Whether the character may stand in the address of a tag. -/
def isAddressChar (c : Char) : Bool :=
  c.isAlphanum || "-;/?:@&=+$,_.!~*\x27()[]%".toList.contains c

def takeAddressEscapes : (fuel : Nat) → Cursor → Except Fault (Octets × Cursor)
  | 0, cursor => .ok ([], cursor)
  | fuel + 1, cursor =>
    if cursor.here = '%' then
      if isHexDigit (cursor.peek 1) && isHexDigit (cursor.peek 2) then do
        let code := ofHexDigits [cursor.peek 1, cursor.peek 2]
        let (more, last) ← takeAddressEscapes fuel (cursor.advance 3)
        return (UInt8.ofNat code :: more, last)
      else ungrammatical
    else .ok ([], cursor)

/-- Reads the address of a tag, which may be empty. -/
def takeAddressFrom : (fuel : Nat) → Cursor → Except Fault (List Char × Cursor)
  | 0, cursor => .ok ([], cursor)
  | fuel + 1, cursor =>
    if cursor.here = '%' then do
      let (octets, next) ← takeAddressEscapes cursor.fuel cursor
      match Utf8.decode octets with
      | .ok cs =>
        let (more, last) ← takeAddressFrom fuel next
        return (cs ++ more, last)
      | .error _ => ungrammatical
    else if isAddressChar cursor.here then do
      let (more, last) ← takeAddressFrom fuel cursor.step
      return (cursor.here :: more, last)
    else .ok ([], cursor)

def takeAddress (cursor : Cursor) : Except Fault (String × Cursor) := do
  if isAddressChar cursor.here then
    let (cs, last) ← takeAddressFrom cursor.fuel cursor
    return (String.ofList cs, last)
  else ungrammatical

def takeTag (cursor : Cursor) : Except Fault (WrittenTag × Cursor) := do
  let c := cursor.peek 1
  let (written, cursor) ←
    if c = '<' then do
      let (suffix, next) ← takeAddress (cursor.advance 2)
      if next.here = '>' then pure ((⟨none, suffix⟩ : WrittenTag), next.step) else ungrammatical
    else if isSpaceOrEnd c then pure ((⟨none, "!"⟩ : WrittenTag), cursor.step)
    else do
      let ahead := cursor.step.run fun c => !isGapOrEnd c
      let (handle, next) ← if ahead.contains '!' then takeTagHandle cursor
        else pure ("!", cursor.step)
      let (suffix, last) ← takeAddress next
      pure ((⟨some handle, suffix⟩ : WrittenTag), last)
  if isGapOrEnd cursor.here then return (written, cursor) else ungrammatical

def takeVersionNumber (cursor : Cursor) : Except Fault (Nat × Cursor) :=
  let digits := cursor.run Char.isDigit
  if digits.isEmpty then ungrammatical
  else .ok (digits.foldl (fun n c => n * 10 + (c.toNat - 48)) 0, cursor.advance digits.length)

/-- Reads the value of a version directive. -/
def takeVersion (cursor : Cursor) : Except Fault (Token × Cursor) := do
  let (major, cursor) ← takeVersionNumber cursor.skipBlanks
  if cursor.here ≠ '.' then ungrammatical
  else
    let (minor, cursor) ← takeVersionNumber cursor.step
    if isGapOrEnd cursor.here then return (.version major minor, cursor) else ungrammatical

def takeTagDirective (cursor : Cursor) : Except Fault (Token × Cursor) := do
  let (handle, cursor) ← takeTagHandle cursor.skipBlanks
  if cursor.here ≠ ' ' then ungrammatical
  else
    let (start, cursor) ← takeAddress cursor.skipBlanks
    if isGapOrEnd cursor.here then return (.tagHandle handle start, cursor) else ungrammatical

/-- Reads a directive whose percent sign has been read. -/
def takeDirective (cursor : Cursor) : Except Fault (Token × Cursor) := do
  let name := cursor.run isNameChar
  let cursor := cursor.advance name.length
  if name.isEmpty || !isGapOrEnd cursor.here then ungrammatical
  else
    let (token, cursor) ←
      if name = "YAML".toList then takeVersion cursor
      else if name = "TAG".toList then takeTagDirective cursor
      else pure (.otherDirective, cursor.skip fun c => !isBreakOrEnd c)
    return (token, ← takeEmptyLine cursor)

end SessionKeeper.Yaml
