import SessionKeeper.Yaml.Spelling

/-!
# Cutting a text into tokens

The lexer tracks indentation and remembers, for each level of flow collections, a
token that may turn out to be a key: only the value indicator behind it tells. A
key without an indicator of its own has to lie on one line and within 1024
characters of that indicator.
-/
namespace SessionKeeper.Yaml

/-- A token that may turn out to be a key: its number among the tokens and its place. A
required one has to be, because nothing else may begin where it does. -/
structure KeyCandidate where
  number : Nat
  required : Bool
  index : Nat
  line : Nat
  column : Nat

/-- The state of the lexer between two tokens. The tokens are in order. -/
structure Lexer where
  cursor : Cursor
  flow : Nat
  indent : Int
  outer : List Int
  mayBeKey : Bool
  candidates : List (Nat × KeyCandidate)
  tokens : Array Token

namespace Lexer

def start (text : List Char) : Lexer := ⟨.start text, 0, -1, [], true, [], #[]⟩

def push (lexer : Lexer) (token : Token) : Lexer := { lexer with tokens := lexer.tokens.push token }

def insert (lexer : Lexer) (number : Nat) (token : Token) : Lexer :=
  { lexer with tokens := lexer.tokens.take number ++ #[token] ++ lexer.tokens.drop number }

def move (lexer : Lexer) (cursor : Cursor) : Lexer := { lexer with cursor }

def inFlow (lexer : Lexer) : Bool := lexer.flow ≠ 0

/-- Skips blanks, comments and line breaks. After a break outside of flow collections the next
token may be a key. -/
def skipGap (lexer : Lexer) : Lexer := rounds lexer.cursor.fuel (skipMark lexer)
where
  /-- Skips a byte order mark at the start of the text. -/
  skipMark (lexer : Lexer) : Lexer :=
    if lexer.cursor.index = 0 && lexer.cursor.here = '\uFEFF' then lexer.move lexer.cursor.step
    else lexer
  /-- Skips line by line. -/
  rounds : Nat → Lexer → Lexer
    | 0, lexer => lexer
    | fuel + 1, lexer =>
      let cursor := lexer.cursor.skipBlanks.skipComment
      if isBreak cursor.here then
        rounds fuel
          { lexer with cursor := cursor.takeBreak.2, mayBeKey := lexer.mayBeKey || !lexer.inFlow }
      else lexer.move cursor

/-- Whether a candidate can no longer be a key here. -/
def isStale (cursor : Cursor) (candidate : KeyCandidate) : Bool :=
  candidate.line ≠ cursor.line || candidate.index + 1024 < cursor.index

/-- Forgets candidates that can no longer be keys; a required one must not be forgotten. -/
def dropStale (lexer : Lexer) : Except Fault Lexer :=
  let stale := lexer.candidates.filter fun (_, candidate) => isStale lexer.cursor candidate
  if stale.any fun (_, candidate) => candidate.required then ungrammatical
  else .ok { lexer with candidates :=
    lexer.candidates.filter fun (_, candidate) => !isStale lexer.cursor candidate }

def candidate? (lexer : Lexer) : Option KeyCandidate := lexer.candidates.lookup lexer.flow

/-- Forgets the candidate of the current level. -/
def forget (lexer : Lexer) : Lexer :=
  { lexer with candidates := lexer.candidates.filter fun (level, _) => level ≠ lexer.flow }

/-- Gives up the candidate of the current level, which must not be a required one. -/
def dropCandidate (lexer : Lexer) : Except Fault Lexer :=
  match lexer.candidate? with
  | some candidate => if candidate.required then ungrammatical else .ok lexer.forget
  | none => .ok lexer

/-- Remembers the next token as a candidate, where a key is possible. -/
def saveCandidate (lexer : Lexer) : Except Fault Lexer :=
  if lexer.mayBeKey then do
    let lexer ← lexer.dropCandidate
    let cursor := lexer.cursor
    let candidate : KeyCandidate :=
      ⟨lexer.tokens.size, !lexer.inFlow && lexer.indent = cursor.column, cursor.index, cursor.line,
        cursor.column⟩
    return { lexer with candidates := (lexer.flow, candidate) :: lexer.candidates }
  else .ok lexer

/-- Ends the block collections that are indented further than a column. -/
def unwind (column : Int) (lexer : Lexer) : Lexer :=
  if lexer.inFlow then lexer else go lexer.outer lexer
where
  /-- Ends them one by one, from the innermost. -/
  go : List Int → Lexer → Lexer
    | [], lexer => lexer
    | indent :: outer, lexer =>
      if column < lexer.indent then
        go outer { lexer.push .blockEnd with indent, outer }
      else lexer

/-- Whether a column is indented further than the current block collection. -/
def isDeeper (lexer : Lexer) (column : Nat) : Bool := lexer.indent < column

def enter (lexer : Lexer) (column : Nat) : Lexer :=
  { lexer with indent := column, outer := lexer.indent :: lexer.outer }

/-- Reads an indicator of a single character that stands for a token. -/
def takeIndicator (lexer : Lexer) (token : Token) : Lexer :=
  (lexer.move lexer.cursor.step).push token

def takeEnd (lexer : Lexer) : Except Fault Lexer := (lexer.unwind (-1)).dropCandidate

def takeDirectiveToken (lexer : Lexer) : Except Fault Lexer := do
  let lexer ← (lexer.unwind (-1)).dropCandidate
  let (token, cursor) ← takeDirective lexer.cursor.step
  return ({ lexer with mayBeKey := false }.move cursor).push token

def takeMarker (lexer : Lexer) (token : Token) : Except Fault Lexer := do
  let lexer ← (lexer.unwind (-1)).dropCandidate
  return ({ lexer with mayBeKey := false }.move (lexer.cursor.advance 3)).push token

def takeFlowStart (lexer : Lexer) (token : Token) : Except Fault Lexer := do
  let lexer ← lexer.saveCandidate
  return { lexer with flow := lexer.flow + 1, mayBeKey := true }.takeIndicator token

/-- Reads the end of a flow collection, which has to have been started. -/
def takeFlowEnd (lexer : Lexer) (token : Token) : Except Fault Lexer := do
  let lexer ← lexer.dropCandidate
  if lexer.inFlow then
    return { lexer with flow := lexer.flow - 1, mayBeKey := false }.takeIndicator token
  else ungrammatical

/-- Reads a comma between the entries of a flow collection. -/
def takeFlowEntry (lexer : Lexer) : Except Fault Lexer := do
  let lexer ← lexer.dropCandidate
  return { lexer with mayBeKey := true }.takeIndicator .flowEntry

/-- Starts a block collection at a column if that is indented further. -/
def openBlock (lexer : Lexer) (token : Token) : Except Fault Lexer :=
  if lexer.inFlow then .ok lexer
  else if !lexer.mayBeKey then ungrammatical
  else if lexer.isDeeper lexer.cursor.column then
    .ok ((lexer.enter lexer.cursor.column).push token)
  else .ok lexer

/-- Reads the indicator of an entry of a block sequence. -/
def takeBlockEntry (lexer : Lexer) : Except Fault Lexer := do
  let lexer ← (← lexer.openBlock .blockSequenceStart).dropCandidate
  return { lexer with mayBeKey := true }.takeIndicator .blockEntry

def takeKey (lexer : Lexer) : Except Fault Lexer := do
  let lexer ← (← lexer.openBlock .blockMappingStart).dropCandidate
  return { lexer with mayBeKey := !lexer.inFlow }.takeIndicator .key

/-- Reads the indicator of a value. The candidate of the level turns out to be its key. -/
def takeValue (lexer : Lexer) : Except Fault Lexer :=
  match lexer.candidate? with
  | some candidate =>
    let lexer := lexer.forget.insert candidate.number .key
    let lexer :=
      if !lexer.inFlow && lexer.isDeeper candidate.column then
        (lexer.enter candidate.column).insert candidate.number .blockMappingStart
      else lexer
    .ok ({ lexer with mayBeKey := false }.takeIndicator .value)
  | none => do
    let lexer ← (← lexer.openBlock .blockMappingStart).dropCandidate
    return { lexer with mayBeKey := !lexer.inFlow }.takeIndicator .value

/-- Reads an alias or an anchor. -/
def takeName (lexer : Lexer) (token : String → Token) : Except Fault Lexer := do
  let lexer ← lexer.saveCandidate
  let (name, cursor) ← takeAnchorName lexer.cursor.step
  return ({ lexer with mayBeKey := false }.move cursor).push (token name)

def takeTagToken (lexer : Lexer) : Except Fault Lexer := do
  let lexer ← lexer.saveCandidate
  let (written, cursor) ← takeTag lexer.cursor
  return ({ lexer with mayBeKey := false }.move cursor).push (.tag written)

def takeBlockScalar (lexer : Lexer) (fold : Bool) : Except Fault Lexer := do
  let lexer ← lexer.dropCandidate
  let (text, cursor) ← takeBlock fold lexer.indent lexer.cursor.step
  return ({ lexer with mayBeKey := true }.move cursor).push (.scalar (Text.ofChars text) false)

def takeQuotedScalar (lexer : Lexer) (double : Bool) : Except Fault Lexer := do
  let lexer ← lexer.saveCandidate
  let start := lexer.cursor.step
  let (text, cursor) ← takeQuoted double (2 * start.fuel) start
  return ({ lexer with mayBeKey := false }.move cursor.step).push (.scalar text false)

def takePlainScalar (lexer : Lexer) : Except Fault Lexer := do
  let lexer ← lexer.saveCandidate
  let cursor := lexer.cursor
  let (text, broken, last) := takePlain lexer.inFlow (lexer.indent + 1) cursor.fuel [] cursor
  return ({ lexer with mayBeKey := broken }.move last).push (.scalar (Text.ofChars text) true)

/-- The characters that cannot begin a plain scalar. -/
def indicators : List Char := "-?:,[]\x7b\x7d#&*!|>\x27\x22%@\x60".toList

/-- Whether a plain scalar begins here. -/
def atPlain (lexer : Lexer) : Bool :=
  let c := lexer.cursor.here
  (!isSpaceOrEnd c && !indicators.contains c) ||
    (!isSpaceOrEnd (lexer.cursor.peek 1) && (c = '-' || (!lexer.inFlow && (c = '?' || c = ':'))))

/-- Reads one token, with the block ends before it. The lexer stands at its first character,
which is not the end of the text. -/
def takeToken (lexer : Lexer) : Except Fault Lexer :=
  let cursor := lexer.cursor
  let c := cursor.here
  let spaced := isSpaceOrEnd (cursor.peek 1)
  if c = '%' && cursor.column = 0 then lexer.takeDirectiveToken
  else if cursor.column = 0 && cursor.atMarker '-' then lexer.takeMarker .documentStart
  else if cursor.column = 0 && cursor.atMarker '.' then lexer.takeMarker .documentEnd
  else if c = '[' then lexer.takeFlowStart .flowSequenceStart
  else if c = '\x7b' then lexer.takeFlowStart .flowMappingStart
  else if c = ']' then lexer.takeFlowEnd .flowSequenceEnd
  else if c = '\x7d' then lexer.takeFlowEnd .flowMappingEnd
  else if c = ',' then lexer.takeFlowEntry
  else if c = '-' && spaced then lexer.takeBlockEntry
  else if c = '?' && (lexer.inFlow || spaced) then lexer.takeKey
  else if c = ':' && (lexer.inFlow || spaced) then lexer.takeValue
  else if c = '*' then lexer.takeName .alias
  else if c = '&' then lexer.takeName .anchor
  else if c = '!' then lexer.takeTagToken
  else if c = '|' && !lexer.inFlow then lexer.takeBlockScalar false
  else if c = '>' && !lexer.inFlow then lexer.takeBlockScalar true
  else if c = singleQuote then lexer.takeQuotedScalar false
  else if c = doubleQuote then lexer.takeQuotedScalar true
  else if lexer.atPlain then lexer.takePlainScalar
  else ungrammatical

/-- Reads what comes next with the block ends before it, and tells whether the text ends here. -/
def fetch (lexer : Lexer) : Except Fault (Lexer × Bool) := do
  let lexer ← lexer.skipGap.dropStale
  let lexer := lexer.unwind lexer.cursor.column
  if lexer.cursor.here = endChar then return (← lexer.takeEnd, true)
  else return (← lexer.takeToken, false)

/-- The tokens in front of the first one that may still turn out to be a key. -/
def settled (lexer : Lexer) : List Token :=
  let fresh := lexer.candidates.filter fun (_, candidate) => !isStale lexer.cursor candidate
  match (fresh.map fun (_, candidate) => candidate.number).min? with
  | some number => lexer.tokens.toList.take number
  | none => lexer.tokens.toList

end Lexer

/-- The tokens of a text, up to the fault that no token can be read behind, if there is one. -/
structure TokenStream where
  tokens : List Token
  stop : Option Fault

/-- Goes on behind what was fetched, until the text ends or a fault stops it. -/
def Lexer.goOn (lexer : Lexer) (next : Lexer → TokenStream) :
    Except Fault (Lexer × Bool) → TokenStream
  | .ok (after, true) => ⟨after.tokens.toList, none⟩
  | .ok (after, false) => next after
  | .error fault => ⟨lexer.settled, some fault⟩

def Lexer.finish : (fuel : Nat) → Lexer → TokenStream
  | 0, lexer => ⟨lexer.settled, some .grammar⟩
  | fuel + 1, lexer => lexer.goOn (finish fuel) lexer.fetch

def tokens (text : List Char) : TokenStream :=
  if text.all isPrintable then Lexer.finish (text.length + 2) (.start text)
  else ⟨[], some .grammar⟩

end SessionKeeper.Yaml
