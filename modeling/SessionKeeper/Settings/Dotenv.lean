import SessionKeeper.Assoc
import SessionKeeper.Text.Blank

/-!
# Environment files

An environment file gives names values, one statement on a line unless a quoted
value runs on. A statement that cannot be read is skipped with the rest of its line,
and the line it began on is reported. In values `$` with a name in braces stands for
what earlier statements or the environment give that name.
-/
namespace SessionKeeper.Dotenv

/-- A statement: a name with or without a value, nothing, or one that cannot be read. -/
inductive Statement where
  | binding (name : List Char) (value : Option (List Char))
  | nothing
  | broken
deriving DecidableEq, Repr

def isLineBlank (c : Char) : Bool := isBlankChar c && c ≠ '\n' && c ≠ '\r'

def skipLineBlanks (cs : List Char) : List Char := cs.dropWhile isLineBlank

/-- Drops `export` and the blanks behind it. -/
def skipExport (cs : List Char) : List Char :=
  let word := "export".toList
  if word.isPrefixOf cs then
    let rest := cs.drop word.length
    let after := skipLineBlanks rest
    if after.length < rest.length then after else cs
  else cs

def single : Char := '\x27'

def double : Char := '\x22'

/-- Reads a name, quoted or not; a comment has none. -/
def takeName (cs : List Char) : Except (List Char) (Option (List Char) × List Char) :=
  match cs with
  | [] => .error cs
  | c :: rest =>
    if c = '#' then .ok (none, cs)
    else if c = single then
      let name := rest.takeWhile (· ≠ single)
      match rest.drop name.length with
      | _ :: after => if name.isEmpty then .error cs else .ok (some name, after)
      | [] => .error cs
    else
      let fits := fun d => d ≠ '=' && d ≠ '#' && !isBlankChar d
      let name := cs.takeWhile fits
      if name.isEmpty then .error cs else .ok (some name, cs.drop name.length)

/-- The text up to the first quote that no backslash precedes, and what follows the quote. -/
def untilQuote? (quote : Char) : List Char → Option (List Char × List Char)
  | [] => none
  | '\\' :: c :: rest =>
    if c = quote then
      (untilQuote? quote rest).map fun (inside, after) => ('\\' :: c :: inside, after)
    else (untilQuote? quote (c :: rest)).map fun (inside, after) => ('\\' :: inside, after)
  | c :: rest =>
    if c = quote then some ([], rest)
    else (untilQuote? quote rest).map fun (inside, after) => (c :: inside, after)
termination_by cs => cs.length

/-- The text up to the last quote that a backslash precedes, with the backslash. -/
def untilLastEscaped? (quote : Char) : List Char → Option (List Char × List Char)
  | [] => none
  | c :: rest =>
    match untilLastEscaped? quote rest with
    | some (inside, after) => some (c :: inside, after)
    | none =>
      match rest with
      | d :: after => if c = '\\' && d = quote then some (['\\'], after) else none
      | [] => none

/-- The text of a quoted value and what follows it. Where every quote is escaped, the last one
is taken to close the value after all. -/
def quoted? (quote : Char) (cs : List Char) : Option (List Char × List Char) :=
  (untilQuote? quote cs).or (untilLastEscaped? quote cs)

/-- The character that a backslash and this one stand for. -/
def escape? (inDouble : Bool) (c : Char) : Option Char :=
  if c = '\\' || c = single then some c
  else if !inDouble then none
  else if c = double then some c
  else [('a', '\x07'), ('b', '\x08'), ('f', '\x0c'), ('n', '\n'), ('r', '\r'), ('t', '\t'),
    ('v', '\x0b')].lookup c

/-- Replaces the escapes in a quoted value. -/
def unescape (inDouble : Bool) : List Char → List Char
  | [] => []
  | '\\' :: c :: rest =>
    match escape? inDouble c with
    | some d => d :: unescape inDouble rest
    | none => '\\' :: unescape inDouble (c :: rest)
  | c :: rest => c :: unescape inDouble rest
termination_by cs => cs.length

/-- Cuts a value off at blanks that a number sign follows. -/
def dropComment : List Char → List Char
  | [] => []
  | c :: rest =>
    if isBlankChar c && (rest.dropWhile isBlankChar).head? = some '#' then []
    else c :: dropComment rest

def trimEnd (cs : List Char) : List Char := (cs.reverse.dropWhile isBlankChar).reverse

def isLineEnd (c : Char) : Bool := c = '\n' || c = '\r'

def takeValue (cs : List Char) : Except (List Char) (List Char × List Char) :=
  match cs with
  | [] => .ok ([], [])
  | c :: rest =>
    if c = single || c = double then
      match quoted? c rest with
      | some (inside, after) => .ok (unescape (c = double) inside, after)
      | none => .error cs
    else
      let line := cs.takeWhile fun d => !isLineEnd d
      .ok (trimEnd (dropComment line), cs.drop line.length)

def skipComment (cs : List Char) : List Char :=
  match skipLineBlanks cs with
  | '#' :: rest => rest.dropWhile fun c => !isLineEnd c
  | _ => cs

/-- Drops the end of a line, which has to be next. -/
def takeLineEnd (cs : List Char) : Except (List Char) (List Char) :=
  match skipLineBlanks cs with
  | [] => .ok []
  | '\r' :: '\n' :: rest => .ok rest
  | c :: rest => if isLineEnd c then .ok rest else .error cs

/-- Drops what is left of a line. -/
def skipLine (cs : List Char) : List Char := (cs.dropWhile fun c => !isLineEnd c).drop 1

/-- Reads a statement whose leading blanks have been dropped. -/
def takeBinding (cs : List Char) : Except (List Char) (Statement × List Char) := do
  let (name, rest) ← takeName (skipExport cs)
  let rest := skipLineBlanks rest
  let (value, rest) ← match rest with
    | '=' :: after => do
      let (value, rest) ← takeValue (skipLineBlanks after)
      pure (some value, rest)
    | _ => pure (none, rest)
  let rest ← takeLineEnd (skipComment rest)
  match name with
  | some name => return (.binding name value, rest)
  | none => return (.nothing, rest)

/-- Reads a statement and the blanks before it. -/
def takeStatement (cs : List Char) : Statement × List Char :=
  match cs.dropWhile isBlankChar with
  | [] => (.nothing, [])
  | start =>
    match takeBinding start with
    | .ok result => result
    | .error rest => (.broken, skipLine rest)

def linesBetween (cs rest : List Char) : Nat :=
  (cs.take (cs.length - rest.length)).count '\n'

/-- All statements with the lines they begin on. -/
def statements : (fuel : Nat) → (line : Nat) → List Char → List (Nat × Statement)
  | 0, _, _ => []
  | _, _, [] => []
  | fuel + 1, line, cs =>
    let (statement, rest) := takeStatement cs
    (line, statement) :: statements fuel (line + linesBetween cs rest) rest

/-- A piece of a value: plain text, or a name with what stands for it when it has no value. -/
inductive Atom where
  | plain (c : Char)
  | variable (name fallback : List Char)
deriving DecidableEq, Repr

/-- The reference at the start of the text, whose dollar sign and brace have been read. -/
def reference? (cs : List Char) : Option (Atom × List Char) :=
  let name := cs.takeWhile fun c => c ≠ '\x7d' && c ≠ ':'
  match cs.drop name.length with
  | '\x7d' :: rest => some (.variable name [], rest)
  | ':' :: '-' :: rest =>
    let fallback := rest.takeWhile (· ≠ '\x7d')
    match rest.drop fallback.length with
    | _ :: after => some (.variable name fallback, after)
    | [] => none
  | _ => none

/-- The pieces of a value. -/
def atoms : (fuel : Nat) → List Char → List Atom
  | 0, _ => []
  | _, [] => []
  | fuel + 1, c :: rest =>
    match c, rest with
    | '$', '\x7b' :: more =>
      match reference? more with
      | some (atom, after) => atom :: atoms fuel after
      | none => .plain c :: atoms fuel rest
    | _, _ => .plain c :: atoms fuel rest

/-- The text of a piece, given the values of names; one without a value is empty. -/
def Atom.resolve (known : Assoc Text (Option Text)) : Atom → Text
  | .plain c => [.char c]
  | .variable name fallback =>
    match known.value? (Text.ofChars name) with
    | some (some value) => value
    | some none => []
    | none => Text.ofChars fallback

/-- The values that statements give, in an environment. -/
def resolve (environment : Assoc Text Text) (bindings : List (List Char × Option (List Char))) :
    Assoc Text (Option Text) :=
  bindings.foldl (fun values (name, value) =>
    let known : Assoc Text (Option Text) :=
      values ++ environment.map fun (name, value) => (name, some value)
    let result := value.map fun cs => (atoms (cs.length + 1) cs).flatMap (Atom.resolve known)
    Assoc.put values (Text.ofChars name) result) []

/-- What an environment file gives. -/
structure Content where
  values : Assoc Text (Option Text)
  broken : List Nat

def read (environment : Assoc Text Text) (cs : List Char) : Content :=
  let all := statements (cs.length + 1) 1 cs
  let bindings := all.filterMap fun
    | (_, .binding name value) => some (name, value)
    | _ => none
  let broken := all.filterMap fun
    | (line, .broken) => some line
    | _ => none
  ⟨resolve environment bindings, broken⟩

end SessionKeeper.Dotenv
