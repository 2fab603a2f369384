import SessionKeeper.Number.Numeral
import SessionKeeper.Schema.Issue
import SessionKeeper.Time.LaxReader

/-!
# Fields

Readers for the values that records are made of. Text is accepted as it is, without
conversion of other values; integers and moments are also accepted in the spellings
that documents use for them.
-/
namespace SessionKeeper.Schema

def text : Json → Reading Text
  | .str t => .ok t
  | other => refuse .stringType other

def textOrNull : Json → Reading (Option Text)
  | .null => .ok none
  | other => (text other).map some

/-- An integer, also as text or as a floating point number without a fraction that is smaller
than 2^63. -/
def integer : Json → Reading Int
  | .int n => .ok n
  | .bool b => .ok (if b then 1 else 0)
  | .float x =>
    match x.toRatio? with
    | none => refuse .finiteNumber (.float x)
    | some (n, d) =>
      if n % d ≠ 0 then refuse .intFromFloat (.float x)
      else if Numeral.wordLimit ≤ n.natAbs / d then refuse .intParsingSize (.float x)
      else .ok (n / d)
  | .str t =>
    match t.toChars? with
    | none => refuse .stringUnicode (.str t)
    | some cs =>
      match Numeral.int? cs with
      | .ok n => .ok n
      | .error .malformed => refuse .intParsing (.str t)
      | .error .tooLong => refuse .intParsingSize (.str t)
  | other => refuse .intType other

def momentIssue : MomentFault → IssueKind
  | .notAMoment => .datetimeType
  | .unreadable => .datetimeParsing
  | .noDateEither => .datetimeFromDateParsing
  | .unpairedSurrogate => .stringUnicode

def moment (value : Json) : Reading Moment :=
  match LaxReader.read value with
  | .ok m => .ok m
  | .error fault => refuse (momentIssue fault) value

def object : Json → Reading (Assoc Text Json)
  | .obj members => .ok members
  | other => refuse .dictType other

/-- The members of an object that stands for a record of the named schema. -/
def record (schema : String) : Json → Reading (Assoc Text Json)
  | .obj members => .ok members
  | other => refuse (.modelType schema) other

/-- A member that has to be there. -/
def required {α : Type} (members : Assoc Text Json) (name : Text) (read : Json → Reading α) :
    Reading α :=
  match members.value? name with
  | some value => under name (read value)
  | none => under name (refuse .missing (.obj members))

/-- A member with a value for its absence. -/
def optional {α : Type} (members : Assoc Text Json) (name : Text) (absent : α)
    (read : Json → Reading α) : Reading α :=
  match members.value? name with
  | some value => under name (read value)
  | none => .ok absent

def literal (expected : Text) : Json → Reading Unit
  | .str t => if t = expected then .ok () else refuse (.literalError expected) (.str t)
  | other => refuse (.literalError expected) other

end SessionKeeper.Schema
