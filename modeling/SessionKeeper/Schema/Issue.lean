import SessionKeeper.Json.Basic
import SessionKeeper.Text.Quoted
import SessionKeeper.Json.Printer

/-!
# Issues

A value that does not fit a schema is described by a list of issues, each with its
kind, its place and the part of the input that caused it. Reading a record collects
the issues of all its fields in the order of the fields.
-/
namespace SessionKeeper.Schema

/-- What is wrong with a part of the input. -/
inductive IssueKind where
  | missing
  | stringType
  | stringUnicode
  | intType
  | intParsing
  | intParsingSize
  | intFromFloat
  | finiteNumber
  | datetimeType
  | datetimeParsing
  | datetimeFromDateParsing
  | boolParsing
  | floatParsing
  | modelType (schema : String)
  | modelAttributesType
  | dictType
  | literalError (expected : Text)
  | unionTagInvalid (tag : Text)
  | unionTagNotFound
  | rule (message : String)
deriving DecidableEq, Repr

def IssueKind.code : IssueKind → String
  | .missing => "missing"
  | .stringType => "string_type"
  | .stringUnicode => "string_unicode"
  | .intType => "int_type"
  | .intParsing => "int_parsing"
  | .intParsingSize => "int_parsing_size"
  | .intFromFloat => "int_from_float"
  | .finiteNumber => "finite_number"
  | .datetimeType => "datetime_type"
  | .datetimeParsing => "datetime_parsing"
  | .datetimeFromDateParsing => "datetime_from_date_parsing"
  | .boolParsing => "bool_parsing"
  | .floatParsing => "float_parsing"
  | .modelType _ => "model_type"
  | .modelAttributesType => "model_attributes_type"
  | .dictType => "dict_type"
  | .literalError _ => "literal_error"
  | .unionTagInvalid _ => "union_tag_invalid"
  | .unionTagNotFound => "union_tag_not_found"
  | .rule _ => "value_error"

def IssueKind.message : IssueKind → Text
  | .missing => "Field required"
  | .stringType => "Input should be a valid string"
  | .stringUnicode => "Input should be a valid string, unable to parse raw data as a unicode string"
  | .intType => "Input should be a valid integer"
  | .intParsing => "Input should be a valid integer, unable to parse string as an integer"
  | .intParsingSize => "Unable to parse input string as an integer, exceeded maximum size"
  | .intFromFloat => "Input should be a valid integer, got a number with a fractional part"
  | .finiteNumber => "Input should be a finite number"
  | .datetimeType => "Input should be a valid datetime"
  | .datetimeParsing => "Input should be a valid datetime"
  | .datetimeFromDateParsing => "Input should be a valid datetime or date"
  | .boolParsing => "Input should be a valid boolean, unable to interpret input"
  | .floatParsing => "Input should be a valid number, unable to parse string as a number"
  | .modelType schema =>
    Text.ofString "Input should be a valid dictionary or instance of " ++ schema
  | .modelAttributesType => "Input should be a valid dictionary or object to extract fields from"
  | .dictType => "Input should be a valid dictionary"
  | .literalError expected => Text.ofString "Input should be " ++ Quoted.encode expected
  | .unionTagInvalid tag =>
    Text.ofString "Input tag " ++ Quoted.encode tag ++
      " found using 'session_kind' does not match any of the expected tags: 'oauth', 'worker'"
  | .unionTagNotFound => "Unable to extract tag using discriminator 'session_kind'"
  | .rule message => Text.ofString "Value error, " ++ message

/-- One thing that is wrong: its kind, the names that lead to it and the value found. -/
structure Issue where
  place : List Text
  kind : IssueKind
  input : Json

/-- The result of reading a value: what it stands for, or all its issues. -/
abbrev Reading (α : Type) := Except (List Issue) α

/-- A reading with a single issue at the value itself. -/
def refuse {α : Type} (kind : IssueKind) (input : Json) : Reading α := .error [⟨[], kind, input⟩]

/-- The reading of a part, with its issues placed under the part's name. -/
def under {α : Type} (name : Text) (reading : Reading α) : Reading α :=
  reading.mapError fun issues => issues.map fun issue => { issue with place := name :: issue.place }

theorem under_eq_ok {α : Type} {name : Text} {reading : Reading α} {a : α} :
    under name reading = .ok a ↔ reading = .ok a := by
  cases reading with
  | error issues => constructor <;> intro h <;> cases h
  | ok b => exact Iff.rfl

/-- Both readings, with the issues of the first before those of the second. -/
def both {α β : Type} (first : Reading α) (second : Reading β) : Reading (α × β) :=
  match first, second with
  | .ok a, .ok b => .ok (a, b)
  | .ok _, .error issues => .error issues
  | .error issues, .ok _ => .error issues
  | .error issues, .error more => .error (issues ++ more)

@[simp] theorem both_eq_ok {α β : Type} {r : Reading α} {s : Reading β} {a : α} {b : β} :
    both r s = .ok (a, b) ↔ r = .ok a ∧ s = .ok b := by
  cases r <;> cases s <;> simp [both]

end SessionKeeper.Schema
