import SessionKeeper.Text.Utf8

/-!
# The runtime

Readers and printers call themselves for what is nested in what they read or print, and the
runtime stops them when too many calls are under way. For how many levels there is room depends on
how deep in calls the one is who asks, so the numbers are parameters. They are the same for all that
one operation reads and prints: the few calls of its own that lie between are not told apart. The
runtime also brings along the less common character sets.
-/
namespace SessionKeeper

/-- Where there are too many levels: in JSON text at the opening of an array or an object, in a
value that is printed, or in a YAML document. -/
inductive Nesting where
  | array
  | object
  | printed
  | node
deriving DecidableEq, Repr

/-- What the runtime has no room for: an integer with too many digits, which are counted when it is
read, or too many levels. -/
inductive Limit where
  | digits (count : Option Nat)
  | levels (nesting : Nesting)
deriving DecidableEq, Repr

/-- The error of a reader of a character set; a refusal is one about the octets it was given. -/
structure CodecFault where
  kind : String
  message : Text
  isRefusal : Bool
deriving DecidableEq, Repr

/-- For how many levels there is room: below the outermost one when JSON is read and printed, in all
when YAML nodes are composed and when merged mappings are followed. Printing needs no more room than
reading, except for a floating point number in the very last level, which is not told apart here. -/
class Runtime where
  reads : Nat
  prints : Nat
  composes : Nat
  merges : Nat
  codec? : String → Option (Octets → Except CodecFault Text)
  roomy : 8 ≤ reads
  reads_le_prints : reads ≤ prints

namespace Runtime

/-- The room that is left below so many calls, and no further character sets. -/
@[reducible] def below (calls : Nat) : Runtime where
  reads := 8 + (960 - calls)
  prints := 8 + (960 - calls)
  composes := (960 - calls) / 2
  merges := 960 - calls
  codec? _ := none
  roomy := Nat.le_add_right 8 _
  reads_le_prints := Nat.le_refl _

/-- The room for an operation that a program calls directly. -/
scoped instance usual : Runtime := below 0

end Runtime
end SessionKeeper
