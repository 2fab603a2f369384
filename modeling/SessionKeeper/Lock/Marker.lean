import SessionKeeper.Schema.Field

/-!
# Lock markers

A marker is the evidence that a process is in a critical section: the key of the
lock, the time it was taken and the process that took it.
-/
namespace SessionKeeper.Lock

/-- Who holds a lock and since when. -/
structure Marker where
  key : Text
  acquired : Moment
  holder : Int
deriving DecidableEq

namespace Marker

def schema : String := "LockMarker"

def read (value : Json) : Schema.Reading Marker := do
  let members ← Schema.record schema value
  let (key, acquired, holder) ←
    Schema.both (Schema.required members "key" Schema.text)
      (Schema.both (Schema.required members "acquired_at" Schema.moment)
        (Schema.required members "pid" Schema.integer))
  return ⟨key, acquired, holder⟩

/-- The record that is stored. -/
def toJson (marker : Marker) : Json :=
  .obj [("key", .str marker.key), ("acquired_at", .str marker.acquired.storedText),
    ("pid", .int marker.holder)]

/-- The age of a marker, when its time can be compared with the clock. -/
def age? (marker : Marker) (now : Moment) : Option Duration := now.since? marker.acquired

/-- Whether two markers name the same holder and the same time. -/
def sameHolding (a b : Marker) : Bool := a.holder = b.holder && a.acquired.sameTime b.acquired

end Marker
end SessionKeeper.Lock
