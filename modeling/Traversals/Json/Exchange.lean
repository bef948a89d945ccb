import Traversals.Indexed
import Traversals.Json.Reading
import Traversals.Json.Record
import Traversals.Slice.Bounds

/-!
# Exchanged records

The written forms of slice bounds, resolved slices and numbered words, and
their readers. A reader decodes the entries that a value gives for its fields.
Only the bounds of an unresolved slice may be missing.
-/

namespace Traversals

namespace SliceBounds

def decode : List (Option Json) → Option SliceBounds
  | [start, stop, step] => do
      let start ← Json.optionalWord start
      let stop ← Json.optionalWord stop
      let step ← Json.optionalWord step
      return { start, stop, step }
  | _ => none

def ofJson (json : Json) : Option SliceBounds :=
  (json.fields ["start", "stop", "step"]).bind decode

def read (text : String) : Option SliceBounds :=
  (Json.ofString text).bind ofJson

def write (bounds : SliceBounds) : String :=
  Json.record
    [("start", Json.writeOptionalWord bounds.start),
      ("stop", Json.writeOptionalWord bounds.stop),
      ("step", Json.writeOptionalWord bounds.step)]

end SliceBounds

namespace ResolvedSlice

def decode : List (Option Json) → Option ResolvedSlice
  | [start, stop, step, length] => do
      let start ← Json.requiredWord start
      let stop ← Json.requiredWord stop
      let step ← Json.requiredWord step
      let length ← Json.requiredWord length
      return { start, stop, step, length }
  | _ => none

def ofJson (json : Json) : Option ResolvedSlice :=
  (json.fields ["start", "stop", "step", "length"]).bind decode

def read (text : String) : Option ResolvedSlice :=
  (Json.ofString text).bind ofJson

def write (slice : ResolvedSlice) : String :=
  Json.record
    [("start", Json.writeWord slice.start), ("stop", Json.writeWord slice.stop),
      ("step", Json.writeWord slice.step), ("length", Json.writeWord slice.length)]

end ResolvedSlice

namespace Indexed

def decode : List (Option Json) → Option (Indexed Int64)
  | [index, value] => do
      let index ← Json.requiredCount index
      let value ← Json.requiredWord value
      return { index, value }
  | _ => none

def ofJson (json : Json) : Option (Indexed Int64) :=
  (json.fields ["index", "value"]).bind decode

def read (text : String) : Option (Indexed Int64) :=
  (Json.ofString text).bind ofJson

def write (element : Indexed Int64) : String :=
  Json.record [("index", toString element.index), ("value", Json.writeWord element.value)]

end Indexed

end Traversals
