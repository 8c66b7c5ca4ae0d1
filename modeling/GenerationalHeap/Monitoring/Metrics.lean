/-
Named metrics and their exports.

* `Metric`, `Metrics` — counters and gauges by name, in the order of their
  first appearance.
* `Metrics.exposition` — the line format: a type line and a value line each.
* `Metrics.json` — one object with the values, sorted by name.
-/
import GenerationalHeap.Report
import GenerationalHeap.Text.Quoted

namespace GenerationalHeap

/-- The value of a metric. -/
inductive Metric where
  /-- A number that only grows. -/
  | counter (n : UInt64)
  /-- A number that goes up and down, as the bits of a float. They are kept as
  they are, also where they stand for no number. -/
  | gauge (bits : UInt64)

namespace Metric

/-- The value as a float. -/
def toFloat : Metric → Float
  | .counter n => n.toFloat
  | .gauge bits => .ofBits bits

/-- The kind of a metric in exports. -/
def kind : Metric → String
  | .counter _ => "counter"
  | .gauge _ => "gauge"

end Metric

/-- Metrics by name, in the order of their first appearance. -/
structure Metrics where
  entries : List (String × Metric) := []

namespace Metrics

/-- Gives a metric a value. A new value takes the place of the old one. -/
def put (m : Metrics) (name : String) (value : Metric) : Metrics :=
  if m.entries.any (·.1 == name) then
    ⟨m.entries.map fun e => if e.1 = name then (name, value) else e⟩
  else ⟨m.entries ++ [(name, value)]⟩

/-- The value of a metric. -/
def get? (m : Metrics) (name : String) : Option Metric := m.entries.lookup name

/-- The number of metrics. -/
def size (m : Metrics) : Nat := m.entries.length

/-- Values in the line format: the shortest digits, never with an exponent, a
tie going away from zero. -/
def plain : Text.Style where
  notFinite negative isNaN := if isNaN then "NaN" else if negative then "-inf" else "inf"
  wholeEnd := ""
  positional _ := true
  tie := .away

/-- The metrics in the line format. -/
def exposition (m : Metrics) : String :=
  String.join <| m.entries.map fun (name, value) =>
    "# TYPE " ++ name ++ " " ++ value.kind ++ "\n"
      ++ name ++ " " ++ plain.render value.toFloat ++ "\n"

/-- The metrics as one object, sorted by name. -/
def json (m : Metrics) : String :=
  let sorted := m.entries.mergeSort fun a b => decide (a.1 ≤ b.1)
  Text.object (sorted.map fun (name, value) => (name, Text.number.render value.toFloat))

end Metrics

end GenerationalHeap
