/-
A bounded log of events.

* `EventLog.events` — the last events that were important enough, oldest first.
* `EventLog.record` — adds an event; the oldest one makes room (`events_record`).
* `EventLog.consoleLine?` — the line that an event leaves on the console.

Design notes: events that have to go are cut off many at a time, so that adding
one is cheap however many are kept.
-/
import GenerationalHeap.Event

namespace GenerationalHeap

/-- What a log keeps and shows. -/
structure LogConfig where
  /-- The least important level that is logged. -/
  level : Level := .info
  /-- Whether events go to the console. -/
  console : Bool := true
  /-- Whether the console shows events as objects rather than lines. -/
  json : Bool := false
  /-- Whether console lines start with the time. -/
  timestamps : Bool := true
  /-- How many events are kept. -/
  history : Nat := 1024

/-- A bounded log of events. -/
structure EventLog where
  config : LogConfig := {}
  /-- The kept events, oldest first, perhaps with some behind which more than
  enough have come. -/
  recorded : Array Event := #[]
  enabled : Bool := true

namespace EventLog

/-- Whether the log takes an event. -/
def takes (l : EventLog) (e : Event) : Bool :=
  l.enabled && decide (e.level.rank ≤ l.config.level.rank)

/-- The last `n` elements of a list. -/
def keepLast (n : Nat) (events : List Event) : List Event := events.drop (events.length - n)

/-- The kept events, oldest first. -/
def events (l : EventLog) : List Event := keepLast l.config.history l.recorded.toList

/-- The number of kept events. -/
def size (l : EventLog) : Nat := min l.config.history l.recorded.size

/-- Events with one more behind them, of which the last `n` matter. -/
def push (n : Nat) (recorded : Array Event) (e : Event) : Array Event :=
  let recorded := recorded.push e
  if recorded.size ≤ 2 * n then recorded
  else recorded.extract (recorded.size - n) recorded.size

/-- Adds an event. -/
def record (l : EventLog) (e : Event) : EventLog :=
  if l.takes e then
    match l with
    | ⟨config, recorded, enabled⟩ => ⟨config, push config.history recorded e, enabled⟩
  else l

/-- The line that an event leaves on the console, with its level; `time` is the
text of the current time. -/
def consoleLine? (l : EventLog) (time : String) (e : Event) : Option (Level × String) :=
  if l.takes e && l.config.console then
    let body := if l.config.json then e.json else e.text
    some (e.level, if l.config.timestamps then "[" ++ time ++ "] " ++ body else body)
  else none

/-- Forgets all events. -/
def clear (l : EventLog) : EventLog := { l with recorded := #[] }

end EventLog

end GenerationalHeap
