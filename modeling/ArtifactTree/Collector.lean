import ArtifactTree.Fault

/-!
# Collectors

A collector answers one question: which dependencies does an artifact declare? It answers in a
monad, because an answer may read files, be remembered or be recorded.

A `Catalogue` answers from a finite table, in which the last entry of a coordinate counts.
`recorded` keeps the questions; `cached` remembers every answer that is not a fault and asks for no
coordinate again that it remembers.
-/

namespace ArtifactTree

/-- What an artifact declares, or why that cannot be told. -/
abbrev Answer := Except Fault (List Declaration)

structure Collector (m : Type → Type) where
  collect : Coordinate → m Answer

/-- A finite table of what artifacts declare. A coordinate that is not in it declares nothing, or is
a fault if the table is strict. -/
structure Catalogue where
  entries : List (Coordinate × List Declaration) := []
  strict : Bool := false

namespace Catalogue

/-- Records what `coordinate` declares, in place of what was recorded before. -/
def insert (k : Catalogue) (coordinate : Coordinate) (declarations : List Declaration) :
    Catalogue :=
  { k with entries := (coordinate, declarations) :: k.entries.filter (·.1 != coordinate) }

/-- The catalogue of a list of entries, of which the last one of a coordinate counts. -/
def ofList (entries : List (Coordinate × List Declaration)) (strict : Bool) : Catalogue :=
  entries.foldl (fun k entry => k.insert entry.1 entry.2) { strict }

def answer (k : Catalogue) (coordinate : Coordinate) : Answer :=
  match k.entries.lookup coordinate with
  | some declarations => .ok declarations
  | none =>
    if k.strict then .error ⟨.noDescriptor coordinate none, []⟩ else .ok []

/-- A number of levels that no chain of distinct declared coordinates exceeds. -/
def depthLimit (k : Catalogue) : Nat := k.entries.foldr (fun entry total => entry.2.length + total) 2

end Catalogue

namespace Collector

variable {m : Type → Type} [Monad m]

def ofFunction (answer : Coordinate → Answer) : Collector m := ⟨fun c => pure (answer c)⟩

/-- The questions that were asked, in order, the latest at the end. -/
abbrev Calls := Array Coordinate

/-- Keeps every question, answered or not. -/
def recorded (inner : Collector m) : Collector (StateT Calls m) where
  collect c := do
    modify (·.push c)
    inner.collect c

/-- Answers that are remembered, the latest first. -/
abbrev Cache := List (Coordinate × List Declaration)

/-- Asks `inner` only what is not remembered yet, and remembers the answer unless it is a fault. -/
def cached (inner : Collector m) : Collector (StateT Cache m) where
  collect c := do
    match (← get).lookup c with
    | some declarations => return .ok declarations
    | none =>
      let answer ← inner.collect c
      if let .ok declarations := answer then modify ((c, declarations) :: ·)
      return answer

/-- Answers may be remembered, and calls that reach the source are kept. -/
abbrev Recording := StateT Cache (StateM Calls)

end Collector

/-- Answers from a catalogue and keeps the calls. With `remember`, the calls are those that no
remembered answer serves. -/
def Catalogue.collector (k : Catalogue) (remember : Bool) : Collector Collector.Recording :=
  let plain : Collector (StateM Collector.Calls) :=
    (Collector.ofFunction k.answer : Collector Id).recorded
  if remember then plain.cached else ⟨fun c => liftM (plain.collect c)⟩

end ArtifactTree
