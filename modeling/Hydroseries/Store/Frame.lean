import Hydroseries.OrderedMap
import Hydroseries.Series.Basic
import Hydroseries.Store.Name

/-!
# Frames

All series of one frequency share a frame: one index, and for each series a column with a value or a
gap at every moment of the index.
-/

namespace Hydroseries

structure Frame where
  index : List Timestamp
  columns : OrderedMap EntityName (List (Option Double))
  deriving Repr

namespace Frame

def empty : Frame := ⟨[], .empty⟩

/-- Merges two increasing indices; moments in both are kept once. The result is put in reverse before
`acc`. -/
def unionGo (acc : List Timestamp) : List Timestamp → List Timestamp → List Timestamp
  | [], ts => acc.reverse ++ ts
  | ss, [] => acc.reverse ++ ss
  | s :: ss, t :: ts =>
    if s < t then unionGo (s :: acc) ss (t :: ts)
    else if s = t then unionGo (s :: acc) ss ts
    else unionGo (t :: acc) (s :: ss) ts
termination_by ss ts => ss.length + ts.length

/-- The moments of two increasing indices, increasing and without repetition. -/
def union (ss ts : List Timestamp) : List Timestamp := unionGo [] ss ts

/-- Adds a series as a column, after widening the index and the other columns to its moments. -/
def join (f : Frame) (name : EntityName) (s : Series) : Frame :=
  let wide := union f.index s.index
  let columns := f.columns.map fun column => TimeSeries.align (f.index.zip column) wide
  ⟨wide, columns.insert name (TimeSeries.align s.points wide)⟩

/-- Removes a column; the index stays as it is. -/
def drop (f : Frame) (name : EntityName) : Frame := ⟨f.index, f.columns.erase name⟩

/-- The column of a series with the index. -/
def column? (f : Frame) (name : EntityName) : Option (List (Timestamp × Option Double)) :=
  (f.columns.find? name).map fun column => f.index.zip column

end Frame

end Hydroseries
