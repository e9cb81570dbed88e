import Hydroseries.Store.Frame
import Hydroseries.Store.Tables

/-!
# The store of entities

The store holds every series and table of a run under its name. Series are filed in the frame of their
frequency. A name can be used once for each kind; to replace an entity it is erased first.
-/

namespace Hydroseries

/-- What is recorded of a series: its frequency, and the times of its first and last value. -/
structure SeriesRecord where
  frequency : Frequency
  start : Timestamp
  finish : Timestamp
  deriving DecidableEq, Repr

structure Store where
  /-- Frames by frequency code. -/
  frames : OrderedMap String Frame
  series : OrderedMap EntityName SeriesRecord
  cTables : OrderedMap EntityName CTable
  sTables : OrderedMap EntityName STable
  vTables : OrderedMap EntityName VTable
  eTables : OrderedMap EntityName ETable
  gTables : OrderedMap EntityName GTable
  deriving Repr

namespace Store

def empty : Store := ⟨.empty, .empty, .empty, .empty, .empty, .empty, .empty⟩

instance : Inhabited Store := ⟨empty⟩

/-! ### Series -/

/-- Adds a series under a new name. Gaps at its ends are cut off, its frequency is inferred, and it is
filed in the frame of that frequency. -/
def joinSeries (st : Store) (name : EntityName) (s : Series) : Outcome Store := do
  if st.series.contains name then throw (.duplicateEntity .series name.text)
  let trimmed := s.trimmed
  match trimmed.firstValid?, trimmed.lastValid? with
  | some start, some finish =>
    let frequency := trimmed.frequency
    let regular ← trimmed.regularized frequency
    let code := frequency.code
    let frame := (st.frames.find? code).getD .empty
    pure { st with
      frames := st.frames.insert code (frame.join name regular)
      series := st.series.insert name ⟨frequency, start, finish⟩ }
  | _, _ => throw (.refused ("series " ++ name.text ++ " would have no values"))

def record (st : Store) (name : EntityName) : Outcome SeriesRecord :=
  match st.series.find? name with
  | some r => .ok r
  | none => .error (.missingEntity .series name.text)

/-- The series of a name, from its first value to its last. An irregular series has no gaps of its
own, so those that stem from other series are left out. -/
def getSeries (st : Store) (name : EntityName) : Outcome Series := do
  let r ← st.record name
  match (st.frames.find? r.frequency.code).bind (·.column? name) with
  | none => throw (.missingEntity .series name.text)
  | some points =>
    -- The frame reaches as far as its longest series.
    let inside := points.filter fun p => decide (r.start ≤ p.1) && decide (p.1 ≤ r.finish)
    TimeSeries.ofOrdered <|
      if r.frequency = .irregular then inside.filter fun p => p.2.isSome else inside

/-- Removes a series, and its frame with the last series in it. -/
def eraseSeries (st : Store) (name : EntityName) : Outcome Store := do
  let r ← st.record name
  let code := r.frequency.code
  let frames := match st.frames.find? code with
    | none => st.frames
    | some frame =>
      let rest := frame.drop name
      -- The moments of the erased series stay in a frame that others use.
      if rest.columns.isEmpty then st.frames.erase code else st.frames.insert code rest
  pure { st with frames, series := st.series.erase name }

/-! ### Tables -/

def insertNew (kind : EntityKind) (m : OrderedMap EntityName β) (name : EntityName) (t : β) :
    Outcome (OrderedMap EntityName β) :=
  if m.contains name then .error (.duplicateEntity kind name.text) else .ok (m.insert name t)

def lookup (kind : EntityKind) (m : OrderedMap EntityName β) (name : EntityName) : Outcome β :=
  match m.find? name with
  | some t => .ok t
  | none => .error (.missingEntity kind name.text)

def eraseNamed (kind : EntityKind) (m : OrderedMap EntityName β) (name : EntityName) :
    Outcome (OrderedMap EntityName β) :=
  if m.contains name then .ok (m.erase name) else .error (.missingEntity kind name.text)

inductive Table where
  | c (t : CTable)
  | s (t : STable)
  | v (t : VTable)
  | e (t : ETable)
  | g (t : GTable)

/-- Adds a table of any kind under a new name. -/
def insertTable (st : Store) (name : EntityName) : Table → Outcome Store
  | .c t => do pure { st with cTables := ← insertNew .cTable st.cTables name t }
  | .s t => do pure { st with sTables := ← insertNew .sTable st.sTables name t }
  | .v t => do pure { st with vTables := ← insertNew .vTable st.vTables name t }
  | .e t => do pure { st with eTables := ← insertNew .eTable st.eTables name t }
  | .g t => do pure { st with gTables := ← insertNew .gTable st.gTables name t }

/-! ### Entities of any kind -/

/-- True when the name is used for the kind. -/
def contains (st : Store) (kind : EntityKind) (name : EntityName) : Bool :=
  match kind with
  | .series => st.series.contains name
  | .cTable => st.cTables.contains name
  | .sTable => st.sTables.contains name
  | .vTable => st.vTables.contains name
  | .eTable => st.eTables.contains name
  | .gTable => st.gTables.contains name

def erase (st : Store) (kind : EntityKind) (name : EntityName) : Outcome Store := do
  match kind with
  | .series => st.eraseSeries name
  | .cTable => pure { st with cTables := ← eraseNamed .cTable st.cTables name }
  | .sTable => pure { st with sTables := ← eraseNamed .sTable st.sTables name }
  | .vTable => pure { st with vTables := ← eraseNamed .vTable st.vTables name }
  | .eTable => pure { st with eTables := ← eraseNamed .eTable st.eTables name }
  | .gTable => pure { st with gTables := ← eraseNamed .gTable st.gTables name }

/-- Adds what is found under `source` again under `target`, a new name. -/
def duplicate (st : Store) (kind : EntityKind) (source target : EntityName) : Outcome Store := do
  match kind with
  | .series => st.joinSeries target (← st.getSeries source)
  | .cTable => st.insertTable target (.c (← lookup .cTable st.cTables source))
  | .sTable => st.insertTable target (.s (← lookup .sTable st.sTables source))
  | .vTable => st.insertTable target (.v (← lookup .vTable st.vTables source))
  | .eTable => st.insertTable target (.e (← lookup .eTable st.eTables source))
  | .gTable => st.insertTable target (.g (← lookup .gTable st.gTables source))

/-- Changes of a store that may stop halfway; what was changed before a fault stays changed. -/
abbrev Update := ExceptT Fault (StateM Store)

/-- One change, made wholly or not at all. -/
def Update.make (change : Store → Outcome Store) : Update Unit := do
  match change (← get) with
  | .ok st => set st
  | .error fault => throw fault

/-- Copies an entity. With `overwrite`, an entity that has the new name is erased first. -/
def copy (kind : EntityKind) (source target : EntityName) (overwrite : Bool) : Update Unit := do
  let st ← get
  if !st.contains kind source then throw (.missingEntity kind source.text)
  if overwrite && st.contains kind target then Update.make (·.erase kind target)
  Update.make (·.duplicate kind source target)

/-- Gives an entity another name, by a copy. -/
def rename (kind : EntityKind) (source target : EntityName) (overwrite : Bool) : Update Unit := do
  if source = target then
    if !(← get).contains kind source then throw (.missingEntity kind source.text)
  else
    copy kind source target overwrite
    Update.make (·.erase kind source)

/-! ### Summary -/

/-- The names of all entities, with what is recorded of series. -/
structure Summary where
  series : List (EntityName × SeriesRecord)
  tables : List (EntityKind × List EntityName)

def summary (st : Store) : Summary :=
  ⟨st.series.entries,
    [(.cTable, st.cTables.keys), (.sTable, st.sTables.keys), (.vTable, st.vTables.keys),
     (.eTable, st.eTables.keys), (.gTable, st.gTables.keys)]⟩

end Store

end Hydroseries
