import Hydroseries.Arith
import Hydroseries.Store.Basic

/-!
# The order of reported values

Flow duration curves are reported from the largest probability down; indices by the letters and then
by the number of their labels. Other entities are reported as they are stored.
-/

namespace Hydroseries.Report

/-- The probability of a row; labels come after all probabilities. -/
def probabilityOf : GKey → Double
  | .probability p => p
  | .label _ => -.infinity

/-- The letters of a label in capitals and the number behind them, zero if there is none. -/
def naturalKey (label : String) : String × Nat :=
  let (letters, digits) := label.toList.span fun c => !Text.isDigit c
  (Text.upper (String.ofList letters), (Text.readWord64? (String.ofList digits)).getD 0)

/-- Letters first, then numbers. -/
def naturalLe (a b : String × Nat) : Bool :=
  decide (a.1 < b.1) || (a.1 == b.1 && decide (a.2 ≤ b.2))

/-- The rows of a general table in the order of the report. -/
def rowsOf (t : GTable) : List (GKey × Double) :=
  match t.kind with
  | .flowDuration =>
    t.rows.mergeSort fun a b => Arith.totalLe (probabilityOf b.1) (probabilityOf a.1)
  | .hydrologicIndices =>
    t.rows.mergeSort fun a b => naturalLe (naturalKey a.1.text) (naturalKey b.1.text)

/-- The values of an entity in the order of the report. -/
def valuesOf (st : Store) (kind : EntityKind) (name : EntityName) : Outcome (List Double) := do
  match kind with
  | .series => pure (← st.getSeries name).validValues
  | .sTable => pure (← Store.lookup .sTable st.sTables name).stats.values
  | .cTable => pure (← Store.lookup .cTable st.cTables name).stats.values
  | .vTable => pure ((← Store.lookup .vTable st.vTables name).rows.map VolumeRow.volume)
  | .eTable => pure ((← Store.lookup .eTable st.eTables name).rows.map ExceedanceRow.duration)
  | .gTable => pure ((rowsOf (← Store.lookup .gTable st.gTables name)).map Prod.snd)

end Hydroseries.Report
