import Hydroseries.DataFile.Table

/-!
# Site sample files

Every line holds a site, a date, a time of day and a value; what follows is ignored. The lines of a
site may stand anywhere in the file and in any order.
-/

namespace Hydroseries.DataFile.SiteSample

/-- Reads a line; none for a blank one. -/
def sample (path : String) (format : DateFormat) (line : Nat) (text : String) :
    Outcome (Option (String × Timestamp × Double)) :=
  match Text.words text with
  | [] => .ok none
  | site :: date :: time :: value :: _ => do
    let t ← atLine path line (format.combine date (some time))
    let v ← number path line value
    pure (some (site, t, v))
  | _ => .error (lineFault path line "expected 'site date time value'")

def pointsOf (site : String) (samples : List (String × Timestamp × Double)) :
    List (Timestamp × Option Double) :=
  (samples.filter fun s => s.1 = site).map fun s => (s.2.1, some s.2.2)

def siteSeries (path site : String) (samples : List (String × Timestamp × Double)) : Outcome Series :=
  (TimeSeries.ofPoints (pointsOf site samples)).mapError fun f =>
    .unreadable path ("site " ++ site ++ ": duplicate or unordered timestamps (" ++ f.message ++ ")")

/-- Reads the table of a text. Sites stand in the order of their first lines. -/
def read (path text : String) (format : DateFormat) : Outcome DataTable := do
  let found ← (numberedLines text).mapM fun (l, n) => sample path format n l
  let samples := found.filterMap id
  let columns ← (samples.map Prod.fst).eraseDups.mapM fun site => do
    let s ← siteSeries path site samples
    pure (site, s)
  pure ⟨columns⟩

end Hydroseries.DataFile.SiteSample
