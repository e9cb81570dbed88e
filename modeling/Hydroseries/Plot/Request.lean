import Hydroseries.Params
import Hydroseries.Series.Basic

/-!
# Plots

Figures are drawn by a program outside of this library. A request tells it the file, the series and
how to draw them.
-/

namespace Hydroseries

/-- How the values of a plot are shown. -/
inductive PlotKind where
  | line
  | area
  | bar
  | barh
  | hist
  | kde
  | density
  | box
  deriving DecidableEq, Repr

namespace PlotKind

def all : List PlotKind := [line, area, bar, barh, hist, kde, density, box]

def word : PlotKind → String
  | line => "line"
  | area => "area"
  | bar => "bar"
  | barh => "barh"
  | hist => "hist"
  | kde => "kde"
  | density => "density"
  | box => "box"

end PlotKind

structure PlotOptions where
  kind : PlotKind
  title : String
  xlabel : String
  ylabel : String
  /-- Width and height in inches. -/
  figsize : Double × Double
  legend : Bool
  legendNames : List String
  style : List String
  logx : Bool
  logy : Bool
  xlim : Option Double × Option Double
  ylim : Option Double × Option Double
  /-- The series with an axis on the right. -/
  secondaryY : List EntityName
  markRight : Bool
  grid : Bool
  deriving Repr

structure PlotRequest where
  file : String
  series : List (EntityName × Series)
  options : PlotOptions
  deriving Repr

namespace PlotOptions

/-- A flag that is on unless it is given. -/
def flagOrOn (p : Params) (key : String) : Outcome Bool :=
  if p.has key then p.flag key else .ok true

/-- Reads the options of a block for the series that it plots. -/
def ofParams (p : Params) (series : List EntityName) : Outcome PlotOptions := do
  let secondaryY := p.entities "secondary_y"
  match secondaryY.find? fun n => !series.contains n with
  | some extra => throw (.invalid "secondary_y" extra.text "must be one of the plotted series")
  | none => pure ()
  let word ← p.choice? "kind" (PlotKind.all.map PlotKind.word)
  let kind := (word.bind fun w => PlotKind.all.find? fun k => k.word = w).getD .line
  let text (key : String) : String := (p.joined? key).getD ""
  let number (key : String) : Outcome (Option Double) := p.number? Params.asDouble key
  let width ← number "figsize_width"
  let height ← number "figsize_height"
  let legend ← flagOrOn p "legend"
  let logx ← p.flag "logx"
  let logy ← p.flag "logy"
  let xMin ← number "xlim_min"
  let xMax ← number "xlim_max"
  let yMin ← number "ylim_min"
  let yMax ← number "ylim_max"
  let markRight ← flagOrOn p "mark_right"
  let grid ← p.flag "grid"
  let legendNames := p.tokens "legend_names"
  if !legendNames.isEmpty && legendNames.length != series.length then
    throw (.refused (toString legendNames.length ++ " LEGEND_NAMES for " ++
      toString series.length ++ " series"))
  pure {
    kind, title := text "title", xlabel := text "xlabel", ylabel := text "ylabel"
    figsize := (width.getD 10.0, height.getD 6.0)
    legend, legendNames, style := p.tokens "style", logx, logy
    xlim := (xMin, xMax), ylim := (yMin, yMax), secondaryY, markRight, grid }

end PlotOptions

end Hydroseries
