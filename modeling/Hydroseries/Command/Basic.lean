import Hydroseries.Command.Entities
import Hydroseries.Command.Flow
import Hydroseries.Command.Output
import Hydroseries.Command.Reading
import Hydroseries.Command.Shaping
import Hydroseries.Command.Statistics

/-!
# Commands

A command is what a block asks for, read and checked before anything is done.
-/

namespace Hydroseries

open Command in
inductive Command where
  /-- Puts a date format in force. -/
  | settings (dates : Option DateFormat)
  | getSeries (c : GetSeries)
  | getBinarySeries (c : GetBinarySeries)
  | copy (c : Renaming)
  | move (c : Renaming)
  | eraseEntities (c : EraseEntities)
  | newSeriesUniform (c : NewSeriesUniform)
  | newTimeBase (c : NewTimeBase)
  | reduceTimeSpan (c : ReduceTimeSpan)
  | seriesClean (c : SeriesClean)
  | seriesDifference (c : Derived)
  | seriesDisplace (c : SeriesDisplace)
  | seriesBaseLevel (c : SeriesBaseLevel)
  | seriesEquation (c : SeriesEquation)
  | vTableToSeries (c : VTableToSeries)
  | seriesStatistics (c : SeriesStatistics)
  | periodStatistics (c : PeriodStatistics)
  | seriesCompare (c : SeriesCompare)
  | digitalFilter (c : DigitalFilter)
  /-- Storm events, with or without their limbs. -/
  | hydroEvents (c : HydroEvents)
  | usgsHysep (c : UsgsHysep)
  | flowDuration (c : FlowDurationTable)
  | exceedanceTime (c : ExceedanceTime)
  | hydrologicIndices (c : HydrologicIndices)
  | volumeCalculation (c : VolumeCalculation)
  | listOutput (c : ListOutput)
  | writePestFiles (b : Pest.FilesBlock)
  | plot (c : Plot)

namespace Command

/-- The commands that read columns of text files. -/
def textReaders : List String :=
  ["GET_SERIES_CSV", "GET_SERIES_SSF", "GET_SERIES_PLOTGEN", "GET_SERIES_STATVAR",
   "GET_SERIES_GSFLOW_GAGE", "GET_SERIES_UFORE_HYDRO", "GET_MUL_SERIES_SSF",
   "GET_MUL_SERIES_PLOTGEN", "GET_MUL_SERIES_STATVAR", "GET_MUL_SERIES_GSFLOW_GAGE"]

def binaryReaders : List String := BinaryFormat.all.map BinaryFormat.command

/-- Reads a block, with the date format in force. -/
def ofParams (p : Params) (dates : DateFormat) : Outcome Command :=
  if textReaders.contains p.command then (GetSeries.ofParams p dates).map getSeries
  else if binaryReaders.contains p.command then
    (GetBinarySeries.ofParams p dates).map getBinarySeries
  else
    match p.command with
    | "SETTINGS" => ((p.text? "date_format").mapM DateFormat.ofSetting).map settings
    | "COPY" => (Renaming.ofParams p).map copy
    | "MOVE" => (Renaming.ofParams p).map move
    | "ERASE_ENTITY" => (EraseEntities.ofParams p).map eraseEntities
    | "NEW_SERIES_UNIFORM" => (NewSeriesUniform.ofParams p dates).map newSeriesUniform
    | "NEW_TIME_BASE" => (NewTimeBase.ofParams p).map newTimeBase
    | "REDUCE_TIME_SPAN" => (ReduceTimeSpan.ofParams p dates).map reduceTimeSpan
    | "SERIES_CLEAN" => (SeriesClean.ofParams p).map seriesClean
    | "SERIES_DIFFERENCE" => (Derived.ofParams p).map seriesDifference
    | "SERIES_DISPLACE" => (SeriesDisplace.ofParams p).map seriesDisplace
    | "SERIES_BASE_LEVEL" => (SeriesBaseLevel.ofParams p dates).map seriesBaseLevel
    | "SERIES_EQUATION" => (SeriesEquation.ofParams p).map seriesEquation
    | "V_TABLE_TO_SERIES" => (VTableToSeries.ofParams p).map vTableToSeries
    | "SERIES_STATISTICS" => (SeriesStatistics.ofParams p dates).map seriesStatistics
    | "PERIOD_STATISTICS" => (PeriodStatistics.ofParams p dates).map periodStatistics
    | "SERIES_COMPARE" => (SeriesCompare.ofParams p dates).map seriesCompare
    | "DIGITAL_FILTER" => (DigitalFilter.ofParams p).map digitalFilter
    | "HYDRO_EVENTS" => (HydroEvents.ofParams p dates true).map hydroEvents
    | "HYDRO_PEAKS" => (HydroEvents.ofParams p dates false).map hydroEvents
    | "USGS_HYSEP" => (UsgsHysep.ofParams p dates).map usgsHysep
    | "FLOW_DURATION" => (FlowDurationTable.ofParams p dates).map flowDuration
    | "EXCEEDANCE_TIME" => (ExceedanceTime.ofParams p).map exceedanceTime
    | "HYDROLOGIC_INDICES" => (HydrologicIndices.ofParams p dates).map hydrologicIndices
    | "VOLUME_CALCULATION" => (VolumeCalculation.ofParams p dates).map volumeCalculation
    | "LIST_OUTPUT" => (ListOutput.ofParams p).map listOutput
    | "WRITE_PEST_FILES" => (Pest.FilesBlock.ofParams p).map writePestFiles
    | "PLOT" => (Plot.ofParams p dates).map plot
    | other => .error (.unknownCommand other p.line)

def run : Command → Action Unit
  | settings dates => modify fun s => { s with dateFormat := dates.getD s.dateFormat }
  | getSeries c => c.run
  | getBinarySeries c => c.run
  | copy c => c.copy
  | move c => c.move
  | eraseEntities c => c.run
  | newSeriesUniform c => c.run
  | newTimeBase c => c.run
  | reduceTimeSpan c => c.run
  | seriesClean c => c.run
  | seriesDifference c => differences c
  | seriesDisplace c => c.run
  | seriesBaseLevel c => c.run
  | seriesEquation c => c.run
  | vTableToSeries c => c.run
  | seriesStatistics c => c.run
  | periodStatistics c => c.run
  | seriesCompare c => c.run
  | digitalFilter c => c.run
  | hydroEvents c => c.run
  | usgsHysep c => c.run
  | flowDuration c => c.run
  | exceedanceTime c => c.run
  | hydrologicIndices c => c.run
  | volumeCalculation c => c.run
  | listOutput c => c.run
  | writePestFiles b => WritePestFiles.run b
  | plot c => c.run

/-- Reads a block with the date format in force and does what it asks for. -/
def perform (p : Params) : Action Unit := do
  let s ← get
  let c ← ofParams p s.dateFormat
  c.run

end Command

end Hydroseries
