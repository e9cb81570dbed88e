import Hydroseries.Arith
import Hydroseries.Proofs.Arith.Rational
import Hydroseries.Catalog.Commands
import Hydroseries.Catalog.Descriptor
import Hydroseries.Command.Basic
import Hydroseries.Command.Entities
import Hydroseries.Command.Flow
import Hydroseries.Command.Output
import Hydroseries.Command.Reading
import Hydroseries.Command.Shaping
import Hydroseries.Command.Statistics
import Hydroseries.CommandLine.Options
import Hydroseries.CommandLine.Summary
import Hydroseries.Config
import Hydroseries.Control.Block
import Hydroseries.Control.Invocation
import Hydroseries.Control.Line
import Hydroseries.Control.Reader
import Hydroseries.Control.Script
import Hydroseries.Control.Unroll
import Hydroseries.DataFile.Binary
import Hydroseries.DataFile.CommaText
import Hydroseries.DataFile.Csv
import Hydroseries.DataFile.Gage
import Hydroseries.DataFile.Plotgen
import Hydroseries.DataFile.SiteSample
import Hydroseries.DataFile.StatVar
import Hydroseries.DataFile.StepValues
import Hydroseries.DataFile.Table
import Hydroseries.Decimal.Exact
import Hydroseries.Decimal.Shortest
import Hydroseries.Double
import Hydroseries.Equation.Eval
import Hydroseries.Equation.Expr
import Hydroseries.Equation.Parser
import Hydroseries.Fault
import Hydroseries.File.Path
import Hydroseries.File.Tree
import Hydroseries.Main
import Hydroseries.OrderedMap
import Hydroseries.Params
import Hydroseries.Pest.Control
import Hydroseries.Pest.Files
import Hydroseries.Pest.Parameters
import Hydroseries.Pest.Template
import Hydroseries.Pest.Weight
import Hydroseries.Plot.Request
import Hydroseries.Proofs.Command.Comparison
import Hydroseries.Proofs.Command.Effects
import Hydroseries.Proofs.Command.Exceedance
import Hydroseries.Proofs.Command.Extremes
import Hydroseries.Proofs.Command.Failure
import Hydroseries.Proofs.Command.Gage
import Hydroseries.Proofs.Command.Periods
import Hydroseries.Proofs.Command.Position
import Hydroseries.Proofs.Command.Writing
import Hydroseries.Proofs.Control.Blocks
import Hydroseries.Proofs.Control.Collecting
import Hydroseries.Proofs.Control.Context
import Hydroseries.Proofs.Control.Order
import Hydroseries.Proofs.Control.Respelling
import Hydroseries.Proofs.Control.Resumption
import Hydroseries.Proofs.Control.Shift
import Hydroseries.Proofs.Control.Spelling
import Hydroseries.Proofs.Control.Weights
import Hydroseries.Proofs.Decimal.Digits
import Hydroseries.Proofs.Decimal.Rounding
import Hydroseries.Proofs.Equation.Pointwise
import Hydroseries.Proofs.Equation.RoundTrip
import Hydroseries.Proofs.Params
import Hydroseries.Proofs.Pest.Files
import Hydroseries.Proofs.Pest.Weights
import Hydroseries.Proofs.Record.Columns
import Hydroseries.Proofs.Record.Edit
import Hydroseries.Proofs.Record.General
import Hydroseries.Proofs.Record.Real
import Hydroseries.Proofs.Record.Spelling
import Hydroseries.Proofs.Report.Cells
import Hydroseries.Proofs.Report.Instructions
import Hydroseries.Proofs.Report.Names
import Hydroseries.Proofs.Report.Numbering
import Hydroseries.Proofs.Report.Recovery
import Hydroseries.Proofs.Report.Sections
import Hydroseries.Proofs.Resolution
import Hydroseries.Proofs.Run.Composition
import Hydroseries.Proofs.Run.Execution
import Hydroseries.Proofs.Run.Partition
import Hydroseries.Proofs.Run.Planning
import Hydroseries.Proofs.Run.Replacement
import Hydroseries.Proofs.Run.Report
import Hydroseries.Proofs.Series.Alignment
import Hydroseries.Proofs.Series.Grid
import Hydroseries.Proofs.Series.Inference
import Hydroseries.Proofs.Series.Integral
import Hydroseries.Proofs.Series.Interpolate
import Hydroseries.Proofs.Series.Regular
import Hydroseries.Proofs.Stat.Blocks
import Hydroseries.Proofs.Stat.CalendarPeriod
import Hydroseries.Proofs.Stat.Excursion
import Hydroseries.Proofs.Stat.Fit
import Hydroseries.Proofs.Stat.FlowDuration
import Hydroseries.Proofs.Stateful
import Hydroseries.Proofs.Store.Aligned
import Hydroseries.Proofs.Store.Calls
import Hydroseries.Proofs.Store.Copies
import Hydroseries.Proofs.Store.Entity
import Hydroseries.Proofs.Store.Frame
import Hydroseries.Proofs.Store.Frequency
import Hydroseries.Proofs.Store.History
import Hydroseries.Proofs.Store.Interference
import Hydroseries.Proofs.Store.ReadBack
import Hydroseries.Proofs.Store.Series
import Hydroseries.Proofs.Text.Case
import Hydroseries.Proofs.Time.Calendar
import Hydroseries.Proofs.Time.Timestamp
import Hydroseries.Record.Descriptor
import Hydroseries.Record.Edit
import Hydroseries.Record.Writer
import Hydroseries.Report.Layout
import Hydroseries.Report.Listing
import Hydroseries.Report.Order
import Hydroseries.Run
import Hydroseries.Series.Basic
import Hydroseries.Series.Frequency
import Hydroseries.Series.Interpolate
import Hydroseries.Series.Prepared
import Hydroseries.Series.Shape
import Hydroseries.Series.Uniform
import Hydroseries.Session
import Hydroseries.Stat.Baseflow
import Hydroseries.Stat.Event
import Hydroseries.Stat.Excursion
import Hydroseries.Stat.Filter
import Hydroseries.Stat.Fit
import Hydroseries.Stat.FlowDuration
import Hydroseries.Stat.Index
import Hydroseries.Stat.Period
import Hydroseries.Stat.Summary
import Hydroseries.Stat.Unit
import Hydroseries.Stat.Volume
import Hydroseries.Store.Basic
import Hydroseries.Store.Frame
import Hydroseries.Store.Kind
import Hydroseries.Store.Name
import Hydroseries.Store.Tables
import Hydroseries.Text.Blank
import Hydroseries.Text.Case
import Hydroseries.Text.CaseTable
import Hydroseries.Text.Numeral
import Hydroseries.Time.Calendar
import Hydroseries.Time.DateFormat
import Hydroseries.Time.DateReader
import Hydroseries.Time.Pattern
import Hydroseries.Time.Timestamp
import Hydroseries.Time.Window
import Hydroseries.Yaml.Cursor
import Hydroseries.Yaml.Document
import Hydroseries.Yaml.Scalar
import Hydroseries.Yaml.Tag
import Hydroseries.Yaml.Token
import Hydroseries.Proofs.Stat.Baseflow
import Hydroseries.Proofs.Stat.Filter
import Hydroseries.Proofs.Stat.Event
import Hydroseries.Proofs.Time.Month
import Hydroseries.Proofs.Series.Uniform
import Hydroseries.Proofs.Command.Uniform
import Hydroseries.Proofs.DataFile.SiteSample
import Hydroseries.Proofs.DataFile.Csv
import Hydroseries.Proofs.Command.Csv
import Hydroseries.Proofs.Time.Step
import Hydroseries.Proofs.Series.Shape
import Hydroseries.Proofs.Command.Words
import Hydroseries.Proofs.Pest.Clipping
import Hydroseries.Proofs.Pest.Counts
import Hydroseries.Proofs.Pest.Parameters
import Hydroseries.Proofs.Record.Filling
