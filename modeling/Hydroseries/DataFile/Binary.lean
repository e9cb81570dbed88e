import Hydroseries.OrderedMap
import Hydroseries.Time.Window

/-!
# Binary files

Series in binary files of models are read by a source outside of this library. A request tells it the
format, the file, what to select in it, and the window that is wanted.
-/

namespace Hydroseries

inductive BinaryFormat where
  | wdm
  | hspfbin
  | xlsx
  | tetrad
  | swmmbin
  deriving DecidableEq, Repr

namespace BinaryFormat

def command : BinaryFormat → String
  | wdm => "GET_SERIES_WDM"
  | hspfbin => "GET_SERIES_HSPFBIN"
  | xlsx => "GET_SERIES_XLSX"
  | tetrad => "GET_SERIES_TETRAD"
  | swmmbin => "GET_SERIES_SWMMBIN"

def all : List BinaryFormat := [wdm, hspfbin, xlsx, tetrad, swmmbin]

end BinaryFormat

structure BinaryRequest where
  format : BinaryFormat
  path : Option String
  /-- The keywords that select a series, as the block has them. -/
  selectors : OrderedMap String String
  window : Window
  deriving Repr

end Hydroseries
