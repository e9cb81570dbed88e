import Hydroseries.Catalog.Descriptor

/-!
# The commands

One descriptor for every command of a control file, in alphabetical order. Names are found whatever
their case. For an unknown name, the commands that share the longest run of leading words with it are
proposed.
-/

namespace Hydroseries.Catalog

open OptionalKeyword

def windowKeywords : List OptionalKeyword :=
  [plain "date_1", plain "time_1", plain "date_2", plain "time_2"]

/-- The keywords that name entities, one for each kind. -/
def entityKeywords : List OptionalKeyword := EntityKind.all.map fun k => plain k.nameKeyword

/-- The exceedance probabilities of a curve for which none are given, in percent. -/
def usualProbabilities : List String :=
  ["99.5", "99", "98", "95", "90", "75", "50", "25", "10", "5", "2", "1", "0.5"]

/-- What replaces the commands that read several series. -/
def severalReadersHint : String :=
  "Use multiple GET_SERIES_X blocks or a rolled up GET_SERIES_X block instead."

def copy : Descriptor where
  name := "COPY"
  required := ["context", "new_entity_name"]
  optional :=
    entityKeywords ++
    [withPreset "overwrite" "no"]
  description := "Copy one entity under a new name"

def digitalFilter : Descriptor where
  name := "DIGITAL_FILTER"
  required := ["context", "series_name", "new_series_name", "filter_type"]
  optional :=
    [plain "filter_pass", plain "cutoff_frequency", plain "cutoff_frequency_1",
     plain "cutoff_frequency_2", withPreset "stages" "1", plain "alpha", withPreset "passes" "1",
     withPreset "reverse_second_stage" "no", withPreset "clip_input" "no",
     withPreset "clip_zero" "no"]
  description := "Butterworth filtering or baseflow separation"

def eraseEntity : Descriptor where
  name := "ERASE_ENTITY"
  required := ["context"]
  optional :=
    entityKeywords
  description := "Delete entities by name"

def exceedanceTime : Descriptor where
  name := "EXCEEDANCE_TIME"
  required := ["context", "series_name", "new_e_table_name", "exceedance_time_units"]
  optional :=
    [withPreset "under_over" "over", plain "flow", plain "delay"]
  description := "Time spent above or below flow thresholds"

def flowDuration : Descriptor where
  name := "FLOW_DURATION"
  required := ["context", "series_name"]
  optional :=
    [plain "new_g_table_name", presetList "exceedance_probabilities" usualProbabilities] ++
    windowKeywords
  description := "Flow duration curve at exceedance probabilities"

/-- Read series from a GSFLOW gage file. -/
def getMulSeriesGsflowGage : Descriptor where
  name := "GET_MUL_SERIES_GSFLOW_GAGE"
  required := ["context", "file", "data_type", "new_series_name", "model_reference_date",
    "model_reference_time"]
  optional :=
    [withPreset "time_units_per_day" "1"] ++
    windowKeywords
  deprecated := some severalReadersHint
  description := "Read series from a GSFLOW gage file"

/-- Read curves from an HSPF PLOTGEN file. -/
def getMulSeriesPlotgen : Descriptor where
  name := "GET_MUL_SERIES_PLOTGEN"
  required := ["context", "file", "label", "new_series_name"]
  optional :=
    windowKeywords
  deprecated := some severalReadersHint
  description := "Read curves from an HSPF PLOTGEN file"

/-- Read sites from a site sample file. -/
def getMulSeriesSsf : Descriptor where
  name := "GET_MUL_SERIES_SSF"
  required := ["context", "file", "site", "new_series_name"]
  optional :=
    windowKeywords
  deprecated := some severalReadersHint
  description := "Read sites from a site sample file"

/-- Read variables from a PRMS STATVAR file. -/
def getMulSeriesStatvar : Descriptor where
  name := "GET_MUL_SERIES_STATVAR"
  required := ["context", "file", "variable_name", "location_id", "new_series_name"]
  optional :=
    windowKeywords
  deprecated := some severalReadersHint
  description := "Read variables from a PRMS STATVAR file"

def getSeriesCsv : Descriptor where
  name := "GET_SERIES_CSV"
  required := ["context", "file", "new_series_name"]
  optional :=
    windowKeywords ++
    [plain "usecol"]
  description := "Read one column of a CSV file"

/-- Read series from a GSFLOW gage file. -/
def getSeriesGsflowGage : Descriptor where
  name := "GET_SERIES_GSFLOW_GAGE"
  required := ["context", "file", "data_type", "new_series_name", "model_reference_date",
    "model_reference_time"]
  optional :=
    [withPreset "time_units_per_day" "1"] ++
    windowKeywords
  description := "Read series from a GSFLOW gage file"

/-- Read a series from an HSPF binary output file. -/
def getSeriesHspfbin : Descriptor where
  name := "GET_SERIES_HSPFBIN"
  required := ["context", "file", "new_series_name", "interval", "operationtype", "id",
    "variable"]
  optional :=
    windowKeywords
  description := "Read a series from an HSPF binary output file"

/-- Read curves from an HSPF PLOTGEN file. -/
def getSeriesPlotgen : Descriptor where
  name := "GET_SERIES_PLOTGEN"
  required := ["context", "file", "label", "new_series_name"]
  optional :=
    windowKeywords
  description := "Read curves from an HSPF PLOTGEN file"

/-- Read sites from a site sample file. -/
def getSeriesSsf : Descriptor where
  name := "GET_SERIES_SSF"
  required := ["context", "file", "site", "new_series_name"]
  optional :=
    windowKeywords
  description := "Read sites from a site sample file"

/-- Read variables from a PRMS STATVAR file. -/
def getSeriesStatvar : Descriptor where
  name := "GET_SERIES_STATVAR"
  required := ["context", "file", "variable_name", "location_id", "new_series_name"]
  optional :=
    windowKeywords
  description := "Read variables from a PRMS STATVAR file"

/-- Read a series from a SWMM binary output file. -/
def getSeriesSwmmbin : Descriptor where
  name := "GET_SERIES_SWMMBIN"
  required := ["context"]
  optional :=
    [plain "series_name"]
  description := "Read a series from a SWMM binary output file"

/-- Read a well series from a TETRAD output file. -/
def getSeriesTetrad : Descriptor where
  name := "GET_SERIES_TETRAD"
  required := ["context", "file", "new_series_name", "well_name", "object_name",
    "model_reference_date", "model_reference_time"]
  optional :=
    windowKeywords
  description := "Read a well series from a TETRAD output file"

def getSeriesUforeHydro : Descriptor where
  name := "GET_SERIES_UFORE_HYDRO"
  required := ["context", "file", "new_series_name", "model_reference_date",
    "model_reference_time", "time_increment"]
  optional :=
    windowKeywords
  description := "Read a UFORE hydrology output file"

/-- Read a dataset from a WDM file. -/
def getSeriesWdm : Descriptor where
  name := "GET_SERIES_WDM"
  required := ["context", "new_series_name", "file", "dsn"]
  optional :=
    windowKeywords ++
    [withPreset "def_time" "00:00:00", plain "filter"]
  description := "Read a dataset from a WDM file"

/-- Read a column from a spreadsheet. -/
def getSeriesXlsx : Descriptor where
  name := "GET_SERIES_XLSX"
  required := ["context", "new_series_name", "file"]
  optional :=
    [withPreset "sheet" "1", withPreset "column" "1"] ++
    windowKeywords
  description := "Read a column from a spreadsheet"

def hydrologicIndices : Descriptor where
  name := "HYDROLOGIC_INDICES"
  required := ["context", "series_name", "new_g_table_name"]
  optional :=
    [withPreset "use_median" "no", withPreset "drainage_area" "1", plain "stream_classification",
     plain "flow_component", plain "ma", plain "ml", plain "mh", plain "fl", plain "fh",
     plain "dl", plain "dh", plain "ta", plain "tl", plain "th", plain "ra"] ++
    windowKeywords ++
    [withPreset "current_definitions" "no"]
  description := "Hydrologic indices of a daily flow series"

def hydroEvents : Descriptor where
  name := "HYDRO_EVENTS"
  required := ["context", "series_name", "new_series_name", "rise_lag", "fall_lag"]
  optional :=
    [withPreset "window" "1", withPreset "min_peak" "0"] ++
    windowKeywords
  description := "Keep storm hydrographs around peaks"

def hydroPeaks : Descriptor where
  name := "HYDRO_PEAKS"
  required := ["context", "series_name", "new_series_name"]
  optional :=
    [withPreset "window" "1", withPreset "min_peak" "0"] ++
    windowKeywords
  description := "Keep local peaks"

def listOutput : Descriptor where
  name := "LIST_OUTPUT"
  required := ["context", "file"]
  optional :=
    [plain "series_format"] ++
    entityKeywords
  description := "Write entities to a fixed-column report"

def move : Descriptor where
  name := "MOVE"
  required := ["context", "new_entity_name"]
  optional :=
    entityKeywords ++
    [withPreset "overwrite" "no"]
  description := "Rename one entity"

def newSeriesUniform : Descriptor where
  name := "NEW_SERIES_UNIFORM"
  required := ["context", "new_series_name", "new_series_value", "time_interval", "time_unit",
    "date_1", "time_1", "date_2", "time_2"]
  description := "Constant-valued regular series"

/-- Interpolate a series onto another series' time base. -/
def newTimeBase : Descriptor where
  name := "NEW_TIME_BASE"
  required := ["context", "series_name", "new_series_name", "tb_series_name"]
  description := "Interpolate a series onto another series' time base"

def periodStatistics : Descriptor where
  name := "PERIOD_STATISTICS"
  required := ["context", "series_name", "new_series_name", "statistic", "period",
    "time_abscissa"]
  optional :=
    [withPreset "year_type" "water_high", withPreset "log" "no", withPreset "power" "1"] ++
    windowKeywords
  description := "Statistic per month or year"

def plot : Descriptor where
  name := "PLOT"
  required := ["context", "series_name", "file"]
  optional :=
    [withPreset "kind" "line", withPreset "xlabel" "", withPreset "ylabel" "",
     withPreset "title" "", withPreset "figsize_width" "10", withPreset "figsize_height" "6.0",
     withPreset "legend" "yes", plain "legend_names", plain "style", withPreset "logx" "no",
     withPreset "logy" "no", plain "xlim_min", plain "xlim_max", plain "ylim_min",
     plain "ylim_max", plain "secondary_y", withPreset "mark_right" "yes", withPreset "grid" "no"] ++
    windowKeywords
  description := "Plot series to an image file"

def reduceTimeSpan : Descriptor where
  name := "REDUCE_TIME_SPAN"
  required := ["context", "series_name", "new_series_name"]
  optional :=
    windowKeywords
  description := "Restrict a series to a date window"

/-- Subtract the value of a base series at a date. -/
def seriesBaseLevel : Descriptor where
  name := "SERIES_BASE_LEVEL"
  required := ["context", "series_name", "substitute", "new_series_name",
    "base_level_series_name", "base_level_date", "base_level_time"]
  optional :=
    [withPreset "negate" "no"]
  description := "Subtract the value of a base series at a date"

def seriesClean : Descriptor where
  name := "SERIES_CLEAN"
  required := ["context", "series_name", "new_series_name", "substitute_value"]
  optional :=
    [plain "lower_erase_boundary", plain "upper_erase_boundary"]
  description := "Erase or replace values inside bounds"

/-- Goodness of fit between simulated and observed series. -/
def seriesCompare : Descriptor where
  name := "SERIES_COMPARE"
  required := ["context", "series_name_sim", "series_name_obs", "new_c_table_name"]
  optional :=
    [plain "series_name_base", withPreset "bias" "no", withPreset "standard_error" "no",
     withPreset "relative_bias" "no", withPreset "relative_standard_error" "no",
     withPreset "nash_sutcliffe" "no", withPreset "coefficient_of_efficiency" "no",
     withPreset "index_of_agreement" "no", withPreset "volumetric_efficiency" "no",
     withPreset "exponent" "1"] ++
    windowKeywords
  description := "Goodness of fit between simulated and observed series"

def seriesDifference : Descriptor where
  name := "SERIES_DIFFERENCE"
  required := ["context", "series_name", "new_series_name"]
  description := "First differences of a series"

def seriesDisplace : Descriptor where
  name := "SERIES_DISPLACE"
  required := ["context", "series_name", "new_series_name", "lag_increment", "fill_value"]
  description := "Shift a series by whole time steps"

def seriesEquation : Descriptor where
  name := "SERIES_EQUATION"
  required := ["context", "new_series_name", "equation"]
  description := "Evaluate an arithmetic expression over series"

def seriesStatistics : Descriptor where
  name := "SERIES_STATISTICS"
  required := ["context", "series_name", "new_s_table_name"]
  optional :=
    [withPreset "sum" "no", withPreset "mean" "no", withPreset "median" "no",
     withPreset "std_dev" "no", withPreset "maximum" "no", withPreset "minimum" "no",
     withPreset "range" "no", withPreset "log" "no", withPreset "power" "1"] ++
    windowKeywords
  patterns := ["minmean_", "maxmean_"]
  description := "Summary statistics of a series"

/-- Set the run context and the date format. -/
def settings : Descriptor where
  name := "SETTINGS"
  required := ["context"]
  optional :=
    [plain "date_format"]
  description := "Set the run context and the date format"

def usgsHysep : Descriptor where
  name := "USGS_HYSEP"
  required := ["context", "series_name", "new_series_name", "hysep_type", "time_interval"]
  optional :=
    [withPreset "area" "1.0"] ++
    windowKeywords
  description := "HYSEP baseflow separation"

def volumeCalculation : Descriptor where
  name := "VOLUME_CALCULATION"
  required := ["context", "series_name", "new_v_table_name", "flow_time_units"]
  optional :=
    [plain "date_file", plain "automatic_dates", withPreset "factor" "1.0"]
  description := "Integrate flow over date intervals"

def vTableToSeries : Descriptor where
  name := "V_TABLE_TO_SERIES"
  required := ["context", "new_series_name", "v_table_name", "time_abscissa"]
  description := "Turn a volume table into a series"

/-- Write a PEST control file and instruction file. -/
def writePestFiles : Descriptor where
  name := "WRITE_PEST_FILES"
  required := ["context", "new_pest_control_file", "new_instruction_file"]
  optional :=
    [plain "series_name", plain "template_file", plain "model_input_file",
     plain "parameter_data_file", plain "parameter_group_file", plain "observation_series_name",
     plain "model_series_name", plain "series_weights_equation", plain "series_weights_min_max",
     plain "observation_s_table_name", plain "model_s_table_name",
     plain "s_table_weights_equation", plain "s_table_weights_min_max",
     plain "observation_v_table_name", plain "model_v_table_name",
     plain "v_table_weights_equation", plain "v_table_weights_min_max",
     plain "observation_e_table_name", plain "model_e_table_name",
     plain "e_table_weights_equation", plain "e_table_weights_min_max",
     plain "observation_g_table_name", plain "model_g_table_name",
     plain "g_table_weights_equation", plain "g_table_weights_min_max",
     plain "automatic_user_intervention", plain "truncated_svd", plain "model_command_line",
     plain "rstfle", plain "pestmode", plain "maxcompdim", plain "derzerolim", plain "precis",
     plain "dpoint", plain "numcom", plain "jacfile", plain "messfile", plain "obsreref",
     plain "rlambda1", plain "rlamfac", plain "phiratsuf", plain "phiredlam", plain "numlam",
     plain "jacupdate", plain "lamforgive", plain "derforgive", plain "relparmax",
     plain "facparmax", plain "facorig", plain "iboundstick", plain "upvecbend",
     plain "phiredswh", plain "noptswitch", plain "splitswh", plain "doaui", plain "dosenreuse",
     plain "boundscale", plain "noptmax", plain "phiredstp", plain "nphistp", plain "nphinored",
     plain "relparstp", plain "nrelpar", plain "phistopthresh", plain "lastrun",
     plain "phiabandon", plain "icov", plain "icor", plain "ieig", plain "ires", plain "jcosave",
     plain "verboserec", plain "jcosaveitn", plain "reisaveitn", plain "parsaveitn",
     plain "parsaverun", plain "svdmode", plain "maxsing", plain "eigthresh", plain "eigwrite",
     plain "lsqrmode", plain "lsqr_atol", plain "lsqr_btol", plain "lsqr_conlim",
     plain "lsqr_itnlim", plain "lsqrwrite"]
  patterns := ["absparmax_"]
  description := "Write a PEST control file and instruction file"

/-- Every command, in the order of the code points of the names. -/
def commands : List Descriptor :=
  [copy, digitalFilter, eraseEntity, exceedanceTime, flowDuration, getMulSeriesGsflowGage,
   getMulSeriesPlotgen, getMulSeriesSsf, getMulSeriesStatvar, getSeriesCsv, getSeriesGsflowGage,
   getSeriesHspfbin, getSeriesPlotgen, getSeriesSsf, getSeriesStatvar, getSeriesSwmmbin,
   getSeriesTetrad, getSeriesUforeHydro, getSeriesWdm, getSeriesXlsx, hydrologicIndices,
   hydroEvents, hydroPeaks, listOutput, move, newSeriesUniform, newTimeBase, periodStatistics,
   plot, reduceTimeSpan, seriesBaseLevel, seriesClean, seriesCompare, seriesDifference,
   seriesDisplace, seriesEquation, seriesStatistics, settings, usgsHysep, volumeCalculation,
   vTableToSeries, writePestFiles]

end Hydroseries.Catalog

namespace Hydroseries.Catalog

def find? (name : String) : Option Descriptor :=
  let wanted := Text.upper name
  commands.find? fun d => d.name = wanted

/-- The known names that begin with `start`. -/
def startingWith (start : String) : List String :=
  (commands.map Descriptor.name).filter fun n => start.toList.isPrefixOf n.toList

/-- Known names that share leading words with `name`, as many words as possible. -/
def suggest (name : String) : List String :=
  let words := Text.splitAtChar (Text.upper name) '_'
  let starts := (List.range words.length).reverse.map fun n => Text.join "_" (words.take (n + 1))
  ((starts.map startingWith).find? fun hits => !hits.isEmpty).getD []

end Hydroseries.Catalog
