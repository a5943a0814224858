import LayerLoops.Location

/-! # Diagnostics

An error or a warning has a code, a message and, where one is known, a place. An error may also carry a hint.
Generation is refused while any error is recorded; warnings only inform. -/

namespace LayerLoops

inductive ErrorCode
  | badStatement | unreadable
  | unknownLayer | unknownKeyword | badValue | misplacedKeyword | unequalStrides | oblongKernel
  | noInputShape | noGeometry | badSequence | noFilters | evenKernel
  | badPooling | overlappingPooling | noSeed
  | badLoopOrder | emptyVolume | badCombination
  | badOption
  | earlySoftmax
  deriving DecidableEq, Repr

namespace ErrorCode

def label : ErrorCode → String
  | badStatement => "E001"
  | unreadable => "E002"
  | unknownLayer => "E003"
  | unknownKeyword => "E004"
  | badValue => "E005"
  | misplacedKeyword => "E006"
  | unequalStrides => "E007"
  | oblongKernel => "E008"
  | noInputShape => "E009"
  | noGeometry => "E010"
  | badSequence => "E011"
  | noFilters => "E012"
  | evenKernel => "E013"
  | badPooling => "E014"
  | overlappingPooling => "E015"
  | noSeed => "E016"
  | badLoopOrder => "E017"
  | emptyVolume => "E018"
  | badCombination => "E019"
  | badOption => "E020"
  | earlySoftmax => "E021"

def all : List ErrorCode :=
  [badStatement, unreadable, unknownLayer, unknownKeyword, badValue, misplacedKeyword, unequalStrides,
    oblongKernel, noInputShape, noGeometry, badSequence, noFilters, evenKernel, badPooling,
    overlappingPooling, noSeed, badLoopOrder, emptyVolume, badCombination, badOption, earlySoftmax]

theorem mem_all (c : ErrorCode) : c ∈ all := by cases c <;> decide

def ofLabel? (s : String) : Option ErrorCode := all.find? (·.label == s)

theorem ofLabel?_label (c : ErrorCode) : ofLabel? c.label = some c := by cases c <;> decide

end ErrorCode

inductive WarningCode
  | unalignedStride | orderReplaced | ordersIgnored | optionDisabled | repeatedKeyword | maskShort
  deriving DecidableEq, Repr

namespace WarningCode

def label : WarningCode → String
  | unalignedStride => "W001"
  | orderReplaced => "W002"
  | ordersIgnored => "W003"
  | optionDisabled => "W004"
  | repeatedKeyword => "W005"
  | maskShort => "W006"

def all : List WarningCode :=
  [unalignedStride, orderReplaced, ordersIgnored, optionDisabled, repeatedKeyword, maskShort]

theorem mem_all (c : WarningCode) : c ∈ all := by cases c <;> decide

def ofLabel? (s : String) : Option WarningCode := all.find? (·.label == s)

theorem ofLabel?_label (c : WarningCode) : ofLabel? c.label = some c := by cases c <;> decide

end WarningCode

/-- The part of the work that an error comes from. -/
inductive Stage
  | general | statement | source | declaration | shape | validation | generation | option
  deriving DecidableEq, Repr

def Stage.code? : Stage → Option ErrorCode
  | statement => some .badStatement
  | source => some .unreadable
  | option => some .badOption
  | _ => none

structure Diagnostic where
  stage : Stage
  code : ErrorCode
  message : String
  location : Option Location := none
  hint : Option String := none
  deriving DecidableEq, Repr

/-- The code in brackets, the place if there is one, the message, and the hint on a line of its own. -/
def Diagnostic.text (d : Diagnostic) : String :=
  let place := match d.location with
    | some l => " at " ++ l.text ++ ":"
    | none => ""
  let hint := match d.hint with
    | some h => if h.isEmpty then "" else "\n  hint: " ++ h
    | none => ""
  "[" ++ d.code.label ++ "]" ++ place ++ " " ++ d.message ++ hint

structure Warning where
  code : WarningCode
  message : String
  location : Option Location := none
  deriving DecidableEq, Repr

def Warning.text (w : Warning) : String :=
  let place := match w.location with
    | some l => " at " ++ l.text
    | none => ""
  "[" ++ w.code.label ++ "]" ++ place ++ ": " ++ w.message

end LayerLoops
