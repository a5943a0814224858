import LayerLoops.Diagnostic
import LayerLoops.Layer
import LayerLoops.Text.Quoted
import LayerLoops.Text.Template
import LayerLoops.Text.Utf8

/-! # Faults

A fault ends the operation that meets it. Diagnostics are the faults that the program expects and words
itself; the others say what the operation could not do with the values it was given. -/

namespace LayerLoops

/-- Why a path could not be used. -/
inductive PathFault
  | missing | occupied | notDirectory | directory | tooLong
  deriving DecidableEq, Repr

def PathFault.text (path : String) : PathFault → String
  | missing => "[Errno 2] No such file or directory: " ++ Text.quoted path
  | occupied => "[Errno 17] File exists: " ++ Text.quoted path
  | notDirectory => "[Errno 20] Not a directory: " ++ Text.quoted path
  | directory => "[Errno 21] Is a directory: " ++ Text.quoted path
  | tooLong => "[Errno 36] File name too long: " ++ Text.quoted path

inductive Fault
  | reported (d : Diagnostic)
  /-- An integer has too many digits to be written. -/
  | numeralTooLong
  /-- An integer has too many digits to be read. -/
  | numeralUnreadable (digits : Nat)
  /-- An integer literal of a statement has too many digits to be read. -/
  | literalTooLong (digits : Nat)
  | divisionByZero
  | remainderByZero
  /-- An extent is needed of a volume that is unset. -/
  | unsetVolume (axis : String)
  /-- The padding is needed of a kernel whose size is unset. -/
  | unsetKernel
  | unknownAxis (name : String)
  | orderCount (orders layers : Nat)
  | noSuchLayer (number : Int) (count : Nat)
  | noSuchPosition
  | noWeights (number : Nat) (kind : Kind)
  | negativeNumber (number : Int)
  | nothingToWrite
  | stopped
  | unknownErrorCode (label : String)
  | unknownWarningCode (label : String)
  /-- A value of this type was given where a text is needed. -/
  | notText (type : String)
  | notIterable (type : String)
  | notCallable (type : String)
  | notPath (type : String)
  /-- Bytes were given where a path is needed. -/
  | bytesPath
  | notLine (type : String)
  | notKey (type : String)
  | notComparable (left right : String)
  /-- Of two times to be compared, one has an offset and the other has none. -/
  | mixedOffsets
  /-- A day was to be compared with a time. -/
  | dayWithTime
  | badDate (reason : String)
  /-- A text that has to be spelled like a time is not. -/
  | notTime
  /-- A text is no numeral to a base. -/
  | notNumeral (base : Nat) (text : String)
  /-- A text is no decimal fraction. -/
  | notDecimal (text : String)
  /-- A numeral has no characters. -/
  | emptyNumeral
  /-- A word is not among those that have a meaning. -/
  | unknownWord (word : String)
  /-- An escape names a code beyond the last character, or beyond the largest machine integer. -/
  | codeTooLarge (machine : Bool)
  /-- A collection contains itself. -/
  | endless
  /-- Colour tags or fields in the text before messages make no sense. -/
  | badMarkup
  | badTemplate (fault : Text.TemplateFault)
  /-- The time in a template has no part of this name. -/
  | noTimePart (name : String)
  /-- The time in a template has no numbered parts. -/
  | timeNotIndexed
  | unknownLevel (name : String)
  | unknownThreshold (name : String)
  | badPath (path : String) (fault : PathFault)
  /-- A path has a character that no path can have. -/
  | nullInPath
  | undecodable (fault : Text.Utf8.Fault)
  | unencodable (fault : Text.Utf8.Unencodable)
  deriving Repr

def numeralLimitText : String := "Exceeds the limit (4300 digits) for integer string conversion"

def numeralLimitAdvice : String := "; use sys.set_int_max_str_digits() to increase the limit"

def unreadableText (digits : Nat) : String :=
  numeralLimitText ++ s!": value has {digits} digits" ++ numeralLimitAdvice

namespace Fault

def message : Fault → String
  | reported d => d.text
  | numeralTooLong => numeralLimitText ++ numeralLimitAdvice
  | numeralUnreadable digits => unreadableText digits
  | literalTooLong digits =>
    "Error trying to process rule \"int_value\":\n\n" ++ unreadableText digits
  | divisionByZero => "integer division or modulo by zero"
  | remainderByZero => "integer modulo by zero"
  | unsetVolume axis => "'NoneType' object has no attribute '" ++ axis ++ "'"
  | unsetKernel => "unsupported operand type(s) for -: 'NoneType' and 'int'"
  | unknownAxis name => Text.quoted name
  | orderCount orders layers => s!"{orders} loop order(s) for {layers} layer(s)"
  | noSuchLayer number count => s!"layer {number} out of range 1..{count}"
  | noSuchPosition => "list index out of range"
  | noWeights number kind => s!"layer {number} ({kind.label}) carries no weights"
  | negativeNumber number => s!"layer index must not be negative, got {number}"
  | nothingToWrite => "nothing to write: compilation did not generate code"
  | stopped => "stop"
  | unknownErrorCode label => Text.quoted label ++ " is not a valid ErrorCode"
  | unknownWarningCode label => Text.quoted label ++ " is not a valid WarningCode"
  | notText type => "'" ++ type ++ "' object has no attribute 'strip'"
  | notIterable type => "'" ++ type ++ "' object is not iterable"
  | notCallable type => "'" ++ type ++ "' object is not callable"
  | notPath type => "expected str, bytes or os.PathLike object, not " ++ type
  | bytesPath => "argument should be a str object or an os.PathLike object returning str, not <class 'bytes'>"
  | notLine type => "expected string or bytes-like object, got '" ++ type ++ "'"
  | notKey type => "keys must be str, int, float, bool or None, not " ++ type
  | notComparable left right =>
    "'<' not supported between instances of '" ++ left ++ "' and '" ++ right ++ "'"
  | mixedOffsets => "can't compare offset-naive and offset-aware datetimes"
  | dayWithTime => "can't compare datetime.datetime to datetime.date"
  | badDate reason => reason
  | notTime => "'NoneType' object has no attribute 'groupdict'"
  | notNumeral base text => s!"invalid literal for int() with base {base}: " ++ Text.quoted text
  | notDecimal text => "could not convert string to float: " ++ Text.quoted text
  | emptyNumeral => "string index out of range"
  | unknownWord word => Text.quoted word
  | codeTooLarge machine =>
    if machine then "Python int too large to convert to C int" else "chr() arg not in range(0x110000)"
  | endless => "maximum recursion depth exceeded"
  | badMarkup => "Invalid format, color markups could not be parsed correctly"
  | badTemplate fault => fault.text
  | noTimePart name => "'FileDateFormatter' object has no attribute '" ++ name ++ "'"
  | timeNotIndexed => "'FileDateFormatter' object is not subscriptable"
  | unknownLevel name => "Level '" ++ name ++ "' does not exist"
  | unknownThreshold name => "Unknown level: " ++ Text.quoted name
  | badPath path fault => fault.text path
  | nullInPath => "embedded null byte"
  | undecodable fault => fault.text
  | unencodable fault => fault.text

def isUnreadable : Fault → Bool
  | badPath .. | undecodable _ => true
  | _ => false

end Fault

def writable (n : Int) : Except Fault Int :=
  if Decimal.Fits n then .ok n else .error .numeralTooLong

def Volume.writable (v : Volume) : Except Fault Volume :=
  if v.Fits then .ok v else .error .numeralTooLong

end LayerLoops
