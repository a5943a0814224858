import LayerLoops.Config
import LayerLoops.Decimal.Integer
import LayerLoops.LoopOrder
import LayerLoops.Options.Value

/-! # Settings from options

Options are checked one after the other; the first that makes no sense is the error. Options that depend on
others which are not active are switched off with a warning. -/

namespace LayerLoops.Options

def trueFlags : List String := ["active", "true", "yes", "on", "1"]

def falseFlags : List String := ["false", "no", "off", "0", ""]

def flag (key : String) : Value → Except Diagnostic Bool
  | .null => .ok false
  | .boolean b => .ok b
  | .integer n => .ok (n != 0)
  | v =>
    let word := Text.lower (Text.strip v.toText)
    if trueFlags.contains word then .ok true
    else if falseFlags.contains word then .ok false
    else .error (optionError ("option '" ++ key ++ "' expects a flag, got " ++ v.shown))

def integer (key : String) (default : Option Int) (v : Value) : Except Diagnostic (Option Int) :=
  let refused := optionError ("option '" ++ key ++ "' expects an integer, got " ++ v.shown)
  match v with
  | .null => .ok default
  | .boolean _ => .error refused
  | v => match Decimal.readInt? (Text.strip v.toText) with
    | some n => .ok (some n)
    | none => .error refused

def dataMode (v : Value) : Except Diagnostic DataMode :=
  match DataMode.ofLabel? (Text.lower (Text.strip v.toText)) with
  | some m => .ok m
  | none => .error (optionError ("unknown data-type-mode " ++ v.shown)
      (some ("Use one of: " ++ ", ".intercalate (DataMode.values.map DataMode.label))))

def isBlankByte (b : Nat) : Bool := b = 32 || (9 ≤ b && b ≤ 13)

def strippedBytes (bs : List Nat) : List Nat :=
  ((bs.dropWhile isBlankByte).reverse.dropWhile isBlankByte).reverse

/-- A text or bytes without the blanks around them, in small letters. A map is asked for an entry that could do
this, but no entry can. -/
def trimmedWord : Value → Except Fault Value
  | .text s => .ok (.text (Text.lower (Text.strip s)))
  | .bytes bs =>
    .ok (.bytes ((strippedBytes bs).map fun b => if 65 ≤ b && b ≤ 90 then b + 32 else b))
  | .map entries => .error (.notCallable (Entries.get entries "strip").typeName)
  | v => .error (.notText v.typeName)

/-- The texts of a list, or the parts of one text. -/
def orderTexts : Value → Except Fault (List String)
  | .null => .ok []
  | .text s => .ok (LoopOrder.splitTexts s)
  | .list items | .set items => .ok (trimmed (items.map Value.toText))
  | .bytes bs => .ok (bs.map toString)
  | .pair a b => .ok (trimmed [a.toText, b.toText])
  | .map entries => .ok (trimmed (entries.map fun (k, _) => k.toText))
  | v => .error (.notIterable v.typeName)
where
  trimmed (texts : List String) : List String := (texts.map Text.strip).filter (· ≠ "")

def dependent (active needed : Bool) (message : String) : Step Bool := do
  if active && !needed then
    Step.warn { code := .optionDisabled, message }
    pure false
  else pure active

def located (c : Config) (place : Value) : Except Fault Config := do
  let check (c : Config) : Except Fault Config := c.checked.mapError .reported
  let c ← check c
  if !place.isSet then pure c
  else match place with
    | .text s => check { c with bufferLocation := some s }
    | .bytes bs =>
      check { c with bufferLocation := some (if (strippedBytes bs).isEmpty then "" else bytesShown bs) }
    | v => do
      discard (trimmedWord v)
      pure c

def config (o : Entries) : Step Config := do
  let ofFlag (key : String) : Step Bool := Step.ofDiagnostic (flag key (o.get key))
  let wanted ← ofFlag "add-main-function"
  let capture ← ofFlag "store-analysis-data"
  let faults ← ofFlag "fault-simulation"
  let single ← Step.ofDiagnostic (integer "single-layer" (some 0) (o.get "single-layer"))
  let single := single.getD 0
  let capture ← dependent capture wanted
    "store-analysis-data will be ignored since add-main-function is not active"
  let faults ← dependent faults wanted
    "fault-simulation will be ignored since add-main-function is not active"
  let mainFunction ← dependent wanted (single == 0)
    "add-main-function will be ignored because single-layer is active"
  let labels ← Step.ofExcept (trimmedWord ((o.get "loop-hierarchy-labels").orElse (.text "names")))
  if !(["names", "numbers"].any fun s => labels.sameKey (.text s)) then
    Step.fail (.reported (optionError
      ("loop-hierarchy-labels must be 'names' or 'numbers', got " ++ labels.shown)))
  let mode ← Step.ofDiagnostic
    (dataMode ((o.get "data-type-mode").orElse (.text DataMode.all.label)))
  let withoutBiases ← ofFlag "disable-biases"
  let approximate ← ofFlag "approximate-multipliers"
  let orders ← Step.ofExcept (orderTexts (o.get "loop-orders"))
  let seed ← Step.ofDiagnostic (integer "pooling-seed" none (o.get "pooling-seed"))
  let textOr (key default : String) : String := ((o.get key).orElse (.text default)).toText
  Step.ofExcept (located {
    dataMode := mode
    dataDetail := textOr "data-type-mode-detail" ""
    biases := !withoutBiases
    approximate
    mask := Text.strip (textOr "approximate-multipliers-configuration" "")
    multiplier := Text.strip (textOr "approximate-multipliers-type" "base")
    faultSimulation := faults
    capture
    singleLayer := single
    numberedLabels := labels.sameKey (.text "numbers")
    mainFunction
    networkName := Text.strip (textOr "network-name" "")
    loopOrders := orders
    poolingSeed := seed } (o.get "layer-data-location"))

/-- Where the statements come from and where the generated files go. -/
structure Source where
  file : Value
  text : Value
  directory : Value
  dump : Bool
  logFile : Value
  logLevel : String
  deriving Repr

def logLevels : List String := ["trace", "debug", "info", "success", "warning", "error", "critical"]

/-- The name that messages use for statements given in the options. -/
def inlineName : String := "<keras-source-text>"

def inlineText : Value → Value
  | .list items => .text ("\n".intercalate (items.map Value.toText))
  | .pair a b => .text (a.toText ++ "\n" ++ b.toText)
  | v => v

def source (o : Entries) : Except Diagnostic Source := do
  let dump ← flag "dump-layers" (o.get "dump-layers")
  let level := Text.lower ((o.get "log-level").orElse (.text "info")).toText
  if !logLevels.contains level then
    throw (optionError ("unknown log-level " ++ Text.quoted level)
      (some ("Use one of: " ++ ", ".intercalate logLevels)))
  pure {
    file := o.get "keras-source-file", text := inlineText (o.get "keras-source-text")
    directory := (o.get "output-directory").orElse (.text "."), dump
    logFile := o.get "log-location", logLevel := level }

def Source.isGiven (s : Source) : Bool := s.text.isSet || s.file.isSet

end LayerLoops.Options
