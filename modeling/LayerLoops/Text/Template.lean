import LayerLoops.Text.DecimalDigit
import LayerLoops.Text.Quoted

/-! # Templates

A template is a text with fields in braces. A field has a name, may have a code after an exclamation mark
that says how its value is converted, and may have a layout after a colon, which can hold fields itself. A
brace that is written twice stands for itself. -/

namespace LayerLoops.Text

/-- What is wrong with a template. -/
inductive TemplateFault
  | loneClosing | loneOpening | braceInName | fieldUnclosed
  | conversionMissing | conversionUnended | layoutUnclosed
  | nameIsPosition | positionTooLarge | attributeMissing
  /-- No conversion has this code. -/
  | unknownConversion (code : Nat)
  | tooDeep
  deriving DecidableEq, Repr

def TemplateFault.text : TemplateFault → String
  | loneClosing => "Single '\x7d' encountered in format string"
  | loneOpening => "Single '\x7b' encountered in format string"
  | braceInName => "unexpected '\x7b' in field name"
  | fieldUnclosed => "expected '\x7d' before end of string"
  | conversionMissing => "end of string while looking for conversion specifier"
  | conversionUnended => "expected ':' after conversion specifier"
  | layoutUnclosed => "unmatched '\x7b' in format spec"
  | nameIsPosition => "Format string contains positional fields"
  | positionTooLarge => "Too many decimal digits in format string"
  | attributeMissing => "Empty attribute in format string"
  | unknownConversion code =>
    "Unknown conversion specifier " ++
      (if 32 < code ∧ code < 127 then String.singleton (Char.ofNat code)
      else "\\x" ++ String.ofList (Nat.toDigits 16 code))
  | tooDeep => "Max string recursion exceeded"

structure TemplateField where
  name : List Char
  /-- The characters of one code. -/
  conversion : Option (List Char) := none
  layout : List Char := []
  deriving DecidableEq, Repr

inductive TemplatePart
  | text (cs : List Char)
  | field (f : TemplateField)
  deriving DecidableEq, Repr

/-- The parts of a template up to the first place where something is wrong. -/
structure Template where
  parts : List TemplatePart
  fault : Option TemplateFault := none
  deriving DecidableEq, Repr

namespace Template

/-- The name at the front and what follows it; the first character of the rest ends the name. Between square
brackets every character belongs to the name. -/
def splitName (inBrackets : Bool) : List Char → Except TemplateFault (List Char × List Char)
  | [] => .error .fieldUnclosed
  | c :: cs =>
    if inBrackets then (splitName (c != ']') cs).map fun (name, rest) => (c :: name, rest)
    else if c = '\x7b' then .error .braceInName
    else if c = '\x7d' || c = ':' || c = '!' then .ok ([], c :: cs)
    else (splitName (c == '[') cs).map fun (name, rest) => (c :: name, rest)

/-- The layout up to the brace that closes a field, inside `depth` further braces, and what follows it. -/
def splitLayout (depth : Nat) : List Char → Except TemplateFault (List Char × List Char)
  | [] => .error .layoutUnclosed
  | c :: cs =>
    if c = '\x7d' then
      match depth with
      | 0 => .ok ([], cs)
      | depth + 1 => (splitLayout depth cs).map fun (layout, rest) => (c :: layout, rest)
    else (splitLayout (if c = '\x7b' then depth + 1 else depth) cs).map fun (layout, rest) => (c :: layout, rest)

def splitField (cs : List Char) : Except TemplateFault (TemplateField × List Char) := do
  let (name, rest) ← splitName false cs
  match rest with
  | '!' :: rest =>
    match splitFirst rest with
    | ([], _) => .error .conversionMissing
    | (_, []) => .error .layoutUnclosed
    | (c, '\x7d' :: rest) => pure (⟨name, some c, []⟩, rest)
    | (c, ':' :: rest) => do
      let (layout, rest) ← splitLayout 0 rest
      pure (⟨name, some c, layout⟩, rest)
    | _ => .error .conversionUnended
  | ':' :: rest => do
    let (layout, rest) ← splitLayout 0 rest
    pure (⟨name, none, layout⟩, rest)
  | _ :: rest => pure (⟨name, none, []⟩, rest)
  | [] => .error .fieldUnclosed

def cons (p : TemplatePart) (t : Template) : Template := { t with parts := p :: t.parts }

/-- Reads the parts of a text. A text part ends after a brace that is written twice. -/
def ofChars (cs : List Char) : Template :=
  let text := cs.takeWhile fun c => c != '\x7b' && c != '\x7d'
  match _h : cs.drop text.length with
  | [] => ⟨if text.isEmpty then [] else [.text text], none⟩
  | brace :: rest =>
    if rest.head? = some brace then
      cons (.text (text ++ [brace])) (ofChars rest.tail)
    else if brace = '\x7d' then ⟨[], some .loneClosing⟩
    else if rest.isEmpty then ⟨[], some .loneOpening⟩
    else match splitField rest with
      | .error f => ⟨[.text text], some f⟩
      | .ok (field, rest') =>
        if _shorter : rest'.length < cs.length then
          cons (.text text) (cons (.field field) (ofChars rest'))
        else ⟨[], none⟩
termination_by cs.length
decreasing_by
  · have := congrArg List.length _h
    simp only [List.length_drop, List.length_cons, List.length_tail] at this ⊢
    omega
  · exact _shorter

def ofText (s : String) : Template := ofChars s.toList

end Template

/-- The part of a name before the first point or bracket, and the rest. -/
def TemplateField.split (f : TemplateField) : List Char × List Char :=
  let first := f.name.takeWhile fun c => c != '.' && c != '['
  (first, f.name.drop first.length)

def positionLimit : Nat := 9223372036854775807

def leadingDigits (cs : List Char) : List Nat :=
  (cs.takeWhile fun c => (digitValue? c).isSome).filterMap digitValue?

def isTooLarge (digits : List Nat) : Bool := positionLimit < digits.foldl (fun n d => 10 * n + d) 0

/-- A name that is empty or a numeral names a position. A numeral in front of a name must not be too large
either. -/
def TemplateField.position? (f : TemplateField) : Option TemplateFault :=
  let (first, _) := f.split
  let digits := leadingDigits first
  if isTooLarge digits then some .positionTooLarge
  else if digits.length = first.length then some .nameIsPosition
  else none

end LayerLoops.Text
