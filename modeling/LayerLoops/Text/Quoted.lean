import LayerLoops.Text.Half
import LayerLoops.Text.Printable

/-! # Quoted text

A text is written between single quotes, or between double quotes when it holds a single quote and no
double quote. The quote in use and the backslash are escaped, tab, line feed and carriage return have short
escapes, and every other character that is not printable is written by its code in two, four or eight
hexadecimal digits; half a character is written by its unit. -/

namespace LayerLoops.Text

def hexDigit (n : Nat) : Char :=
  if n < 10 then Char.ofNat (48 + n) else Char.ofNat (87 + n)

/-- The `width` lowest hexadecimal digits of a number, highest first. -/
def hex : Nat → Nat → List Char
  | 0, _ => []
  | width + 1, n => hex width (n / 16) ++ [hexDigit (n % 16)]

def codeEscape (n : Nat) : List Char :=
  if n < 0x100 then '\\' :: 'x' :: hex 2 n
  else if n < 0x10000 then '\\' :: 'u' :: hex 4 n
  else '\\' :: 'U' :: hex 8 n

def escapeChar (quote c : Char) : List Char :=
  if c = quote || c = '\\' then ['\\', c]
  else if c = '\t' then ['\\', 't']
  else if c = '\n' then ['\\', 'n']
  else if c = '\r' then ['\\', 'r']
  else if isPrintable c then [c]
  else codeEscape c.toNat

def escapeCode (quote : Char) (n : Nat) : List Char :=
  if isHalf n then codeEscape n else escapeChar quote (Char.ofNat n)

def quoteFor (cs : List Char) : Char :=
  if cs.contains '\'' && !cs.contains '"' then '"' else '\''

def quoted (s : String) : String :=
  let cs := s.toList
  let q := quoteFor cs
  String.ofList (q :: (codes cs).flatMap (escapeCode q) ++ [q])

def asciiOnly (s : String) : String :=
  String.ofList ((codes s.toList).flatMap fun n => if n < 128 then [Char.ofNat n] else codeEscape n)

/-- A text as characters that stand for themselves; halves are escaped. -/
def toPlain (s : String) : String :=
  String.ofList ((codes s.toList).flatMap fun n => if isHalf n then codeEscape n else [Char.ofNat n])

def unquoteChars (cs : List Char) : List Char :=
  match cs with
  | q :: rest =>
    if (q = '\'' || q = '"') && !rest.isEmpty && rest.getLast? = some q then rest.dropLast else cs
  | [] => cs

def unquote (s : String) : String :=
  String.ofList (unquoteChars s.toList)

end LayerLoops.Text
