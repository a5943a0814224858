import LayerLoops.Text.Blank
import LayerLoops.Text.DecimalDigit

/-! # Colour tags

The text before messages may have tags in angle brackets that set colours and styles up to the tag that closes
them. Tags have to be nested. What is kept of them here is whether they make sense: the text is told without
colours. -/

namespace LayerLoops.Markup

def styles : List String :=
  ["b", "d", "n", "h", "i", "l", "s", "u", "v", "bold", "dim", "normal", "hide", "italic", "blink", "strike",
    "underline", "reverse"]

/-- The words for the colour of letters; in capitals they are the words for the colour behind them. -/
def colours : List String :=
  let short := ["k", "r", "g", "y", "e", "m", "c", "w"]
  let long := ["black", "red", "green", "yellow", "blue", "magenta", "cyan", "white"]
  short ++ short.map ("l" ++ ·) ++ long ++ long.map ("light-" ++ ·)

def capitals (s : String) : String := s.map Char.toUpper

def small (s : String) : String := s.map Char.toLower

def levelWords : List String := ["lvl", "level"]

/-- A number from 0 to 255. -/
def isByte (cs : List Char) : Bool :=
  match cs.mapM Text.digitValue? with
  | some ds => !cs.isEmpty && ds.foldl (fun n d => 10 * n + d) 0 ≤ 255
  | none => false

def isHex (c : Char) : Bool := c.isDigit || ('a' ≤ c && c ≤ 'f') || ('A' ≤ c && c ≤ 'F')

def commaParts : List Char → List (List Char)
  | [] => [[]]
  | c :: cs => match commaParts cs with
    | first :: rest => if c = ',' then [] :: first :: rest else (c :: first) :: rest
    | [] => [[c]]

def isMixed (cs : List Char) : Bool :=
  isByte cs ||
    (match cs with
      | '#' :: digits => (digits.length = 3 || digits.length = 6) && digits.all isHex
      | _ => false) ||
    ((commaParts cs).length = 3 && (commaParts cs).all isByte)

def isTag (word : List Char) : Bool :=
  let s := String.ofList word
  levelWords.contains s || styles.contains s || colours.contains s || (colours.map capitals).contains s ||
    match word with
    | 'f' :: 'g' :: ' ' :: colour => colours.contains (small (String.ofList colour)) || isMixed colour
    | 'b' :: 'g' :: ' ' :: colour =>
      (colours.map capitals).contains (capitals (String.ofList colour)) || isMixed colour
    | _ => false

/-- A tag with the backslashes before it. -/
structure Tag where
  backslashes : Nat
  closing : Bool
  word : List Char
  /-- The number of characters that the tag takes without the backslashes. -/
  size : Nat
  deriving DecidableEq, Repr

/-- The word of a tag up to its bracket. One blank may stand in it, after two letters that ask for a colour. -/
def word? (cs : List Char) : Option (List Char) :=
  let plain (cs : List Char) : Option (List Char) :=
    let word := cs.takeWhile fun c => c != '<' && c != '>' && !Text.isBlank c
    if (cs.drop word.length).head? = some '>' then some word else none
  match cs with
  | a :: 'g' :: blank :: rest =>
    if (a = 'f' || a = 'b') && Text.isBlank blank then (plain rest).map (a :: 'g' :: blank :: ·) else plain cs
  | _ => plain cs

def tag? (cs : List Char) : Option Tag := do
  let backslashes := cs.takeWhile (· == '\\')
  let cs ← match cs.drop backslashes.length with
    | '<' :: rest => some rest
    | _ => none
  let (closing, cs) := match cs with
    | '/' :: rest => (true, rest)
    | _ => (false, cs)
  let word ← word? cs
  pure ⟨backslashes.length, closing, word, word.length + 2 + closing.toNat⟩

/-- Reads a text inside the tags `stack`, of whose characters `skip` belong to the tag read last. The result is
the text without tags and the tags that are open after it. Before a tag two backslashes stand for one, and an odd
one makes it text. -/
def strip (stack : List (List Char)) (skip : Nat) : List Char → Option (List Char × List (List Char))
  | [] => some ([], stack)
  | c :: cs =>
    match skip with
    | skip + 1 => strip stack skip cs
    | 0 => match tag? (c :: cs) with
      | none => (strip stack 0 cs).map fun (text, stack) => (c :: text, stack)
      | some t => do
        let halved := List.replicate (t.backslashes / 2) '\\'
        let skip := t.backslashes + t.size - 1
        if t.backslashes % 2 = 1 then
          let (text, stack) ← strip stack skip cs
          pure (halved ++ ((c :: cs).drop t.backslashes).take t.size ++ text, stack)
        else
          let stack ← if t.closing then match stack with
              | top :: rest => if t.word = [] || t.word = top then some rest else none
              | [] => none
            else if isTag t.word then some (t.word :: stack) else none
          let (text, stack) ← strip stack skip cs
          pure (halved ++ text, stack)

end LayerLoops.Markup
