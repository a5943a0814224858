/-! # Listings

A listing is a text under construction: its lines so far and the indentation of the next one. Instructions
write lines, indent what they enclose and put braces around it. An instruction may stop the writing; what
encloses it then gives back its indentation but writes nothing more, until an attempt catches the stop. -/

namespace LayerLoops

inductive Instr
  | line (text : String)
  | extend (texts : List String)
  | blank (count : Int)
  | block (header : String) (body : List Instr)
  | indented (levels : Int) (body : List Instr)
  | nested (headers : List String) (body : List Instr)
  | stop
  | attempt (body : List Instr)

structure Listing where
  /-- The lines written, latest first. -/
  written : List String := []
  level : Int := 0
  deriving DecidableEq, Repr

namespace Listing

/-- A text on a line of its own; an empty text is not indented. -/
def put (l : Listing) (text : String) : Listing :=
  let line := if text.isEmpty then "" else "".pushn '\t' l.level.toNat ++ text
  { l with written := line :: l.written }

def putAll (l : Listing) (texts : List String) : Listing := texts.foldl put l

def shift (l : Listing) (levels : Int) : Listing := { l with level := l.level + levels }

def skip (l : Listing) (count : Int) : Listing :=
  { l with written := List.replicate count.toNat "" ++ l.written }

/-- Each header one level deeper than the one before it. -/
def descend (l : Listing) (headers : List String) : Listing :=
  headers.foldl (fun l h => (l.put h).shift 1) l

def lines (l : Listing) : List String := l.written.reverse

def text (l : Listing) : String := "\n".intercalate l.lines ++ "\n"

end Listing

/-- The listing after an instruction, and whether it was stopped. -/
structure Written where
  listing : Listing
  stopped : Bool := false
  deriving DecidableEq, Repr

/-- What is noted about an instruction that was carried out. -/
structure Note where
  name : String
  level : Int
  count : Nat
  last : Option String
  deriving DecidableEq, Repr

def Instr.name : Instr → String
  | line _ => "line"
  | extend _ => "extend"
  | blank _ => "blank"
  | block .. => "block"
  | indented .. => "indented"
  | nested .. => "nested"
  | stop => "raise"
  | attempt _ => "try"

def Listing.note (l : Listing) (i : Instr) : Note :=
  ⟨i.name, l.level, l.written.length, l.written.head?⟩

mutual

def Instr.run (l : Listing) : Instr → Written
  | .line text => ⟨l.put text, false⟩
  | .extend texts => ⟨l.putAll texts, false⟩
  | .blank count => ⟨l.skip count, false⟩
  | .block header body =>
    let opened := (if header.isEmpty then l else l.put header).put "\x7b"
    let inner := Instr.runAll (opened.shift 1) body
    let closed := inner.listing.shift (-1)
    if inner.stopped then ⟨closed, true⟩ else ⟨closed.put "\x7d", false⟩
  | .indented levels body =>
    let inner := Instr.runAll (l.shift levels) body
    ⟨inner.listing.shift (-levels), inner.stopped⟩
  | .nested headers body =>
    let inner := Instr.runAll (l.descend headers) body
    ⟨inner.listing.shift (-headers.length), inner.stopped⟩
  | .stop => ⟨l, true⟩
  | .attempt body => ⟨(Instr.runAll l body).listing, false⟩

/-- Carries out instructions in turn until one is stopped. -/
def Instr.runAll (l : Listing) : List Instr → Written
  | [] => ⟨l, false⟩
  | i :: is =>
    let first := Instr.run l i
    if first.stopped then first else Instr.runAll first.listing is

end

mutual

/-- Notes for the instructions carried out, those inside an instruction before it. -/
def Instr.notes (l : Listing) : Instr → List Note
  | .block header body =>
    let opened := (if header.isEmpty then l else l.put header).put "\x7b"
    let inner := Instr.notesAll (opened.shift 1) body
    let done := Instr.run l (.block header body)
    inner ++ if done.stopped then [] else [done.listing.note (.block header body)]
  | .indented levels body =>
    let inner := Instr.notesAll (l.shift levels) body
    let done := Instr.run l (.indented levels body)
    inner ++ if done.stopped then [] else [done.listing.note (.indented levels body)]
  | .nested headers body =>
    let inner := Instr.notesAll (l.descend headers) body
    let done := Instr.run l (.nested headers body)
    inner ++ if done.stopped then [] else [done.listing.note (.nested headers body)]
  | .attempt body =>
    Instr.notesAll l body ++ [(Instr.run l (.attempt body)).listing.note (.attempt body)]
  | .stop => []
  | i => [(Instr.run l i).listing.note i]

def Instr.notesAll (l : Listing) : List Instr → List Note
  | [] => []
  | i :: is =>
    let first := Instr.run l i
    Instr.notes l i ++ if first.stopped then [] else Instr.notesAll first.listing is

end

/-- The text that instructions write from the left margin. -/
def render (is : List Instr) : String := (Instr.runAll {} is).listing.text

end LayerLoops
