import LayerLoops.Text.Quoted

/-! # UTF-8

Bytes are read as UTF-8 without repair. The first byte sequence that is not the encoding of a character is
reported with its position: the bytes of it that were still acceptable, and whether the text ended there. Half
a character has no encoding; the first run of halves is reported with its position. -/

namespace LayerLoops.Text.Utf8

inductive Reason
  | badStart | badContinuation | ended
  deriving DecidableEq, Repr

def Reason.text : Reason → String
  | badStart => "invalid start byte"
  | badContinuation => "invalid continuation byte"
  | ended => "unexpected end of data"

/-- The undecodable bytes stand at `start` and the `extra` positions after it; `byte` is the first of them. -/
structure Fault where
  start : Nat
  extra : Nat
  byte : Nat
  reason : Reason
  deriving DecidableEq, Repr

def Fault.text (f : Fault) : String :=
  let what :=
    if f.extra = 0 then s!"byte 0x{String.ofList (hex 2 f.byte)} in position {f.start}"
    else s!"bytes in position {f.start}-{f.start + f.extra}"
  "'utf-8' codec can't decode " ++ what ++ ": " ++ f.reason.text

/-- What a first byte announces: the bits it gives, the number of bytes to follow, and the range of the
next one. -/
structure Lead where
  bits : Nat
  more : Nat
  low : Nat := 0x80
  high : Nat := 0xbf

def lead? (b : Nat) : Option Lead :=
  if b < 0x80 then some { bits := b, more := 0 }
  else if b < 0xc2 then none
  else if b < 0xe0 then some { bits := b - 0xc0, more := 1 }
  else if b < 0xf0 then
    some {
      bits := b - 0xe0, more := 2
      low := if b = 0xe0 then 0xa0 else 0x80
      high := if b = 0xed then 0x9f else 0xbf }
  else if b < 0xf5 then
    some {
      bits := b - 0xf0, more := 3
      low := if b = 0xf0 then 0x90 else 0x80
      high := if b = 0xf4 then 0x8f else 0xbf }
  else none

/-- Reads the bytes that follow a first byte; the error is how many were acceptable and what went wrong. -/
def continue? : (more : Nat) → (bits taken low high : Nat) → List Nat → Except (Nat × Reason) Nat
  | 0, bits, _, _, _, _ => .ok bits
  | _ + 1, _, taken, _, _, [] => .error (taken, .ended)
  | more + 1, bits, taken, low, high, b :: rest =>
    if low ≤ b ∧ b ≤ high then continue? more (bits * 64 + (b - 0x80)) (taken + 1) 0x80 0xbf rest
    else .error (taken, .badContinuation)

/-- Reads the bytes from position `pos` on, of which `skip` belong to the character read last. -/
def decodeFrom (pos skip : Nat) : List Nat → Except Fault (List Nat)
  | [] => .ok []
  | b :: rest =>
    match skip with
    | skip + 1 => decodeFrom (pos + 1) skip rest
    | 0 =>
      match lead? b with
      | none => .error ⟨pos, 0, b, .badStart⟩
      | some l =>
        match continue? l.more l.bits 0 l.low l.high rest with
        | .error (taken, reason) => .error ⟨pos, taken, b, reason⟩
        | .ok n => do
          let ns ← decodeFrom (pos + 1) l.more rest
          pure (n :: ns)

def decode (bytes : List Nat) : Except Fault String :=
  (decodeFrom 0 0 bytes).map fun ns => String.ofList (ofCodes ns)

/-- The position of the byte at which a fault is found. The first two bytes of a half are not refused before
the third is there. -/
def Fault.foundAt (bytes : List Nat) (f : Fault) : Nat :=
  match f.reason with
  | .badStart => f.start
  | .badContinuation =>
    if f.byte = 0xED ∧ bytes[f.start + 1]?.any (fun b => 0xA0 ≤ b && b ≤ 0xBF) then f.start + 2
    else f.start + f.extra + 1
  | .ended => bytes.length

/-- The fault as it is reported where the bytes are read in pieces of a size. Its position counts from the piece
that it is found in, or from the character that was cut in two before that piece. A fault that is found at the
end is one of what the last piece left. -/
def Fault.inPieces (size : Nat) (bytes : List Nat) (f : Fault) : Fault :=
  let found := f.foundAt bytes
  let earlier := size * (found / size)
  if bytes.length ≤ found then { f with start := 0 }
  else match decodeFrom 0 0 (bytes.take earlier) with
    | .error cut => { f with start := f.start - cut.start }
    | .ok _ => { f with start := f.start - earlier }

/-- The bytes of a code. A half stands for the byte that it ends in. -/
def encodeCode (n : Nat) : List Nat :=
  if n < 0x80 then [n]
  else if n < 0x800 then [0xC0 + n / 0x40, 0x80 + n % 0x40]
  else if isHalf n then [n % 0x100]
  else if n < 0x10000 then [0xE0 + n / 0x1000, 0x80 + n / 0x40 % 0x40, 0x80 + n % 0x40]
  else [0xF0 + n / 0x40000, 0x80 + n / 0x1000 % 0x40, 0x80 + n / 0x40 % 0x40, 0x80 + n % 0x40]

def encode (s : String) : List Nat := (codes s.toList).flatMap encodeCode

/-- The halves that cannot be encoded stand at `start` and the positions after it; `first` is the first of
them, `count` their number. -/
structure Unencodable where
  start : Nat
  first : Nat
  count : Nat
  deriving DecidableEq, Repr

def Unencodable.text (u : Unencodable) : String :=
  let what :=
    if u.count = 1 then "character '\\u" ++ String.ofList (hex 4 u.first) ++ s!"' in position {u.start}"
    else s!"characters in position {u.start}-{u.start + u.count - 1}"
  "'utf-8' codec can't encode " ++ what ++ ": surrogates not allowed"

/-- The first run of halves in the codes from position `pos` on. Halves with the property `passes` are let
through at the start of a run. -/
def unencodableFrom (passes : Nat → Bool) (pos : Nat) : List Nat → Option Unencodable
  | [] => none
  | n :: ns =>
    if isHalf n && !passes n then some ⟨pos, n, (ns.takeWhile isHalf).length + 1⟩
    else unencodableFrom passes (pos + 1) ns

def unencodable? (s : String) : Option Unencodable := unencodableFrom (fun _ => false) 0 (codes s.toList)

/-- Why a path cannot be encoded; some halves stand for single bytes there. -/
def unencodablePath? (s : String) : Option Unencodable :=
  unencodableFrom (fun unit => 0xDC80 ≤ unit && unit ≤ 0xDCFF) 0 (codes s.toList)

end LayerLoops.Text.Utf8
