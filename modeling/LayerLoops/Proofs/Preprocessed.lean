import LayerLoops.Emission.Forward
import LayerLoops.Proofs.Words

/-! # What the preprocessor leaves

A part of a generated file that stands under a condition is compiled or left out, depending on which macros are
defined. -/

namespace LayerLoops

namespace Code

mutual

/-- What is left of a piece where `on` says which macros are defined. -/
def Piece.kept (on : String → Bool) : Piece → List Piece
  | .line l => [.line l]
  | .blank count => [.blank count]
  | .function header body => [.function header body]
  | .guarded g body => if on g.name = g.defined then keptAll on body else []
  | .guardedElse g body otherwise => if on g.name = g.defined then keptAll on body else keptAll on otherwise

def keptAll (on : String → Bool) : List Piece → List Piece
  | [] => []
  | p :: ps => p.kept on ++ keptAll on ps

end

variable {on : String → Bool}

@[simp] theorem keptAll_nil : keptAll on [] = [] := rfl

@[simp] theorem keptAll_cons (p : Piece) (ps : List Piece) : keptAll on (p :: ps) = p.kept on ++ keptAll on ps := rfl

@[simp] theorem keptAll_append (ps qs : List Piece) : keptAll on (ps ++ qs) = keptAll on ps ++ keptAll on qs := by
  induction ps with
  | nil => rfl
  | cons p ps ih => rw [List.cons_append, keptAll_cons, keptAll_cons, ih, List.append_assoc]

theorem keptAll_lines (ls : List Line) : keptAll on (ls.map Piece.line) = ls.map Piece.line := by
  induction ls with
  | nil => rfl
  | cons l ls ih =>
    rw [List.map_cons, keptAll_cons, ih]
    rfl

@[simp] theorem keptAll_plainLines (ts : List String) : keptAll on (plainLines ts) = plainLines ts := by
  have hmap : plainLines ts = (ts.map Line.plain).map Piece.line := by
    rw [List.map_map]
    rfl
  rw [hmap, keptAll_lines]

/-- A line that begins with the given text is left. -/
def HasLine (on : String → Bool) (ps : List Piece) (start : String) : Prop :=
  ∃ t, .line (.plain t) ∈ keptAll on ps ∧ start.toList <+: t.toList

/-! ## Texts -/

theorem piecesInstrs_append (ps qs : List Piece) : piecesInstrs (ps ++ qs) = piecesInstrs ps ++ piecesInstrs qs := by
  induction ps with
  | nil => rfl
  | cons p ps ih => rw [List.cons_append, piecesInstrs, piecesInstrs, ih, List.append_assoc]

/-- The texts that pieces write, whatever is defined. -/
def textsOf (ps : List Piece) : List String := Instr.textsAll (piecesInstrs ps)

@[simp] theorem textsOf_append (ps qs : List Piece) : textsOf (ps ++ qs) = textsOf ps ++ textsOf qs := by
  rw [textsOf, piecesInstrs_append, Instr.textsAll_append]
  rfl

@[simp] theorem textsOf_nil : textsOf [] = [] := rfl

theorem textsOf_cons (p : Piece) (ps : List Piece) : textsOf (p :: ps) = textsOf [p] ++ textsOf ps :=
  textsOf_append [p] ps

@[simp] theorem textsOf_line (l : Line) (ps : List Piece) : textsOf (.line l :: ps) = l.text :: textsOf ps := rfl

@[simp] theorem textsOf_blank (n : Nat) (ps : List Piece) : textsOf (.blank n :: ps) = textsOf ps := rfl

@[simp] theorem textsOf_function (header body : String) (ps : List Piece) :
    textsOf (.function header body :: ps) = header :: body :: textsOf ps := rfl

@[simp] theorem textsOf_plainLines (ts : List String) : textsOf (plainLines ts) = ts := by
  induction ts with
  | nil => rfl
  | cons t ts ih => exact congrArg (t :: ·) ih

@[simp] theorem textsOf_guarded (g : Guard) (body ps : List Piece) :
    textsOf (.guarded g body :: ps) = g.opening :: textsOf body ++ g.closing :: textsOf ps := by
  simp [textsOf, piecesInstrs, Piece.instrs, Instr.textsAll, Instr.texts]

@[simp] theorem textsOf_guardedElse (g : Guard) (body otherwise ps : List Piece) :
    textsOf (.guardedElse g body otherwise :: ps) =
      g.opening :: textsOf body ++ g.middle :: textsOf otherwise ++ g.closing :: textsOf ps := by
  simp [textsOf, piecesInstrs, Piece.instrs, Instr.textsAll, Instr.texts]

mutual

theorem Piece.instrs_steady : ∀ p : Piece, Instr.allSteady p.instrs = true
  | .line _ | .blank _ | .function _ _ => rfl
  | .guarded _ body => by
    simpa [Piece.instrs, Instr.allSteady, Instr.isSteady] using piecesInstrs_steady body
  | .guardedElse _ body otherwise => by
    simpa [Piece.instrs, Instr.allSteady, Instr.isSteady] using
      ⟨piecesInstrs_steady body, piecesInstrs_steady otherwise⟩

theorem piecesInstrs_steady : ∀ ps : List Piece, Instr.allSteady (piecesInstrs ps) = true
  | [] => rfl
  | p :: ps => by
    rw [piecesInstrs, Instr.allSteady_append, Piece.instrs_steady p, piecesInstrs_steady ps]
    rfl

end

end Code
end LayerLoops
