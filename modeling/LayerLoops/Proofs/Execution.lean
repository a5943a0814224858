import LayerLoops.Code.Tree
import Mathlib.Data.List.Forall2
import Mathlib.Data.Rat.Floor

/-! # Execution of generated code

Generated trees are read as the loops and statements that their text is. Control depends on loop variables
only, so a tree unfolds into the statements it carries out, each in the scope of its loop variables, and a run
performs these actions in turn on a memory of exact numbers. A run has no result where the text has no meaning:
an unset number or variable, a subscript outside the declared extents, a cell that is read before it is
written. Statements that are left out under synthesis are carried out. -/

namespace LayerLoops.Code

abbrev Scope := Index → Option Int

namespace Scope

def empty : Scope := fun _ => none

def set (ρ : Scope) (i : Index) (v : Option Int) : Scope := fun j => if j = i then v else ρ j

theorem set_apply (ρ : Scope) (i j : Index) (v : Option Int) :
    ρ.set i v j = if j = i then v else ρ j := rfl

/-- The variable has this value, which lies between zero and `n`. -/
def Holds (ρ : Scope) (i : Index) (v n : Int) : Prop := ρ i = some v ∧ 0 ≤ v ∧ v < n

theorem Holds.set_of_ne {ρ : Scope} {i j : Index} {v n : Int} (h : ρ.Holds i v n) (hne : i ≠ j) (w : Option Int) :
    (ρ.set j w).Holds i v n := by
  rw [Holds, set_apply, if_neg hne]
  exact h

theorem holds_set (ρ : Scope) (i : Index) {v n : Int} (h0 : 0 ≤ v) (hn : v < n) :
    (ρ.set i (some v)).Holds i v n := ⟨if_pos rfl, h0, hn⟩

end Scope

namespace Expr

def isAtom : Expr → Bool
  | index _ | number _ => true
  | _ => false

def isProduct : Expr → Bool
  | mul a b => a.isProduct && b.isAtom
  | e => e.isAtom

/-- The value of an expression. Texts have no parentheses, so an expression that its text would group in
another way has none. -/
def value? (ρ : Scope) : Expr → Option Int
  | index i => ρ i
  | number n => n
  | add a b => if b.isProduct then do pure ((← a.value? ρ) + (← b.value? ρ)) else none
  | sub a b => if b.isProduct then do pure ((← a.value? ρ) - (← b.value? ρ)) else none
  | mul a b => if a.isProduct && b.isAtom then do pure ((← a.value? ρ) * (← b.value? ρ)) else none

end Expr

def subscripts? (ρ : Scope) : List Expr → Option (List Int)
  | [] => some []
  | e :: es => do pure ((← e.value? ρ) :: (← subscripts? ρ es))

def factor (b : Buffer) (ordinal : Nat) : Element := ⟨b, [.number (some ordinal)]⟩

def Term.elements : Term → List Element
  | element e => [e]
  | number _ => []
  | product a b | layerProduct _ a b => [a, b]
  | activated _ t => t.elements

/-- The elements that a statement reads or writes. -/
def Stmt.elements : Stmt → List Element
  | assign target t | accumulate target t => target :: t.elements
  | keepMaximum => [⟨.cell, []⟩, ⟨.maximum, []⟩]
  | requantize target wide _ q scale =>
    [target, wide, factor .inputScales q, scale, factor .outputScales q, factor .outputZeroPoints q]
  | store _ _ value _ _ _ => [value]
  | comment _ | declare _ _ | declareCells _ | define _ _ | injectFault _ => []

/-- A statement in its scope, or a place where the text has no meaning. -/
inductive Action
  | perform (ρ : Scope) (s : Stmt)
  | stuck

def Stmt.isSimple : Stmt → Bool
  | assign .. | accumulate .. | keepMaximum | requantize .. | store .. | injectFault _ => true
  | comment _ | declare .. | declareCells _ | define .. => false

def Tree.isSingle : Tree → Bool
  | .stmt s => s.isSimple
  | .loop .. | .choose .. | .watched .. => true
  | .blank | .simulated _ => false

/-- The header of a loop governs the whole body. Without braces it governs one statement. -/
def Layout.governs : Layout → List Tree → Bool
  | .braced, _ => true
  | .sameLine, [.stmt s] => s.isSimple
  | .deeper, [t] | .flush, [t] => t.isSingle
  | _, _ => false

def Tree.scope (ρ : Scope) : Tree → Scope
  | .stmt (.define i e) => ρ.set i (e.value? ρ)
  | _ => ρ

mutual

def Tree.actions : Tree → Scope → List Action
  | .stmt s, ρ => [.perform ρ s]
  | .blank, _ => []
  | .loop h layout body, ρ =>
    match h.bound with
    | some n =>
      if layout.governs body then
        (List.range n.toNat).flatMap fun (i : Nat) => actionsAll body (ρ.set h.index (some i))
      else [.stuck]
    | none => [.stuck]
  | .choose b inside outside, ρ =>
    match ρ .row, ρ .column with
    | some r, some c =>
      if 0 ≤ r ∧ r < b.rows ∧ 0 ≤ c ∧ c < b.columns then [.perform ρ inside]
      else (outside.map (Action.perform ρ)).toList
    | _, _ => [.stuck]
  | .simulated body, ρ => actionsAll body ρ
  | .watched s stored, ρ => (s :: stored).map (.perform ρ)

def actionsAll : List Tree → Scope → List Action
  | [], _ => []
  | t :: ts, ρ => t.actions ρ ++ actionsAll ts (t.scope ρ)

end

/-- Subscripts lie inside extents: as many as there are, each from zero up to its extent. -/
def Within (dims js : List Int) : Prop := List.Forall₂ (fun j d => 0 ≤ j ∧ j < d) js dims

instance (dims js : List Int) : Decidable (Within dims js) := inferInstanceAs (Decidable (List.Forall₂ _ _ _))

/-- Subscripts have these values, and the values lie inside the extents. -/
def Located (ρ : Scope) (es : List Expr) (dims js : List Int) : Prop := subscripts? ρ es = some js ∧ Within dims js

theorem Located.nil (ρ : Scope) : Located ρ [] [] [] := ⟨rfl, .nil⟩

theorem Located.cons {ρ : Scope} {e : Expr} {es : List Expr} {d j : Int} {dims js : List Int}
    (he : e.value? ρ = some j) (h0 : 0 ≤ j) (hd : j < d) (h : Located ρ es dims js) :
    Located ρ (e :: es) (d :: dims) (j :: js) :=
  ⟨by simp [subscripts?, he, h.1], .cons ⟨h0, hd⟩ h.2⟩

theorem Located.index {ρ : Scope} {i : Index} {es : List Expr} {d j : Int} {dims js : List Int}
    (hi : ρ.Holds i j d) (h : Located ρ es dims js) : Located ρ (.index i :: es) (d :: dims) (j :: js) :=
  .cons hi.1 hi.2.1 hi.2.2 h

/-- The declared extents of buffers, and the numbers in their cells. -/
structure Memory where
  extents : Buffer → Option (List Int)
  cells : Buffer → List Int → Option ℚ

namespace Memory

variable {b b' : Buffer} {dims js : List Int} {e : Element} {ρ : Scope} (σ : Memory)

def put (σ : Memory) (b : Buffer) (js : List Int) (v : ℚ) : Memory :=
  { σ with cells := fun b' js' => if b' = b ∧ js' = js then some v else σ.cells b' js' }

def declare (σ : Memory) (b : Buffer) (dims : List Int) : Memory where
  extents := fun b' => if b' = b then some dims else σ.extents b'
  cells := fun b' js => if b' = b then none else σ.cells b' js

def locate (σ : Memory) (ρ : Scope) (e : Element) : Option (List Int) := do
  let js ← subscripts? ρ e.subscripts
  let dims ← σ.extents e.buffer
  if Within dims js then some js else none

def read (σ : Memory) (ρ : Scope) (e : Element) : Option ℚ := do
  let js ← σ.locate ρ e
  σ.cells e.buffer js

def write (σ : Memory) (ρ : Scope) (e : Element) (v : ℚ) : Option Memory := do
  let js ← σ.locate ρ e
  some (σ.put e.buffer js v)

@[simp] theorem extents_put (b : Buffer) (js : List Int) (v : ℚ) : (σ.put b js v).extents = σ.extents := rfl

theorem cells_put (b b' : Buffer) (js js' : List Int) (v : ℚ) :
    (σ.put b js v).cells b' js' = if b' = b ∧ js' = js then some v else σ.cells b' js' := rfl

theorem cells_put_self (b : Buffer) (js js' : List Int) (v : ℚ) :
    (σ.put b js v).cells b js' = if js' = js then some v else σ.cells b js' := by
  simp [cells_put]

theorem cells_put_of_ne (h : b' ≠ b) (js : List Int) (v : ℚ) : (σ.put b js v).cells b' = σ.cells b' := by
  funext js'
  simp [cells_put, h]

@[simp] theorem extents_declare_self (b : Buffer) (dims : List Int) : (σ.declare b dims).extents b = some dims :=
  if_pos rfl

theorem extents_declare_of_ne (h : b' ≠ b) (dims : List Int) : (σ.declare b dims).extents b' = σ.extents b' := if_neg h

theorem cells_declare_of_ne (h : b' ≠ b) (dims : List Int) : (σ.declare b dims).cells b' = σ.cells b' := by
  funext js
  simp [declare, h]

theorem locate_eq {σ : Memory} (hl : Located ρ e.subscripts dims js) (hd : σ.extents e.buffer = some dims) :
    σ.locate ρ e = some js := by
  simp [locate, hl.1, hd, hl.2]

theorem read_eq {σ : Memory} {v : ℚ} (hl : Located ρ e.subscripts dims js) (hd : σ.extents e.buffer = some dims)
    (hv : σ.cells e.buffer js = some v) : σ.read ρ e = some v := by
  simp [read, locate_eq hl hd, hv]

theorem write_eq {σ : Memory} (v : ℚ) (hl : Located ρ e.subscripts dims js) (hd : σ.extents e.buffer = some dims) :
    σ.write ρ e v = some (σ.put e.buffer js v) := by
  simp [write, locate_eq hl hd]

/-- A buffer has these extents, and each of its cells holds a number. -/
def Provides (σ : Memory) (b : Buffer) (dims : List Int) : Prop :=
  σ.extents b = some dims ∧ ∀ js, Within dims js → (σ.cells b js).isSome

def entry (σ : Memory) (b : Buffer) (js : List Int) : ℚ := (σ.cells b js).getD 0

theorem Provides.cells_eq {σ : Memory} (h : σ.Provides b dims) (hw : Within dims js) :
    σ.cells b js = some (σ.entry b js) := by
  obtain ⟨v, hv⟩ := Option.isSome_iff_exists.mp (h.2 js hw)
  rw [entry, hv, Option.getD_some]

end Memory

/-- The multiplier that each layer uses in place of exact products. -/
abbrev Multipliers := Nat → ℚ → ℚ → ℚ

/-- The functions that generated code calls for activations. -/
def activate : Activation → ℚ → ℚ
  | .relu, x => if x > 0 then x else 0
  | .linear, x | .none, x | .softmax, x => x

/-- The number that is stored for a scaled result: clamped to eight bits, then without its fraction. -/
def narrow (x : ℚ) : ℚ :=
  let y := min (max x (-128)) 127
  if 0 ≤ y then ⌊y⌋ else ⌈y⌉

def Term.value? (μ : Multipliers) (σ : Memory) (ρ : Scope) : Term → Option ℚ
  | element e => σ.read ρ e
  | number n => some n
  | product a b => do pure ((← σ.read ρ a) * (← σ.read ρ b))
  | layerProduct n a b => do pure (μ n (← σ.read ρ a) (← σ.read ρ b))
  | activated f t => (t.value? μ σ ρ).map (activate f)

/-- Performs a statement. Storing for analysis only reads; what a fault injection does is not part of the
generated code. -/
def Stmt.run (μ : Multipliers) (σ : Memory) (ρ : Scope) : Stmt → Option Memory
  | comment _ => some σ
  | declare d active => if active then (d.dims.mapM id).map (σ.declare d.buffer) else some σ
  | declareCells _ => some ((σ.declare .cell []).declare .maximum [])
  | define _ e => (e.value? ρ).map fun _ => σ
  | assign target t => do σ.write ρ target (← t.value? μ σ ρ)
  | accumulate target t => do σ.write ρ target ((← σ.read ρ target) + (← t.value? μ σ ρ))
  | keepMaximum => do
    let c ← σ.read ρ ⟨.cell, []⟩
    let m ← σ.read ρ ⟨.maximum, []⟩
    if c > m then σ.write ρ ⟨.maximum, []⟩ c else some σ
  | requantize target wide _ q scale => do
    let w ← σ.read ρ wide
    let i ← σ.read ρ (factor .inputScales q)
    let s ← σ.read ρ scale
    let o ← σ.read ρ (factor .outputScales q)
    let z ← σ.read ρ (factor .outputZeroPoints q)
    σ.write ρ target (narrow (w * i * s / o + z))
  | store _ _ value _ _ _ => (σ.read ρ value).map fun _ => σ
  | injectFault _ => none

theorem mapM_id_some (dims : List Int) : (dims.map some).mapM id = some dims := by
  induction dims with
  | nil => rfl
  | cons d dims ih => simp [ih]

theorem Stmt.run_declare (μ : Multipliers) (σ : Memory) (ρ : Scope) (t : TypeName) (b : Buffer) (dims : List Int) :
    (Stmt.declare ⟨t, b, dims.map some⟩ true).run μ σ ρ = some (σ.declare b dims) := by
  rw [Stmt.run, if_pos rfl, mapM_id_some, Option.map_some]

def Action.run (μ : Multipliers) (σ : Memory) : Action → Option Memory
  | perform ρ s => s.run μ σ ρ
  | stuck => none

def runAll (μ : Multipliers) : List Action → Memory → Option Memory
  | [], σ => some σ
  | a :: as, σ => (a.run μ σ).bind (runAll μ as)

/-- The subscripts of an element have values that lie inside the extents of its buffer. -/
def Element.Safe (extents : Buffer → Option (List Int)) (ρ : Scope) (e : Element) : Prop :=
  ∃ dims js, extents e.buffer = some dims ∧ Located ρ e.subscripts dims js

/-- Every element that an action reads or writes lies inside the extents of its buffer. -/
def Action.Safe (extents : Buffer → Option (List Int)) : Action → Prop
  | perform ρ s => ∀ e ∈ s.elements, e.Safe extents ρ
  | stuck => False

end LayerLoops.Code
