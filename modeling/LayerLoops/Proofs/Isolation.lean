import LayerLoops.Proofs.Labels
import LayerLoops.Proofs.Renaming
import LayerLoops.Proofs.Totality

/-! # Isolated layers

A layer can be emitted by itself, and then reads the input and writes the output of the generated function. Its code is
otherwise the same as in the whole program: the buffers before and behind it are renamed, and the declaration of the one
behind it is left out. -/

namespace LayerLoops

open Code Text

/-- The same settings with another layer to emit; zero stands for all of them. -/
def Config.only (c : Config) (n : Int) : Config := { c with singleLayer := n }

def Code.Buffer.carries : Buffer → Bool
  | inputs | outputs | between _ | outputsBase | betweenBase _ => true
  | _ => false

namespace Site

/-- The same layer, emitted by itself. -/
def isolated (s : Site) : Site := { s with config := s.config.only s.number }

/-- The buffers that an isolated layer reads and writes under other names. -/
def renames (s : Site) : Renaming := [(s.input, .inputs), (s.output, .outputs), (s.base, .outputsBase)]

def wideDeclaration (s : Site) (dims : List Int) : List Stmt :=
  if s.rescales then [.declare ⟨s.type, s.base, dims.map some⟩ true] else []

/-- The declaration of the buffer behind the layer. -/
def ownDeclaration (s : Site) (dims : List Int) : List Stmt :=
  if s.writesOutput then [] else [.declare ⟨s.outputType, s.output, dims.map some⟩ s.isLocal]

theorem declarations_eq (s : Site) (dims : List Int) :
    s.declarations dims = Tree.ofStmts (s.wideDeclaration dims ++ s.ownDeclaration dims) := rfl

/-! ## Renamed buffers -/

section Buffers

variable {s : Site}

theorem carries_input (s : Site) : s.input.carries = true := by
  rcases s.input_cases with h | h <;> rw [h] <;> rfl

theorem carries_output (s : Site) : s.output.carries = true := by
  rcases s.output_cases with h | h <;> rw [h] <;> rfl

theorem carries_base (s : Site) : s.base.carries = true := by
  rcases s.base_cases with h | h | h | h <;> rw [h] <;> rfl

theorem buffer_renames (s : Site) (b : Buffer) : s.renames.buffer b =
    if b = s.input then .inputs else if b = s.output then .outputs else if b = s.base then .outputsBase else b := by
  rw [renames, Renaming.buffer_cons, Renaming.buffer_cons, Renaming.buffer_cons, Renaming.buffer_nil]

theorem renames_of_not_carries (s : Site) {b : Buffer} (h : b.carries = false) : s.renames.buffer b = b := by
  have hne {a : Buffer} (ha : a.carries = true) : b ≠ a := by
    rintro rfl
    rw [h] at ha
    cases ha
  rw [buffer_renames, if_neg (hne s.carries_input), if_neg (hne s.carries_output), if_neg (hne s.carries_base)]

theorem renames_of_isolated (s : Site) {b : Buffer} (h : b = .inputs ∨ b = .outputs ∨ b = .outputsBase) :
    s.renames.buffer b = b := by
  rw [buffer_renames]
  rcases h with rfl | rfl | rfl
  · rcases s.output_cases with ho | ho <;> rcases s.base_cases with hb | hb | hb | hb <;> simp [ho, hb]
  · cases hr : s.rescales with
    | false => rcases s.input_cases with hi | hi <;> simp [hi, base_of_not_rescales hr]
    | true => rcases s.input_cases with hi | hi <;> rcases base_of_rescales hr with hb | hb <;> simp [hi, hb]
  · rcases s.input_cases with hi | hi <;> rcases s.output_cases with ho | ho <;> simp [hi, ho]

variable (hn : s.number ≠ 0)

include hn

theorem isolated_isolated : s.isolated.config.isolated = true := by
  simpa [isolated, Config.only, Config.isolated] using hn

theorem input_isolated : s.isolated.input = .inputs := if_pos (.inr (isolated_isolated hn))

theorem writesOutput_isolated : s.isolated.writesOutput = true := by
  rw [writesOutput, isolated_isolated hn, Bool.or_true]

theorem output_isolated : s.isolated.output = .outputs := by
  rw [output, writesOutput_isolated hn, if_pos rfl]

theorem base_isolated : s.isolated.base = if s.rescales then .outputsBase else .outputs := by
  rw [base, writesOutput_isolated hn, output_isolated hn, show s.isolated.rescales = s.rescales from rfl]
  cases s.rescales <;> rfl

theorem renames_input : s.renames.buffer s.input = s.isolated.input := by
  rw [buffer_renames, if_pos rfl, input_isolated hn]

theorem output_ne_input : s.output ≠ s.input := by
  rcases s.input_cases with hi | hi <;> rcases s.output_cases with ho | ho <;> rw [hi, ho] <;> simp
  omega

theorem renames_output : s.renames.buffer s.output = s.isolated.output := by
  rw [buffer_renames, if_neg (output_ne_input hn), if_pos rfl, output_isolated hn]

theorem renames_base : s.renames.buffer s.base = s.isolated.base := by
  rw [base_isolated hn]
  cases hr : s.rescales with
  | false => rw [base_of_not_rescales hr, renames_output hn, output_isolated hn, if_neg Bool.false_ne_true]
  | true =>
    have hinput : s.base ≠ s.input := by
      rcases s.input_cases with hi | hi <;> rcases base_of_rescales hr with hb | hb <;> simp [hi, hb]
    have houtput : s.base ≠ s.output := by
      rcases s.output_cases with ho | ho <;> rcases base_of_rescales hr with hb | hb <;> simp [ho, hb]
    rw [buffer_renames, if_neg hinput, if_neg houtput, if_pos rfl, if_pos rfl]

end Buffers

/-! ## Renamed code

The isolated layer has the same settings but for one, so its parts are those of the layer with other buffers. -/

section Code

variable (s : Site)

@[simp] theorem isolated_net : s.isolated.net = s.net := rfl
@[simp] theorem isolated_number : s.isolated.number = s.number := rfl
@[simp] theorem isolated_quantized : s.isolated.config.quantized = s.config.quantized := rfl
@[simp] theorem isolated_capture : s.isolated.config.capture = s.config.capture := rfl
@[simp] theorem isolated_biases : s.isolated.config.biases = s.config.biases := rfl
@[simp] theorem isolated_approximate : s.isolated.config.approximate = s.config.approximate := rfl
@[simp] theorem isolated_rescales : s.isolated.rescales = s.rescales := rfl
@[simp] theorem isolated_type : s.isolated.type = s.type := rfl
@[simp] theorem isolated_narrowType : s.isolated.narrowType = s.narrowType := rfl
@[simp] theorem isolated_outputType : s.isolated.outputType = s.outputType := rfl
@[simp] theorem isolated_activate (t : Term) : s.isolated.activate t = s.activate t := rfl
@[simp] theorem isolated_strided (i : Index) : s.isolated.strided i = s.strided i := rfl
@[simp] theorem isolated_loop (shape : Shape) (a : Axis) : s.isolated.loop shape a = s.loop shape a := rfl
@[simp] theorem isolated_shortLoop (shape : Shape) (a : Axis) (mark : String) :
    s.isolated.shortLoop shape a mark = s.shortLoop shape a mark := rfl

theorem rename_of_not_carries {b : Buffer} (h : b.carries = false) (es : List Expr) :
    Element.rename s.renames ⟨b, es⟩ = ⟨b, es⟩ :=
  congrArg (Element.mk · es) (s.renames_of_not_carries h)

@[simp] theorem renames_sum (n : Nat) : s.renames.buffer (.sum n) = .sum n := s.renames_of_not_carries rfl

@[simp] theorem rename_sum (n : Nat) (es : List Expr) : Element.rename s.renames ⟨.sum n, es⟩ = ⟨.sum n, es⟩ :=
  s.rename_of_not_carries rfl es

@[simp] theorem rename_weights (n : Nat) (es : List Expr) :
    Element.rename s.renames ⟨.weights n, es⟩ = ⟨.weights n, es⟩ :=
  s.rename_of_not_carries rfl es

@[simp] theorem rename_biases (n : Nat) (es : List Expr) :
    Element.rename s.renames ⟨.biases n, es⟩ = ⟨.biases n, es⟩ :=
  s.rename_of_not_carries rfl es

@[simp] theorem rename_weightScales (n : Nat) (es : List Expr) :
    Element.rename s.renames ⟨.weightScales n, es⟩ = ⟨.weightScales n, es⟩ :=
  s.rename_of_not_carries rfl es

@[simp] theorem rename_inputZeroPoints (es : List Expr) :
    Element.rename s.renames ⟨.inputZeroPoints, es⟩ = ⟨.inputZeroPoints, es⟩ :=
  s.rename_of_not_carries rfl es

@[simp] theorem rename_cell (es : List Expr) : Element.rename s.renames ⟨.cell, es⟩ = ⟨.cell, es⟩ :=
  s.rename_of_not_carries rfl es

@[simp] theorem rename_maximum (es : List Expr) : Element.rename s.renames ⟨.maximum, es⟩ = ⟨.maximum, es⟩ :=
  s.rename_of_not_carries rfl es

@[simp] theorem rename_innermost (r : Renaming) (h : Head) (body : Stmt) (stored : List Stmt) :
    (innermost h body stored).rename r = innermost h (body.rename r) (stored.map (Stmt.rename r)) := by
  unfold innermost
  rw [List.isEmpty_map]
  split <;> rfl

@[simp] theorem rename_activate (t : Term) : (s.activate t).rename s.renames = s.activate (t.rename s.renames) := rfl

@[simp] theorem rename_initial (i : Index) : (s.initial i).rename s.renames = s.isolated.initial i := by
  cases h : s.config.biases <;> simp [initial, Term.rename, h]

@[simp] theorem rename_product (a b : Element) :
    (s.product a b).rename s.renames = s.isolated.product (a.rename s.renames) (b.rename s.renames) := by
  cases h : s.config.approximate <;> simp [product, Term.rename, h]

theorem rename_storeWeight (weight : Element) :
    (s.storeWeight weight).map (Stmt.rename s.renames) = s.isolated.storeWeight (weight.rename s.renames) := by
  cases h : s.config.capture <;> simp [storeWeight, Stmt.rename, h]

@[simp] theorem rename_storeBias (i : Index) (x z : Expr) :
    (s.storeBias i x z).map (Stmt.rename s.renames) = s.isolated.storeBias i x z := by
  cases h : s.config.capture && s.config.biases <;> simp [storeBias, Stmt.rename, h]

def Operands.rename (r : Renaming) (o : Operands) : Operands where
  input := o.input.rename r
  weight := o.weight.rename r
  padded := o.padded.map fun x => (x.1.map (Stmt.rename r), x.2)

theorem rename_multiplyAdd (h : Head) (sum : Element) (o : Operands) : (s.multiplyAdd h sum o).rename s.renames =
    s.isolated.multiplyAdd h (sum.rename s.renames) (o.rename s.renames) := by
  obtain ⟨input, weight, padded⟩ := o
  cases padded with
  | none =>
    simp only [multiplyAdd, Operands.rename, Option.map_none, rename_innermost, Stmt.rename, rename_product,
      rename_storeWeight]
  | some x =>
    cases hq : s.config.quantized <;> cases he : (s.storeWeight weight).isEmpty <;>
      simp [multiplyAdd, Operands.rename, Tree.rename, Tree.renameAll, Stmt.rename, Term.rename, rename_product,
        ← rename_storeWeight, hq, he]

@[simp] theorem rename_reduction (heads : List Head) (last : Head) (sum : Element) (o : Operands) :
    Tree.renameAll s.renames (s.reduction heads last sum o) =
      s.isolated.reduction heads last (sum.rename s.renames) (o.rename s.renames) := by
  rw [reduction, Tree.renameAll_nest, Tree.renameAll, Tree.renameAll, rename_multiplyAdd, reduction]

variable {s} (hn : s.number ≠ 0)

include hn

theorem rename_input (es : List Expr) : Element.rename s.renames ⟨s.input, es⟩ = ⟨s.isolated.input, es⟩ :=
  congrArg (Element.mk · es) (renames_input hn)

theorem rename_output (es : List Expr) : Element.rename s.renames ⟨s.output, es⟩ = ⟨s.isolated.output, es⟩ :=
  congrArg (Element.mk · es) (renames_output hn)

theorem rename_base (es : List Expr) : Element.rename s.renames ⟨s.base, es⟩ = ⟨s.isolated.base, es⟩ :=
  congrArg (Element.mk · es) (renames_base hn)

theorem rename_wideDeclaration (dims : List Int) :
    (s.wideDeclaration dims).map (Stmt.rename s.renames) = s.isolated.wideDeclaration dims := by
  cases h : s.rescales <;> simp [wideDeclaration, Stmt.rename, Declaration.rename, renames_base hn, h]

theorem rename_requantize (es : List Expr) (i : Index) :
    (s.requantize es i).map (Stmt.rename s.renames) = s.isolated.requantize es i := by
  cases h : s.config.quantized <;> simp [requantize, Stmt.rename, rename_output hn, rename_base hn, h]

theorem rename_storeOutput (es : List Expr) (x y z : Expr) :
    (s.storeOutput es x y z).map (Stmt.rename s.renames) = s.isolated.storeOutput es x y z := by
  cases hc : s.config.capture <;> cases hr : s.rescales <;>
    simp [storeOutput, Stmt.rename, rename_output hn, rename_base hn, hc, hr]

theorem convOperands_isolated (shape : Shape) :
    s.isolated.convOperands shape = (s.convOperands shape).map (Operands.rename s.renames) := by
  have hpadding : s.isolated.padding = s.padding := rfl
  have hlayer : s.isolated.layer = s.layer := rfl
  simp only [convOperands, hpadding, hlayer, isolated_strided, isolated_number]
  split
  · simp [Except.map, Operands.rename, rename_input hn]
  · split
    · simp [Except.map, Operands.rename, rename_input hn, Stmt.rename]
    · rfl

theorem rename_convScalar (shape : Shape) (c : ConvLoops) (o : Operands) :
    Tree.renameAll s.renames (s.convScalar shape c o) = s.isolated.convScalar shape c (o.rename s.renames) := by
  simp [convScalar, Tree.renameAll, Tree.rename, Stmt.rename, Declaration.rename, Term.rename, rename_base hn,
    rename_requantize hn, rename_storeOutput hn]

theorem rename_convVector (shape : Shape) (c : ConvLoops) (o : Operands) :
    Tree.renameAll s.renames (s.convVector shape c o) = s.isolated.convVector shape c (o.rename s.renames) := by
  simp [convVector, Tree.renameAll, Tree.rename, Stmt.rename, Declaration.rename, Term.rename, rename_output hn]

theorem rename_convTile (shape : Shape) (c : ConvLoops) (o : Operands) :
    Tree.renameAll s.renames (s.convTile shape c o) = s.isolated.convTile shape c (o.rename s.renames) := by
  simp [convTile, Tree.renameAll, Tree.rename, Stmt.rename, Declaration.rename, Term.rename, rename_output hn]

theorem rename_poolingNest (shape : Shape) (seed : Int) :
    Tree.renameAll s.renames (s.poolingNest shape seed) = s.isolated.poolingNest shape seed := by
  cases h : s.config.capture <;>
    simp [poolingNest, Tree.renameAll, Tree.rename, Stmt.rename, Term.rename, rename_input hn, rename_output hn, h]

theorem rename_flattenNest (shape : Shape) :
    Tree.renameAll s.renames (s.flattenNest shape) = s.isolated.flattenNest shape := by
  cases h : s.config.capture <;>
    simp [flattenNest, Tree.renameAll, Stmt.rename, Term.rename, rename_input hn, rename_output hn, h]

theorem rename_denseNest (shape : Shape) :
    Tree.renameAll s.renames (s.denseNest shape) = s.isolated.denseNest shape := by
  simp [denseNest, Tree.renameAll, Tree.rename, Stmt.rename, Declaration.rename, Term.rename, rename_storeWeight,
    rename_input hn, rename_base hn, rename_requantize hn, rename_storeOutput hn]

end Code

/-! ## Codes of an isolated layer -/

/-- The code of a layer in the whole program, and its code by itself: both fail alike, or the latter is the former
without the declaration of the buffer behind the layer, and with its buffers renamed. -/
inductive Isolates (s : Site) : Except Fault (List Tree) → Except Fault (List Tree) → Prop
  | error (f : Fault) : s.Isolates (.error f) (.error f)
  | ok {o : Volume} (output : s.layer.output = some o) (front back : List Tree) :
      s.Isolates (.ok (front ++ Tree.ofStmts (s.ownDeclaration (s.layer.writtenDims o)) ++ back))
        (.ok (Tree.renameAll s.renames (front ++ back)))

section Isolates

variable {s : Site}

theorem Isolates.bind {α : Type} (x : Except Fault α) {f g : α → Except Fault (List Tree)}
    (h : ∀ a, x = .ok a → s.Isolates (f a) (g a)) : s.Isolates (x >>= f) (x >>= g) := by
  cases x with
  | error e => exact .error e
  | ok a => exact h a rfl

theorem rename_header (r : Renaming) (shape : Shape) : Tree.renameAll r (s.header shape) = s.header shape := rfl

variable (hn : s.number ≠ 0)

include hn

theorem isolates_parts {shape : Shape} (h : s.shape = .ok shape) {dims : List Int}
    (hdims : s.layer.writtenDims shape.output = dims) {body alone : List Tree}
    (hbody : Tree.renameAll s.renames body = alone) :
    s.Isolates (.ok (s.header shape ++ s.declarations dims ++ body))
      (.ok (s.isolated.header shape ++ s.isolated.declarations dims ++ alone)) := by
  have hown : s.isolated.ownDeclaration dims = [] := if_pos (writesOutput_isolated hn)
  have hheader : s.isolated.header shape = s.header shape := rfl
  have happend (a b : List Stmt) : Tree.ofStmts (a ++ b) = Tree.ofStmts a ++ Tree.ofStmts b := List.map_append
  have hparts := Isolates.ok (volumes_of_shape h).2 (s.header shape ++ Tree.ofStmts (s.wideDeclaration dims)) body
  simpa [declarations_eq, happend, hown, hheader, hdims, rename_header, hbody, rename_wideDeclaration hn] using hparts

theorem conv_isolates (hk : s.layer.kind = .conv) : s.Isolates s.conv s.isolated.conv := by
  refine .bind _ fun a _ => .bind s.shape fun shape hshape => .bind s.convLoops fun c _ => ?_
  rw [convOperands_isolated hn]
  cases s.convOperands shape with
  | error f => exact .error f
  | ok o =>
    refine isolates_parts hn hshape (by rw [Layer.writtenDims, hk]; rfl) ?_
    cases a with
    | scalar => exact rename_convScalar hn shape c o
    | vector => exact rename_convVector hn shape c o
    | tile => exact rename_convTile hn shape c o

theorem pooling_isolates (hk : s.layer.kind = .pooling) : s.Isolates s.pooling s.isolated.pooling := by
  refine .bind _ fun _ _ => .bind s.shape fun shape hshape => .bind _ fun seed _ => ?_
  exact isolates_parts hn hshape (by rw [Layer.writtenDims, hk]; rfl) (rename_poolingNest hn shape seed)

theorem flatten_isolates (hk : s.layer.kind = .flatten) : s.Isolates s.flatten s.isolated.flatten := by
  refine .bind _ fun _ _ => .bind s.shape fun shape hshape => ?_
  exact isolates_parts hn hshape (by rw [Layer.writtenDims, hk]) (rename_flattenNest hn shape)

theorem dense_isolates (hk : s.layer.kind = .dense) : s.Isolates s.dense s.isolated.dense := by
  refine .bind s.shape fun shape hshape => ?_
  exact isolates_parts hn hshape (by rw [Layer.writtenDims, hk]) (rename_denseNest hn shape)

theorem code_isolates : s.Isolates s.code s.isolated.code := by
  have hkind : s.isolated.layer.kind = s.layer.kind := rfl
  unfold code
  rw [hkind]
  cases hk : s.layer.kind with
  | conv => exact conv_isolates hn hk
  | pooling => exact pooling_isolates hn hk
  | flatten => exact flatten_isolates hn hk
  | dense => exact dense_isolates hn hk

theorem renames_fixes : s.renames.Fixes s.isolated.Uses := by
  intro b hb
  generalize hx : Name.symbol (.buffer b) = x at hb
  cases hb with
  | input =>
    cases hx
    exact s.renames_of_isolated (.inl (input_isolated hn))
  | output =>
    cases hx
    exact s.renames_of_isolated (.inr (.inl (output_isolated hn)))
  | base =>
    cases hx
    refine s.renames_of_isolated (.inr ?_)
    rw [base_isolated hn]
    split
    · exact .inr rfl
    · exact .inl rfl
  | sum | weights | biases | scales | cell | maximum =>
    cases hx
    exact s.renames_of_not_carries rfl
  | factor _ hb =>
    cases hx
    refine s.renames_of_not_carries ?_
    obtain rfl | rfl | rfl | rfl : b = _ ∨ b = _ ∨ b = _ ∨ b = _ := by simpa [factorBuffers] using hb
    all_goals rfl
  | activation hcall =>
    cases hx
    cases h : s.isolated.net.emitted s.isolated.number s.isolated.layer.activation <;> rw [h] at hcall <;> cases hcall
  | type | outputType | sumType | multiplier | store => cases hx

theorem code_isolated_error {f : Fault} (h : s.code = .error f) : s.isolated.code = .error f := by
  have hcodes := code_isolates hn
  rw [h] at hcodes
  generalize s.isolated.code = alone at hcodes
  cases hcodes
  rfl

theorem lines_isolated {whole : List Tree} (h : s.code = .ok whole) (level : Int) :
    ∃ alone o front back, s.isolated.code = .ok alone ∧ s.layer.output = some o ∧
      linesOf level whole =
        front ++ (s.ownDeclaration (s.layer.writtenDims o)).map (fun st => indent level st.text) ++ back ∧
      linesOf level alone = (front ++ back).map (rename s.renames.word) := by
  have hcodes := code_isolates hn
  rw [h] at hcodes
  generalize halone : s.isolated.code = alone at hcodes
  cases hcodes with
  | ok output front back =>
    refine ⟨_, _, linesOf level front, linesOf level back, rfl, output, ?_, ?_⟩
    · rw [linesOf_append, linesOf_append, linesOf_ofStmts]
    · rw [linesOf_renameAll (renames_fixes hn) _ (code_within halone), linesOf_append]

end Isolates

end Site

/-! ## Programs -/

namespace Forward

variable {net : Network} {c : Config} {orders : List LoopOrder} {profile : String} {l : Layer} {n : Nat}

theorem site_isolated {m : Int} {s : Site} (h : site net (c.only m) orders profile l n = .ok s) :
    site net (c.only n) orders profile l n = .ok s.isolated := by
  simp only [site, bind_eq_ok, pure_eq_ok] at h ⊢
  obtain ⟨placement, hplacement, rfl⟩ := h
  exact ⟨placement, hplacement, rfl⟩

theorem emittedLayers_only (hl : (l, n) ∈ net.numbered) : emittedLayers net (c.only n) = .ok [(l, n)] := by
  obtain ⟨hn, hl⟩ := Network.mem_numbered_iff.mp hl
  have hlayer : net.layer (n : Int) = .ok l := by
    rw [Network.layer, Network.layer?, if_pos (by omega), Int.toNat_natCast, hl]
  have hisolated : (c.only n).isolated = true := by
    simp [Config.isolated, Config.only]
    omega
  rw [emittedLayers, if_pos hisolated]
  simp only [Config.only, hlayer]
  rfl

theorem interfaceTypes_eq_ok {first last : Layer} {types : List Line} (h : interfaceTypes c first last = .ok types) :
    ∃ i o, first.input = some i ∧ last.output = some o ∧ types = [
      .arrayTypedef .input "InputType" ((first.readDims i).map some),
      .arrayTypedef (if c.quantized then .narrowResult .final else .result .final) "OutputType"
        ((last.writtenDims o).map some)] := by
  simp only [interfaceTypes, bind_eq_ok, pure_eq_ok] at h
  obtain ⟨is, his, os, hos, rfl⟩ := h
  cases hi : first.input with
  | none => simp [Layer.inputDims, Layer.inputFor, hi] at his
  | some i =>
    cases ho : last.output with
    | none => simp [Layer.outputDims, Layer.outputFor, ho] at hos
    | some o =>
      obtain ⟨rfl, -⟩ := (Layer.inputDims_eq_ok hi).mp his
      obtain ⟨rfl, -⟩ := (Layer.outputDims_eq_ok ho).mp hos
      exact ⟨i, o, rfl, rfl, rfl⟩

end Forward

namespace Program

/-- The lines up to the body of the generated function. -/
def opening (p : Program) : List String :=
  Instr.linesAllAt 0 p.front ++ "void forward(InputType inputs, OutputType &outputs" ::
    (p.parameters.map Group.text).map (indent 0) ++ [")", "\x7b"]

theorem text_lines (p : Program) :
    p.text = "\n".intercalate (p.opening ++ linesOf 1 p.body ++ ["\x7d"]) ++ "\n" := by
  have hindent (t : String) : indent 0 t = t := by
    rw [indent]
    split
    · exact (String.isEmpty_iff.mp (by assumption)).symm
    · exact String.empty_append
  rw [text, render_eq p.instrs_steady, instrs_eq, Instr.linesAllAt_append, function_lines]
  simp [opening, linesOf, hindent]

end Program

/-- Nothing speaks against generating code, and all numbers of it can be written. -/
structure Network.Ready (net : Network) (c : Config) (orders : List LoopOrder) : Prop where
  valid : net.Valid c orders
  fits : List.Forall₂ (fun l o => o.Fits l.kind) net.layers orders
  canonical : c.capture = true → ∀ o ∈ orders, o.isCanonical = true
  settled : net.Settled Usable
  seed : ∀ n, c.poolingSeed = some n → Decimal.Fits n

namespace Network

variable {net : Network} {c : Config} {orders : List LoopOrder}

theorem Valid.only (h : net.Valid c orders) {m : Int} (hm : m ≤ net.size) : net.Valid (c.only m) orders where
  nonempty := h.nonempty
  layers l n hl :=
    let ⟨hfollowed, hflat, hsoftmax, hpooling⟩ := h.layers l n hl
    ⟨hfollowed, hflat, hsoftmax, hpooling⟩
  orders := h.orders
  single := hm

theorem Ready.program_returns (h : net.Ready c orders) {m : Int} (h0 : 0 ≤ m) (hm : m ≤ net.size)
    (profile : String) : ∃ p, net.program (c.only m) orders profile = .ok p := by
  let r : Compilation := { config := c.only m, network := some net, orders, profile }
  have ha : r.Accepts (c.only m) net false :=
    ⟨rfl, h.valid.only hm, h.fits, h.canonical, rfl, rfl, rfl, rfl⟩
  exact ha.program_returns (fun _ => And.left) h.settled h0 h.seed

section Programs

open Forward

variable {profile : String} {l : Layer} {n : Nat} {s : Site} {p : Program}

theorem code_of_whole (hl : (l, n) ∈ net.numbered) (hs : site net (c.only 0) orders profile l n = .ok s)
    (hp : net.program (c.only 0) orders profile = .ok p) :
    ∃ whole before after, s.code = .ok whole ∧ p.body = before ++ whole ++ after := by
  obtain ⟨-, layers, _, _, _, _, _, _, capture, code, hlayers, -, -, -, -, -, hcode, rfl⟩ := program_eq_ok.mp hp
  obtain rfl : net.numbered = layers := Except.ok.inj hlayers
  obtain ⟨s', whole, hs', hwhole, before, after, hcut⟩ := layersCode_infix hcode hl
  cases hs.symm.trans hs'
  refine ⟨whole, capture ++ before, after, hwhole, ?_⟩
  rw [← hcut]
  simp only [List.append_assoc]

theorem program_only (hl : (l, n) ∈ net.numbered) (hs : site net (c.only n) orders profile l n = .ok s)
    (hp : net.program (c.only n) orders profile = .ok p) :
    ∃ capture alone, inputCapture (c.only n) l n = .ok capture ∧ s.code = .ok alone ∧ p.body = capture ++ alone ∧
      interfaceTypes (c.only n) l l = .ok p.types := by
  obtain ⟨-, layers, _, _, _, _, types, _, capture, code, hlayers, hfirst, hlast, htypes, -, hcapture, hcode, rfl⟩ :=
    program_eq_ok.mp hp
  cases (emittedLayers_only hl).symm.trans hlayers
  cases hfirst
  cases hlast
  obtain ⟨s', alone, _, hs', halone, hrest, rfl⟩ := layersCode_cons.mp hcode
  cases hrest
  cases hs.symm.trans hs'
  refine ⟨capture, alone, hcapture, halone, ?_, htypes⟩
  simp

/-- A layer is emitted by itself as it is in the whole program. Either there is no code, for the same reason, or its
lines are those in the whole program without the declaration of the buffer behind it, where its input, its output and
the wide buffer are renamed. Together with the loops that store the input they are the body of the program of the one
layer, and the types of input and output have the extents of this layer. If the network is valid and its numbers can be
written, there are both programs. -/
theorem program_isolated (c : Config) (orders : List LoopOrder) (profile : String) (hl : (l, n) ∈ net.numbered) :
    ∃ s, site net (c.only 0) orders profile l n = .ok s ∧ site net (c.only n) orders profile l n = .ok s.isolated ∧
      ((∃ f, s.code = .error f ∧ s.isolated.code = .error f) ∨
        ∃ whole alone o front back, s.code = .ok whole ∧ s.isolated.code = .ok alone ∧ l.output = some o ∧
          linesOf 1 whole = front ++ (s.ownDeclaration (l.writtenDims o)).map (fun st => indent 1 st.text) ++ back ∧
          linesOf 1 alone = (front ++ back).map (rename s.renames.word)) ∧
      (∀ p, net.program (c.only 0) orders profile = .ok p → ∃ whole before after, s.code = .ok whole ∧
        p.text = "\n".intercalate (p.opening ++ before ++ linesOf 1 whole ++ after ++ ["\x7d"]) ++ "\n") ∧
      (∀ q, net.program (c.only n) orders profile = .ok q → ∃ capture alone i o,
        inputCapture (c.only n) l n = .ok capture ∧ s.isolated.code = .ok alone ∧
        q.text = "\n".intercalate (q.opening ++ linesOf 1 capture ++ linesOf 1 alone ++ ["\x7d"]) ++ "\n" ∧
        l.input = some i ∧ l.output = some o ∧
        q.types = [.arrayTypedef .input "InputType" ((l.readDims i).map some),
          .arrayTypedef (if c.quantized then .narrowResult .final else .result .final) "OutputType"
            ((l.writtenDims o).map some)]) ∧
      (net.Ready c orders → ∃ p q, net.program (c.only 0) orders profile = .ok p ∧
        net.program (c.only n) orders profile = .ok q) := by
  obtain ⟨hn, hlayer⟩ := mem_numbered_iff.mp hl
  have hsize : (n : Int) ≤ net.size := by
    have hlt := (List.getElem?_eq_some_iff.mp hlayer).1
    simp only [size]
    omega
  obtain ⟨_, hsite⟩ := exists_site net (c.only 0) orders profile l n
  obtain ⟨s, hs⟩ : ∃ s, site net (c.only 0) orders profile l n = .ok s := ⟨_, (hsite _).mpr rfl⟩
  obtain ⟨-, rfl, rfl, -⟩ := site_fields hs
  refine ⟨s, hs, site_isolated hs, ?_, fun p hp => ?_, fun q hq => ?_, fun h => ?_⟩
  · cases hcode : s.code with
    | error f => exact .inl ⟨f, rfl, Site.code_isolated_error hn.ne' hcode⟩
    | ok whole =>
      obtain ⟨alone, o, front, back, h⟩ := Site.lines_isolated hn.ne' hcode 1
      exact .inr ⟨whole, alone, o, front, back, rfl, h⟩
  · obtain ⟨whole, before, after, hwhole, hbody⟩ := code_of_whole hl hs hp
    refine ⟨whole, linesOf 1 before, linesOf 1 after, hwhole, ?_⟩
    rw [p.text_lines, hbody]
    simp
  · obtain ⟨capture, alone, hcapture, halone, hbody, htypes⟩ := program_only hl (site_isolated hs) hq
    obtain ⟨i, o, hdims⟩ := interfaceTypes_eq_ok htypes
    refine ⟨capture, alone, i, o, hcapture, halone, ?_, hdims⟩
    rw [q.text_lines, hbody]
    simp
  · obtain ⟨p, hp⟩ := h.program_returns le_rfl (by omega) profile
    obtain ⟨q, hq⟩ := h.program_returns (Int.natCast_nonneg s.number) hsize profile
    exact ⟨p, q, hp, hq⟩

end Programs

end Network

def denseLayer (i o : Int) : Layer :=
  { form := .dense (some o), input := some (.flat i), output := some (.flat o), stride := some 1, activation := .relu }

def denseChain : Network := { layers := [denseLayer 4 3, denseLayer 3 2, denseLayer 2 1] }

def chainConfig : Config := { dataMode := .fixedSingle, dataDetail := "eight-bit-int" }

def chainOrders : List LoopOrder := List.replicate 3 (.canonical .dense)

def chainSite : Site :=
  { net := denseChain, number := 2, layer := denseLayer 3 2, config := chainConfig, order := .canonical .dense }

theorem denseLayer_settled {i o : Int} (hi : 0 < i ∧ i < 10) (ho : 0 < o ∧ o < 10) :
    ∃ g, (denseLayer i o).Complete Usable g ∧ (denseLayer i o).Writable := by
  have hflat {n : Int} (h : 0 < n ∧ n < 10) : (Volume.flat n).Positive ∧ (Volume.flat n).Fits := by
    have hn : Decimal.Fits n := Decimal.fits_of_lt_thousand (by omega)
    exact ⟨⟨h.1, Int.one_pos, Int.one_pos⟩, hn, usable_one.2, usable_one.2⟩
  obtain ⟨hipos, hifits⟩ := hflat hi
  obtain ⟨hopos, hofits⟩ := hflat ho
  have hcomplete : (denseLayer i o).Complete Usable ⟨1, .flat i, .flat o, Int.one_pos, hipos, hopos⟩ :=
    ⟨rfl, rfl, rfl, usable_one, rfl, rfl⟩
  exact ⟨_, hcomplete, hcomplete.writable (fun _ => And.right) hifits hofits⟩

theorem denseChain_ready : denseChain.Ready chainConfig chainOrders where
  valid := ((Network.validate_passes (b := true)).mp ⟨rfl, rfl⟩).2
  fits := by
    refine .cons ?_ (.cons ?_ (.cons ?_ .nil)) <;> exact LoopOrder.canonical_fits .dense
  canonical := nofun
  settled := by
    intro l hl
    simp only [denseChain, List.mem_cons, List.not_mem_nil, or_false] at hl
    rcases hl with rfl | rfl | rfl <;> exact denseLayer_settled (by decide) (by decide)
  seed := nofun

theorem program_isolated_chain : (denseLayer 3 2, 2) ∈ denseChain.numbered ∧ ∃ p q before front back after,
    denseChain.program (chainConfig.only 0) chainOrders "" = .ok p ∧
      denseChain.program (chainConfig.only 2) chainOrders "" = .ok q ∧
      p.text = "\n".intercalate (p.opening ++ before ++ (front ++ ["\tDataType_Layer2_short l2[2];"] ++ back) ++ after ++
        ["\x7d"]) ++ "\n" ∧
      q.text = "\n".intercalate (q.opening ++ (front ++ back).map (rename chainSite.renames.word) ++ ["\x7d"]) ++ "\n" ∧
      q.types.map Line.text = ["typedef DataType_input InputType[3];", "typedef DataType_output_short OutputType[2];"] ∧
      ["l1", "l2", "l2_base"].map chainSite.renames.word = ["inputs", "outputs", "outputs_base"] := by
  have hl : (denseLayer 3 2, 2) ∈ denseChain.numbered := by decide
  have hsite : Forward.site denseChain (chainConfig.only 0) chainOrders "" (denseLayer 3 2) 2 = .ok chainSite := rfl
  have hcapture : Forward.inputCapture (chainConfig.only 2) (denseLayer 3 2) 2 = .ok [] := rfl
  have hown : (chainSite.ownDeclaration [2]).map (fun st => indent 1 st.text) = ["\tDataType_Layer2_short l2[2];"] := by
    decide +kernel
  obtain ⟨s, hs, -, hlines, hwhole, honly, hready⟩ := Network.program_isolated chainConfig chainOrders "" hl
  cases hsite.symm.trans hs
  obtain ⟨p, q, hp, hq⟩ := hready denseChain_ready
  obtain ⟨whole, before, after, hcode, hptext⟩ := hwhole p hp
  obtain ⟨capture, alone, _, _, hcaptured, halone, hqtext, ⟨⟩, ⟨⟩, htypes⟩ := honly q hq
  cases hcapture.symm.trans hcaptured
  rcases hlines with ⟨f, hf, -⟩ | ⟨whole', alone', _, front, back, hcode', halone', ⟨⟩, hfront, hback⟩
  · cases hcode.symm.trans hf
  · cases hcode.symm.trans hcode'
    cases halone.symm.trans halone'
    refine ⟨hl, p, q, before, front, back, after, hp, hq, ?_, ?_, ?_, by decide +kernel⟩
    · rw [hptext, hfront]
      exact congrArg (fun own => "\n".intercalate
        (p.opening ++ before ++ (front ++ own ++ back) ++ after ++ ["\x7d"]) ++ "\n") hown
    · rw [hqtext, hback]
      exact congrArg (fun ls => "\n".intercalate (ls ++ _ ++ ["\x7d"]) ++ "\n") (List.append_nil q.opening)
    · rw [htypes]
      decide +kernel

end LayerLoops
