import LayerLoops.Code.Piece
import LayerLoops.Proofs.Words

/-! # The names in generated code

Generated code mentions types and symbols, which are defined elsewhere, and other words, which are not: keywords,
loop variables, labels, numerals and what stands in comments. A text mentions only certain names if each of its
words is one of them or is neutral, that is, no name at all. This is shown for a text by its parts: between two
names there always stands a character that belongs to no word. -/

namespace LayerLoops

namespace Text

def stem (w : List Char) : List Char := w.filter fun c => !c.isDigit

def digits (w : List Char) : List Char := w.filter Char.isDigit

@[simp] theorem stem_append (a b : List Char) : stem (a ++ b) = stem a ++ stem b := List.filter_append ..

@[simp] theorem digits_append (a b : List Char) : digits (a ++ b) = digits a ++ digits b := List.filter_append ..

theorem isDigit_of_mem_toDigits {n : Nat} {c : Char} (h : c ∈ Nat.toDigits 10 n) : c.isDigit = true :=
  Nat.isDigit_of_mem_toDigits (by decide) (by decide) h

@[simp] theorem stem_toDigits (n : Nat) : stem (Nat.toDigits 10 n) = [] := by
  rw [stem, List.filter_eq_nil_iff]
  intro c hc
  simp [isDigit_of_mem_toDigits hc]

@[simp] theorem digits_toDigits (n : Nat) : digits (Nat.toDigits 10 n) = Nat.toDigits 10 n :=
  List.filter_eq_self.mpr fun _ hc => isDigit_of_mem_toDigits hc

theorem stem_numbered (a : String) (n : Nat) : stem (a ++ toString n).toList = stem a.toList := by
  rw [String.toList_append, stem_append, Nat.toString_eq_repr, Nat.toList_repr, stem_toDigits, List.append_nil]

theorem digits_numbered {a : String} (ha : digits a.toList = []) (n : Nat) :
    digits (a ++ toString n).toList = Nat.toDigits 10 n := by
  rw [String.toList_append, digits_append, Nat.toString_eq_repr, Nat.toList_repr, digits_toDigits, ha, List.nil_append]

theorem toDigits_inj {m n : Nat} (h : Nat.toDigits 10 m = Nat.toDigits 10 n) : m = n := by
  rw [← Nat.ofDigitChars_ten_toDigits (n := m), h, Nat.ofDigitChars_ten_toDigits]

theorem number_inj {m n : Option Nat} (h : m.elim [] (Nat.toDigits 10) = n.elim [] (Nat.toDigits 10)) : m = n := by
  cases m with
  | none =>
    cases n with
    | none => rfl
    | some n => exact absurd h.symm Nat.toDigits_ne_nil
  | some m =>
    cases n with
    | none => exact absurd h Nat.toDigits_ne_nil
    | some n => exact congrArg some (toDigits_inj h)

end Text

namespace Code

/-- What the statements of generated code refer to. -/
inductive Symbol
  | buffer (b : Buffer)
  | relu | linear
  | multiplier (number : Nat)
  /-- The macro that stores a value for analysis. -/
  | store
  /-- The function that injects a fault. -/
  | inject
  deriving DecidableEq, Repr

namespace Symbol

def text : Symbol → String
  | buffer b => b.text
  | relu => Activation.relu.label
  | linear => Activation.linear.label
  | multiplier n => s!"MUL_LAYER_{n}"
  | store => "STORE_DATA"
  | inject => "fault_injection"

/-- One symbol of each form, where those with a number have the number `n`. -/
def family (n : Nat) : List Symbol :=
  [.inputs, .outputs, .between n, .outputsBase, .betweenBase n, .weights n, .biases n, .weightScales n,
    .inputZeroPoints, .outputZeroPoints, .inputScales, .outputScales, .sum n, .cell, .maximum].map buffer ++
    [relu, linear, multiplier n, store, inject]

def stem : Symbol → String
  | buffer .inputs => "inputs"
  | buffer .outputs => "outputs"
  | buffer (.between _) => "l"
  | buffer .outputsBase => "outputs_base"
  | buffer (.betweenBase _) => "l_base"
  | buffer (.weights _) => "weights_"
  | buffer (.biases _) => "biases_"
  | buffer (.weightScales _) => "weight_scales_"
  | buffer .inputZeroPoints => "input_zero_points"
  | buffer .outputZeroPoints => "output_zero_points"
  | buffer .inputScales => "input_scale_factors"
  | buffer .outputScales => "output_scale_factors"
  | buffer (.sum _) => "temp_element"
  | buffer .cell => "current_cell"
  | buffer .maximum => "max_value"
  | relu => "relu"
  | linear => "linear"
  | multiplier _ => "MUL_LAYER_"
  | store => "STORE_DATA"
  | inject => "fault_injection"

def number? : Symbol → Option Nat
  | buffer (.between n) | buffer (.betweenBase n) | buffer (.weights n) | buffer (.biases n)
    | buffer (.weightScales n) | buffer (.sum n) | multiplier n => some n
  | _ => none

theorem stem_text (x : Symbol) : Text.stem x.text.toList = x.stem.toList := by
  cases x with
  | buffer b =>
    cases b with
    | between n | weights n | biases n | weightScales n | sum n =>
      refine (Text.stem_numbered _ n).trans ?_
      simp only [stem]
      decide +kernel
    | betweenBase n =>
      change Text.stem ("l" ++ toString n ++ "_base").toList = _
      rw [String.toList_append, Text.stem_append, Text.stem_numbered, stem]
      decide +kernel
    | inputs | outputs | outputsBase | inputZeroPoints | outputZeroPoints | inputScales | outputScales | cell
      | maximum => decide +kernel
  | multiplier n =>
    refine (Text.stem_numbered _ n).trans ?_
    rw [stem]
    decide +kernel
  | relu | linear | store | inject => decide +kernel

theorem digits_text (x : Symbol) : Text.digits x.text.toList = x.number?.elim [] (Nat.toDigits 10) := by
  cases x with
  | buffer b =>
    cases b with
    | between n | weights n | biases n | weightScales n | sum n =>
      exact Text.digits_numbered (by decide +kernel) n
    | betweenBase n =>
      change Text.digits ("l" ++ toString n ++ "_base").toList = _
      rw [String.toList_append, Text.digits_append, Text.digits_numbered (by decide +kernel),
        show Text.digits "_base".toList = [] by decide +kernel, List.append_nil]
      rfl
    | inputs | outputs | outputsBase | inputZeroPoints | outputZeroPoints | inputScales | outputScales | cell
      | maximum => decide +kernel
  | multiplier n => exact Text.digits_numbered (by decide +kernel) n
  | relu | linear | store | inject => decide +kernel

theorem find_family (x : Symbol) : (family (x.number?.getD 0)).find? (·.stem = x.stem) = some x := by
  cases x with
  | buffer b => cases b <;> simp [family, stem, number?]
  | relu | linear | multiplier | store | inject => simp [family, stem, number?]

def shape (x : Symbol) : List Char × Bool := (x.stem.toList, x.number?.isNone)

/-- The shapes of all symbols, character by character, so that words are compared with them by evaluation. -/
def shapes : List (List Char × Bool) :=
  [(['i', 'n', 'p', 'u', 't', 's'], true), (['o', 'u', 't', 'p', 'u', 't', 's'], true), (['l'], false),
    (['o', 'u', 't', 'p', 'u', 't', 's', '_', 'b', 'a', 's', 'e'], true), (['l', '_', 'b', 'a', 's', 'e'], false),
    (['w', 'e', 'i', 'g', 'h', 't', 's', '_'], false), (['b', 'i', 'a', 's', 'e', 's', '_'], false),
    (['w', 'e', 'i', 'g', 'h', 't', '_', 's', 'c', 'a', 'l', 'e', 's', '_'], false),
    (['i', 'n', 'p', 'u', 't', '_', 'z', 'e', 'r', 'o', '_', 'p', 'o', 'i', 'n', 't', 's'], true),
    (['o', 'u', 't', 'p', 'u', 't', '_', 'z', 'e', 'r', 'o', '_', 'p', 'o', 'i', 'n', 't', 's'], true),
    (['i', 'n', 'p', 'u', 't', '_', 's', 'c', 'a', 'l', 'e', '_', 'f', 'a', 'c', 't', 'o', 'r', 's'], true),
    (['o', 'u', 't', 'p', 'u', 't', '_', 's', 'c', 'a', 'l', 'e', '_', 'f', 'a', 'c', 't', 'o', 'r', 's'], true),
    (['t', 'e', 'm', 'p', '_', 'e', 'l', 'e', 'm', 'e', 'n', 't'], false),
    (['c', 'u', 'r', 'r', 'e', 'n', 't', '_', 'c', 'e', 'l', 'l'], true),
    (['m', 'a', 'x', '_', 'v', 'a', 'l', 'u', 'e'], true), (['r', 'e', 'l', 'u'], true),
    (['l', 'i', 'n', 'e', 'a', 'r'], true), (['M', 'U', 'L', '_', 'L', 'A', 'Y', 'E', 'R', '_'], false),
    (['S', 'T', 'O', 'R', 'E', '_', 'D', 'A', 'T', 'A'], true),
    (['f', 'a', 'u', 'l', 't', '_', 'i', 'n', 'j', 'e', 'c', 't', 'i', 'o', 'n'], true)]

theorem map_shape_family (n : Nat) : (family n).map shape = shapes := by
  have hzero : (family 0).map shape = shapes := by decide +kernel
  exact hzero

theorem shape_mem (x : Symbol) : x.shape ∈ shapes := by
  rw [← map_shape_family (x.number?.getD 0)]
  exact List.mem_map_of_mem (List.mem_of_find?_eq_some (find_family x))

theorem not_typed (x : Symbol) : ¬ "DataType".toList <+: x.text.toList := by
  have hshapes : ∀ y ∈ shapes, ¬ "DataType".toList <+: y.1 := by decide +kernel
  have hstem : Text.stem "DataType".toList = "DataType".toList := by decide +kernel
  intro h
  have hbegin : Text.stem "DataType".toList <+: Text.stem x.text.toList := h.filter _
  rw [hstem, stem_text] at hbegin
  exact hshapes x.shape x.shape_mem hbegin

theorem text_injective : Function.Injective Symbol.text := by
  intro x y h
  have hstem : x.stem = y.stem := by
    rw [← String.toList_inj, ← stem_text, ← stem_text, h]
  have hnumber : x.number? = y.number? := by
    apply Text.number_inj
    rw [← digits_text, ← digits_text, h]
  have hfind := find_family x
  rw [hstem, hnumber, find_family y] at hfind
  exact (Option.some.inj hfind).symm

end Symbol

theorem Buffer.text_injective : Function.Injective Buffer.text := by
  intro a b h
  have hsymbol : (Symbol.buffer a).text = (Symbol.buffer b).text := h
  exact Symbol.buffer.inj (Symbol.text_injective hsymbol)

theorem TypeName.text_begins (t : TypeName) : "DataType".toList <+: t.text.toList := by
  have hrest : ∃ rest, t.text = "DataType" ++ rest := by
    have hunderscore : "DataType_" = "DataType" ++ "_" := by decide +kernel
    have hsum : "DataType_temp_element" = "DataType" ++ "_temp_element" := by decide +kernel
    cases t with
    | result p => exact ⟨_, (congrArg (· ++ p.text) hunderscore).trans String.append_assoc⟩
    | narrowResult p =>
      have happ : "DataType_" ++ p.text = "DataType" ++ ("_" ++ p.text) :=
        (congrArg (· ++ p.text) hunderscore).trans String.append_assoc
      exact ⟨_, (congrArg (· ++ "_short") happ).trans String.append_assoc⟩
    | sum n => exact ⟨_, (congrArg (· ++ toString n) hsum).trans String.append_assoc⟩
    | wide => exact ⟨"", rfl⟩
    | narrow => exact ⟨"_short", rfl⟩
    | relu => exact ⟨"_relu", rfl⟩
    | input => exact ⟨"_input", rfl⟩
    | weights => exact ⟨"_weights", rfl⟩
    | biases => exact ⟨"_biases", rfl⟩
    | inputZeroPoint => exact ⟨"_IZP", rfl⟩
    | outputZeroPoint => exact ⟨"_OZP", rfl⟩
    | inputScale => exact ⟨"_ISF", rfl⟩
    | outputScale => exact ⟨"_OSF", rfl⟩
    | weightScale => exact ⟨"_WSF", rfl⟩
  obtain ⟨rest, h⟩ := hrest
  rw [h, String.toList_append]
  exact List.prefix_append _ _

/-- What a word of generated code may name. -/
inductive Name
  | type (t : TypeName)
  | symbol (x : Symbol)
  deriving DecidableEq, Repr

def Name.text : Name → String
  | type t => t.text
  | symbol x => x.text

def isNeutral (w : List Char) : Bool :=
  !(['D', 'a', 't', 'a', 'T', 'y', 'p', 'e'].isPrefixOf w) &&
    !Symbol.shapes.contains (Text.stem w, (Text.digits w).isEmpty)

theorem Symbol.not_neutral (x : Symbol) : isNeutral x.text.toList = false := by
  have hempty : (Text.digits x.text.toList).isEmpty = x.number?.isNone := by
    rw [digits_text]
    cases x.number? with
    | none => rfl
    | some n =>
      rw [Option.elim, List.isEmpty_eq_false_iff.mpr Nat.toDigits_ne_nil]
      rfl
  have hcontains : Symbol.shapes.contains (x.stem.toList, x.number?.isNone) = true :=
    List.contains_iff_mem.mpr x.shape_mem
  rw [isNeutral, stem_text, hempty, hcontains, Bool.not_true, Bool.and_false]

theorem Name.not_neutral (n : Name) : isNeutral n.text.toList = false := by
  cases n with
  | type t =>
    have hbegin : ['D', 'a', 't', 'a', 'T', 'y', 'p', 'e'].isPrefixOf t.text.toList = true :=
      List.isPrefixOf_iff_prefix.mpr t.text_begins
    rw [isNeutral, Name.text, hbegin, Bool.not_true, Bool.false_and]
  | symbol x => exact x.not_neutral

end Code
end LayerLoops
