import LayerLoops.Emission.Site
import LayerLoops.Proofs.Names

/-! # What texts mention

A text mentions only certain names if each of its words is one of them or is neutral. The syntax of generated code is
gone through form by form: wherever a name is written, the characters around it belong to no word, so that a text
mentions what its parts mention. -/

namespace LayerLoops.Code

variable {a b s sep : String} {cs : List Char} {ts : List Tree} (n : Nat)

open Text

variable {A B : Name → Prop}

/-- Each word of the text is one of the given names or no name at all. -/
def Mentions (A : Name → Prop) (s : String) : Prop :=
  ∀ w ∈ words s, (∃ n, A n ∧ n.text = w) ∨ isNeutral w.toList = true

def isSilent (s : String) : Bool := (wordsOf s.toList).all isNeutral

theorem isSilent_ofList (h : (wordsOf cs).all isNeutral = true) : isSilent (String.ofList cs) = true := by
  rw [isSilent, String.toList_ofList]
  exact h

def isBreak (s : String) : Bool := s != "" && s.toList.all fun c => !isWordChar c

theorem Mentions.mono (h : Mentions A s) (hAB : ∀ n, A n → B n) : Mentions B s := by
  intro w hw
  rcases h w hw with ⟨n, hn, rfl⟩ | hneutral
  · exact .inl ⟨n, hAB n hn, rfl⟩
  · exact .inr hneutral

theorem mentions_silent (h : isSilent s = true) : Mentions A s := by
  intro w hw
  obtain ⟨cs, hcs, rfl⟩ := List.mem_map.mp hw
  rw [String.toList_ofList]
  exact .inr (List.all_eq_true.mp h cs hcs)

theorem mentions_plain (h : (wordsOf cs).all isNeutral = true) : Mentions A (String.ofList cs) :=
  mentions_silent (isSilent_ofList h)

theorem Mentions.append_opens (ha : Mentions A a) (hb : Mentions A b) (h : opens b = true) : Mentions A (a ++ b) := by
  intro w hw
  rw [words_append_of_opens a h] at hw
  rcases List.mem_append.mp hw with hw | hw
  · exact ha w hw
  · exact hb w hw

theorem Mentions.append_closes (ha : Mentions A a) (hb : Mentions A b) (h : closes a = true) : Mentions A (a ++ b) := by
  intro w hw
  rw [words_append_of_closes h] at hw
  rcases List.mem_append.mp hw with hw | hw
  · exact ha w hw
  · exact hb w hw

theorem Mentions.glueText (ha : Mentions A a) (hs : isSilent sep = true) (ho : opens sep = true)
    (hc : closes sep = true) (hne : sep ≠ "") (hb : Mentions A b) : Mentions A (a ++ sep ++ b) :=
  (ha.append_opens (mentions_silent hs) ho).append_closes hb (closes_append a hne hc)

theorem isBreak_cases (h : isBreak s = true) : isSilent s = true ∧ opens s = true ∧ closes s = true ∧ s ≠ "" := by
  simp only [isBreak, Bool.and_eq_true, bne_iff_ne, List.all_eq_true, Bool.not_eq_true'] at h
  obtain ⟨hne, hall⟩ := h
  refine ⟨?_, ?_, ?_, hne⟩
  · rw [isSilent, wordsOf_of_breaks hall]
    rfl
  · rw [opens, Option.all_eq_true]
    intro c hc
    simp [hall c (List.mem_of_head? hc)]
  · rw [closes, Option.all_eq_true]
    intro c hc
    simp [hall c (List.mem_of_getLast? hc)]

theorem Mentions.glue (ha : Mentions A a) (h : isBreak sep = true) (hb : Mentions A b) :
    Mentions A (a ++ sep ++ b) := by
  obtain ⟨hs, ho, hc, hne⟩ := isBreak_cases h
  exact ha.glueText hs ho hc hne hb

theorem Mentions.stop (ha : Mentions A a) (h : isBreak sep = true) : Mentions A (a ++ sep) := by
  obtain ⟨hs, ho, -, -⟩ := isBreak_cases h
  exact ha.append_opens (mentions_silent hs) ho

theorem Mentions.start (hs : isSilent sep = true) (hc : closes sep = true) (ha : Mentions A a) :
    Mentions A (sep ++ a) :=
  (mentions_silent hs).append_closes ha hc

theorem mentions_join {ts : List String} (ho : ∀ t ∈ ts, opens t = true) (h : ∀ t ∈ ts, Mentions A t) :
    Mentions A (String.join ts) ∧ opens (String.join ts) = true := by
  induction ts with
  | nil => exact ⟨mentions_silent (by decide), by decide⟩
  | cons t ts ih =>
    obtain ⟨hmore, hopens⟩ := ih (fun u hu => ho u (List.mem_cons_of_mem t hu))
      fun u hu => h u (List.mem_cons_of_mem t hu)
    rw [String.join_cons]
    refine ⟨(h t List.mem_cons_self).append_opens hmore hopens, ?_⟩
    by_cases ht : t = ""
    · rw [ht, String.empty_append]
      exact hopens
    · exact opens_append ht (ho t List.mem_cons_self) _

/-! ## Names and numerals -/

theorem isWordChar_of_mem_toDigits {n : Nat} {c : Char} (h : c ∈ Nat.toDigits 10 n) : isWordChar c = true := by
  have hdigit : c.isDigit = true := isDigit_of_mem_toDigits h
  simp [isWordChar, Char.isAlphanum, hdigit]

theorem all_wordChar_append (ha : a.toList.all isWordChar = true) (hb : b.toList.all isWordChar = true) :
    (a ++ b).toList.all isWordChar = true := by
  rw [String.toList_append, List.all_append]
  exact Bool.and_eq_true_iff.mpr ⟨ha, hb⟩

theorem all_wordChar_numbered (ha : a.toList.all isWordChar = true) (n : Nat) :
    (a ++ toString n).toList.all isWordChar = true := by
  refine all_wordChar_append ha ?_
  rw [Nat.toString_eq_repr, Nat.toList_repr, List.all_eq_true]
  exact fun c hc => isWordChar_of_mem_toDigits hc

theorem Symbol.all_wordChar (x : Symbol) : x.text.toList.all isWordChar = true := by
  cases x with
  | buffer b =>
    cases b with
    | between n | weights n | biases n | weightScales n | sum n => exact all_wordChar_numbered (by decide +kernel) n
    | betweenBase n =>
      exact all_wordChar_append (all_wordChar_numbered (by decide +kernel) n) (by decide +kernel)
    | inputs | outputs | outputsBase | inputZeroPoints | outputZeroPoints | inputScales | outputScales | cell
      | maximum => decide +kernel
  | multiplier n => exact all_wordChar_numbered (by decide +kernel) n
  | relu | linear | store | inject => decide +kernel

theorem Place.all_wordChar (p : Place) : p.text.toList.all isWordChar = true := by
  cases p with
  | final => decide
  | inner n => exact all_wordChar_numbered (by decide) n

theorem TypeName.all_wordChar (t : TypeName) : t.text.toList.all isWordChar = true := by
  cases t with
  | result p => exact all_wordChar_append (by decide +kernel) p.all_wordChar
  | narrowResult p =>
    exact all_wordChar_append (all_wordChar_append (by decide +kernel) p.all_wordChar) (by decide +kernel)
  | sum n => exact all_wordChar_numbered (by decide +kernel) n
  | wide | narrow | relu | input | weights | biases | inputZeroPoint | outputZeroPoint | inputScale | outputScale
    | weightScale => decide +kernel

theorem words_name (n : Name) : words n.text = [n.text] := by
  have hall : n.text.toList.all isWordChar = true := by
    cases n with
    | type t => exact t.all_wordChar
    | symbol x => exact x.all_wordChar
  have hne : n.text ≠ "" := by
    intro h
    have hneutral := n.not_neutral
    rw [h] at hneutral
    revert hneutral
    decide
  exact words_eq_singleton hne (List.all_eq_true.mp hall)

theorem mentions_name {n : Name} (h : A n) : Mentions A n.text := by
  intro w hw
  rw [words_name, List.mem_singleton] at hw
  exact .inl ⟨n, h, hw.symm⟩

theorem Mentions.symbol {s : String} (h : Mentions A s) {x : Symbol} (hx : x.text ∈ words s) : A (.symbol x) := by
  rcases h x.text hx with ⟨n, hn, htext⟩ | hneutral
  · cases n with
    | symbol y => exact Symbol.text_injective htext ▸ hn
    | type t =>
      have htyped : "DataType".toList <+: x.text.toList := by
        rw [← htext]
        exact t.text_begins
      exact absurd htyped x.not_typed
  · rw [x.not_neutral] at hneutral
    cases hneutral

theorem mentions_literal (ns : List Name)
    (hs : ((wordsOf cs).all fun w => isNeutral w || ns.any fun n => n.text.toList == w) = true) (h : ∀ n ∈ ns, A n) :
    Mentions A (String.ofList cs) := by
  intro w hw
  rw [words, String.toList_ofList] at hw
  obtain ⟨ds, hds, rfl⟩ := List.mem_map.mp hw
  rw [String.toList_ofList]
  rcases Bool.or_eq_true_iff.mp (List.all_eq_true.mp hs ds hds) with hneutral | hany
  · exact .inr hneutral
  · obtain ⟨n, hn, htext⟩ := List.any_eq_true.mp hany
    refine .inl ⟨n, h n hn, ?_⟩
    rw [← beq_iff_eq.mp htext, String.ofList_toList]

theorem isNeutral_toDigits : isNeutral (Nat.toDigits 10 n) = true := by
  have hbegin : ['D', 'a', 't', 'a', 'T', 'y', 'p', 'e'].isPrefixOf (Nat.toDigits 10 n) = false := by
    rw [Bool.eq_false_iff]
    intro h
    have hmem : 'D' ∈ Nat.toDigits 10 n :=
      ( List.isPrefixOf_iff_prefix.mp h).subset (by decide)
    exact absurd (isDigit_of_mem_toDigits hmem) (by decide)
  have hempty : (Nat.toDigits 10 n).isEmpty = false := List.isEmpty_eq_false_iff.mpr Nat.toDigits_ne_nil
  rw [isNeutral, hbegin, stem_toDigits, digits_toDigits, hempty]
  decide

theorem words_nat : words (toString n) = [toString n] := by
  have hne : toString n ≠ "" := by
    rw [Nat.toString_eq_repr]
    exact Nat.repr_ne_empty
  refine words_eq_singleton hne fun c hc => ?_
  rw [Nat.toString_eq_repr, Nat.toList_repr] at hc
  exact isWordChar_of_mem_toDigits hc

theorem mentions_nat : Mentions A (toString n) := by
  intro w hw
  rw [words_nat, List.mem_singleton] at hw
  rw [hw, Nat.toString_eq_repr, Nat.toList_repr]
  exact .inr (isNeutral_toDigits n)

theorem mentions_int (n : Int) : Mentions A (toString n) := by
  rw [Int.toString_eq_repr, Int.repr_eq_if]
  split
  · exact mentions_nat n.toNat
  · exact (mentions_nat (-n).toNat).start (by decide) (by decide)

theorem mentions_dim (d : Option Int) : Mentions A (dimText d) := by
  cases d with
  | none => exact mentions_plain (by decide)
  | some n => exact mentions_int n

theorem isNeutral_label (cs : List Char) : isNeutral ('f' :: 'o' :: cs) = true := by
  have hshapes : ∀ y ∈ Symbol.shapes, y.1.take 2 ≠ ['f', 'o'] := by decide
  have hstem : Text.stem ('f' :: 'o' :: cs) = 'f' :: 'o' :: Text.stem cs := by simp [Text.stem]
  have hnone : Symbol.shapes.contains
      (Text.stem ('f' :: 'o' :: cs), (Text.digits ('f' :: 'o' :: cs)).isEmpty) = false := by
    rw [Bool.eq_false_iff, Ne, List.contains_iff_mem]
    intro hmem
    have htake := hshapes _ hmem
    rw [hstem] at htake
    exact htake rfl
  rw [isNeutral, hnone]
  rfl

theorem mentions_label {l : Label} (h : l.suffix.toList.all isWordChar = true) : Mentions A l.text := by
  have hmiddle : (if l.number ≥ 10 then "t" else "").toList.all isWordChar = true := by
    split <;> decide
  have hall : l.text.toList.all isWordChar = true :=
    all_wordChar_append (all_wordChar_append (all_wordChar_numbered (by decide) l.number) hmiddle) h
  have hbegin : l.text.toList = 'f' :: 'o' :: 'r' :: (toString l.number ++ (if l.number ≥ 10 then "t" else "") ++
      l.suffix).toList := by
    change ("for" ++ toString l.number ++ (if l.number ≥ 10 then "t" else "") ++ l.suffix).toList = _
    simp only [String.toList_append, List.append_assoc]
    rfl
  have hne : l.text ≠ "" := by
    intro hempty
    rw [hempty] at hbegin
    cases hbegin
  intro w hw
  rw [words_eq_singleton hne (List.all_eq_true.mp hall), List.mem_singleton] at hw
  rw [hw, hbegin]
  exact .inr (isNeutral_label _)

/-! ## Expressions, terms and statements -/

theorem mentions_index (i : Index) : Mentions A i.text := by
  have hall : ∀ i ∈ [Index.outputX, .outputY, .outputZ, .inputX, .inputY, .inputZ, .kernelX, .kernelY, .row, .column],
      isSilent i.text = true := by
    decide
  exact mentions_silent (hall i (by cases i <;> decide))

theorem mentions_expr (e : Expr) : Mentions A e.text := by
  induction e with
  | index i => exact mentions_index i
  | number n => exact mentions_dim n
  | add a b iha ihb | sub a b iha ihb | mul a b iha ihb => exact iha.glue (by decide) ihb

theorem mentions_bracketed (ts : List String) (h : ∀ t ∈ ts, Mentions A t) :
    Mentions A (String.join (ts.map fun t => "[" ++ t ++ "]")) ∧
      opens (String.join (ts.map fun t => "[" ++ t ++ "]")) = true := by
  apply mentions_join
  · intro t ht
    obtain ⟨u, hu, rfl⟩ := List.mem_map.mp ht
    rw [String.append_assoc]
    exact opens_append (by decide) (by decide) _
  · intro t ht
    obtain ⟨u, hu, rfl⟩ := List.mem_map.mp ht
    exact ((h u hu).start (by decide) (by decide)).stop (by decide)

theorem mentions_subscripts (es : List Expr) : Mentions A (subscriptText es) ∧ opens (subscriptText es) = true := by
  have h := mentions_bracketed (A := A) (es.map Expr.text) (by simp [mentions_expr])
  rw [List.map_map] at h
  exact h

theorem mentions_element {e : Element} (h : A (.symbol (.buffer e.buffer))) : Mentions A e.text := by
  have hsubscripts := mentions_subscripts (A := A) e.subscripts
  exact (mentions_name h).append_opens hsubscripts.1 hsubscripts.2

theorem mentions_dims (dims : List (Option Int)) : Mentions A (dimsText dims) ∧ opens (dimsText dims) = true := by
  have h := mentions_bracketed (A := A) (dims.map dimText) (by simp [mentions_dim])
  rw [List.map_map] at h
  exact h

theorem mentions_declaration {d : Declaration} (ht : A (.type d.type)) (hb : A (.symbol (.buffer d.buffer))) :
    Mentions A d.text := by
  have hdims := mentions_dims (A := A) d.dims
  exact ((mentions_name ht).glue (by decide) (mentions_name hb)).append_opens hdims.1 hdims.2

def callee : Activation → Option Symbol
  | .relu => some .relu
  | .linear => some .linear
  | .none | .softmax => none

def Term.Within (A : Name → Prop) : Term → Prop
  | element e => A (.symbol (.buffer e.buffer))
  | number _ => True
  | product a b => A (.symbol (.buffer a.buffer)) ∧ A (.symbol (.buffer b.buffer))
  | layerProduct n a b =>
    A (.symbol (.multiplier n)) ∧ A (.symbol (.buffer a.buffer)) ∧ A (.symbol (.buffer b.buffer))
  | activated a t => (∀ x ∈ callee a, A (.symbol x)) ∧ t.Within A

theorem mentions_term {t : Term} (h : t.Within A) : Mentions A t.text := by
  induction t with
  | element e => exact mentions_element h
  | number n => exact mentions_int n
  | product a b => exact (mentions_element h.1).glue (by decide) (mentions_element h.2)
  | layerProduct n a b =>
    exact (((mentions_name h.1).glue (by decide) (mentions_element h.2.1)).glue (by decide)
      (mentions_element h.2.2)).stop (by decide)
  | activated a t ih =>
    obtain ⟨hcallee, ht⟩ := h
    cases a with
    | relu => exact ((mentions_name (hcallee .relu rfl)).glue (by decide) (ih ht)).stop (by decide)
    | linear => exact ((mentions_name (hcallee .linear rfl)).glue (by decide) (ih ht)).stop (by decide)
    | none | softmax => exact ih ht

/-- A statement whose names are all given; what it quotes or says in a comment mentions no others. -/
def Stmt.Within (A : Name → Prop) : Stmt → Prop
  | comment s => Mentions A s
  | declare d _ => A (.type d.type) ∧ A (.symbol (.buffer d.buffer))
  | declareCells t => A (.type t) ∧ A (.symbol (.buffer .cell)) ∧ A (.symbol (.buffer .maximum))
  | define _ _ => True
  | assign e t | accumulate e t => A (.symbol (.buffer e.buffer)) ∧ t.Within A
  | keepMaximum => A (.symbol (.buffer .cell)) ∧ A (.symbol (.buffer .maximum))
  | requantize e wide t _ scale =>
    A (.symbol (.buffer e.buffer)) ∧ A (.type t) ∧ A (.symbol (.buffer wide.buffer)) ∧
      A (.symbol (.buffer scale.buffer)) ∧ A (.symbol (.buffer .inputScales)) ∧
      A (.symbol (.buffer .outputScales)) ∧ A (.symbol (.buffer .outputZeroPoints))
  | store _ what value _ _ _ => A (.symbol .store) ∧ Mentions A what ∧ A (.symbol (.buffer value.buffer))
  | injectFault n => A (.symbol .inject) ∧ A (.symbol (.buffer (.between n)))

theorem mentions_inputFactor (h : A (.symbol (.buffer .inputScales))) (q : Nat) :
    Mentions A ("*input_scale_factors[" ++ toString q ++ "]*") ∧
      opens ("*input_scale_factors[" ++ toString q ++ "]*") = true := by
  have hopen : Mentions A "*input_scale_factors[" :=
    mentions_literal [.symbol (.buffer .inputScales)] (by decide +kernel) (by simpa using h)
  refine ⟨(hopen.append_closes (mentions_nat q) (by decide)).stop (by decide), ?_⟩
  rw [String.append_assoc]
  exact opens_append (by decide) (by decide) _

theorem mentions_outputFactor (hout : A (.symbol (.buffer .outputScales)))
    (hzero : A (.symbol (.buffer .outputZeroPoints))) (q : Nat) :
    Mentions A ("/output_scale_factors[" ++ toString q ++ "] + output_zero_points[" ++ toString q ++ "]));") ∧
      opens ("/output_scale_factors[" ++ toString q ++ "] + output_zero_points[" ++ toString q ++ "]));") = true := by
  have hover : Mentions A "/output_scale_factors[" :=
    mentions_literal [.symbol (.buffer .outputScales)] (by decide +kernel) (by simpa using hout)
  have hplus : Mentions A "] + output_zero_points[" :=
    mentions_literal [.symbol (.buffer .outputZeroPoints)] (by decide +kernel) (by simpa using hzero)
  refine ⟨((((hover.append_closes (mentions_nat q) (by decide)).append_opens hplus (by decide)).append_closes
    (mentions_nat q) (closes_append _ (by decide) (by decide))).stop (by decide)), ?_⟩
  rw [String.append_assoc, String.append_assoc, String.append_assoc]
  exact opens_append (by decide) (by decide) _

theorem mentions_requantize {e wide scale : Element} {t : TypeName} {q : Nat}
    (h : (Stmt.requantize e wide t q scale).Within A) : Mentions A (Stmt.requantize e wide t q scale).text := by
  obtain ⟨he, ht, hwide, hscale, hin, hout, hzero⟩ := h
  obtain ⟨hfactor, hfactorOpens⟩ := mentions_inputFactor hin q
  obtain ⟨hrest, hrestOpens⟩ := mentions_outputFactor hout hzero q
  have hleft : Mentions A (e.text ++ " = " ++ t.text ++ "(Q_MIN_MAX(" ++ wide.text) :=
    ((mentions_element he).glue (by decide) (mentions_name ht)).glueText (isSilent_ofList (by decide))
      (by decide) (by decide) (by decide) (mentions_element hwide)
  exact ((hleft.append_opens hfactor hfactorOpens).append_closes (mentions_element hscale)
    (closes_append _ (by simp) (closes_append _ (by decide) (by decide)))).append_opens hrest hrestOpens

theorem mentions_stmt {st : Stmt} (h : st.Within A) : Mentions A st.text := by
  cases st with
  | comment s => exact Mentions.start (by decide) (by decide) h
  | declare d active =>
    have hsign : Mentions A (if active then "" else "//") ∧ closes (if active then "" else "//") = true := by
      cases active with
      | true => exact ⟨mentions_silent (by decide), by decide⟩
      | false => exact ⟨mentions_silent (by decide), by decide⟩
    exact (hsign.1.append_closes (mentions_declaration h.1 h.2) hsign.2).stop (by decide)
  | declareCells t =>
    exact (((mentions_name h.1).glue (by decide) (mentions_name h.2.1)).glue (by decide) (mentions_name h.2.2)).stop
      (by decide)
  | define i e =>
    have hint : isSilent "int " = true := isSilent_ofList (by decide)
    exact (((mentions_index i).start hint (by decide)).glue (by decide) (mentions_expr e)).stop (by decide)
  | assign e t | accumulate e t =>
    exact ((mentions_element h.1).glue (by decide) (mentions_term h.2)).stop (by decide)
  | keepMaximum =>
    exact mentions_literal [.symbol (.buffer .cell), .symbol (.buffer .maximum)] (by decide +kernel)
      (by simpa [Stmt.Within] using h)
  | requantize => exact mentions_requantize h
  | store n what value x y z =>
    obtain ⟨hstore, hwhat, hvalue⟩ := h
    have hcall : Mentions A ("STORE_DATA" ++ "(" ++ toString n ++ ", \"" ++ what) :=
      ((mentions_name hstore).glue (by decide) (mentions_nat n)).glue (by decide) hwhat
    have hfloat : isSilent "\", (float)" = true := isSilent_ofList (by decide)
    have hargument := hcall.glueText hfloat (by decide) (by decide) (by decide) (mentions_element hvalue)
    exact (((hargument.glue (by decide) (mentions_expr x)).glue (by decide) (mentions_expr y)).glue (by decide)
      (mentions_expr z)).stop (by decide)
  | injectFault n =>
    have hcall : Mentions A ("fault_injection" ++ "(&" ++ Symbol.text (.buffer (.between n)) ++ ", " ++ toString n ++
        ", faulty_layer, faulty_fmap, faulty_bit);") :=
      (((mentions_name h.1).glue (by decide) (mentions_name h.2)).glue (by decide) (mentions_nat n)).append_opens
        (mentions_plain (by decide)) (by decide)
    exact hcall

/-! ## Loops and trees -/

/-- The label of a loop, if it has one, is a single word. -/
def Head.Worded (h : Head) : Prop := ∀ l ∈ h.label, l.suffix.toList.all isWordChar = true

theorem mentions_head {h : Head} (hw : h.Worded) : Mentions A h.text := by
  obtain ⟨label, hlabel, hcloses, htext⟩ : ∃ label, Mentions A label ∧ closes label = true ∧
      h.text = label ++ (if h.spaced then "for (" else "for(") ++ "int " ++ h.index.text ++ " = 0; " ++ h.index.text ++
        " < " ++ dimText h.bound ++ "; " ++ h.index.text ++ "++)" := by
    unfold Head.text
    cases hl : h.label with
    | none => exact ⟨"", mentions_silent (by decide), by decide, rfl⟩
    | some l =>
      exact ⟨l.text ++ ": ", (mentions_label (hw l hl)).stop (by decide), closes_append _ (by decide) (by decide), rfl⟩
  have hfor : Mentions A (if h.spaced then "for (" else "for(") ∧
      closes (if h.spaced then "for (" else "for(") = true ∧ (if h.spaced then "for (" else "for(") ≠ "" := by
    cases h.spaced with
    | true => exact ⟨mentions_plain (by decide), by decide, by decide⟩
    | false => exact ⟨mentions_plain (by decide), by decide, by decide⟩
  have hint : Mentions A "int " := mentions_plain (by decide)
  have hopen := (hlabel.append_closes hfor.1 hcloses).append_closes hint (closes_append _ hfor.2.2 hfor.2.1)
  have hhead := hopen.append_closes (mentions_index h.index) (closes_append _ (by decide) (by decide))
  have hzero := hhead.append_opens (b := " = 0; ") (mentions_silent (by decide)) (by decide)
  rw [htext]
  exact ((((hzero.append_closes (mentions_index h.index) (closes_append _ (by decide) (by decide))).glue (by decide)
    (mentions_dim h.bound)).glue (by decide) (mentions_index h.index)).stop (by decide))

theorem mentions_bounds (b : Bounds) : Mentions A b.text := by
  have hrows : Mentions A ("if (row_index >= 0 && row_index < " ++ toString b.rows) :=
    (mentions_int b.rows).start (isSilent_ofList (by decide)) (by decide)
  have hcolumns : isSilent " && col_index >= 0 && col_index < " = true := isSilent_ofList (by decide)
  exact (hrows.glueText hcolumns (by decide) (by decide) (by decide) (mentions_int b.columns)).stop (by decide)

mutual

/-- A tree whose statements have only the given names; on one line with a loop there is a single statement. -/
def Tree.Within (A : Name → Prop) : Tree → Prop
  | .stmt s => s.Within A
  | .blank => True
  | .loop h layout body => h.Worded ∧ Tree.AllWithin A body ∧ (layout = .sameLine → ∃ s, body = [.stmt s])
  | .choose _ inside outside => inside.Within A ∧ ∀ s ∈ outside, s.Within A
  | .simulated body => Tree.AllWithin A body
  | .watched s stored => s.Within A ∧ ∀ t ∈ stored, t.Within A

def Tree.AllWithin (A : Name → Prop) : List Tree → Prop
  | [] => True
  | t :: ts => t.Within A ∧ Tree.AllWithin A ts

end

@[simp] theorem Tree.allWithin_append {us : List Tree} :
    Tree.AllWithin A (ts ++ us) ↔ Tree.AllWithin A ts ∧ Tree.AllWithin A us := by
  induction ts with
  | nil => simp [Tree.AllWithin]
  | cons t ts ih => rw [List.cons_append, Tree.AllWithin, Tree.AllWithin, ih, and_assoc]

@[simp] theorem Tree.allWithin_ofStmts {ss : List Stmt} :
    Tree.AllWithin A (Tree.ofStmts ss) ↔ ∀ s ∈ ss, s.Within A := by
  induction ss with
  | nil => simp [Tree.ofStmts, Tree.AllWithin]
  | cons s ss ih =>
    rw [List.forall_mem_cons, ← ih]
    rfl

theorem Tree.allWithin_nest {heads : List Head} {body : List Tree} (hh : ∀ h ∈ heads, h.Worded)
    (hb : Tree.AllWithin A body) : Tree.AllWithin A (Site.nest heads body) := by
  induction heads with
  | nil => exact hb
  | cons h heads ih =>
    have hinner := ih fun k hk => hh k (List.mem_cons_of_mem h hk)
    exact ⟨⟨hh h List.mem_cons_self, hinner, nofun⟩, trivial⟩

mutual

theorem mentions_tree : ∀ t : Tree, t.Within A → ∀ s ∈ Instr.textsAll t.instrs, Mentions A s
  | .stmt st, h => by simpa [Tree.instrs, Instr.textsAll, Instr.texts] using mentions_stmt h
  | .blank, _ => by simp [Tree.instrs, Instr.textsAll, Instr.texts]
  | .loop hd layout body, h => by
    obtain ⟨hw, hbody, hline⟩ := h
    have hhead : Mentions A hd.text := mentions_head hw
    have hinner := mentions_trees body hbody
    cases layout with
    | sameLine =>
      obtain ⟨st, rfl⟩ := hline rfl
      have hst : Mentions A st.text := mentions_stmt hbody.1
      have htext : Mentions A (hd.text ++ " " ++ String.join (inlineTexts [.stmt st])) :=
        hhead.glue (by decide) (by simpa [inlineTexts, String.join_cons] using hst)
      simpa [Tree.instrs, Instr.textsAll, Instr.texts] using htext
    | deeper | braced | flush =>
      simp only [Tree.instrs, Instr.textsAll, Instr.texts]
      simpa using And.intro hhead hinner
  | .choose b inside outside, h => by
    have helse : Mentions A "else" := mentions_plain (by decide)
    obtain ⟨hin, hout⟩ := h
    cases outside with
    | none => simpa [Tree.instrs, Instr.textsAll, Instr.texts] using ⟨mentions_bounds b, mentions_stmt hin⟩
    | some st =>
      simpa [Tree.instrs, Instr.textsAll, Instr.texts] using
        ⟨mentions_bounds b, mentions_stmt hin, helse, mentions_stmt (hout st rfl)⟩
  | .simulated body, h => by
    have hbegin : Mentions A beginSimulated := mentions_plain (by decide)
    have hend : Mentions A endSimulated := mentions_plain (by decide)
    have hinner := mentions_trees body h
    simp only [Tree.instrs, List.cons_append, Instr.textsAll, Instr.textsAll_append, Instr.texts, List.nil_append,
      List.append_nil, List.forall_mem_cons, List.forall_mem_append]
    exact ⟨hbegin, hinner, hend, by simp⟩
  | .watched st stored, h => by
    have hbegin : Mentions A beginSimulated := mentions_plain (by decide)
    have hend : Mentions A endSimulated := mentions_plain (by decide)
    have hopen : Mentions A "\x7b" := mentions_silent (by decide)
    have hclose : Mentions A "\x7d" := mentions_silent (by decide)
    have hstored : ∀ t ∈ stored.map Stmt.text, Mentions A t := by
      intro t ht
      obtain ⟨u, hu, rfl⟩ := List.mem_map.mp ht
      exact mentions_stmt (h.2 u hu)
    simp only [Tree.instrs, Instr.textsAll, Instr.texts, List.cons_append, List.nil_append, List.append_nil,
      List.forall_mem_cons, List.forall_mem_append]
    exact ⟨hbegin, hopen, hend, mentions_stmt h.1, hbegin, hstored, hclose, hend, by simp⟩

theorem mentions_trees : ∀ ts : List Tree, Tree.AllWithin A ts → ∀ s ∈ Instr.textsAll (instrsAll ts), Mentions A s
  | [], _ => by simp [instrsAll, Instr.textsAll]
  | t :: ts, h => by
    intro s hs
    rw [instrsAll, Instr.textsAll_append] at hs
    rcases List.mem_append.mp hs with hs | hs
    · exact mentions_tree t h.1 s hs
    · exact mentions_trees ts h.2 s hs

end

/-- Every text that the trees write mentions only the given names. -/
def Tree.AllMention (A : Name → Prop) (ts : List Tree) : Prop := ∀ s ∈ Instr.textsAll (instrsAll ts), Mentions A s

theorem instrsAll_append (ts us : List Tree) : instrsAll (ts ++ us) = instrsAll ts ++ instrsAll us := by
  induction ts with
  | nil => rfl
  | cons t ts ih => rw [List.cons_append, instrsAll, instrsAll, ih, List.append_assoc]

theorem Tree.AllMention.append {us : List Tree} (ht : Tree.AllMention A ts) (hu : Tree.AllMention A us) :
    Tree.AllMention A (ts ++ us) := by
  unfold Tree.AllMention
  rw [instrsAll_append, Instr.textsAll_append]
  exact List.forall_mem_append.mpr ⟨ht, hu⟩

theorem Tree.AllMention.mono (h : Tree.AllMention A ts) (hAB : ∀ n, A n → B n) : Tree.AllMention B ts :=
  fun s hs => (h s hs).mono hAB

mutual

theorem Tree.instrs_steady : ∀ t : Tree, Instr.allSteady t.instrs = true
  | .stmt _ | .blank => rfl
  | .loop _ layout body => by
    have hbody := instrsAll_steady body
    cases layout with
    | sameLine => rfl
    | deeper | braced => simpa [Tree.instrs, Instr.allSteady, Instr.isSteady] using hbody
    | flush => simpa [Tree.instrs, Instr.allSteady, Instr.isSteady] using hbody
  | .choose _ _ outside => by cases outside <;> rfl
  | .simulated body => by simpa [Tree.instrs, Instr.allSteady, Instr.isSteady] using instrsAll_steady body
  | .watched _ _ => rfl

theorem instrsAll_steady : ∀ ts : List Tree, Instr.allSteady (instrsAll ts) = true
  | [] => rfl
  | t :: ts => by
    rw [instrsAll, Instr.allSteady_append, Tree.instrs_steady t, instrsAll_steady ts]
    rfl

end

theorem Tree.AllMention.render (h : Tree.AllMention A ts) : Mentions A (render (instrsAll ts)) := by
  intro w hw
  rw [words_render (instrsAll_steady ts)] at hw
  obtain ⟨s, hs, hws⟩ := List.mem_flatMap.mp hw
  exact h s hs w hws

end LayerLoops.Code
