import LayerLoops.Proofs.Vocabulary

/-! # Positions in the arrays of factors

The weighted layers of a quantized network share four arrays of factors. Wherever a line of the code of a layer names
one of them, the next word is the numeral of one and the same position. -/

namespace LayerLoops

open Code Text

namespace Code

/-- Each name of an array of factors is followed by the numeral. -/
def Selects (k : Nat) (ws : List String) : Prop :=
  ∀ b ∈ Site.factorBuffers, ∀ i, ws[i]? = some b.text → ws[i + 1]? = some (toString k)

def NoFactor : Name → Prop
  | .symbol (.buffer b) => b ∉ Site.factorBuffers
  | _ => True

variable {A : Name → Prop} {k : Nat}

/-! ## Words -/

theorem Selects.append {ws vs : List String} (hw : Selects k ws) (hv : Selects k vs) : Selects k (ws ++ vs) := by
  intro b hb i hi
  by_cases hlt : i < ws.length
  · rw [List.getElem?_append_left hlt] at hi
    have hnext := hw b hb i hi
    obtain ⟨hlt', -⟩ := List.getElem?_eq_some_iff.mp hnext
    rw [List.getElem?_append_left hlt', hnext]
  · rw [List.getElem?_append_right (Nat.le_of_not_lt hlt)] at hi
    rw [List.getElem?_append_right (by omega), Nat.sub_add_comm (Nat.le_of_not_lt hlt)]
    exact hv b hb _ hi

theorem Mentions.factor_not_mem {s : String} (h : Mentions NoFactor s) {b : Buffer} (hb : b ∈ Site.factorBuffers) :
    b.text ∉ words s :=
  fun hw => h.symbol (x := .buffer b) hw hb

theorem Mentions.selects {s : String} (h : Mentions NoFactor s) : Selects k (words s) :=
  fun _ hb _ hi => absurd (List.mem_of_getElem? hi) (h.factor_not_mem hb)

theorem selects_pair (b : Buffer) (k : Nat) : Selects k [b.text, toString k] := by
  intro b' hb' i hi
  match i with
  | 0 => rfl
  | 1 =>
    have hnumeral : Mentions NoFactor (toString k) := mentions_nat k
    refine absurd ?_ (hnumeral.factor_not_mem hb')
    rw [words_nat, ← Option.some.inj hi]
    exact List.mem_singleton_self _
  | i + 2 => cases hi

/-! ## Statements -/

/-- What a statement of a layer does with the arrays of factors: nothing, or it takes the zero point of the input in the
place of an element outside of it, or it scales a result. -/
inductive Selecting (k : Nat) : Stmt → Prop
  | none {st : Stmt} : st.Within NoFactor → Selecting k st
  | outside {sum weight : Element} : NoFactor (.symbol (.buffer sum.buffer)) →
      NoFactor (.symbol (.buffer weight.buffer)) →
      Selecting k (.accumulate sum (.product (factor .inputZeroPoints k) weight))
  | scaled {target wide scale : Element} {t : TypeName} : NoFactor (.symbol (.buffer target.buffer)) →
      NoFactor (.symbol (.buffer wide.buffer)) → NoFactor (.symbol (.buffer scale.buffer)) →
      Selecting k (.requantize target wide t k scale)

theorem words_factor (b : Buffer) (k : Nat) : words (factor b k).text = [b.text, toString k] := by
  have hnumeral : dimText (some (k : Int)) = toString k := rfl
  have htext : (factor b k).text = b.text ++ ("[" ++ toString k ++ "]") := by
    simp [factor, Element.text, subscriptText, Expr.text, hnumeral, String.join_cons]
  have hopens : opens ("[" ++ toString k ++ "]") = true := by
    rw [String.append_assoc]
    exact opens_append (by decide) (by decide) _
  have hclose : words "]" = [] := by decide
  have hopen : words "[" = [] := by decide
  rw [htext, words_append_of_opens _ hopens, words_append_of_opens _ (by decide), words_append_of_closes (by decide),
    words_nat, hopen, hclose]
  exact congrArg (· ++ _) (words_name (.symbol (.buffer b)))

theorem selects_outside {sum weight : Element} (hsum : NoFactor (.symbol (.buffer sum.buffer)))
    (hweight : NoFactor (.symbol (.buffer weight.buffer))) (b : Buffer) (k : Nat) :
    Selects k (words (Stmt.accumulate sum (.product (factor b k) weight)).text) := by
  have hleft : Mentions NoFactor (sum.text ++ " += ") := (mentions_element hsum).stop (by decide)
  have hright : Mentions NoFactor (" * " ++ weight.text ++ ";") :=
    ((mentions_element hweight).start (by decide) (by decide)).stop (by decide)
  have htext : (Stmt.accumulate sum (.product (factor b k) weight)).text =
      sum.text ++ " += " ++ (factor b k).text ++ (" * " ++ weight.text ++ ";") := by
    change sum.text ++ " += " ++ ((factor b k).text ++ " * " ++ weight.text) ++ ";" = _
    simp only [String.append_assoc]
  have hopens : opens (" * " ++ weight.text ++ ";") = true := by
    rw [String.append_assoc]
    exact opens_append (by decide) (by decide) _
  have hcloses : closes (sum.text ++ " += ") = true := closes_append _ (by decide) (by decide)
  rw [htext, words_append_of_opens _ hopens, words_append_of_closes hcloses, words_factor]
  exact (hleft.selects.append (selects_pair b k)).append hright.selects

theorem selects_scaled {target wide scale : Element} {t : TypeName}
    (htarget : NoFactor (.symbol (.buffer target.buffer))) (hwide : NoFactor (.symbol (.buffer wide.buffer)))
    (hscale : NoFactor (.symbol (.buffer scale.buffer))) (k : Nat) :
    Selects k (words (Stmt.requantize target wide t k scale).text) := by
  have hleft : Mentions NoFactor (target.text ++ " = " ++ t.text ++ "(Q_MIN_MAX(" ++ wide.text) :=
    ((mentions_element htarget).glue (by decide) (mentions_name (n := .type t) trivial)).glueText
      (isSilent_ofList (by decide)) (by decide) (by decide) (by decide) (mentions_element hwide)
  have hinput : words ("*input_scale_factors[" ++ toString k ++ "]*") = [Buffer.inputScales.text, toString k] := by
    have hname : words "*input_scale_factors[" = [Buffer.inputScales.text] := by decide +kernel
    have hend : words "]*" = [] := by decide
    rw [words_append_of_opens _ (by decide), words_append_of_closes (by decide), hname, words_nat, hend]
    rfl
  have houtput : words ("/output_scale_factors[" ++ toString k ++ "] + output_zero_points[" ++ toString k ++ "]));") =
      [Buffer.outputScales.text, toString k] ++ [Buffer.outputZeroPoints.text, toString k] := by
    have hscales : words "/output_scale_factors[" = [Buffer.outputScales.text] := by decide +kernel
    have hzero : words "] + output_zero_points[" = [Buffer.outputZeroPoints.text] := by decide +kernel
    have hend : words "]));" = [] := by decide
    rw [words_append_of_opens _ (by decide), words_append_of_closes (closes_append _ (by decide) (by decide)),
      words_append_of_opens _ (by decide), words_append_of_closes (by decide), hscales, hzero, words_nat, hend]
    rfl
  have hopens : opens ("*input_scale_factors[" ++ toString k ++ "]*") = true := by
    rw [String.append_assoc]
    exact opens_append (by decide) (by decide) _
  have hopens' : opens ("/output_scale_factors[" ++ toString k ++ "] + output_zero_points[" ++ toString k ++ "]));") =
      true := by
    simp only [String.append_assoc]
    exact opens_append (by decide) (by decide) _
  have hwords : words (Stmt.requantize target wide t k scale).text =
      words (target.text ++ " = " ++ t.text ++ "(Q_MIN_MAX(" ++ wide.text) ++
        [Buffer.inputScales.text, toString k] ++ words scale.text ++
        ([Buffer.outputScales.text, toString k] ++ [Buffer.outputZeroPoints.text, toString k]) := by
    rw [← hinput, ← houtput, ← words_append_of_opens _ hopens,
      ← words_append_of_closes (closes_append _ (by simp) (closes_append _ (by decide) (by decide))),
      ← words_append_of_opens _ hopens']
    rfl
  rw [hwords]
  exact ((hleft.selects.append (selects_pair _ k)).append (mentions_element hscale).selects).append
    ((selects_pair _ k).append (selects_pair _ k))

theorem Selecting.selects {st : Stmt} (h : Selecting k st) : Selects k (words st.text) := by
  cases h with
  | none h => exact (mentions_stmt h).selects
  | outside hsum hweight => exact selects_outside hsum hweight _ k
  | scaled htarget hwide hscale => exact selects_scaled htarget hwide hscale k

/-! ## Trees -/

/-- No word of the text is a name, whatever names there are. -/
def Nameless (s : String) : Prop := ∀ A, Mentions A s

/-- A text that is written for a statement, alone or on one line with its loop. -/
def Stmt.Writes (st : Stmt) (s : String) : Prop := s = st.text ∨ ∃ head, Nameless head ∧ s = head ++ " " ++ st.text

mutual

theorem writes_tree : ∀ t : Tree, t.Within A → ∀ s ∈ Instr.textsAll t.instrs, Nameless s ∨ ∃ st ∈ t.stmts, st.Writes s
  | .stmt st, _ => by simpa [Tree.instrs, Instr.textsAll, Instr.texts, Tree.stmts] using .inr (.inl rfl)
  | .blank, _ => by simp [Tree.instrs, Instr.textsAll, Instr.texts]
  | .loop hd layout body, h => by
    obtain ⟨hw, hbody, hline⟩ := h
    have hhead : Nameless hd.text := fun _ => mentions_head hw
    have hinner := writes_trees body hbody
    cases layout with
    | sameLine =>
      obtain ⟨st, rfl⟩ := hline rfl
      intro s hs
      refine .inr ⟨st, by simp [Tree.stmts, stmtsAll], .inr ⟨hd.text, hhead, ?_⟩⟩
      simpa [Tree.instrs, Instr.textsAll, Instr.texts, inlineTexts, String.join_cons] using hs
    | deeper | braced | flush =>
      simp only [Tree.instrs, Instr.textsAll, Instr.texts, Tree.stmts]
      simpa using And.intro (.inl hhead) hinner
  | .choose b inside outside, _ => by
    have hbounds : Nameless b.text := fun _ => mentions_bounds b
    have helse : Nameless "else" := fun _ => mentions_plain (by decide)
    have hin : ∃ st ∈ (Tree.choose b inside outside).stmts, st.Writes inside.text :=
      ⟨inside, List.mem_cons_self, .inl rfl⟩
    cases outside with
    | none => simpa [Tree.instrs, Instr.textsAll, Instr.texts] using ⟨.inl hbounds, .inr hin⟩
    | some st =>
      have hout : ∃ u ∈ (Tree.choose b inside (some st)).stmts, u.Writes st.text :=
        ⟨st, List.mem_cons_of_mem _ List.mem_cons_self, .inl rfl⟩
      simpa [Tree.instrs, Instr.textsAll, Instr.texts] using ⟨.inl hbounds, .inr hin, .inl helse, .inr hout⟩
  | .simulated body, h => by
    have hbegin : Nameless beginSimulated := fun _ => mentions_plain (by decide)
    have hend : Nameless endSimulated := fun _ => mentions_plain (by decide)
    have hinner := writes_trees body h
    simp only [Tree.instrs, List.cons_append, Instr.textsAll, Instr.textsAll_append, Instr.texts, List.nil_append,
      List.append_nil, List.forall_mem_cons, List.forall_mem_append]
    exact ⟨.inl hbegin, hinner, .inl hend, by simp⟩
  | .watched st stored, _ => by
    have hbegin : Nameless beginSimulated := fun _ => mentions_plain (by decide)
    have hend : Nameless endSimulated := fun _ => mentions_plain (by decide)
    have hopen : Nameless "\x7b" := fun _ => mentions_silent (by decide)
    have hclose : Nameless "\x7d" := fun _ => mentions_silent (by decide)
    have hst : ∃ u ∈ (Tree.watched st stored).stmts, u.Writes st.text := ⟨st, List.mem_cons_self, .inl rfl⟩
    have hstored : ∀ s ∈ stored.map Stmt.text, Nameless s ∨ ∃ u ∈ (Tree.watched st stored).stmts, u.Writes s := by
      intro s hs
      obtain ⟨u, hu, rfl⟩ := List.mem_map.mp hs
      exact .inr ⟨u, List.mem_cons_of_mem _ hu, .inl rfl⟩
    simp only [Tree.instrs, Instr.textsAll, Instr.texts, List.cons_append, List.nil_append, List.append_nil,
      List.forall_mem_cons, List.forall_mem_append]
    exact ⟨.inl hbegin, .inl hopen, .inl hend, .inr hst, .inl hbegin, hstored, .inl hclose, .inl hend, by simp⟩

theorem writes_trees : ∀ ts : List Tree, Tree.AllWithin A ts → ∀ s ∈ Instr.textsAll (instrsAll ts),
    Nameless s ∨ ∃ st ∈ stmtsAll ts, st.Writes s
  | [], _ => by simp [instrsAll, Instr.textsAll]
  | t :: ts, h => by
    intro s hs
    rw [instrsAll, Instr.textsAll_append] at hs
    rcases List.mem_append.mp hs with hs | hs
    · refine (writes_tree t h.1 s hs).imp_right ?_
      rintro ⟨st, hst, hwrites⟩
      exact ⟨st, List.mem_append_left _ hst, hwrites⟩
    · refine (writes_trees ts h.2 s hs).imp_right ?_
      rintro ⟨st, hst, hwrites⟩
      exact ⟨st, List.mem_append_right _ hst, hwrites⟩

end

theorem Selecting.selects_of_writes {st : Stmt} (h : Selecting k st) {s : String} (hs : st.Writes s) :
    Selects k (words s) := by
  rcases hs with rfl | ⟨head, hhead, rfl⟩
  · exact h.selects
  · have hmiddle : closes (head ++ " ") = true := closes_append _ (by decide) (by decide)
    have hleft : Mentions NoFactor (head ++ " ") := (hhead NoFactor).stop (by decide)
    rw [words_append_of_closes hmiddle]
    exact hleft.selects.append h.selects

theorem selects_trees {ts : List Tree} (hts : Tree.AllWithin A ts) (h : ∀ st ∈ stmtsAll ts, Selecting k st) :
    ∀ s ∈ Instr.textsAll (instrsAll ts), Selects k (words s) := by
  intro s hs
  rcases writes_trees ts hts s hs with hnone | ⟨st, hst, hwrites⟩
  · exact (hnone NoFactor).selects
  · exact (h st hst).selects_of_writes hwrites

end Code

/-! ## The code of a layer -/

namespace Site

variable {s : Site}

theorem noFactor_callee {a : Activation} {x : Symbol} (h : x ∈ callee a) : NoFactor (.symbol x) := by
  cases a <;> cases h <;> trivial

theorem noFactor_admits (s : Site) : s.Admits NoFactor where
  input := by rcases s.input_cases with h | h <;> simp [h, NoFactor, factorBuffers]
  output := by rcases s.output_cases with h | h <;> simp [h, NoFactor, factorBuffers]
  base := by rcases s.base_cases with h | h | h | h <;> simp [h, NoFactor, factorBuffers]
  type := trivial
  outputType := trivial
  sum := by simp [NoFactor, factorBuffers]
  sumType := trivial
  weights := by simp [NoFactor, factorBuffers]
  biases _ := by simp [NoFactor, factorBuffers]
  activation _ := noFactor_callee
  multiplier _ := trivial
  store _ := trivial

theorem Uses.noFactor (hs : s.rescales = false) {n : Name} (h : s.Uses n) : NoFactor n := by
  have hadmits := s.noFactor_admits
  cases h with
  | input => exact hadmits.input
  | output => exact hadmits.output
  | base => exact hadmits.base
  | factor hr =>
    rw [hs] at hr
    cases hr
  | activation hx => exact noFactor_callee hx
  | type | outputType | sumType | multiplier | store => trivial
  | sum | weights | biases | scales | cell | maximum => simp [NoFactor, factorBuffers]

theorem stmts_innermost (h : Head) (body : Stmt) (stored : List Stmt) :
    (innermost h body stored).stmts = body :: stored := by
  cases stored <;> simp [innermost, Tree.stmts, stmtsAll]

theorem requantize_selecting (es : List Expr) (i : Index) :
    ∀ st ∈ s.requantize es i, Selecting (s.net.ordinal s.number) st := by
  intro st hst
  unfold requantize at hst
  split at hst
  · cases List.mem_singleton.mp hst
    exact .scaled s.noFactor_admits.output s.noFactor_admits.base (by simp [NoFactor, factorBuffers])
  · cases hst

theorem multiplyAdd_selecting {shape : Shape} {o : Operands} (ho : s.convOperands shape = .ok o) (h : Head)
    (es : List Expr) :
    ∀ st ∈ (s.multiplyAdd h ⟨.sum s.number, es⟩ o).stmts, Selecting (s.net.ordinal s.number) st := by
  obtain ⟨hinput, hweight, hdefs⟩ := convOperands_buffers ho
  have hadmits := s.noFactor_admits
  have hw : NoFactor (.symbol (.buffer o.weight.buffer)) := hweight ▸ hadmits.weights
  have hbody : (Stmt.accumulate ⟨.sum s.number, es⟩ (s.product o.input o.weight)).Within NoFactor :=
    ⟨hadmits.sum, product_within hadmits (hinput ▸ hadmits.input) hw⟩
  have hstored (st : Stmt) (hst : st ∈ s.storeWeight o.weight) : Selecting (s.net.ordinal s.number) st :=
    .none (storeWeight_within hadmits hweight st hst)
  unfold multiplyAdd
  dsimp only
  split
  · rw [stmts_innermost, List.forall_mem_cons]
    exact ⟨.none hbody, hstored⟩
  · rename_i defs bounds hpadded
    have hdefined : ∀ st ∈ defs, Selecting (s.net.ordinal s.number) st := by
      intro st hst
      obtain ⟨i, e, rfl⟩ := hdefs defs bounds hpadded st hst
      exact .none trivial
    have houtside : ∀ st ∈ (if s.config.quantized then some (Stmt.accumulate ⟨.sum s.number, es⟩ (.product
        ⟨.inputZeroPoints, [.number (some (s.net.ordinal s.number))]⟩ o.weight)) else none).toList,
        Selecting (s.net.ordinal s.number) st := by
      split
      · exact List.forall_mem_singleton.mpr (.outside hadmits.sum hw)
      · exact List.forall_mem_nil _
    have hafter : ∀ st ∈ stmtsAll (if (s.storeWeight o.weight).isEmpty then []
        else [Tree.simulated (Tree.ofStmts (s.storeWeight o.weight))]), Selecting (s.net.ordinal s.number) st := by
      split
      · exact List.forall_mem_nil _
      · simpa [stmtsAll, Tree.stmts] using hstored
    simp only [Tree.stmts, stmtsAll_append, stmtsAll_ofStmts, stmtsAll, List.append_nil, List.forall_mem_append,
      List.forall_mem_cons]
    exact ⟨⟨hdefined, .none hbody, houtside⟩, hafter⟩

theorem front_selecting (s : Site) (shape : Shape) (dims : List Int) (k : Nat) :
    ∀ st ∈ stmtsAll (s.header shape ++ s.declarations dims), Selecting k st := by
  have hadmits := s.noFactor_admits
  have hdeclared := declarations_within hadmits.type hadmits.base hadmits.outputType hadmits.output dims
  obtain ⟨htitle, hinput, houtput, -⟩ := s.header_within (A := NoFactor) shape
  rw [declarations, Tree.allWithin_ofStmts] at hdeclared
  rw [stmtsAll_append, declarations, stmtsAll_ofStmts, List.forall_mem_append]
  refine ⟨?_, fun st hst => .none (hdeclared st hst)⟩
  simp only [header, stmtsAll, Tree.stmts, List.forall_mem_append, List.forall_mem_singleton]
  exact ⟨.none htitle, .none hinput, .none houtput, List.forall_mem_nil _⟩

theorem conv_selecting {code : List Tree} (h : s.conv = .ok code) :
    ∀ st ∈ stmtsAll code, Selecting (s.net.ordinal s.number) st := by
  simp only [conv, bind_eq_ok, pure_eq_ok] at h
  obtain ⟨a, -, shape, -, c, -, o, ho, rfl⟩ := h
  have hadmits := s.noFactor_admits
  have hsum (h : Head) (es : List Expr) := multiplyAdd_selecting ho h es
  have hstart (es : List Expr) :
      Selecting (s.net.ordinal s.number) (.assign ⟨.sum s.number, es⟩ (s.initial .outputZ)) :=
    .none ⟨hadmits.sum, initial_within hadmits .outputZ⟩
  have hdeclare (dims : List (Option Int)) :
      Selecting (s.net.ordinal s.number) (.declare ⟨.sum s.number, .sum s.number, dims⟩ true) :=
    .none ⟨hadmits.sumType, hadmits.sum⟩
  have hfinish {target : Element} (ht : NoFactor (.symbol (.buffer target.buffer))) (es : List Expr) :
      Selecting (s.net.ordinal s.number) (.assign target (s.activate (.element ⟨.sum s.number, es⟩))) :=
    .none ⟨ht, activate_within hadmits hadmits.sum⟩
  rw [stmtsAll_append, List.forall_mem_append]
  refine ⟨s.front_selecting shape _ _, ?_⟩
  cases a with
  | scalar =>
    simp only [convScalar, reduction, stmtsAll_nest, stmtsAll, Tree.stmts, stmtsAll_append, stmtsAll_ofStmts,
      List.append_nil, List.forall_mem_append, List.forall_mem_cons]
    exact ⟨⟨⟨fun st hst => .none (storeBias_within hadmits _ _ _ st hst), hdeclare _, hstart _, List.forall_mem_nil _⟩,
      hsum _ _⟩, ⟨⟨hfinish hadmits.base _, List.forall_mem_nil _⟩, requantize_selecting _ _⟩,
      fun st hst => .none (storeOutput_within hadmits st hst)⟩
  | vector =>
    simp only [convVector, reduction, stmtsAll_nest, stmtsAll, Tree.stmts, stmtsAll_append,
      List.append_nil, List.nil_append, List.forall_mem_append, List.forall_mem_singleton]
    exact ⟨⟨⟨hdeclare _, hstart _⟩, hsum _ _⟩, hfinish hadmits.output _⟩
  | tile =>
    simp only [convTile, reduction, stmtsAll_nest, stmtsAll, Tree.stmts, stmtsAll_append,
      List.append_nil, List.forall_mem_append, List.forall_mem_singleton]
    exact ⟨⟨⟨hdeclare _, hstart _⟩, hsum _ _⟩, hfinish hadmits.output _⟩

theorem dense_selecting {code : List Tree} (h : s.dense = .ok code) :
    ∀ st ∈ stmtsAll code, Selecting (s.net.ordinal s.number) st := by
  simp only [dense, bind_eq_ok, pure_eq_ok] at h
  obtain ⟨shape, -, rfl⟩ := h
  have hadmits := s.noFactor_admits
  have hadd : (Stmt.accumulate ⟨.sum s.number, []⟩ (s.product ⟨s.input, [.index .inputX]⟩
      ⟨.weights s.number, [.index .inputX, .index .outputX]⟩)).Within NoFactor :=
    ⟨hadmits.sum, product_within hadmits hadmits.input hadmits.weights⟩
  rw [stmtsAll_append, List.forall_mem_append]
  refine ⟨s.front_selecting shape _ _, ?_⟩
  simp only [denseNest, stmtsAll, Tree.stmts, stmtsAll_append, stmtsAll_ofStmts, stmts_innermost, List.append_nil,
    List.forall_mem_append]
  exact ⟨⟨⟨fun st hst => .none (startSum_within hadmits _ st hst),
    fun st hst => .none (storeBias_within hadmits _ _ _ st hst)⟩, List.forall_mem_cons.mpr ⟨.none hadd,
    fun st hst => .none (storeWeight_within hadmits rfl st hst)⟩⟩,
    ⟨List.forall_mem_singleton.mpr (.none (finish_within hadmits _)), requantize_selecting _ _⟩,
    fun st hst => .none (storeOutput_within hadmits st hst)⟩

theorem code_noFactor {code : List Tree} (h : s.code = .ok code) (hs : s.rescales = false) :
    Tree.AllMention NoFactor code :=
  (code_mentions h).mono fun _ => Uses.noFactor hs

theorem code_selects {code : List Tree} (h : s.code = .ok code) :
    ∀ t ∈ Instr.textsAll (instrsAll code), Selects (s.net.ordinal s.number) (words t) := by
  have hweightless (hk : s.layer.kind.weighted = false) : s.rescales = false := by
    rw [rescales, Layer.weighted, hk, Bool.and_false]
  cases hk : s.layer.kind with
  | conv =>
    have hconv : s.conv = .ok code := by rwa [Site.code, hk] at h
    exact selects_trees (code_within h) (conv_selecting hconv)
  | dense =>
    have hdense : s.dense = .ok code := by rwa [Site.code, hk] at h
    exact selects_trees (code_within h) (dense_selecting hdense)
  | pooling | flatten => exact fun t ht => (code_noFactor h (hweightless (by rw [hk]; rfl)) t ht).selects

end Site
end LayerLoops
