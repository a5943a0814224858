import LayerLoops.Proofs.Lines
import LayerLoops.Proofs.Mentions

/-! # Renaming buffers

Buffers of generated code are renamed in its tree, or by replacing words in its lines. The two agree: a buffer is always
written as a word of its own, and no other word is touched. -/

namespace LayerLoops

namespace Text

variable {f : String → String}

def renameWord (f : String → String) (w : List Char) : List Char :=
  if w.isEmpty then [] else (f (String.ofList w)).toList

/-- The characters with every word renamed; `w` is the part of a word that stands in front of them. -/
def renameFrom (f : String → String) (w : List Char) : List Char → List Char
  | [] => renameWord f w
  | c :: cs => if isWordChar c then renameFrom f (w ++ [c]) cs else renameWord f w ++ c :: renameFrom f [] cs

def rename (f : String → String) (s : String) : String := String.ofList (renameFrom f [] s.toList)

theorem toList_rename (f : String → String) (s : String) : (rename f s).toList = renameFrom f [] s.toList := by
  rw [rename, String.toList_ofList]

@[simp] theorem rename_empty : rename f "" = "" := rfl

theorem renameFrom_append_break {c : Char} (hc : isWordChar c = false) (a b w : List Char) :
    renameFrom f w (a ++ c :: b) = renameFrom f w a ++ c :: renameFrom f [] b := by
  induction a generalizing w with
  | nil => simp [renameFrom, hc]
  | cons d a ih =>
    rw [List.cons_append, renameFrom, renameFrom]
    split
    · exact ih (w ++ [d])
    · rw [ih [], List.append_assoc, List.cons_append]

theorem rename_append_of_closes {a : String} (h : closes a = true) (b : String) :
    rename f (a ++ b) = rename f a ++ rename f b := by
  rw [← String.toList_inj, toList_rename, String.toList_append, String.toList_append, toList_rename, toList_rename]
  rcases closes_cases h with rfl | ⟨x, c, ha, hc⟩
  · rfl
  · rw [ha, List.append_assoc, List.singleton_append, renameFrom_append_break hc, renameFrom_append_break hc]
    simp [renameFrom, renameWord]

theorem rename_append_of_opens (a : String) {b : String} (h : opens b = true) :
    rename f (a ++ b) = rename f a ++ rename f b := by
  rw [← String.toList_inj, toList_rename, String.toList_append, String.toList_append, toList_rename, toList_rename]
  rcases opens_cases h with rfl | ⟨c, x, hb, hc⟩
  · simp [renameFrom, renameWord]
  · rw [hb, renameFrom_append_break hc]
    simp [renameFrom, renameWord, hc]

theorem renameFrom_word {cs : List Char} (h : ∀ c ∈ cs, isWordChar c = true) (w : List Char) :
    renameFrom f w cs = renameWord f (w ++ cs) := by
  induction cs generalizing w with
  | nil => rw [renameFrom, List.append_nil]
  | cons c cs ih =>
    obtain ⟨hc, hcs⟩ := List.forall_mem_cons.mp h
    rw [renameFrom, if_pos hc, ih hcs, List.append_assoc, List.singleton_append]

theorem rename_word {s : String} (hs : s ≠ "") (h : ∀ c ∈ s.toList, isWordChar c = true) : rename f s = f s := by
  have hne : s.toList.isEmpty = false := by
    rw [List.isEmpty_eq_false_iff]
    exact fun hnil => hs (String.toList_eq_nil_iff.mp hnil)
  rw [rename, renameFrom_word h, List.nil_append, renameWord, hne, String.ofList_toList]
  exact String.ofList_toList

theorem renameWord_eq_self {w : List Char} (hw : ∀ c ∈ w, isWordChar c = true)
    (h : ∀ v ∈ wordsOf w, f (String.ofList v) = String.ofList v) : renameWord f w = w := by
  unfold renameWord
  split
  · rename_i hempty
    exact (List.isEmpty_iff.mp hempty).symm
  · rename_i hempty
    have hsplit : w.splitOnP (fun c => !isWordChar c) = [w] := List.splitOnP_eq_singleton fun c hc => by simp [hw c hc]
    have hmem : w ∈ wordsOf w := by simp [wordsOf, hsplit, hempty]
    rw [h w hmem, String.toList_ofList]

theorem renameFrom_eq_self {w cs : List Char} (hw : ∀ c ∈ w, isWordChar c = true)
    (h : ∀ v ∈ wordsOf (w ++ cs), f (String.ofList v) = String.ofList v) : renameFrom f w cs = w ++ cs := by
  induction cs generalizing w with
  | nil =>
    rw [List.append_nil] at h ⊢
    exact renameWord_eq_self hw h
  | cons c cs ih =>
    rw [renameFrom]
    split
    · rename_i hc
      have hmore : ∀ d ∈ w ++ [c], isWordChar d = true := List.forall_mem_append.mpr ⟨hw, by simpa using hc⟩
      rw [List.append_cons w c cs] at h ⊢
      exact ih hmore h
    · rename_i hc
      rw [wordsOf_append_break (by simpa using hc), List.forall_mem_append] at h
      rw [renameWord_eq_self hw h.1, ih (List.forall_mem_nil _) h.2, List.nil_append]

theorem rename_eq_self {s : String} (h : ∀ w ∈ words s, f w = w) : rename f s = s := by
  have hself : renameFrom f [] s.toList = [] ++ s.toList :=
    renameFrom_eq_self (List.forall_mem_nil _) fun v hv => h _ (List.mem_map_of_mem hv)
  rw [rename, hself, List.nil_append, String.ofList_toList]

theorem renameFrom_ne_nil (hf : ∀ w, w ≠ "" → f w ≠ "") {w cs : List Char} (h : w ++ cs ≠ []) :
    renameFrom f w cs ≠ [] := by
  have hword : ∀ w : List Char, w ≠ [] → renameWord f w ≠ [] := by
    intro w hw
    rw [renameWord, if_neg (by simpa using hw), ne_eq, String.toList_eq_nil_iff]
    exact hf _ (by simpa using hw)
  induction cs generalizing w with
  | nil => exact hword w (by simpa using h)
  | cons c cs ih =>
    rw [renameFrom]
    split
    · exact ih (by simp)
    · simp

theorem rename_indent (hf : ∀ w, w ≠ "" → f w ≠ "") (level : Int) (t : String) :
    rename f (indent level t) = indent level (rename f t) := by
  by_cases ht : t = ""
  · rw [ht]
    rfl
  · have hrenamed : rename f t ≠ "" := by
      rw [ne_eq, ← String.toList_eq_nil_iff, toList_rename]
      exact renameFrom_ne_nil hf (by simpa using ht)
    have htabs : closes ("".pushn '\t' level.toNat) = true := by
      rw [closes, toList_tabs, Option.all_eq_true]
      intro c hc
      rw [List.eq_of_mem_replicate (List.mem_of_getLast? hc)]
      decide
    have hself : rename f ("".pushn '\t' level.toNat) = "".pushn '\t' level.toNat := by
      refine rename_eq_self fun w hw => ?_
      rw [words, ← List.append_nil ("".pushn _ _).toList, wordsOf_tabs] at hw
      cases hw
    rw [indent, indent, if_neg (by simpa using ht), if_neg (by simpa using hrenamed), rename_append_of_closes htabs,
      hself]

end Text

open Text

namespace Code

/-- What each buffer is renamed to; the first pair for a buffer counts. -/
abbrev Renaming := List (Buffer × Buffer)

namespace Renaming

def buffer (r : Renaming) (b : Buffer) : Buffer := (r.lookup b).getD b

def word (r : Renaming) (w : String) : String := ((r.map fun x => (x.1.text, x.2.text)).lookup w).getD w

@[simp] theorem buffer_nil (b : Buffer) : buffer [] b = b := rfl

theorem buffer_cons (a a' : Buffer) (r : Renaming) (b : Buffer) :
    buffer ((a, a') :: r) b = if b = a then a' else r.buffer b := by
  rw [buffer, List.lookup_cons]
  by_cases h : b = a
  · rw [if_pos h, beq_iff_eq.mpr h]
    rfl
  · rw [if_neg h, beq_false_of_ne h]
    rfl

theorem word_cons (a a' : Buffer) (r : Renaming) (w : String) :
    word ((a, a') :: r) w = if w = a.text then a'.text else r.word w := by
  rw [word, List.map_cons, List.lookup_cons]
  by_cases h : w = a.text
  · rw [if_pos h, beq_iff_eq.mpr h]
    rfl
  · rw [if_neg h, beq_false_of_ne h]
    rfl

theorem word_text (r : Renaming) (b : Buffer) : r.word b.text = (r.buffer b).text := by
  induction r with
  | nil => rfl
  | cons x r ih =>
    obtain ⟨a, a'⟩ := x
    rw [word_cons, buffer_cons, ih]
    by_cases h : b = a
    · rw [if_pos (congrArg Buffer.text h), if_pos h]
    · rw [if_neg (Buffer.text_injective.ne h), if_neg h]

theorem word_other (r : Renaming) {w : String} (h : ∀ b : Buffer, b.text ≠ w) : r.word w = w := by
  induction r with
  | nil => rfl
  | cons x r ih => rw [word_cons, if_neg (h x.1).symm, ih]

theorem buffer_text_ne (b : Buffer) : b.text ≠ "" := by
  intro h
  have hneutral := (Symbol.buffer b).not_neutral
  rw [Symbol.text, h] at hneutral
  revert hneutral
  decide

theorem word_ne (r : Renaming) {w : String} (h : w ≠ "") : r.word w ≠ "" := by
  by_cases hb : ∃ b : Buffer, b.text = w
  · obtain ⟨b, rfl⟩ := hb
    rw [word_text]
    exact buffer_text_ne _
  · rw [word_other r (not_exists.mp hb)]
    exact h

def Fixes (r : Renaming) (A : Name → Prop) : Prop := ∀ b, A (.symbol (.buffer b)) → r.buffer b = b

end Renaming

section Rename

variable {r : Renaming} {A : Name → Prop} (hr : r.Fixes A)

include hr

theorem word_name {n : Name} (h : A n) : r.word n.text = n.text := by
  cases n with
  | type t =>
    refine r.word_other fun b hb => (Symbol.buffer b).not_typed ?_
    rw [Symbol.text, hb]
    exact t.text_begins
  | symbol x =>
    by_cases hx : ∃ b, x = .buffer b
    · obtain ⟨b, rfl⟩ := hx
      exact (r.word_text b).trans (congrArg Buffer.text (hr b h))
    · refine r.word_other fun b hb => ?_
      have htext : (Symbol.buffer b).text = x.text := hb
      exact hx ⟨b, (Symbol.text_injective htext).symm⟩

theorem rename_of_mentions {s : String} (h : Mentions A s) : rename r.word s = s := by
  refine rename_eq_self fun w hw => ?_
  rcases h w hw with ⟨n, hn, rfl⟩ | hneutral
  · exact word_name hr hn
  · refine r.word_other fun b hb => ?_
    have hname := (Symbol.buffer b).not_neutral
    rw [Symbol.text, hb, hneutral] at hname
    cases hname

end Rename

/-! ## Breaks -/

section Breaks

variable {f : String → String}

theorem rename_break {sep : String} (h : isBreak sep = true) : rename f sep = sep := by
  refine rename_eq_self fun w hw => ?_
  simp only [isBreak, Bool.and_eq_true, List.all_eq_true, Bool.not_eq_true'] at h
  rw [words, wordsOf_of_breaks h.2] at hw
  cases hw

theorem rename_glue (a b : String) {sep : String} (h : isBreak sep = true) :
    rename f (a ++ sep ++ b) = rename f a ++ sep ++ rename f b := by
  obtain ⟨-, ho, hc, hne⟩ := isBreak_cases h
  rw [rename_append_of_closes (closes_append a hne hc), rename_append_of_opens a ho, rename_break h]

theorem rename_stop (a : String) {sep : String} (h : isBreak sep = true) : rename f (a ++ sep) = rename f a ++ sep := by
  obtain ⟨-, ho, -, -⟩ := isBreak_cases h
  rw [rename_append_of_opens a ho, rename_break h]

end Breaks

/-! ## Renamed code -/

def Element.rename (r : Renaming) (e : Element) : Element := { e with buffer := r.buffer e.buffer }

def Term.rename (r : Renaming) : Term → Term
  | element e => element (e.rename r)
  | number n => number n
  | product a b => product (a.rename r) (b.rename r)
  | layerProduct n a b => layerProduct n (a.rename r) (b.rename r)
  | activated a t => activated a (t.rename r)

def Declaration.rename (r : Renaming) (d : Declaration) : Declaration := { d with buffer := r.buffer d.buffer }

def Stmt.rename (r : Renaming) : Stmt → Stmt
  | comment text => comment text
  | declare d active => declare (d.rename r) active
  | declareCells type => declareCells type
  | define i e => define i e
  | assign e t => assign (e.rename r) (t.rename r)
  | accumulate e t => accumulate (e.rename r) (t.rename r)
  | keepMaximum => keepMaximum
  | requantize e wide type q scale => requantize (e.rename r) (wide.rename r) type q (scale.rename r)
  | store n what value x y z => store n what (value.rename r) x y z
  | injectFault n => injectFault n

mutual

def Tree.rename (r : Renaming) : Tree → Tree
  | .stmt st => .stmt (st.rename r)
  | .blank => .blank
  | .loop h layout body => .loop h layout (Tree.renameAll r body)
  | .choose b inside outside => .choose b (inside.rename r) (outside.map (Stmt.rename r))
  | .simulated body => .simulated (Tree.renameAll r body)
  | .watched st stored => .watched (st.rename r) (stored.map (Stmt.rename r))

def Tree.renameAll (r : Renaming) : List Tree → List Tree
  | [] => []
  | t :: ts => t.rename r :: Tree.renameAll r ts

end

theorem Tree.renameAll_eq_map (r : Renaming) (ts : List Tree) : Tree.renameAll r ts = ts.map (Tree.rename r) := by
  induction ts with
  | nil => rfl
  | cons t ts ih => rw [Tree.renameAll, ih, List.map_cons]

@[simp] theorem Tree.renameAll_append (r : Renaming) (ts us : List Tree) :
    Tree.renameAll r (ts ++ us) = Tree.renameAll r ts ++ Tree.renameAll r us := by
  simp only [renameAll_eq_map, List.map_append]

@[simp] theorem Tree.renameAll_ofStmts (r : Renaming) (ss : List Stmt) :
    Tree.renameAll r (Tree.ofStmts ss) = Tree.ofStmts (ss.map (Stmt.rename r)) := by
  rw [renameAll_eq_map, Tree.ofStmts, Tree.ofStmts, List.map_map, List.map_map]
  rfl

@[simp] theorem Tree.renameAll_nest (r : Renaming) (heads : List Head) (body : List Tree) :
    Tree.renameAll r (Site.nest heads body) = Site.nest heads (Tree.renameAll r body) := by
  induction heads with
  | nil => rfl
  | cons h heads ih => exact congrArg (fun ts => [Tree.loop h .deeper ts]) ih

/-! ## Texts of renamed code -/

section Texts

variable {r : Renaming} {A : Name → Prop} (hr : r.Fixes A)

theorem rename_buffer (r : Renaming) (b : Buffer) : rename r.word b.text = (r.buffer b).text := by
  have hall : ∀ c ∈ (Symbol.buffer b).text.toList, isWordChar c = true :=
    List.all_eq_true.mp (Symbol.buffer b).all_wordChar
  rw [rename_word (Renaming.buffer_text_ne b) hall, r.word_text]

theorem rename_element (r : Renaming) (e : Element) : rename r.word e.text = (e.rename r).text := by
  have hsilent : r.Fixes fun _ => False := nofun
  have hsubscripts := mentions_subscripts (A := fun _ => False) e.subscripts
  rw [Element.text, rename_append_of_opens _ hsubscripts.2, rename_buffer, rename_of_mentions hsilent hsubscripts.1]
  rfl

theorem rename_declaration (r : Renaming) (d : Declaration) : rename r.word d.text = (d.rename r).text := by
  have hsilent : r.Fixes fun n => ∃ t, n = .type t := fun b ⟨t, h⟩ => nomatch h
  have hdims := mentions_dims (A := fun n => ∃ t, n = .type t) d.dims
  have htype : rename r.word d.type.text = d.type.text :=
    rename_of_mentions hsilent (mentions_name (n := .type d.type) ⟨_, rfl⟩)
  rw [Declaration.text, rename_append_of_opens _ hdims.2, rename_glue _ _ (by decide), htype, rename_buffer,
    rename_of_mentions hsilent hdims.1]
  rfl

theorem rename_declare (r : Renaming) (d : Declaration) (active : Bool) :
    rename r.word (Stmt.declare d active).text = (Stmt.declare (d.rename r) active).text := by
  have hsign (sign : String) (hs : rename r.word sign = sign) (hc : closes sign = true) :
      rename r.word (sign ++ d.text ++ ";") = sign ++ (d.rename r).text ++ ";" := by
    rw [rename_stop _ (by decide), rename_append_of_closes hc, hs, rename_declaration]
  cases active with
  | true => exact hsign "" rename_empty (by decide)
  | false => exact hsign "//" (rename_break (by decide)) (by decide)

include hr

theorem rename_term {t : Term} (h : (t.rename r).Within A) : rename r.word t.text = (t.rename r).text := by
  induction t with
  | element e => exact rename_element r e
  | number n => exact rename_of_mentions hr (mentions_int n)
  | product a b =>
    change rename r.word (a.text ++ " * " ++ b.text) = (a.rename r).text ++ " * " ++ (b.rename r).text
    rw [rename_glue _ _ (show isBreak " * " = true by decide), rename_element, rename_element]
  | layerProduct n a b =>
    have hname : rename r.word (Symbol.multiplier n).text = (Symbol.multiplier n).text :=
      rename_of_mentions hr (mentions_name (n := .symbol (.multiplier n)) h.1)
    change rename r.word ((Symbol.multiplier n).text ++ "(" ++ a.text ++ ", " ++ b.text ++ ")") = _
    rw [rename_stop _ (by decide), rename_glue _ _ (by decide), rename_glue _ _ (by decide), hname, rename_element,
      rename_element]
    rfl
  | activated a t ih =>
    obtain ⟨hcallee, ht⟩ := h
    have hcall (x : Symbol) (hx : x ∈ callee a) : rename r.word x.text = x.text :=
      rename_of_mentions hr (mentions_name (n := .symbol x) (hcallee x hx))
    have hactivated (x : Symbol) (hx : rename r.word x.text = x.text) :
        rename r.word (x.text ++ "(" ++ t.text ++ ")") = x.text ++ "(" ++ (t.rename r).text ++ ")" := by
      rw [rename_stop _ (show isBreak ")" = true by decide), rename_glue _ _ (show isBreak "(" = true by decide), ih ht,
        hx]
    cases a with
    | relu => exact hactivated .relu (hcall .relu rfl)
    | linear => exact hactivated .linear (hcall .linear rfl)
    | none | softmax => exact ih ht

theorem rename_update (e : Element) {t : Term} (ht : (t.rename r).Within A) {sign : String} (h : isBreak sign = true) :
    rename r.word (e.text ++ sign ++ t.text ++ ";") = (e.rename r).text ++ sign ++ (t.rename r).text ++ ";" := by
  rw [rename_stop _ (show isBreak ";" = true by decide), rename_glue _ _ h, rename_element, rename_term hr ht]

theorem rename_requantize {e wide scale : Element} {type : TypeName} {q : Nat}
    (h : ((Stmt.requantize e wide type q scale).rename r).Within A) :
    rename r.word (Stmt.requantize e wide type q scale).text = ((Stmt.requantize e wide type q scale).rename r).text := by
  obtain ⟨-, ht, -, -, hin, hout, hzero⟩ := h
  obtain ⟨hfactor, hfactorOpens⟩ := mentions_inputFactor hin q
  obtain ⟨hrest, hrestOpens⟩ := mentions_outputFactor hout hzero q
  have htype : rename r.word type.text = type.text := rename_of_mentions hr (mentions_name (n := .type type) ht)
  have hcall : rename r.word "(Q_MIN_MAX(" = "(Q_MIN_MAX(" :=
    rename_of_mentions (A := A) hr (mentions_silent (isSilent_ofList (by decide)))
  change rename r.word (e.text ++ " = " ++ type.text ++ "(Q_MIN_MAX(" ++ wide.text ++
    ("*input_scale_factors[" ++ toString q ++ "]*") ++ scale.text ++
    ("/output_scale_factors[" ++ toString q ++ "] + output_zero_points[" ++ toString q ++ "]));")) = _
  rw [rename_append_of_opens _ hrestOpens,
    rename_append_of_closes (closes_append _ (by simp) (closes_append _ (by decide) (by decide))),
    rename_append_of_opens _ hfactorOpens, rename_append_of_closes (closes_append _ (by decide) (by decide)),
    rename_append_of_opens _ (show opens "(Q_MIN_MAX(" = true by decide), rename_glue _ _ (by decide), rename_element,
    rename_element, rename_element, htype, hcall, rename_of_mentions hr hfactor, rename_of_mentions hr hrest]
  rfl

theorem rename_store {n : Nat} {what : String} {value : Element} {x y z : Expr}
    (h : ((Stmt.store n what value x y z).rename r).Within A) :
    rename r.word (Stmt.store n what value x y z).text = ((Stmt.store n what value x y z).rename r).text := by
  obtain ⟨hstore, hwhat, -⟩ := h
  have hcall : rename r.word ("STORE_DATA" ++ "(" ++ toString n ++ ", \"" ++ what) =
      "STORE_DATA" ++ "(" ++ toString n ++ ", \"" ++ what :=
    rename_of_mentions hr (((mentions_name (n := .symbol .store) hstore).glue (by decide) (mentions_nat n)).glue
      (by decide) hwhat)
  have hfloat : rename r.word "\", (float)" = "\", (float)" :=
    rename_of_mentions (A := A) hr (mentions_silent (isSilent_ofList (by decide)))
  have hexpr (e : Expr) : rename r.word e.text = e.text := rename_of_mentions hr (mentions_expr e)
  change rename r.word ("STORE_DATA" ++ "(" ++ toString n ++ ", \"" ++ what ++ "\", (float)" ++ value.text ++ ", " ++
    x.text ++ ", " ++ y.text ++ ", " ++ z.text ++ ");") = _
  rw [rename_stop _ (by decide), rename_glue _ _ (by decide), rename_glue _ _ (by decide), rename_glue _ _ (by decide),
    rename_append_of_closes (closes_append _ (by decide) (by decide)),
    rename_append_of_opens _ (show opens "\", (float)" = true by decide), hcall, hfloat, rename_element, hexpr, hexpr,
    hexpr]
  rfl

theorem rename_stmt {st : Stmt} (h : (st.rename r).Within A) : rename r.word st.text = (st.rename r).text := by
  cases st with
  | comment _ | declareCells _ | define _ _ | keepMaximum | injectFault _ =>
    exact rename_of_mentions hr (mentions_stmt h)
  | declare d active => exact rename_declare r d active
  | assign e t => exact rename_update hr e h.2 (show isBreak " = " = true by decide)
  | accumulate e t => exact rename_update hr e h.2 (show isBreak " += " = true by decide)
  | requantize => exact rename_requantize hr h
  | store => exact rename_store hr h

end Texts

/-! ## Lines of renamed code -/

def linesOf (level : Int) (ts : List Tree) : List String := Instr.linesAllAt level (instrsAll ts)

@[simp] theorem linesOf_append (level : Int) (ts us : List Tree) :
    linesOf level (ts ++ us) = linesOf level ts ++ linesOf level us := by
  rw [linesOf, instrsAll_append, Instr.linesAllAt_append]
  rfl

theorem linesOf_ofStmts (level : Int) (ss : List Stmt) :
    linesOf level (Tree.ofStmts ss) = ss.map fun st => indent level st.text := by
  induction ss with
  | nil => rfl
  | cons st ss ih => exact congrArg (indent level st.text :: ·) ih

theorem Tree.renameAll_eq_stmt {r : Renaming} {ts : List Tree} {st : Stmt} (h : Tree.renameAll r ts = [.stmt st]) :
    ∃ st', ts = [.stmt st'] ∧ st = st'.rename r := by
  rw [Tree.renameAll_eq_map, List.map_eq_singleton_iff] at h
  obtain ⟨t, rfl, ht⟩ := h
  cases t with
  | stmt st' =>
    cases ht
    exact ⟨st', rfl, rfl⟩
  | blank | loop _ _ _ | choose _ _ _ | simulated _ | watched _ _ => cases ht

theorem rename_line (r : Renaming) (level : Int) {s t : String} (h : rename r.word s = t) :
    rename r.word (indent level s) = indent level t := by
  rw [rename_indent (fun _ => r.word_ne), h]

theorem rename_opening (r : Renaming) (level : Int) : rename r.word (indent level "\x7b") = indent level "\x7b" :=
  rename_line r level (rename_break (by decide))

theorem rename_closing (r : Renaming) (level : Int) : rename r.word (indent level "\x7d") = indent level "\x7d" :=
  rename_line r level (rename_break (by decide))

section Lines

variable {r : Renaming} {A : Name → Prop} (hr : r.Fixes A)

include hr

theorem rename_inline {hd : Head} (hw : hd.Worded) {st : Stmt} (h : (st.rename r).Within A) :
    rename r.word (hd.text ++ " " ++ String.join (inlineTexts [.stmt st])) =
      hd.text ++ " " ++ String.join (inlineTexts [.stmt (st.rename r)]) := by
  have hjoin (u : Stmt) : String.join (inlineTexts [.stmt u]) = u.text := by simp [inlineTexts, String.join_cons]
  rw [hjoin, hjoin, rename_glue _ _ (show isBreak " " = true by decide), rename_of_mentions hr (mentions_head hw),
    rename_stmt hr h]

theorem rename_beginSimulated : rename r.word beginSimulated = beginSimulated :=
  rename_of_mentions hr (mentions_plain (by decide))

theorem rename_endSimulated : rename r.word endSimulated = endSimulated :=
  rename_of_mentions hr (mentions_plain (by decide))

theorem lines_rename_loop {hd : Head} {layout : Layout} {body : List Tree}
    (h : (Tree.loop hd layout (Tree.renameAll r body)).Within A)
    (hinner : ∀ k, linesOf k (Tree.renameAll r body) = (linesOf k body).map (rename r.word)) (level : Int) :
    Instr.linesAllAt level (Tree.loop hd layout (Tree.renameAll r body)).instrs =
      (Instr.linesAllAt level (Tree.loop hd layout body).instrs).map (rename r.word) := by
  obtain ⟨hw, hbody, hline⟩ := h
  simp only [linesOf] at hinner
  have hhead := rename_line r level (rename_of_mentions hr (mentions_head hw))
  cases layout with
  | sameLine =>
    obtain ⟨st', hst'⟩ := hline rfl
    obtain ⟨st, rfl, rfl⟩ := Tree.renameAll_eq_stmt hst'
    have hinline := rename_line r level (rename_inline hr hw hbody.1)
    simp only [Tree.renameAll, Tree.rename, Tree.instrs, Instr.linesAllAt, Instr.linesAt, List.append_nil,
      List.map_cons, List.map_nil, hinline]
  | deeper | flush =>
    simp only [Tree.instrs, Instr.linesAllAt, Instr.linesAt, List.append_nil, List.singleton_append, List.map_cons, hhead,
      hinner]
  | braced =>
    simp only [Tree.instrs, Instr.linesAllAt, Instr.linesAt, List.append_nil, List.map_append, List.map_cons,
      List.map_nil, hinner, rename_opening, rename_closing]
    split
    · rfl
    · rw [List.map_singleton, hhead]

theorem lines_rename_choose {b : Bounds} {inside : Stmt} {outside : Option Stmt}
    (h : ((Tree.choose b inside outside).rename r).Within A) (level : Int) :
    Instr.linesAllAt level ((Tree.choose b inside outside).rename r).instrs =
      (Instr.linesAllAt level (Tree.choose b inside outside).instrs).map (rename r.word) := by
  obtain ⟨hin, hout⟩ := h
  have hbounds := rename_line r level (rename_of_mentions hr (mentions_bounds b))
  have hinside := rename_line r (level + 1) (rename_stmt hr hin)
  have helse : rename r.word "else" = "else" := rename_of_mentions hr (mentions_plain (by decide))
  cases outside with
  | none =>
    simp only [Tree.rename, Tree.instrs, Option.map_none, Instr.linesAllAt, Instr.linesAt, List.append_nil,
      List.cons_append, List.nil_append, List.map_cons, List.map_nil, hbounds, hinside]
  | some st =>
    have houtside := rename_line r (level + 1) (rename_stmt hr (hout _ rfl))
    simp only [Tree.rename, Tree.instrs, Option.map_some, Instr.linesAllAt, Instr.linesAt, List.append_nil,
      List.cons_append, List.nil_append, List.map_cons, List.map_nil, hbounds, hinside, houtside,
      rename_line r level helse]

theorem lines_rename_simulated {body : List Tree}
    (hinner : ∀ k, linesOf k (Tree.renameAll r body) = (linesOf k body).map (rename r.word)) (level : Int) :
    Instr.linesAllAt level (Tree.simulated (Tree.renameAll r body)).instrs =
      (Instr.linesAllAt level (Tree.simulated body).instrs).map (rename r.word) := by
  simp only [linesOf] at hinner
  have hbegin := rename_line r level (rename_beginSimulated hr)
  have hend := rename_line r level (rename_endSimulated hr)
  simp only [Tree.instrs, Instr.linesAllAt_append, Instr.linesAllAt, Instr.linesAt, List.cons_append, List.nil_append,
    List.append_nil, List.map_cons, List.map_append, List.map_nil, hbegin, hend, hinner]

theorem lines_rename_watched {st : Stmt} {stored : List Stmt} (h : ((Tree.watched st stored).rename r).Within A)
    (level : Int) : Instr.linesAllAt level ((Tree.watched st stored).rename r).instrs =
      (Instr.linesAllAt level (Tree.watched st stored).instrs).map (rename r.word) := by
  have hbegin := rename_beginSimulated hr
  have hend := rename_line r level (rename_endSimulated hr)
  have hst := rename_line r (level + 1) (rename_stmt hr h.1)
  have hstored : ((stored.map (Stmt.rename r)).map Stmt.text).map (indent (level + 1)) =
      ((stored.map Stmt.text).map (indent (level + 1))).map (rename r.word) := by
    simp only [List.map_map]
    refine List.map_congr_left fun u hu => ?_
    exact (rename_line r (level + 1) (rename_stmt hr (h.2 _ (List.mem_map_of_mem hu)))).symm
  simp only [Tree.rename, Tree.instrs, Instr.linesAllAt, Instr.linesAt, List.cons_append, List.nil_append,
    List.append_nil, List.map_cons, List.map_append, List.map_nil, hend, rename_opening, rename_closing, hst, hstored,
    rename_line r level hbegin, rename_line r (level + 1) hbegin]

end Lines

section Trees

variable {r : Renaming} {A : Name → Prop}

mutual

theorem lines_rename (hr : r.Fixes A) : ∀ (t : Tree), (t.rename r).Within A → ∀ level,
    Instr.linesAllAt level (t.rename r).instrs = (Instr.linesAllAt level t.instrs).map (rename r.word)
  | .stmt st, h, level => by
    have hst := rename_line r level (rename_stmt hr h)
    simp only [Tree.rename, Tree.instrs, Instr.linesAllAt, Instr.linesAt, List.append_nil, List.map_cons, List.map_nil,
      hst]
  | .blank, _, _ => rfl
  | .loop _ _ body, h, level => lines_rename_loop hr h (linesOf_renameAll hr body h.2.1) level
  | .choose _ _ _, h, level => lines_rename_choose hr h level
  | .simulated body, h, level => lines_rename_simulated hr (linesOf_renameAll hr body h) level
  | .watched _ _, h, level => lines_rename_watched hr h level

theorem linesOf_renameAll (hr : r.Fixes A) : ∀ (ts : List Tree), Tree.AllWithin A (Tree.renameAll r ts) → ∀ level,
    linesOf level (Tree.renameAll r ts) = (linesOf level ts).map (rename r.word)
  | [], _, _ => rfl
  | t :: ts, h, level => by
    have hfirst := lines_rename hr t h.1 level
    have hrest := linesOf_renameAll hr ts h.2 level
    rw [linesOf, linesOf, Tree.renameAll, instrsAll, instrsAll, Instr.linesAllAt_append, Instr.linesAllAt_append,
      List.map_append, hfirst]
    exact congrArg _ hrest

end

end Trees
end Code
end LayerLoops
