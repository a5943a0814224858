import LayerLoops.Proofs.Declared
import LayerLoops.Proofs.Lexing
import LayerLoops.Source.Document
import Mathlib.Tactic.Ring

/-! # Literals of a document

The digits of an integer literal give a number that can be written if there are not too many of them. A reader
carries such numbers through its states into the statements it finishes, and refuses a text only with a reason
that it words itself. So lines with short literals are always read. -/

namespace LayerLoops

namespace Decimal

theorem foldl_digits_lt {ds : List Nat} (h : ∀ d ∈ ds, d < 10) (n : Nat) :
    ds.foldl (fun n d => 10 * n + d) n < (n + 1) * 10 ^ ds.length := by
  induction ds generalizing n with
  | nil => simp
  | cons d ds ih =>
    obtain ⟨hd, hds⟩ := List.forall_mem_cons.mp h
    rw [List.foldl_cons, List.length_cons]
    calc
      ds.foldl (fun n d => 10 * n + d) (10 * n + d) < (10 * n + d + 1) * 10 ^ ds.length := ih hds _
      _ ≤ 10 * (n + 1) * 10 ^ ds.length := Nat.mul_le_mul_right _ (by omega)
      _ = (n + 1) * 10 ^ (ds.length + 1) := by ring

theorem digitsValue_lt {cs : List Char} (h : ∀ c ∈ cs, isDigit c = true) : digitsValue cs < 10 ^ cs.length := by
  have hdigits : ∀ d ∈ cs.map fun c => c.toNat - '0'.toNat, d < 10 := by
    intro d hd
    obtain ⟨c, hc, rfl⟩ := List.mem_map.mp hd
    have hdigit := h c hc
    simp only [isDigit, Bool.and_eq_true, decide_eq_true_eq] at hdigit
    have hle : c.toNat ≤ '9'.toNat := hdigit.2
    have hnine : '9'.toNat = 57 := rfl
    have hzero : '0'.toNat = 48 := rfl
    omega
  have hlt := foldl_digits_lt hdigits 0
  rw [List.foldl_map, List.length_map, Nat.zero_add, Nat.one_mul] at hlt
  exact hlt

theorem fits_digitsValue {cs : List Char} (h : ∀ c ∈ cs, isDigit c = true) (hl : cs.length ≤ digitLimit) :
    Fits (digitsValue cs) := by
  refine fits_of_lt_pow ?_ hl
  rw [Int.natAbs_natCast]
  exact digitsValue_lt h

end Decimal

/-- A number that can be given to a layer and written. -/
def Usable (n : Int) : Prop := 0 < n ∧ Decimal.Fits n

namespace Source

variable {cs : List Char} {s : Slot} (file : Option String)

/-! ## Lexemes -/

theorem isDigit_of_cut {c : Char} {ds : List Char} {n : Nat} (h : cut c cs = (some (.integer ds), n)) :
    ∀ d ∈ ds, Decimal.isDigit d = true := by
  have hspells := spells_of_cut h Terminal.noConfusion
  generalize c :: cs.take n = w at hspells
  cases hspells with
  | integer hds => exact hds.2
  | mark hc =>
    unfold Terminal.punctuation? at hc
    split at hc <;> cases hc

theorem isDigit_of_lexeme {p : Position} {t : Lexeme} (ht : t ∈ lexemesFrom p cs) {ds : List Char}
    (hds : t.terminal = .integer ds) : ∀ d ∈ ds, Decimal.isDigit d = true := by
  fun_induction lexemesFrom p cs with
  | case1 => cases ht
  | case2 p c cs n stop hcut =>
    cases List.mem_singleton.mp ht
    cases hds
  | case3 p c cs n stop t' hne hcut ih =>
    rcases List.mem_cons.mp ht with rfl | ht
    · cases hds
      exact isDigit_of_cut hcut
    · exact ih ht
  | case4 p c cs n stop hcut ih => exact ih ht

/-- A literal that is short enough to be read, with a number that can be given to a layer. -/
def Lexeme.Allows (P : Int → Prop) (t : Lexeme) : Prop :=
  ∀ ds, t.terminal = .integer ds →
    ds.length ≤ Decimal.digitLimit ∧ (Decimal.digitsValue ds ≠ 0 → P (Decimal.digitsValue ds))

/-! ## Reading -/

variable {P : Int → Prop}

/-- There is no reason to refuse a text but one that the program words itself. -/
def Worded (f : Option Fault) : Prop := ∀ g, f = some g → ∃ d, g = .reported d

def Argument.value : Argument → Value
  | .positional v => v
  | .keyword k => k.value

def OpenCall.Allows (P : Int → Prop) (c : OpenCall) : Prop := ∀ a ∈ c.args, a.value.Allows P

structure Slot.Allows (P : Int → Prop) (s : Slot) : Prop where
  call : s.call.Allows P
  items : ∀ t ∈ s.tuples, ∀ v ∈ t.items, v.Allows P

/-- All that has been read of the statement in progress allows `P`. -/
def State.Allows (P : Int → Prop) : State → Prop
  | .path c | .qualified c | .argument c | .word c _ _ _ | .argumentEnd c => c.Allows P
  | .value s | .item s | .itemEnd s => s.Allows P
  | .callEnd _ call => call.Allows P
  | .statementEnd s => s.Allows P
  | .start | .receiver _ _ | .member _ _ | .method _ | .callee _ | .between => True

structure Reader.Allows (P : Int → Prop) (r : Reader) : Prop where
  finished : ∀ s ∈ r.finished, s.Allows P
  state : r.state.Allows P
  refusal : Worded r.refusal

theorem literal?_allows {file : Option String} {t : Lexeme} {v : Value} (h : literal? file t = some v)
    (ht : t.Allows P) : v.Allows P := by
  unfold literal? at h
  dsimp only at h
  split at h <;> cases h
  · exact (ht _ (by assumption)).2
  · trivial
  · trivial

theorem Lexeme.Allows.worded {t : Lexeme} (ht : t.Allows P) : Worded t.refusal := by
  intro g hg
  unfold Lexeme.refusal at hg
  split at hg
  · rename_i ds hds
    rw [if_neg (Nat.not_lt.mpr (ht ds hds).1)] at hg
    cases hg
  · cases hg

theorem Value.name_allows (s : String) (l : Location) : (Value.name s l).Allows P := trivial

theorem Value.tuple_allows {items : List Value} (h : ∀ v ∈ items, v.Allows P) (l : Location) :
    (Value.tuple items l).Allows P :=
  fun _ _ hmem => h _ hmem

theorem OpenCall.Allows.cons {c : OpenCall} (hc : c.Allows P) {a : Argument} (ha : a.value.Allows P) :
    OpenCall.Allows P { c with args := a :: c.args } :=
  List.forall_mem_cons.mpr ⟨ha, hc⟩

theorem OpenCall.Allows.slot {c : OpenCall} (hc : c.Allows P) (keyword : Option (String × Position)) :
    Slot.Allows P { call := c, keyword } :=
  ⟨hc, List.forall_mem_nil _⟩

theorem OpenCall.Allows.finish {c : OpenCall} (hc : c.Allows P) (file : Option String) (stop : Position) :
    (c.finish file stop).Allows P := by
  constructor
  · intro v hv
    obtain ⟨a, ha, hav⟩ := List.mem_filterMap.mp hv
    cases a with
    | positional w =>
      cases hav
      exact hc _ (List.mem_reverse.mp ha)
    | keyword k => cases hav
  · intro k hk
    obtain ⟨a, ha, hak⟩ := List.mem_filterMap.mp hk
    cases a with
    | positional w => cases hak
    | keyword j =>
      cases hak
      exact hc _ (List.mem_reverse.mp ha)

theorem OpenCall.worded (c : OpenCall) : Worded c.refusal := by
  intro g hg
  obtain ⟨v, -, rfl⟩ := Option.map_eq_some_iff.mp hg
  exact ⟨_, rfl⟩

theorem Opened.worded (o : Opened) (l : Location) : Worded (o.refusal l) := by
  intro g hg
  unfold Opened.refusal at hg
  split at hg <;> cases hg
  exact ⟨_, rfl⟩

theorem Slot.Allows.fill (hs : s.Allows P) (file : Option String) {v : Value} (hv : v.Allows P) (stop : Position) :
    (s.fill file v stop).Allows P := by
  obtain ⟨hcall, hitems⟩ := hs
  unfold Slot.fill
  split
  · rename_i t ts hts
    rw [hts, List.forall_mem_cons] at hitems
    exact ⟨hcall, List.forall_mem_cons.mpr ⟨List.forall_mem_cons.mpr ⟨hv, hitems.1⟩, hitems.2⟩⟩
  · refine hcall.cons ?_
    split <;> exact hv

theorem Slot.Allows.close? (hs : s.Allows P) {file : Option String} {stop : Position} {q : State}
    (h : s.close? file stop = some q) : q.Allows P := by
  obtain ⟨hcall, hitems⟩ := hs
  unfold Slot.close? at h
  split at h
  · rename_i t ts hts
    cases h
    rw [hts, List.forall_mem_cons] at hitems
    have hrest : Slot.Allows P { s with tuples := ts } := ⟨hcall, hitems.2⟩
    exact hrest.fill file (Value.tuple_allows (fun v hv => hitems.1 v (List.mem_reverse.mp hv)) _) stop
  · cases h

theorem Slot.Allows.enter (hs : s.Allows P) (start : Position) : (s.enter start).Allows P :=
  ⟨hs.call, List.forall_mem_cons.mpr ⟨by simp, hs.items⟩⟩

namespace Reader.Allows

variable {r r' : Reader} {t : Lexeme}

theorem goTo (hr : r.Allows P) {s : State} (hs : s.Allows P) : (r.goTo s).Allows P := ⟨hr.finished, hs, hr.refusal⟩

theorem blame (hr : r.Allows P) {f : Option Fault} (hf : Worded f) : (r.blame f).Allows P := by
  refine ⟨hr.finished, hr.state, fun g hg => ?_⟩
  rcases Option.or_eq_some_iff.mp (Option.orElse_eq_or.symm.trans hg) with hg | ⟨-, hg⟩
  · exact hr.refusal g hg
  · exact hf g hg

theorem keep (hr : r.Allows P) {s : Statement} (hs : s.Allows P) : (r.keep s).Allows P :=
  ⟨List.forall_mem_cons.mpr ⟨hs, hr.finished⟩, hr.state, hr.refusal⟩

theorem endCall (hr : r.Allows P) {c : OpenCall} (hc : c.Allows P) (stop : Position) : (r.endCall c stop).Allows P :=
  (hr.blame c.worded).goTo (hc.finish r.file stop)

theorem begin? (hr : r.Allows P) (h : r.begin? t = some r') : r'.Allows P := by
  unfold Reader.begin? at h
  split at h <;> cases h
  exact hr.goTo trivial

theorem takeValue (hr : r.Allows P) {s : Slot} (hs : s.Allows P) (ht : t.Allows P) {closes : Bool}
    (h : r.takeValue s t closes = some r') : r'.Allows P := by
  unfold Reader.takeValue at h
  split at h
  · rename_i v hv
    cases h
    exact (hr.blame ht.worded).goTo (hs.fill _ (literal?_allows hv ht) _)
  · split at h
    · cases h
      exact hr.goTo (hs.fill _ (Value.name_allows _ _) _)
    · cases h
      exact hr.goTo (hs.enter _)
    · split at h
      · obtain ⟨q, hq, rfl⟩ := Option.map_eq_some_iff.mp h
        exact hr.goTo (hs.close? hq)
      · cases h
    · cases h

theorem step (hr : r.Allows P) (ht : t.Allows P) (h : r.step t = some r') : r'.Allows P := by
  have hs := hr.state
  unfold Reader.step at h
  -- What the state holds was checked when it was read; `ht` is needed only where a literal is taken.
  split at h
  case h_1 | h_24 => exact hr.begin? h
  case h_2 | h_3 | h_4 =>
    cases h
    exact hr.goTo trivial
  case h_5 =>
    cases h
    exact hr.goTo (List.forall_mem_nil _)
  case h_6 hstate _ | h_7 hstate _ | h_8 hstate _ | h_9 hstate _ | h_17 hstate _ | h_19 hstate _ =>
    rw [hstate] at hs
    cases h
    exact hr.goTo hs
  case h_10 hstate _ | h_20 hstate _ =>
    rw [hstate] at hs
    cases h
    exact hr.endCall hs _
  case h_11 hstate _ _ =>
    rw [hstate] at hs
    exact hr.takeValue (OpenCall.Allows.slot hs none) ht h
  case h_12 hstate _ =>
    rw [hstate] at hs
    cases h
    exact hr.goTo (OpenCall.Allows.slot hs _)
  case h_13 hstate _ =>
    rw [hstate] at hs
    cases h
    exact hr.goTo (hs.cons (Value.name_allows _ _))
  case h_14 hstate _ =>
    rw [hstate] at hs
    cases h
    exact hr.endCall (hs.cons (Value.name_allows _ _)) _
  case h_15 hstate | h_16 hstate =>
    rw [hstate] at hs
    exact hr.takeValue hs ht h
  case h_18 hstate _ =>
    rw [hstate] at hs
    obtain ⟨q, hq, rfl⟩ := Option.map_eq_some_iff.mp h
    exact hr.goTo (hs.close? hq)
  case h_21 hstate _ =>
    rw [hstate] at hs
    cases h
    exact (hr.blame (Opened.worded _ _)).goTo hs
  case h_22 hstate _ =>
    rw [hstate] at hs
    cases h
    refine goTo (keep hr ?_) trivial
    exact hs
  case h_23 hstate _ =>
    rw [hstate] at hs
    exact (hr.keep hs).begin? h
  case h_25 => cases h

theorem run (hr : r.Allows P) {ts : List Lexeme} (hts : ∀ t ∈ ts, t.Allows P) (h : r.run ts = .ok r') :
    r'.Allows P := by
  induction ts generalizing r with
  | nil =>
    cases h
    exact hr
  | cons t ts ih =>
    obtain ⟨ht, hts⟩ := List.forall_mem_cons.mp hts
    unfold Reader.run at h
    split at h
    · rename_i q hq
      exact ih (hr.step ht hq) hts h
    · cases h

theorem statements? (hr : r.Allows P) {ss : List Statement} (h : r.statements? = some ss) : ∀ s ∈ ss, s.Allows P := by
  have hs := hr.state
  unfold Reader.statements? at h
  split at h
  · rename_i s hstate
    rw [hstate] at hs
    cases h
    intro u hu
    exact (hr.keep hs).finished u (List.mem_reverse.mp hu)
  · cases h
    intro u hu
    exact hr.finished u (List.mem_reverse.mp hu)
  · cases h

end Reader.Allows

theorem readStatements_allows {offset : Int} {text : String}
    (ht : ∀ t ∈ lexemesFrom ⟨1 + offset, 1⟩ text.toList, t.Allows P) :
    (∃ ss, readStatements file offset text = .ok ss ∧ ∀ s ∈ ss, s.Allows P) ∨
      ∃ d, readStatements file offset text = .error (.reported d) := by
  have hstart : Reader.Allows P { file } := ⟨List.forall_mem_nil _, trivial, by rintro g ⟨⟩⟩
  unfold readStatements
  dsimp only
  split
  · exact .inr ⟨_, rfl⟩
  · rename_i r hrun
    have hr := hstart.run ht hrun
    split
    · exact .inr ⟨_, rfl⟩
    · rename_i ss hss
      split
      · rename_i f hf
        obtain ⟨d, rfl⟩ := hr.refusal f hf
        exact .inr ⟨d, rfl⟩
      · exact .inl ⟨ss, rfl, hr.statements? hss⟩

/-! ## Documents -/

def Chunk.lexemes (c : Chunk) : List Lexeme := lexemesFrom ⟨1 + ((c.first : Int) - 1), 1⟩ c.text.toList

/-- The lexeme is no integer literal that is too long to be read. -/
def Lexeme.isShort (t : Lexeme) : Bool :=
  match t.terminal with
  | .integer ds => ds.length ≤ Decimal.digitLimit
  | _ => true

/-- Every integer literal of the statements among some lines is short enough to be read. -/
def ShortLiterals (lines : List String) : Prop :=
  ∀ c ∈ (scan lines).chunks, ∀ t ∈ c.lexemes, t.isShort = true

instance (lines : List String) : Decidable (ShortLiterals lines) :=
  inferInstanceAs (Decidable (∀ c ∈ (scan lines).chunks, ∀ t ∈ c.lexemes, t.isShort = true))

theorem Chunk.read_allows {c : Chunk} (hc : ∀ t ∈ c.lexemes, t.Allows P) :
    (∃ ss, c.read file = .ok ss ∧ ∀ s ∈ ss, s.Allows P) ∨ ∃ d, c.read file = .error (.reported d) := by
  unfold Chunk.read
  rcases readStatements_allows file hc with ⟨ss, hss, hs⟩ | ⟨d, hd⟩
  · rw [hss]
    exact .inl ⟨_, rfl, List.forall_mem_map.mpr hs⟩
  · rw [hd]
    exact .inr ⟨d, rfl⟩

theorem readChunks_allows {cs : List Chunk} (hcs : ∀ c ∈ cs, ∀ t ∈ c.lexemes, t.Allows P) :
    ∃ ss, (readChunks file cs).outcome = .ok ss ∧ ∀ s ∈ ss, s.Allows P := by
  induction cs with
  | nil => exact ⟨[], rfl, List.forall_mem_nil _⟩
  | cons c cs ih =>
    obtain ⟨hc, hcs⟩ := List.forall_mem_cons.mp hcs
    obtain ⟨rest, hrest, hr⟩ := ih hcs
    unfold readChunks
    rcases Chunk.read_allows file hc with ⟨ss, hss, hs⟩ | ⟨d, hd⟩
    · rw [hss]
      refine ⟨ss ++ rest, Step.outcome_bind_eq_ok.mpr ⟨rest, hrest, rfl⟩, ?_⟩
      exact List.forall_mem_append.mpr ⟨hs, hr⟩
    · rw [hd]
      exact ⟨rest, hrest, hr⟩

/-- Short literals are numbers that can be given to a layer and written, unless they are zero. -/
theorem allows_of_short {p : Position} {t : Lexeme} (ht : t ∈ lexemesFrom p cs) (hshort : t.isShort = true) :
    t.Allows Usable := by
  intro ds hds
  have hlen : ds.length ≤ Decimal.digitLimit := by
    rw [Lexeme.isShort, hds] at hshort
    exact of_decide_eq_true hshort
  exact ⟨hlen, fun hne => ⟨by omega, Decimal.fits_digitsValue (isDigit_of_lexeme ht hds) hlen⟩⟩

theorem Document.ofLines_allows {lines : List String} (h : ShortLiterals lines) :
    ∃ d, (Document.ofLines file lines).outcome = .ok d ∧ ∀ s ∈ d.statements, s.Allows Usable := by
  obtain ⟨ss, hss, hs⟩ := readChunks_allows file fun c hc t ht => allows_of_short ht (h c hc t ht)
  exact ⟨_, Step.outcome_bind_eq_ok.mpr ⟨ss, hss, rfl⟩, hs⟩

end Source
end LayerLoops
