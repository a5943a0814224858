import LayerLoops.Proofs.Prefixes
import Mathlib.Data.List.Chain

/-! # Writing statements

What a statement says can be written in many ways: with white space and comments between its terminals or without, and
with either quotation mark. No two terminals of a statement run into each other, so all of them are read alike. -/

namespace LayerLoops.Source

variable {c : Char} {cs : List Char} {t : Terminal} {ts w : List Terminal}

/-! ## Neighbours -/

def Terminal.isWord : Terminal → Bool
  | .name _ | .integer _ | .real _ => true
  | _ => false

/-- The second terminal may follow the first at once. -/
def Apart (a b : Terminal) : Prop :=
  a.isWord = true → match b with
    | .dot => ∃ n, a = .name n
    | .lpar | .rpar | .comma | .equal | .semicolon => True
    | _ => False

theorem apart_of_mark {a : Terminal} (h : a.isWord = false) (b : Terminal) : Apart a b :=
  fun hword => absurd (h.symm.trans hword) Bool.false_ne_true

theorem isChain_mark {a : Terminal} (h : a.isWord = false) (hw : w.IsChain Apart) : (a :: w).IsChain Apart :=
  List.isChain_cons.mpr ⟨fun b _ => apart_of_mark h b, hw⟩

theorem isChain_append_mark {u : List Terminal} {b : Terminal} (hw : w.IsChain Apart) (hu : (b :: u).IsChain Apart)
    (hb : ∀ a, Apart a b) : (w ++ b :: u).IsChain Apart := by
  refine List.isChain_append.mpr ⟨hw, hu, ?_⟩
  rintro a - c ⟨⟩
  exact hb a

/-- How the terminals of a phrase stand beside each other. -/
def Spread (w : List Terminal) : Phrase → Prop
  | .path _ => w.IsChain Apart ∧ ∃ u n, w = u ++ [.name n]
  | .statement _ | .statements _ => w.IsChain Apart ∧ ∀ a ∈ w.getLast?, a.isWord = false
  | _ => w.IsChain Apart

theorem isChain_closed {o : List Terminal} (hw : w.IsChain Apart) (ho : IsComma o) :
    List.IsChain Apart (w ++ o ++ [Terminal.rpar]) := by
  refine isChain_append_mark ?_ (.singleton _) fun a _ => trivial
  rcases ho with rfl | rfl
  · rwa [List.append_nil]
  · exact isChain_append_mark hw (.singleton _) fun a _ => trivial

theorem Derives.spread {ph : Phrase} (h : Derives w ph) : Spread w ph := by
  -- The parts of a rule meet at a mark. For the point in a path and for two statements the ends of the parts matter.
  induction h with
  | integer _ | real _ | text _ | name _ => exact .singleton _
  | unit => exact isChain_mark rfl (.singleton _)
  | tuple hw ho ih => exact isChain_mark rfl (isChain_closed ih ho)
  | oneValue _ ih | positional _ ih | oneArgument _ ih | oneStatement _ ih => exact ih
  | moreValues _ _ ihu ihw | moreArguments _ _ ihu ihw =>
    exact isChain_append_mark ihu (isChain_mark rfl ihw) fun a _ => trivial
  | keyword k _ ih => exact List.isChain_cons_cons.mpr ⟨fun _ => trivial, isChain_mark rfl ih⟩
  | oneName n => exact ⟨.singleton _, [], n, rfl⟩
  | @moreNames w ns n _ ih =>
    obtain ⟨hchain, u, m, rfl⟩ := ih
    refine ⟨List.isChain_append.mpr ⟨hchain, isChain_mark rfl (.singleton _), ?_⟩, u ++ [Terminal.name m, .dot], n, ?_⟩
    · intro a ha b hb _
      rw [List.getLast?_concat] at ha
      cases ha
      cases hb
      exact ⟨m, rfl⟩
    · rw [List.append_assoc, List.append_assoc]
      rfl
  | bareCall _ ih => exact isChain_append_mark ih.1 (isChain_mark rfl (.singleton _)) fun a _ => trivial
  | call _ _ ho ihw ihu => exact isChain_append_mark ihw.1 (isChain_mark rfl (isChain_closed ihu ho)) fun a _ => trivial
  | @statement w o ns as r m _ ho ih =>
    have hend : List.IsChain Apart (.rpar :: o) ∧ ∀ a ∈ (Terminal.rpar :: o).getLast?, a.isWord = false := by
      rcases ho with rfl | rfl
      · exact ⟨.singleton _, by simp [Terminal.isWord]⟩
      · exact ⟨isChain_mark rfl (.singleton _), by simp [Terminal.isWord]⟩
    have hcall : List.IsChain Apart (.name m :: .lpar :: (w ++ .rpar :: o)) :=
      List.isChain_cons_cons.mpr ⟨fun _ => trivial, isChain_mark rfl (isChain_append_mark ih hend.1 fun a _ => trivial)⟩
    refine ⟨List.isChain_cons_cons.mpr ⟨fun _ => ⟨r, rfl⟩, isChain_mark rfl hcall⟩, fun a ha => hend.2 a ?_⟩
    have hlast := List.getLast?_append_of_ne_nil (.name r :: .dot :: .name m :: .lpar :: w) (List.cons_ne_nil .rpar o)
    rwa [← hlast]
  | moreStatements _ _ ihu ihw =>
    refine ⟨List.isChain_append.mpr ⟨ihu.1, ihw.1, fun a ha b _ => apart_of_mark (ihu.2 a ha) b⟩, fun a ha => ?_⟩
    rw [List.getLast?_append, Option.mem_def, Option.or_eq_some_iff] at ha
    rcases ha with ha | ⟨-, ha⟩
    · exact ihw.2 a ha
    · exact ihu.2 a ha

/-! ## Layouts -/

/-- White space, and comments that end with their line. -/
inductive Gap : List Char → Prop
  | nil : Gap []
  | space {c : Char} {cs : List Char} : isSpace c = true → Gap cs → Gap (c :: cs)
  | comment {body cs : List Char} : '\n' ∉ body → Gap cs → Gap ('#' :: (body ++ '\n' :: cs))

/-- A text in which the terminals are written, with gaps before and behind each. The last line may end in a comment. -/
inductive Laid : List Terminal → List Char → Prop
  | nil {g : List Char} : Gap g → Laid [] g
  | comment {g body : List Char} : Gap g → '\n' ∉ body → Laid [] (g ++ '#' :: body)
  | cons {t : Terminal} {ts : List Terminal} {g w cs : List Char} : Gap g → t.Spells w → Laid ts cs →
    Laid (t :: ts) (g ++ (w ++ cs))

theorem Gap.lexes {g : List Char} (h : Gap g) (hcs : Lexes cs ts) : Lexes (g ++ cs) ts := by
  induction h with
  | nil => exact hcs
  | space hc _ ih => exact .space hc ih
  | @comment body g hbody _ ih =>
    have hline : Lexes ('\n' :: (g ++ cs)) ts := .space rfl ih
    have hcomment := Lexes.comment hbody (by rintro c ⟨⟩; rfl) hline
    rwa [List.cons_append, List.append_assoc, List.cons_append]

def IsName (s : String) : Prop := ∃ c cs, s.toList = c :: cs ∧ isNameStart c = true ∧ ∀ d ∈ cs, isNameChar d = true

theorem IsName.spells {s : String} (h : IsName s) : Terminal.Spells (.name s) s.toList := by
  obtain ⟨c, cs, hcs, hc, hall⟩ := h
  have hs : s = String.ofList (c :: cs) := by rw [← hcs, String.ofList_toList]
  rw [hcs, hs]
  exact .name hc hall

def Terminal.Plain : Terminal → Prop
  | .name n => IsName n
  | .integer ds => IsDigits ds ∧ ds.length ≤ Decimal.digitLimit
  | .text s => '\'' ∉ s.toList ∨ '"' ∉ s.toList
  | .real _ | .junk => False
  | _ => True

/-- The character does not go on with what the terminal begins. -/
def Stops (t : Terminal) (c : Char) : Prop :=
  t.isWord = true → isNameChar c = false ∧ (c = '.' → ∃ n, t = .name n)

theorem isNameChar_of_isDigit (h : Decimal.isDigit c = true) : isNameChar c = true := by
  have hbounds : '0'.val ≤ c.val ∧ c.val ≤ '9'.val := by simpa [Decimal.isDigit, Char.le_def] using h
  have hdigit : c.isDigit = true := by simpa [Char.isDigit] using hbounds
  rw [isNameChar, Char.isAlphanum, hdigit, Bool.or_true, Bool.true_or]

theorem fractionLength_of_head (h : ∀ c ∈ cs.head?, c ≠ '.') : fractionLength cs = 0 := by
  unfold fractionLength
  split
  · exact absurd rfl (h '.' rfl)
  · rfl

theorem cut_spelled {w rest : List Char} (h : t.Spells (c :: w)) (ht : t.Plain) (hrest : ∀ d ∈ rest.head?, Stops t d) :
    cut c (w ++ rest) = (some t, w.length) := by
  generalize hv : c :: w = v at h
  cases h with
  | name hc hw =>
    cases hv
    rw [cut_name hc, run_append hw fun d hd => (hrest d hd rfl).1, List.take_left]
  | integer hds =>
    cases hv
    obtain ⟨hc, hw⟩ := List.forall_mem_cons.mp hds.2
    have hrun : run Decimal.isDigit (w ++ rest) = w.length := by
      refine run_append hw fun d hd => ?_
      rw [← Bool.not_eq_true]
      intro hdigit
      exact Bool.false_ne_true ((hrest d hd rfl).1.symm.trans (isNameChar_of_isDigit hdigit))
    have hfraction : fractionLength rest = 0 := by
      refine fractionLength_of_head fun d hd hdot => ?_
      obtain ⟨n, hn⟩ := (hrest d hd rfl).2 hdot
      cases hn
    rw [cut_digit hc, hrun, List.drop_left, if_pos hfraction, List.take_left]
  | real _ _ => exact ht.elim
  | text hq hcs =>
    cases hv
    rw [cut_quote hq (by simp), List.append_assoc, List.singleton_append, run_quoted hcs, List.take_left,
      List.length_append, List.length_singleton]
  | mark hc =>
    cases hv
    exact cut_mark hc rest

theorem stops_of_blank (h : isSpace c = true ∨ c = '#') (t : Terminal) : Stops t c := by
  have hblank : ∀ d ∈ [' ', '\t', Char.ofNat 12, '\r', '\n', '#'], isNameChar d = false ∧ d ≠ '.' :=
    List.all_iff_forall_prop.mp (by decide)
  have hmem : c ∈ [' ', '\t', Char.ofNat 12, '\r', '\n', '#'] := by
    simpa [isSpace, or_assoc] using h
  exact fun _ => ⟨(hblank c hmem).1, fun hdot => absurd hdot (hblank c hmem).2⟩

theorem stops_of_mark {u : Terminal} (h : Terminal.punctuation? c = some u) (htu : Apart t u) : Stops t c := by
  intro hword
  have hnext := htu hword
  unfold Terminal.punctuation? at h
  split at h <;> cases h
  · exact ⟨by decide, fun _ => hnext⟩
  all_goals exact ⟨by decide, fun hdot => absurd hdot (by decide)⟩

theorem stops_of_spells {w : List Char} {u : Terminal} (h : u.Spells (c :: w)) (htu : Apart t u) : Stops t c := by
  generalize hv : c :: w = v at h
  cases h with
  | mark hc =>
    cases hv
    exact stops_of_mark hc htu
  | name _ _ | integer _ | real _ _ | text _ _ => exact fun hword => (htu hword).elim

theorem Gap.head {g : List Char} (h : Gap g) : ∀ c ∈ g.head?, isSpace c = true ∨ c = '#' := by
  cases h with
  | nil => exact fun c hc => nomatch hc
  | space hc _ =>
    rintro d ⟨⟩
    exact .inl hc
  | comment _ _ =>
    rintro d ⟨⟩
    exact .inr rfl

theorem Laid.stops (h : Laid ts cs) (ht : ∀ u ∈ ts.head?, Apart t u) : ∀ c ∈ cs.head?, Stops t c := by
  intro c hc
  cases h with
  | nil hg => exact stops_of_blank (hg.head c hc) t
  | comment hg _ =>
    rw [List.head?_append, Option.mem_def, Option.or_eq_some_iff] at hc
    rcases hc with hc | ⟨-, hc⟩
    · exact stops_of_blank (hg.head c hc) t
    · cases hc
      exact stops_of_blank (.inr rfl) t
  | cons hg hw _ =>
    rw [List.head?_append, Option.mem_def, Option.or_eq_some_iff] at hc
    rcases hc with hc | ⟨-, hc⟩
    · exact stops_of_blank (hg.head c hc) t
    · obtain ⟨d, w, rfl⟩ := List.exists_cons_of_ne_nil hw.ne_nil
      cases hc
      exact stops_of_spells hw (ht _ rfl)

theorem Laid.lexes (h : Laid ts cs) (hapart : ts.IsChain Apart) (hplain : ∀ t ∈ ts, t.Plain) : Lexes cs ts := by
  induction h with
  | nil hg =>
    have hnil := hg.lexes .nil
    rwa [List.append_nil] at hnil
  | @comment g body hg hbody =>
    have hcomment : Lexes ('#' :: (body ++ [])) [] := .comment hbody (by rintro c ⟨⟩) .nil
    rw [List.append_nil] at hcomment
    exact hg.lexes hcomment
  | @cons t ts g w cs hg hw hcs ih =>
    obtain ⟨hnext, hchain⟩ := List.isChain_cons.mp hapart
    obtain ⟨ht, hts⟩ := List.forall_mem_cons.mp hplain
    obtain ⟨c, w, rfl⟩ := List.exists_cons_of_ne_nil hw.ne_nil
    have hcut := cut_spelled hw ht (hcs.stops hnext)
    -- The cut reaches as far as any spelling could, and it stops where this one does.
    refine hg.lexes (.token hw (fun u v hv hprefix => ?_) (ih hchain hts))
    obtain ⟨t', n, hcut', -, hle, -⟩ := cut_of_spells hv hprefix
    cases hcut.symm.trans hcut'
    exact hle

/-! ## Writings -/

mutual

def Datum.Writable : Datum → Prop
  | .integer n => n < Decimal.numeralBound
  | .real _ => False
  | .text s => '\'' ∉ s.toList ∨ '"' ∉ s.toList
  | .name s => IsName s
  | .tuple ds => AllWritable ds

def AllWritable : List Datum → Prop
  | [] => True
  | d :: ds => d.Writable ∧ AllWritable ds

end

structure Addition.Writable (a : Addition) : Prop where
  path : a.path ≠ [] ∧ ∀ n ∈ a.path, IsName n
  args : ∀ d ∈ a.args, d.Writable
  kwargs : ∀ k ∈ a.kwargs, IsName k.1 ∧ k.2.Writable

/-- The terminals are one way to write the phrase. -/
structure Written (ph : Phrase) (w : List Terminal) : Prop where
  derives : Derives w ph
  plain : ∀ t ∈ w, t.Plain

theorem plain_append {u : List Terminal} (hu : ∀ t ∈ u, t.Plain) (hw : ∀ t ∈ w, t.Plain) : ∀ t ∈ u ++ w, t.Plain :=
  List.forall_mem_append.mpr ⟨hu, hw⟩

theorem plain_cons (ht : t.Plain) (hw : ∀ u ∈ w, u.Plain) : ∀ u ∈ t :: w, u.Plain :=
  List.forall_mem_cons.mpr ⟨ht, hw⟩

theorem plain_nil : ∀ t ∈ ([] : List Terminal), t.Plain := fun _ ht => nomatch ht

theorem exists_trails {α : Type} {rule : List α → Phrase} {one : α → Phrase}
    (hput : ∀ {w u : List Terminal} {xs : List α} {x : α}, Trails rule w xs → Derives u (one x) →
      Derives (w ++ u) (rule (xs ++ [x])))
    {xs : List α} (h : ∀ x ∈ xs, ∃ u, Written (one x) u) : ∃ w, Trails rule w xs ∧ ∀ t ∈ w, t.Plain := by
  induction xs using List.reverseRecOn with
  | nil => exact ⟨[], .inl ⟨rfl, rfl⟩, plain_nil⟩
  | append_singleton xs x ih =>
    obtain ⟨hxs, hx⟩ := List.forall_mem_append.mp h
    obtain ⟨w, hw, hplain⟩ := ih hxs
    obtain ⟨u, hu⟩ := hx x (List.mem_singleton_self x)
    refine ⟨w ++ u ++ [Terminal.comma], .inr ⟨w ++ u, rfl, hput hw hu.derives⟩, ?_⟩
    exact plain_append (plain_append hplain hu.plain) (plain_cons trivial plain_nil)

theorem digitsValue_toDigits (n : Nat) : Decimal.digitsValue (Nat.toDigits 10 n) = n := Nat.ofDigitChars_ten_toDigits

theorem plain_toDigits {n : Nat} (h : n < Decimal.numeralBound) : (Terminal.integer (Nat.toDigits 10 n)).Plain := by
  refine ⟨⟨Nat.toDigits_ne_nil, fun c hc => ?_⟩, ?_⟩
  · have hdigit := Nat.isDigit_of_mem_toDigits (by decide) (by decide) hc
    simpa [Char.isDigit, Decimal.isDigit, Char.le_def] using hdigit
  · have hpos : 0 < Decimal.digitLimit := by decide
    unfold Decimal.numeralBound at h
    generalize Decimal.digitLimit = k at h hpos ⊢
    exact (Nat.length_toDigits_le_iff (by decide) hpos).mpr h

mutual

theorem Datum.Writable.exists_written : ∀ {d : Datum}, d.Writable → ∃ w, Written (.value d) w
  | .integer n, h => by
    have hn := Derives.integer (Nat.toDigits 10 n)
    rw [digitsValue_toDigits] at hn
    exact ⟨_, hn, plain_cons (plain_toDigits h) plain_nil⟩
  | .text s, h => ⟨_, .text s, plain_cons h plain_nil⟩
  | .name s, h => ⟨_, .name s, plain_cons h plain_nil⟩
  | .tuple ds, h => by
    obtain ⟨w, hw, hplain⟩ := exists_trails Trails.value (allWritable_exists_written h)
    exact ⟨_, hw.tuple, plain_cons trivial (plain_append hplain (plain_cons trivial plain_nil))⟩

theorem allWritable_exists_written : ∀ {ds : List Datum}, AllWritable ds → ∀ d ∈ ds, ∃ w, Written (.value d) w
  | [], _ => fun _ hd => nomatch hd
  | _ :: _, h => List.forall_mem_cons.mpr ⟨h.1.exists_written, allWritable_exists_written h.2⟩

end

theorem exists_written_path {ns : List String} (hne : ns ≠ []) (h : ∀ n ∈ ns, IsName n) :
    ∃ w, Written (.path ns) w := by
  induction ns using List.reverseRecOn with
  | nil => exact absurd rfl hne
  | append_singleton ns n ih =>
    obtain ⟨hns, hn⟩ := List.forall_mem_append.mp h
    have hplain : (Terminal.name n).Plain := hn n (List.mem_singleton_self n)
    by_cases hnil : ns = []
    · subst hnil
      exact ⟨_, .oneName n, plain_cons hplain plain_nil⟩
    · obtain ⟨w, hw⟩ := ih hnil hns
      exact ⟨_, .moreNames n hw.derives, plain_append hw.plain (plain_cons trivial (plain_cons hplain plain_nil))⟩

namespace Addition

def given (a : Addition) : List Given := a.args.map (none, ·) ++ a.kwargs.map fun k => (some k.1, k.2)

def sentence (a : Addition) : Sentence := ⟨"model", "add", a.path, a.given⟩

theorem sentence_addition (a : Addition) : a.sentence.addition = a := by
  rw [sentence, Sentence.addition, Addition.of, given]
  congr 1 <;> simp [List.filterMap_append, List.filterMap_map]

theorem sentence_accepted (a : Addition) : a.sentence.Accepted := by
  refine ⟨rfl, rfl, List.pairwise_append.mpr ⟨?_, ?_, ?_⟩⟩
  · exact List.pairwise_map.mpr (List.pairwise_of_forall fun _ _ hsome => nomatch hsome)
  · exact List.pairwise_map.mpr (List.pairwise_of_forall fun _ _ _ => rfl)
  · intro x hx y hy hsome
    obtain ⟨d, -, rfl⟩ := List.mem_map.mp hx
    cases hsome

theorem Writable.exists_argument {a : Addition} (h : a.Writable) : ∀ g ∈ a.given, ∃ w, Written (.argument g) w := by
  refine List.forall_mem_append.mpr ⟨List.forall_mem_map.mpr fun d hd => ?_, List.forall_mem_map.mpr fun k hk => ?_⟩
  · obtain ⟨w, hw⟩ := (h.args d hd).exists_written
    exact ⟨w, .positional hw.derives, hw.plain⟩
  · obtain ⟨hname, hvalue⟩ := h.kwargs k hk
    obtain ⟨w, hw⟩ := hvalue.exists_written
    exact ⟨_, .keyword k.1 hw.derives, plain_cons hname (plain_cons trivial hw.plain)⟩

theorem Writable.exists_written {a : Addition} (h : a.Writable) : ∃ w, Written (.statement a.sentence) w := by
  obtain ⟨p, hp⟩ := exists_written_path h.path.1 h.path.2
  obtain ⟨u, hu, hplain⟩ := exists_trails Trails.argument h.exists_argument
  have hmodel : (Terminal.name "model").Plain := ⟨'m', "odel".toList, rfl, rfl, List.all_eq_true.mp (by decide)⟩
  have hadd : (Terminal.name "add").Plain := ⟨'a', "dd".toList, rfl, rfl, List.all_eq_true.mp (by decide)⟩
  refine ⟨_, .statement "model" "add" (hu.call hp.derives) (.inl rfl), ?_⟩
  have hcall : ∀ t ∈ p ++ Terminal.lpar :: (u ++ [Terminal.rpar]), t.Plain :=
    plain_append hp.plain (plain_cons trivial (plain_append hplain (plain_cons trivial plain_nil)))
  have hrest := plain_append hcall (plain_cons (t := .rpar) trivial plain_nil)
  exact plain_cons hmodel (plain_cons trivial (plain_cons hadd (plain_cons trivial hrest)))

end Addition

/-- The terminals are one way to write statements that say what the additions do. -/
def Writes (ads : List Addition) (w : List Terminal) : Prop :=
  ∃ ss, Written (.statements ss) w ∧ (∀ s ∈ ss, s.Accepted) ∧ ss.map Sentence.addition = ads

theorem exists_writes {ads : List Addition} (hne : ads ≠ []) (h : ∀ a ∈ ads, a.Writable) : ∃ w, Writes ads w := by
  have hwritten : ∃ w, Written (.statements (ads.map Addition.sentence)) w := by
    induction ads using List.reverseRecOn with
    | nil => exact absurd rfl hne
    | append_singleton ads a ih =>
      obtain ⟨hads, ha⟩ := List.forall_mem_append.mp h
      obtain ⟨u, hu⟩ := (ha a (List.mem_singleton_self a)).exists_written
      by_cases hnil : ads = []
      · subst hnil
        exact ⟨u, .oneStatement hu.derives, hu.plain⟩
      · obtain ⟨w, hw⟩ := ih hnil hads
        rw [List.map_append]
        exact ⟨w ++ u, .moreStatements hw.derives hu.derives, plain_append hw.plain hu.plain⟩
  obtain ⟨w, hw⟩ := hwritten
  refine ⟨w, _, hw, List.forall_mem_map.mpr fun a _ => a.sentence_accepted, ?_⟩
  rw [List.map_map]
  exact (List.map_congr_left fun a _ => a.sentence_addition).trans (List.map_id ads)

theorem Terminal.Plain.exists_spells (h : t.Plain) : ∃ w, t.Spells w := by
  cases t with
  | name n => exact ⟨_, IsName.spells h⟩
  | integer ds => exact ⟨ds, .integer h.1⟩
  | real _ | junk => exact h.elim
  | text s =>
    have hs : s = String.ofList s.toList := String.ofList_toList.symm
    rw [hs]
    rcases h with h | h
    · exact ⟨_, .text (.inl rfl) h⟩
    · exact ⟨_, .text (.inr rfl) h⟩
  | dot => exact ⟨['.'], .mark rfl⟩
  | lpar => exact ⟨['('], .mark rfl⟩
  | rpar => exact ⟨[')'], .mark rfl⟩
  | comma => exact ⟨[','], .mark rfl⟩
  | equal => exact ⟨['='], .mark rfl⟩
  | semicolon => exact ⟨[';'], .mark rfl⟩

theorem exists_laid (h : ∀ t ∈ w, t.Plain) : ∃ text : String, Laid w text.toList := by
  have hchars : ∃ cs, Laid w cs := by
    induction w with
    | nil => exact ⟨[], .nil .nil⟩
    | cons t w ih =>
      obtain ⟨ht, hw⟩ := List.forall_mem_cons.mp h
      obtain ⟨v, hv⟩ := ht.exists_spells
      obtain ⟨cs, hcs⟩ := ih hw
      exact ⟨v ++ cs, .cons .nil hv hcs⟩
  obtain ⟨cs, hcs⟩ := hchars
  exact ⟨String.ofList cs, String.toList_ofList.symm ▸ hcs⟩

theorem Writes.read {ads : List Addition} (h : Writes ads w) {text : String} (hlaid : Laid w text.toList)
    (file : Option String) (offset : Int) :
    ∃ sts, readStatements file offset text = .ok sts ∧ sts.map Statement.addition = ads := by
  obtain ⟨ss, hw, hss, rfl⟩ := h
  have hlex := hlaid.lexes hw.derives.spread.1 hw.plain
  exact readStatements_of_derives hlex hw.derives hss (fun ds hds => (hw.plain _ hds).2) file offset

/-- None of the integers in the text is too long to be read. -/
def ShortIntegers (text : String) : Prop :=
  ∀ ts, Lexes text.toList ts → ∀ ds, Terminal.integer ds ∈ ts → ds.length ≤ Decimal.digitLimit

/-- A text is read just when it is derived from the grammar, as a sequence of statements that are accepted, and what is
read is what the derivation says. Any other text is an error in a statement. What is written is read back, with any
white space and comments, and all statements without fractions can be written. -/
theorem statements_read_iff_derived (file : Option String) (offset : Int) :
    (∀ text, ShortIntegers text →
      (∀ ads, (∃ sts, readStatements file offset text = .ok sts ∧ sts.map Statement.addition = ads) ↔
        ∃ ts ss, Lexes text.toList ts ∧ Derives ts (.statements ss) ∧ (∀ s ∈ ss, s.Accepted) ∧
          ss.map Sentence.addition = ads) ∧
      ((∃ sts, readStatements file offset text = .ok sts) ∨
        ∃ d, readStatements file offset text = .error (.reported d) ∧ d.code.label = "E001")) ∧
    (∀ (ads : List Addition) (ts : List Terminal) (text : String), Writes ads ts → Laid ts text.toList →
      ∃ sts, readStatements file offset text = .ok sts ∧ sts.map Statement.addition = ads) ∧
    (∀ ads : List Addition, ads ≠ [] → (∀ a ∈ ads, a.Writable) →
      ∃ (ts : List Terminal) (text : String), Writes ads ts ∧ Laid ts text.toList) := by
  refine ⟨fun text hshort => ⟨fun ads => ⟨?_, ?_⟩, ?_⟩, fun ads ts text h hlaid => h.read hlaid file offset, ?_⟩
  · rintro ⟨sts, hread, rfl⟩
    rcases readStatements_sound hshort file offset with
      ⟨sts', ts, ss, hread', hlex, hderives, hss, hadd⟩ | ⟨f, hfail, -⟩
    · cases hread.symm.trans hread'
      exact ⟨ts, ss, hlex, hderives, hss, hadd.symm⟩
    · cases hread.symm.trans hfail
  · rintro ⟨ts, ss, hlex, hderives, hss, rfl⟩
    exact readStatements_of_derives hlex hderives hss (hshort ts hlex) file offset
  · rcases readStatements_sound hshort file offset with ⟨sts, _, _, hread, -⟩ | ⟨f, hfail, d, rfl, hcode⟩
    · exact .inl ⟨sts, hread⟩
    · exact .inr ⟨d, hfail, hcode ▸ rfl⟩
  · intro ads hne hads
    obtain ⟨ts, hts⟩ := exists_writes hne hads
    obtain ⟨ss, hw, -⟩ := id hts
    obtain ⟨text, htext⟩ := exists_laid hw.plain
    exact ⟨ts, text, hts, htext⟩

/-- A comment stands inside the statement. -/
theorem statements_read_iff_derived_dense :
    ShortIntegers "model.add(#\nDense(2))" ∧
      ∃ sts, readStatements none 0 "model.add(#\nDense(2))" = .ok sts ∧
        sts.map Statement.addition = [⟨["Dense"], [.integer 2], []⟩] := by
  let w : List Terminal := [.name "model", .dot, .name "add", .lpar, .name "Dense", .lpar, .integer ['2'], .rpar, .rpar]
  have hmodel : IsName "model" := ⟨'m', "odel".toList, rfl, rfl, List.all_eq_true.mp (by decide)⟩
  have hadd : IsName "add" := ⟨'a', "dd".toList, rfl, rfl, List.all_eq_true.mp (by decide)⟩
  have hdense : IsName "Dense" := ⟨'D', "ense".toList, rfl, rfl, List.all_eq_true.mp (by decide)⟩
  have htwo : IsDigits ['2'] := ⟨List.cons_ne_nil _ _, List.all_eq_true.mp (by decide)⟩
  have hwritten : Written (.statements [⟨"model", "add", ["Dense"], [(none, .integer 2)]⟩]) w := by
    constructor
    · exact .oneStatement (.statement (o := []) "model" "add"
        (Derives.call_bare (.oneName "Dense") (.oneArgument (.positional (.integer ['2'])))) (.inl rfl))
    · simp [w, Terminal.Plain, hmodel, hadd, hdense, htwo, Decimal.digitLimit]
  have hgap : Gap ('#' :: ([] ++ '\n' :: [])) := .comment List.not_mem_nil .nil
  have hlaid : Laid w "model.add(#\nDense(2))".toList :=
    .cons .nil hmodel.spells <| .cons .nil (.mark rfl) <| .cons .nil hadd.spells <| .cons .nil (.mark rfl) <|
      .cons hgap hdense.spells <| .cons .nil (.mark rfl) <| .cons .nil (.integer htwo) <| .cons .nil (.mark rfl) <|
      .cons .nil (.mark rfl) <| .nil .nil
  have haccepted : Sentence.Accepted ⟨"model", "add", ["Dense"], [(none, .integer 2)]⟩ :=
    ⟨rfl, rfl, List.pairwise_singleton _ _⟩
  refine ⟨fun ts hts ds hds => ?_, (statements_read_iff_derived none 0).2.1 _ w _
    ⟨_, hwritten, List.forall_mem_singleton.mpr haccepted, rfl⟩ hlaid⟩
  have hlex := hlaid.lexes hwritten.derives.spread.1 hwritten.plain
  have hsame := (hts.lexemes ⟨1, 1⟩).1.symm.trans (hlex.lexemes ⟨1, 1⟩).1
  exact (hwritten.plain (.integer ds) (hsame ▸ hds)).2

end LayerLoops.Source
