import LayerLoops.Source.Reader

/-! # The grammar of statements

A text is cut into terminals, each as long as it can be, with white space and comments left out. The terminals of a
text that is a sequence of statements are derived by the rules of the grammar, and each derivation has a meaning. -/

namespace LayerLoops.Source

/-! ## Terminals -/

def IsDigits (cs : List Char) : Prop := cs ≠ [] ∧ ∀ c ∈ cs, Decimal.isDigit c = true

/-- A letter, perhaps a sign, and digits. -/
def IsExponent (cs : List Char) : Prop :=
  ∃ e sign ds, (e = 'e' ∨ e = 'E') ∧ (sign = [] ∨ sign = ['+'] ∨ sign = ['-']) ∧ IsDigits ds ∧ cs = e :: (sign ++ ds)

/-- A point and digits, perhaps with an exponent. -/
def IsFraction (cs : List Char) : Prop :=
  ∃ ds es, IsDigits ds ∧ (es = [] ∨ IsExponent es) ∧ cs = '.' :: (ds ++ es)

/-- How a terminal is written. -/
inductive Terminal.Spells : Terminal → List Char → Prop
  | name {c : Char} {cs : List Char} : isNameStart c = true → (∀ d ∈ cs, isNameChar d = true) →
    Spells (.name (String.ofList (c :: cs))) (c :: cs)
  | integer {ds : List Char} : IsDigits ds → Spells (.integer ds) ds
  | real {ds fs : List Char} : IsDigits ds → IsFraction fs → Spells (.real (ds ++ fs)) (ds ++ fs)
  | text {q : Char} {cs : List Char} : q = '\'' ∨ q = '"' → q ∉ cs →
    Spells (.text (String.ofList cs)) (q :: (cs ++ [q]))
  | mark {c : Char} {t : Terminal} : Terminal.punctuation? c = some t → Spells t [c]

/-- The terminals of a text. No terminal could be longer where it stands. -/
inductive Lexes : List Char → List Terminal → Prop
  | nil : Lexes [] []
  | space {c : Char} {cs : List Char} {ts : List Terminal} : isSpace c = true → Lexes cs ts → Lexes (c :: cs) ts
  | comment {body rest : List Char} {ts : List Terminal} : '\n' ∉ body → (∀ c ∈ rest.head?, c = '\n') →
    Lexes rest ts → Lexes ('#' :: (body ++ rest)) ts
  | token {t : Terminal} {w rest : List Char} {ts : List Terminal} : t.Spells w →
    (∀ u v, Terminal.Spells u v → v <+: w ++ rest → v.length ≤ w.length) → Lexes rest ts → Lexes (w ++ rest) (t :: ts)

/-! ## Meanings -/

/-- A value, whatever place it was read from. -/
inductive Datum
  | integer (n : Nat)
  | real (r : Decimal.Binary)
  | text (s : String)
  | name (s : String)
  | tuple (items : List Datum)

mutual

def Value.datum : Value → Datum
  | .integer n _ => .integer n
  | .real r _ => .real r
  | .text s _ => .text s
  | .name s _ => .name s
  | .tuple items _ => .tuple (dataOf items)

def dataOf : List Value → List Datum
  | [] => []
  | v :: vs => v.datum :: dataOf vs

end

theorem dataOf_eq_map (vs : List Value) : dataOf vs = vs.map Value.datum := by
  induction vs with
  | nil => rfl
  | cons v vs ih => rw [dataOf, ih, List.map_cons]

/-- An argument, with the name that it is given to. -/
abbrev Given := Option String × Datum

/-- A statement as it is written. -/
structure Sentence where
  receiver : String
  method : String
  path : List String
  arguments : List Given

/-- What a statement says about a layer: its constructor, and its positional and keyword arguments. -/
structure Addition where
  path : List String
  args : List Datum
  kwargs : List (String × Datum)

/-- The positional arguments, and the others by their names. -/
def Addition.of (path : List String) (as : List Given) : Addition where
  path := path
  args := as.filterMap fun a => if a.1.isNone then some a.2 else none
  kwargs := as.filterMap fun a => a.1.map fun k => (k, a.2)

namespace Sentence

def addition (s : Sentence) : Addition := .of s.path s.arguments

/-- No positional argument follows a keyword argument. -/
def Ordered (as : List Given) : Prop := as.Pairwise fun a b => a.1.isSome = true → b.1.isSome = true

/-- The statement calls `model.add`, with its arguments in order. -/
structure Accepted (s : Sentence) : Prop where
  receiver : s.receiver = "model"
  method : s.method = "add"
  ordered : Ordered s.arguments

end Sentence

def Call.addition (c : Call) : Addition where
  path := c.path
  args := c.args.map Value.datum
  kwargs := c.kwargs.map fun k => (k.name, k.value.datum)

def Statement.addition (s : Statement) : Addition := s.call.addition

/-! ## Rules -/

/-- A part of a text, by the rule that derives it and what it means. -/
inductive Phrase
  | value (d : Datum)
  | values (ds : List Datum)
  | argument (a : Given)
  | arguments (as : List Given)
  | path (names : List String)
  | call (names : List String) (as : List Given)
  | statement (s : Sentence)
  | statements (ss : List Sentence)

def IsComma (o : List Terminal) : Prop := o = [] ∨ o = [.comma]

/-- The terminals are derived from the rule. -/
inductive Derives : List Terminal → Phrase → Prop
  | integer (ds : List Char) : Derives [.integer ds] (.value (.integer (Decimal.digitsValue ds)))
  | real (ds : List Char) : Derives [.real ds] (.value (.real (realOf ds)))
  | text (s : String) : Derives [.text s] (.value (.text s))
  | name (s : String) : Derives [.name s] (.value (.name s))
  | unit : Derives [.lpar, .rpar] (.value (.tuple []))
  | tuple {w o : List Terminal} {ds : List Datum} : Derives w (.values ds) → IsComma o →
    Derives (.lpar :: (w ++ o ++ [.rpar])) (.value (.tuple ds))
  | oneValue {w : List Terminal} {d : Datum} : Derives w (.value d) → Derives w (.values [d])
  | moreValues {u w : List Terminal} {ds : List Datum} {d : Datum} : Derives u (.values ds) → Derives w (.value d) →
    Derives (u ++ .comma :: w) (.values (ds ++ [d]))
  | keyword {w : List Terminal} {d : Datum} (k : String) : Derives w (.value d) →
    Derives (.name k :: .equal :: w) (.argument (some k, d))
  | positional {w : List Terminal} {d : Datum} : Derives w (.value d) → Derives w (.argument (none, d))
  | oneArgument {w : List Terminal} {a : Given} : Derives w (.argument a) → Derives w (.arguments [a])
  | moreArguments {u w : List Terminal} {as : List Given} {a : Given} : Derives u (.arguments as) →
    Derives w (.argument a) → Derives (u ++ .comma :: w) (.arguments (as ++ [a]))
  | oneName (n : String) : Derives [.name n] (.path [n])
  | moreNames {w : List Terminal} {ns : List String} (n : String) : Derives w (.path ns) →
    Derives (w ++ [.dot, .name n]) (.path (ns ++ [n]))
  | bareCall {w : List Terminal} {ns : List String} : Derives w (.path ns) → Derives (w ++ [.lpar, .rpar]) (.call ns [])
  | call {w u o : List Terminal} {ns : List String} {as : List Given} : Derives w (.path ns) →
    Derives u (.arguments as) → IsComma o → Derives (w ++ .lpar :: (u ++ o ++ [.rpar])) (.call ns as)
  | statement {w o : List Terminal} {ns : List String} {as : List Given} (r m : String) : Derives w (.call ns as) →
    o = [] ∨ o = [.semicolon] →
    Derives (.name r :: .dot :: .name m :: .lpar :: (w ++ .rpar :: o)) (.statement ⟨r, m, ns, as⟩)
  | oneStatement {w : List Terminal} {s : Sentence} : Derives w (.statement s) → Derives w (.statements [s])
  | moreStatements {u w : List Terminal} {ss : List Sentence} {s : Sentence} : Derives u (.statements ss) →
    Derives w (.statement s) → Derives (u ++ w) (.statements (ss ++ [s]))

end LayerLoops.Source
