import LayerLoops.Proofs.Grammar

/-! # The grammar with places

The rules of the grammar once more, over lexemes instead of terminals. Each derives a part of a statement together with
the place that it has: from the start of its first lexeme to the end of its last. -/

namespace LayerLoops.Source

/-- The place from the start of the first lexeme to the end of the last. -/
def Occupies (file : Option String) (ls : List Lexeme) (l : Location) : Prop :=
  ∃ a b, ls.head? = some a ∧ ls.getLast? = some b ∧ l = place file a.start b.stop

/-- A part of a statement as it was read. -/
inductive Node
  | value (v : Value)
  | values (vs : List Value)
  | argument (a : Argument)
  | arguments (as : List Argument)
  | path (names : List String)
  | call (c : Call)
  | statement (s : Statement)
  | statements (ss : List Statement)

def Argument.positional? : Argument → Option Value
  | .positional v => some v
  | .keyword _ => none

def Argument.keyword? : Argument → Option Keyword
  | .positional _ => none
  | .keyword k => some k

def Call.of (path : List String) (as : List Argument) (l : Location) : Call where
  path := path
  args := as.filterMap Argument.positional?
  kwargs := as.filterMap Argument.keyword?
  location := l

def openers : List Terminal := [.name "model", .dot, .name "add", .lpar]

/-- The lexemes are derived from the rule, with the places of all parts. -/
inductive Stands (file : Option String) : List Lexeme → Node → Prop
  | integer {t : Lexeme} {ds : List Char} {l : Location} : t.terminal = .integer ds → Occupies file [t] l →
    Stands file [t] (.value (.integer (Decimal.digitsValue ds) l))
  | real {t : Lexeme} {ds : List Char} {l : Location} : t.terminal = .real ds → Occupies file [t] l →
    Stands file [t] (.value (.real (realOf ds) l))
  | text {t : Lexeme} {s : String} {l : Location} : t.terminal = .text s → Occupies file [t] l →
    Stands file [t] (.value (.text s l))
  | name {t : Lexeme} {s : String} {l : Location} : t.terminal = .name s → Occupies file [t] l →
    Stands file [t] (.value (.name s l))
  | unit {a b : Lexeme} {l : Location} : a.terminal = .lpar → b.terminal = .rpar → Occupies file [a, b] l →
    Stands file [a, b] (.value (.tuple [] l))
  | tuple {a b : Lexeme} {w o : List Lexeme} {vs : List Value} {l : Location} : a.terminal = .lpar →
    Stands file w (.values vs) → IsComma (o.map Lexeme.terminal) → b.terminal = .rpar →
    Occupies file (a :: (w ++ o ++ [b])) l → Stands file (a :: (w ++ o ++ [b])) (.value (.tuple vs l))
  | oneValue {w : List Lexeme} {v : Value} : Stands file w (.value v) → Stands file w (.values [v])
  | moreValues {u w : List Lexeme} {k : Lexeme} {vs : List Value} {v : Value} : Stands file u (.values vs) →
    k.terminal = .comma → Stands file w (.value v) → Stands file (u ++ k :: w) (.values (vs ++ [v]))
  | keyword {n e : Lexeme} {w : List Lexeme} {k : String} {v : Value} {l : Location} : n.terminal = .name k →
    e.terminal = .equal → Stands file w (.value v) → Occupies file (n :: e :: w) l →
    Stands file (n :: e :: w) (.argument (.keyword ⟨k, v, l⟩))
  | positional {w : List Lexeme} {v : Value} : Stands file w (.value v) → Stands file w (.argument (.positional v))
  | oneArgument {w : List Lexeme} {a : Argument} : Stands file w (.argument a) → Stands file w (.arguments [a])
  | moreArguments {u w : List Lexeme} {k : Lexeme} {as : List Argument} {a : Argument} : Stands file u (.arguments as) →
    k.terminal = .comma → Stands file w (.argument a) → Stands file (u ++ k :: w) (.arguments (as ++ [a]))
  | oneName {t : Lexeme} {n : String} : t.terminal = .name n → Stands file [t] (.path [n])
  | moreNames {w : List Lexeme} {d t : Lexeme} {ns : List String} {n : String} : Stands file w (.path ns) →
    d.terminal = .dot → t.terminal = .name n → Stands file (w ++ [d, t]) (.path (ns ++ [n]))
  | bareCall {w : List Lexeme} {a b : Lexeme} {ns : List String} {l : Location} : Stands file w (.path ns) →
    a.terminal = .lpar → b.terminal = .rpar → Occupies file (w ++ [a, b]) l →
    Stands file (w ++ [a, b]) (.call (.of ns [] l))
  | call {w u o : List Lexeme} {a b : Lexeme} {ns : List String} {as : List Argument} {l : Location} :
    Stands file w (.path ns) → a.terminal = .lpar → Stands file u (.arguments as) → IsComma (o.map Lexeme.terminal) →
    b.terminal = .rpar → Occupies file (w ++ a :: (u ++ o ++ [b])) l →
    Stands file (w ++ a :: (u ++ o ++ [b])) (.call (.of ns as l))
  | statement {h w o : List Lexeme} {b : Lexeme} {c : Call} {l : Location} (text : String) :
    h.map Lexeme.terminal = openers → Stands file w (.call c) → b.terminal = .rpar →
    o.map Lexeme.terminal = [] ∨ o.map Lexeme.terminal = [.semicolon] → Occupies file (h ++ (w ++ b :: o)) l →
    Stands file (h ++ (w ++ b :: o)) (.statement { call := c, location := l, text })
  | oneStatement {w : List Lexeme} {s : Statement} : Stands file w (.statement s) → Stands file w (.statements [s])
  | moreStatements {u w : List Lexeme} {ss : List Statement} {s : Statement} : Stands file u (.statements ss) →
    Stands file w (.statement s) → Stands file (u ++ w) (.statements (ss ++ [s]))

theorem occupies_single (file : Option String) (t : Lexeme) : Occupies file [t] (place file t.start t.stop) :=
  ⟨t, t, rfl, rfl, rfl⟩

theorem occupies_between {file : Option String} {a b : Lexeme} {w : List Lexeme} :
    Occupies file (a :: (w ++ [b])) (place file a.start b.stop) :=
  ⟨a, b, rfl, by rw [List.getLast?_cons, List.getLast?_append]; simp, rfl⟩

end LayerLoops.Source
