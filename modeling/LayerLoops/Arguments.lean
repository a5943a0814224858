import LayerLoops.Decimal.Integer
import LayerLoops.Options.Value

/-! # Command-line arguments

A command takes options and at most one operand. A long option may be shortened as far as only one option
starts that way, and may carry its value after an equal sign; short options may be run together, the last of
them with its value. Two dashes end the options; as the value of an option they are dropped, which leaves it with
no values. Arguments that fit nowhere are left over. -/

namespace LayerLoops

open Options (Value)

/-- What an option accepts. -/
inductive Domain
  | flag
  | text
  | integer
  | choice (words : List String)
  deriving DecidableEq, Repr

structure OptionSpec where
  /-- The spellings, the long one first. -/
  names : List String
  /-- The name that its value is kept under. -/
  key : String
  domain : Domain := .text
  /-- Nothing is read after the option. -/
  isLast : Bool := false
  deriving DecidableEq, Repr

/-- Why arguments make no sense. -/
inductive Misusage
  | ambiguous (given : String) (candidates : List String)
  | valueMissing (names : List String)
  | valueIgnored (names : List String) (value : String)
  | badInteger (names : List String) (value : String)
  | badChoice (names : List String) (value : String) (words : List String)
  | leftOver (arguments : List String)
  deriving DecidableEq, Repr

def Misusage.text : Misusage → String
  | ambiguous given candidates =>
    "ambiguous option: " ++ given ++ " could match " ++ ", ".intercalate candidates
  | valueMissing names => ofArgument names "expected one argument"
  | valueIgnored names value => ofArgument names ("ignored explicit argument " ++ Text.quoted value)
  | badInteger names value => ofArgument names ("invalid int value: " ++ Text.quoted value)
  | badChoice names value words =>
    ofArgument names ("invalid choice: " ++ Text.quoted value ++ " (choose from " ++
      ", ".intercalate (words.map Text.quoted) ++ ")")
  | leftOver arguments => "unrecognized arguments: " ++ " ".intercalate arguments
where
  ofArgument (names : List String) (problem : String) : String :=
    "argument " ++ "/".intercalate names ++ ": " ++ problem

def separatorText : String := "--"

/-- What an argument looks like. -/
inductive ArgumentKind
  | operand
  /-- Two dashes, which end the options. -/
  | separator
  | option (spec : OptionSpec) (name : String) (value : Option String)
  | unknown
  deriving DecidableEq, Repr

structure Argument where
  text : String
  kind : ArgumentKind
  deriving DecidableEq, Repr

def splitEqual (s : String) : Option (String × String) :=
  let cs := s.toList
  let name := cs.takeWhile (· != '=')
  if name.length = cs.length then none
  else some (String.ofList name, String.ofList (cs.drop (name.length + 1)))

def isNegativeNumber (s : String) : Bool :=
  let digit (c : Char) : Bool := (Text.digitValue? c).isSome
  match s.toList with
  | '-' :: cs =>
    let whole := cs.takeWhile digit
    match cs.drop whole.length with
    | [] => !whole.isEmpty
    | '.' :: fraction => !fraction.isEmpty && fraction.all digit
    | _ => false
  | _ => false

def spellings (specs : List OptionSpec) : List (String × OptionSpec) :=
  specs.flatMap fun s => s.names.map (·, s)

/-- The options that a shortened long option, or a run of short options, may stand for. -/
def candidates (specs : List OptionSpec) (arg : String) : List (OptionSpec × String × Option String) :=
  if arg.startsWith "--" then
    let (start, value) := match splitEqual arg with
      | some (start, value) => (start, some value)
      | none => (arg, none)
    (spellings specs).filterMap fun (name, s) => if name.startsWith start then some (s, name, value) else none
  else
    (spellings specs).filterMap fun (name, s) =>
      if name.toList = arg.toList.take 2 then some (s, name, some (String.ofList (arg.toList.drop 2)))
      else if name.startsWith arg then some (s, name, none)
      else none

def classify (specs : List OptionSpec) (arg : String) : Except Misusage ArgumentKind := do
  if !arg.startsWith "-" then return .operand
  if let some s := (spellings specs).lookup arg then return .option s arg none
  if arg = "-" then return .operand
  if let some (name, value) := splitEqual arg then
    if let some s := (spellings specs).lookup name then return .option s name (some value)
  match candidates specs arg with
  | [(s, name, value)] => return .option s name value
  | [] =>
    if isNegativeNumber arg || arg.toList.contains ' ' then return .operand else return .unknown
  | many => throw (.ambiguous arg (many.map fun (_, name, _) => name))

/-- The arguments with what they look like; after a separator all of them are operands. -/
def classifyAll (specs : List OptionSpec) : List String → Except Misusage (List Argument)
  | [] => .ok []
  | "--" :: rest => .ok (⟨"--", .separator⟩ :: rest.map (⟨·, .operand⟩))
  | arg :: rest => do
    let kind ← classify specs arg
    pure (⟨arg, kind⟩ :: (← classifyAll specs rest))

/-- What was read from arguments. -/
structure Parsed where
  values : List (String × Value) := []
  /-- The operand, once it has been looked for. -/
  operand : Option (Option String) := none
  leftOver : List String := []
  deriving Repr

namespace Parsed

def set (p : Parsed) (key : String) (v : Value) : Parsed :=
  { p with values := (key, v) :: p.values.filter (·.1 ≠ key) }

def get (p : Parsed) (key : String) : Value := (p.values.lookup key).getD .null

/-- Sets the value of an option that takes one. Two dashes are no value, and are not checked. -/
def take (p : Parsed) (s : OptionSpec) (value : String) : Except Misusage Parsed :=
  match s.domain with
  | .flag => .error (.valueIgnored s.names value)
  | domain =>
    if value = separatorText then .ok (p.set s.key (.list []))
    else match domain with
      | .flag | .text => .ok (p.set s.key (.text value))
      | .integer => match Decimal.readInt? value with
        | some n => .ok (p.set s.key (.integer n))
        | none => .error (.badInteger s.names value)
      | .choice words =>
        if words.contains value then .ok (p.set s.key (.text value)) else .error (.badChoice s.names value words)

/-- Sets a run of short options: flags and then perhaps an option whose value is the rest. The result also
tells the option at the end that still needs a value. -/
def takeRun (specs : List OptionSpec) (p : Parsed) (s : OptionSpec) (long : Bool) (value : List Char) :
    Except Misusage (Parsed × Option OptionSpec) :=
  if s.domain ≠ .flag then (p.take s (String.ofList value)).map (·, none)
  else match value with
    | [] => .error (.valueIgnored s.names "")
    | c :: more =>
      if long then .error (.valueIgnored s.names (String.ofList value))
      else match (spellings specs).lookup (String.ofList ['-', c]) with
        | none => .error (.valueIgnored s.names (String.ofList value))
        | some next =>
          let p := p.set s.key (.boolean true)
          match more with
          | [] => if next.domain = .flag then .ok (p.set next.key (.boolean true), none) else .ok (p, some next)
          | d :: ds => takeRun specs p next false (d :: ds)
termination_by value.length

/-- Looks for the operand at the front of arguments among which there is no option any more. -/
def takeOperand (p : Parsed) (args : List Argument) : Parsed × List Argument :=
  if p.operand.isSome then (p, args)
  else
    let isSeparator (a : Argument) : Bool := a.kind == .separator
    let rest := args.dropWhile isSeparator
    match rest with
    | a :: rest => ({ p with operand := some (some a.text) }, rest.dropWhile isSeparator)
    | [] => ({ p with operand := some none }, [])

def isOver (p : Parsed) (specs : List OptionSpec) : Bool := specs.any fun s => s.isLast && (p.get s.key).isSet

def read (specs : List OptionSpec) (p : Parsed) : List Argument → Except Misusage Parsed
  | [] => .ok p
  | a :: rest =>
    match a.kind with
    | .unknown => read specs { p with leftOver := p.leftOver ++ [a.text] } rest
    | .option s name value => do
      let (p, pending) ← match value with
        | some value => takeRun specs p s (name.startsWith "--") value.toList
        | none => if s.domain = .flag then pure (p.set s.key (.boolean true), none) else pure (p, some s)
      match pending, rest with
      | none, rest => if p.isOver specs then .ok p else read specs p rest
      | some s, ⟨text, .operand⟩ :: rest => do read specs (← p.take s text) rest
      | some s, _ => .error (.valueMissing s.names)
    | .operand | .separator =>
      if rest.any fun a => a.kind matches .option .. | .unknown then
        if p.operand.isSome then read specs { p with leftOver := p.leftOver ++ [a.text] } rest
        else read specs { p with operand := some (some a.text) } rest
      else
        let (p, extra) := p.takeOperand (a :: rest)
        .ok { p with leftOver := p.leftOver ++ extra.map Argument.text }

end Parsed

def parseArguments (specs : List OptionSpec) (args : List String) : Except Misusage Parsed := do
  Parsed.read specs {} (← classifyAll specs args)

end LayerLoops
