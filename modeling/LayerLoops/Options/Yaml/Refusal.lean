import LayerLoops.Fault

/-! # Refusals

Why a YAML text has no value: it is ill-formed, or something that it asks for cannot be done. -/

namespace LayerLoops.Options.Yaml

inductive Refusal
  | illFormed
  | fault (f : Fault)
  deriving Repr

def formed {α : Type} : Option α → Except Refusal α
  | some a => .ok a
  | none => .error .illFormed

def sound {α : Type} (x : Except Fault α) : Except Refusal α := x.mapError .fault

end LayerLoops.Options.Yaml
