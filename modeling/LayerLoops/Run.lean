import LayerLoops.Log

/-! # Parts of a run

A part of a run may tell its progress, change files, and end in a fault. What was told and changed before a fault
stays. -/

namespace LayerLoops

def Run (α : Type) : Type := Log → Log × Except Fault α

namespace Run

def ok {α : Type} (a : α) : Run α := fun l => (l, .ok a)

def andThen {α β : Type} (x : Run α) (f : α → Run β) : Run β := fun l =>
  match x l with
  | (l, .ok a) => f a l
  | (l, .error e) => (l, .error e)

instance : Monad Run where
  pure := ok
  bind := andThen

def ofExcept {α : Type} (x : Except Fault α) : Run α := fun l => (l, x)

def say (text : String) : Run Unit := fun l => (l.say text, .ok ())

def files : Run Files := fun l => (l, .ok l.files)

def change {α : Type} (f : Files → Files × Except Fault α) : Run α := fun l =>
  let (files, result) := f l.files
  ({ l with files }, result)

def setup (level : String) (file : Option String) (append : Bool) : Run Unit := fun l => l.setup level file append

def route (level : String) : Run Unit := fun l => l.route level

/-- Tells the entries of a journal in turn, up to one that cannot be put into words. -/
def tell : Journal → Run Unit
  | [] => ok ()
  | e :: es => fun l =>
    match l.entry e with
    | .ok l => tell es l
    | .error f => (l, .error f)

end Run
end LayerLoops
