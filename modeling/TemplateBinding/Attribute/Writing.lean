import TemplateBinding.Attribute.Error
import TemplateBinding.Attribute.Instruction
import TemplateBinding.Run

/-!
Computations that write into an instruction in place. What is written stays written, also
when the computation fails later on.
-/
namespace TemplateBinding

abbrev Interpreting := Run BindingError

/-- An instruction after an attempt to extend it, and how the attempt went. -/
structure Update where
  instruction : Instruction
  run : Interpreting Unit

def Writing (α : Type) := Instruction → Instruction × Interpreting α

namespace Writing

variable {α β : Type}

def andThen (w : Writing α) (next : α → Writing β) : Writing β := fun i =>
  let first := w i
  match first.2.result with
  | .ok a =>
    let second := next a first.1
    (second.1, ⟨first.2.log ++ second.2.log, second.2.result⟩)
  | .error e => (first.1, ⟨first.2.log, .error e⟩)

instance : Monad Writing where
  pure a := fun i => (i, pure a)
  bind := andThen

def ofRun (r : Interpreting α) : Writing α := fun i => (i, r)

instance : MonadLift Interpreting Writing := ⟨ofRun⟩

def insert (key : Text) (entry : Entry) : Writing Unit := fun i => (i.insert key entry, pure ())

def update (w : Writing Unit) (target : Instruction) : Update :=
  let written := w target
  ⟨written.1, written.2⟩

def extend (w : Writing Unit) (i : Instruction) : Interpreting Instruction :=
  let written := w i
  do
    written.2
    pure written.1

end Writing
end TemplateBinding
