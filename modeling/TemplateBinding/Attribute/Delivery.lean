import TemplateBinding.Attribute.Evaluation
import TemplateBinding.Attribute.Segments

/-!
Attributes are interpreted in two ways: a command gives an interpretation, or it writes
into an instruction that is being built. The segments of an `options` value are attributes
again, and are written into an instruction of their own. The interpreter is told what to do
with them.
-/
namespace TemplateBinding

/-- What is done with the segments of an `options` value. -/
abbrev SegmentWriter (value : Text) :=
  (segment : Text × Text) → segment ∈ Segments.split value → Writing Unit

def collect (name value : Text) (write : SegmentWriter value) : Interpreting Instruction :=
  let all := (Segments.split value).attach.forM fun ⟨segment, member⟩ => write segment member
  Writing.extend all (Instruction.empty name)

def reportDispatch (ctx : Context) (name : Text) (command : Command) : Interpreting Unit :=
  ctx.trace (name ++ "." ++ command.keyword ++ ": dispatching")

theorem reportDispatch_result (ctx : Context) (name : Text) (command : Command) :
    (reportDispatch ctx name command).result = .ok () := ctx.trace_result _

/-- Interprets `name.keyword="value"`. Property bindings extend the existing instruction, if
there is one. No other result is merged into it. -/
def interpretWith (ctx : Context) (keyword name value : Text) (write : SegmentWriter value)
    (existing : Option Instruction) : Interpreting (Option Interpretation) := do
  match ← resolve ctx keyword with
  | none => pure none
  | some command => do
    reportDispatch ctx name command
    match command with
    | .property p => do
      let target := existing.getD (Instruction.empty name)
      let i ← (p.write ctx name value).extend target
      pure (some (.instruction i))
    | .trigger => do
      let l ← listener name value false
      pure (some (.listener l))
    | .delegate => do
      let l ← listener name value true
      pure (some (.listener l))
    | .ref => pure (some (.name ⟨name, .default⟩))
    | .options => do
      let i ← collect name value write
      pure (some (.instruction i))

/-- Writes `name.keyword="value"` into an instruction that is being built. What is not a
property binding is evaluated all the same, so that it can fail, and dropped. -/
def interpretIntoWith (ctx : Context) (keyword name value : Text) (write : SegmentWriter value) :
    Writing Unit := do
  match ← (resolve ctx keyword : Interpreting (Option Command)) with
  | none => pure ()
  | some command => do
    reportDispatch ctx name command
    match command with
    | .property p => p.write ctx name value
    | .trigger => do
      let _ ← listener name value false
    | .delegate => do
      let _ ← listener name value true
    | .ref => pure ()
    | .options => do
      let _ ← collect name value write

/-- Writes a whole attribute. Each segment of an `options` value is an attribute of its own,
with a shorter value. -/
def writeAttribute (ctx : Context) (name value : Text) : Writing Unit :=
  match splitCommand? name with
  | some (inner, command) =>
    interpretIntoWith ctx command inner value fun segment _member =>
      writeAttribute ctx segment.1 segment.2
  | none => writePlain ctx name value
termination_by value.length
decreasing_by exact Segments.split_shorter _member

def writeSegment (ctx : Context) (value : Text) : SegmentWriter value :=
  fun segment _ => writeAttribute ctx segment.1 segment.2

def interpret (ctx : Context) (keyword name value : Text) (existing : Option Instruction) :
    Interpreting (Option Interpretation) :=
  interpretWith ctx keyword name value (writeSegment ctx value) existing

def interpretInto (ctx : Context) (keyword name value : Text) (target : Instruction) : Update :=
  (interpretIntoWith ctx keyword name value (writeSegment ctx value)).update target

def addAttribute (ctx : Context) (name value : Text) (target : Instruction) : Update :=
  (writeAttribute ctx name value).update target

inductive Meaning
  | interpreted (i : Interpretation)
  | interpolated (i : Interpolation)

/-- What an attribute is. Its name goes without the command, and it has no meaning when it
is plain text or its command is ignored. -/
structure AttributeInfo where
  name : Text
  value : Text
  command : Option Text
  meaning : Option Meaning

def attributeInfo (ctx : Context) (name value : Text) (existing : Option Instruction) :
    Interpreting AttributeInfo :=
  match splitCommand? name with
  | some (inner, command) => do
    let i ← interpret ctx command inner value existing
    pure ⟨inner, value, some command, i.map .interpreted⟩
  | none =>
    if name = refName then
      pure ⟨name, value, none, some (.interpreted (.name ⟨value, .element⟩))⟩
    else do
      let i ← interpolated ctx name value
      pure ⟨name, value, none, i.map .interpolated⟩

end TemplateBinding
