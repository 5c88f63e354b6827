import TemplateBinding.Proofs.Attribute.Commits

/-! A command is interpreted, or written into an instruction; an attribute is described, or
added to one. The two ways fail alike and log alike, and where they succeed, the result of
the one tells what the other leaves of the instruction. -/
namespace TemplateBinding

/-- Written into `target`, `w` fails and logs as the run `r` does. It leaves `left a` where
the run gives `a`, and the instruction as it was where the run fails. -/
def Settles {α : Type} (target : Instruction) (left : α → Instruction) (w : Writing Unit)
    (r : Interpreting α) : Prop :=
  w target =
    match r.result with
    | .ok a => (left a, ⟨r.log, .ok ()⟩)
    | .error e => (target, ⟨r.log, .error e⟩)

section Settles

variable {α β : Type} {target : Instruction} {left : α → Instruction}

theorem settles_bind {r : Interpreting β} {next : β → Writing Unit} {next' : β → Interpreting α}
    (later : ∀ b, r.result = .ok b → Settles target left (next b) (next' b)) :
    Settles target left (Writing.ofRun r >>= next) (r >>= next') := by
  obtain ⟨log, result⟩ := r
  cases result with
  | error e => rfl
  | ok b =>
    have later := later b rfl
    unfold Settles at later ⊢
    simp only [Writing.bind_ofRun, Run.bind_eq, Run.andThen, later]
    cases (next' b).result <;> rfl

theorem settles_dropped {r : Interpreting β} {result : β → α}
    (dropped : ∀ b, left (result b) = target) :
    Settles target left (Writing.ofRun r >>= fun _ => pure ()) (r >>= fun b => pure (result b)) :=
  settles_bind fun b _ => congrArg (·, _) (dropped b).symm

/-- Nothing is lost by writing in place, since all writing is done at the end. -/
theorem settles_extend {allowed : Text → Entry → Prop} {w : Writing Unit}
    {result : Instruction → α} (commits : w.Commits allowed) (written : ∀ i, left (result i) = i) :
    Settles target left w (w.extend target >>= fun i => pure (result i)) := by
  unfold Settles Writing.extend
  obtain ⟨i, ⟨log, outcome⟩, run⟩ : ∃ i r, w target = (i, r) := ⟨_, _, rfl⟩
  cases outcome with
  | ok done => simp [run, Run.bind_eq, Run.andThen, Run.pure_eq, written]
  | error e =>
    have same := commits.unchanged (congrArg (·.2.result) run)
    simp only [run] at same
    simp [run, Run.bind_eq, Run.andThen, same]

theorem Settles.map {left' : β → Instruction} {result : α → β} {w : Writing Unit}
    {r : Interpreting α} (settles : Settles target left w r)
    (same : ∀ a, left' (result a) = left a) :
    Settles target left' w (r >>= fun a => pure (result a)) := by
  unfold Settles at settles ⊢
  rw [settles]
  obtain ⟨log, outcome⟩ := r
  cases outcome <;> simp [Run.bind_eq, Run.andThen, Run.pure_eq, same]

theorem Settles.failed {w : Writing Unit} {r : Interpreting α} (settles : Settles target left w r)
    {e : BindingError} (failed : r.result = .error e) :
    w.update target = ⟨target, ⟨r.log, .error e⟩⟩ := by
  unfold Settles at settles
  simp only [Writing.update, settles, failed]

theorem Settles.done {w : Writing Unit} {r : Interpreting α} (settles : Settles target left w r)
    {a : α} (given : r.result = .ok a) : w.update target = ⟨left a, ⟨r.log, .ok ()⟩⟩ := by
  unfold Settles at settles
  simp only [Writing.update, settles, given]

end Settles

def leftBy (command : Option Command) (target : Instruction) : Option Interpretation → Instruction
  | some (.instruction i) =>
    match command with
    | some (.property _) => i
    | _ => target
  | _ => target

theorem leftBy_unwritten {command : Option Command}
    (unwritten : ∀ p, command ≠ some (.property p)) (target : Instruction)
    (i : Option Interpretation) : leftBy command target i = target := by
  unfold leftBy
  split
  · split
    · rename_i p
      exact absurd rfl (unwritten p)
    · rfl
  · rfl

theorem settles_interpret (ctx : Context) (keyword name value : Text)
    (write : SegmentWriter value) (target : Instruction) :
    Settles target (leftBy (Command.ofKeyword? keyword) target)
      (interpretIntoWith ctx keyword name value write)
      (interpretWith ctx keyword name value write (some target)) := by
  refine settles_bind fun found known => ?_
  cases found with
  | none => rfl
  | some command =>
    rw [resolve_result.1 known]
    refine settles_bind fun _ _ => ?_
    cases command with
    | property p => exact settles_extend (p.commits_write ctx name value) fun i => rfl
    | trigger | delegate => exact settles_dropped fun l => rfl
    | ref => rfl
    | options => exact settles_dropped fun i => rfl

theorem interpretWith_property {ctx : Context} {keyword name value : Text}
    {write : SegmentWriter value} {existing : Option Instruction} {p : PropertyCommand}
    {result : Option Interpretation} (command : Command.ofKeyword? keyword = some (.property p))
    (given : (interpretWith ctx keyword name value write existing).result = .ok result) :
    ∃ i, result = some (.instruction i) := by
  obtain ⟨found, known, given⟩ := Run.bind_eq_ok_iff.1 given
  cases known.symm.trans (resolve_result.2 command)
  obtain ⟨-, -, given⟩ := Run.bind_eq_ok_iff.1 given
  obtain ⟨i, -, given⟩ := Run.bind_eq_ok_iff.1 given
  cases given
  exact ⟨i, rfl⟩

/-- Interpreting a command and writing it into the instruction are the same operation, whatever
is done with the segments of `options`. They fail alike, succeed alike and log alike. A property
command leaves the instruction that it gives; every other command, and every failure, leaves the
instruction as it was. -/
theorem interpretInto_agrees_interpret (ctx : Context) (keyword name value : Text)
    (write : SegmentWriter value) (target : Instruction) :
    let given := interpretWith ctx keyword name value write (some target)
    let update := (interpretIntoWith ctx keyword name value write).update target
    match given.result, Command.ofKeyword? keyword with
    | .error e, _ => update = ⟨target, ⟨given.log, .error e⟩⟩
    | .ok i, some (.property _) =>
      i = some (.instruction update.instruction) ∧ update.run = ⟨given.log, .ok ()⟩
    | .ok _, _ => update = ⟨target, ⟨given.log, .ok ()⟩⟩ := by
  have settles := settles_interpret ctx keyword name value write target
  dsimp only
  split
  · rename_i e failed
    exact settles.failed failed
  · rename_i i p given command
    obtain ⟨j, rfl⟩ := interpretWith_property command given
    rw [settles.done given, command]
    exact ⟨rfl, rfl⟩
  · rename_i i given unwritten
    rw [settles.done given, leftBy_unwritten unwritten]

/-- What adding an attribute makes of an instruction, by what the attribute means: a property
command leaves the instruction that it gives, every other command none of its result, and
without a command there is one new entry under the whole name. -/
def Added (name value : Text) (target : Instruction) (meaning : Option Meaning)
    (added : Instruction) : Prop :=
  match splitCommand? name with
  | some (_, keyword) =>
    match Command.ofKeyword? keyword with
    | some (.property _) => meaning = some (.interpreted (.instruction added))
    | _ => added = target
  | none =>
    if name = refName then added = target.insert name (.name ⟨value, .element⟩)
    else match meaning with
      | some (.interpolated i) => added = target.insert name (.interpolation i)
      | none => added = target.insert name (.literal value)
      | some (.interpreted _) => False

section Attribute

variable {ctx : Context} {name value : Text} {target : Instruction}

theorem attributeInfo_command {inner keyword : Text}
    (parts : splitCommand? name = some (inner, keyword)) (existing : Option Instruction) :
    attributeInfo ctx name value existing =
      interpret ctx keyword inner value existing >>= fun i =>
        pure ⟨inner, value, some keyword, i.map .interpreted⟩ := by
  unfold attributeInfo
  rw [parts]

theorem writeAttribute_command {inner keyword : Text}
    (parts : splitCommand? name = some (inner, keyword)) :
    writeAttribute ctx name value =
      interpretIntoWith ctx keyword inner value (writeSegment ctx value) := by
  unfold writeAttribute
  rw [parts]
  rfl

theorem writeAttribute_plain (whole : splitCommand? name = none) :
    writeAttribute ctx name value = writePlain ctx name value := by
  unfold writeAttribute
  rw [whole]

def interpretation? : Option Meaning → Option Interpretation
  | some (.interpreted i) => some i
  | _ => none

theorem settles_command {inner keyword : Text}
    (parts : splitCommand? name = some (inner, keyword)) :
    Settles target
      (fun info => leftBy (Command.ofKeyword? keyword) target (interpretation? info.meaning))
      (writeAttribute ctx name value) (attributeInfo ctx name value (some target)) := by
  rw [attributeInfo_command parts, writeAttribute_command parts]
  refine (settles_interpret ctx keyword inner value _ target).map fun i => ?_
  cases i <;> rfl

theorem added_command {inner keyword : Text} {info : AttributeInfo}
    (parts : splitCommand? name = some (inner, keyword))
    (given : (attributeInfo ctx name value (some target)).result = .ok info) :
    Added name value target info.meaning
      (leftBy (Command.ofKeyword? keyword) target (interpretation? info.meaning)) := by
  rw [attributeInfo_command parts] at given
  obtain ⟨i, interpreted, same⟩ := Run.bind_eq_ok_iff.1 given
  cases same
  simp only [Added, parts]
  split
  · rename_i p command
    obtain ⟨j, rfl⟩ := interpretWith_property command interpreted
    rw [command]
    rfl
  · rename_i unwritten
    exact leftBy_unwritten unwritten target _

def plainEntry (value : Text) : Option Meaning → Entry
  | some (.interpreted (.name n)) => .name n
  | some (.interpolated i) => .interpolation i
  | _ => .literal value

theorem settles_plain (whole : splitCommand? name = none) :
    Settles target (fun info => target.insert name (plainEntry value info.meaning))
      (writeAttribute ctx name value) (attributeInfo ctx name value (some target)) := by
  rw [writeAttribute_plain whole]
  unfold attributeInfo writePlain
  simp only [whole]
  split
  · rfl
  · refine settles_bind fun found _ => ?_
    cases found <;> rfl

theorem added_plain (whole : splitCommand? name = none) {info : AttributeInfo}
    (given : (attributeInfo ctx name value (some target)).result = .ok info) :
    Added name value target info.meaning
      (target.insert name (plainEntry value info.meaning)) := by
  unfold attributeInfo at given
  simp only [whole] at given
  unfold Added
  simp only [whole]
  split at given
  · cases given
    rename_i isRef
    rw [if_pos isRef]
    rfl
  · obtain ⟨found, -, same⟩ := Run.bind_eq_ok_iff.1 given
    cases same
    rename_i notRef
    rw [if_neg notRef]
    cases found <;> rfl

end Attribute

/-- An attribute is described as it is added. The two fail alike, with the instruction as it
was, and log alike, and what is added is told by the description. -/
theorem addAttribute_agrees_attributeInfo (ctx : Context) (name value : Text)
    (target : Instruction) :
    let given := attributeInfo ctx name value (some target)
    let update := addAttribute ctx name value target
    match given.result with
    | .error e => update = ⟨target, ⟨given.log, .error e⟩⟩
    | .ok info =>
      update.run = ⟨given.log, .ok ()⟩ ∧
        Added name value target info.meaning update.instruction := by
  obtain ⟨left, settles, fits⟩ : ∃ left : AttributeInfo → Instruction,
      Settles target left (writeAttribute ctx name value)
          (attributeInfo ctx name value (some target)) ∧
        ∀ info, (attributeInfo ctx name value (some target)).result = .ok info →
          Added name value target info.meaning (left info) := by
    cases parts : splitCommand? name with
    | some part => exact ⟨_, settles_command parts, fun _ => added_command parts⟩
    | none => exact ⟨_, settles_plain parts, fun _ => added_plain parts⟩
  dsimp only
  split
  · rename_i e failed
    exact settles.failed failed
  · rename_i info given
    rw [addAttribute, settles.done given]
    exact ⟨rfl, fits info given⟩

end TemplateBinding
