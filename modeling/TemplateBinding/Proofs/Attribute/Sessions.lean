import TemplateBinding.Proofs.Attribute.Agreement

/-! An instruction is built by many calls, and a failure does not end its use. What a call
may give and what it may leave of the instruction is said once, for all calls. -/
namespace TemplateBinding

inductive Request
  | ofCommand (keyword name value : Text)
  | ofAttribute (name value : Text)

/-- What a request may be answered with: its meaning on its own, or as an extension of the
instruction built so far, or that instruction after writing into it. -/
inductive Delivery
  | apart
  | extended
  | inPlace
deriving DecidableEq

structure Call where
  context : Context
  request : Request
  delivery : Delivery

structure Reply where
  instruction : Instruction
  result : Except BindingError (Option Meaning)

def Request.meaning (ctx : Context) (existing : Option Instruction) :
    Request → Interpreting (Option Meaning)
  | .ofCommand keyword name value => do
    let i ← interpret ctx keyword name value existing
    pure (i.map .interpreted)
  | .ofAttribute name value => do
    let info ← attributeInfo ctx name value existing
    pure info.meaning

def Request.update (ctx : Context) (target : Instruction) : Request → Update
  | .ofCommand keyword name value => interpretInto ctx keyword name value target
  | .ofAttribute name value => addAttribute ctx name value target

/-- An instruction that is handed back takes the place of the one before. -/
def Reply.ofMeaning (i : Instruction) (result : Except BindingError (Option Meaning)) : Reply :=
  match result with
  | .ok (some (.interpreted (.instruction j))) => ⟨j, result⟩
  | _ => ⟨i, result⟩

def Reply.ofUpdate (u : Update) : Reply := ⟨u.instruction, u.run.result.map fun _ => none⟩

namespace Reply

variable {i : Instruction} {result : Except BindingError (Option Meaning)} {u : Update}
  {m : Option Meaning} {e : BindingError}

theorem ofMeaning_cases (i : Instruction) (result : Except BindingError (Option Meaning)) :
    (ofMeaning i result).instruction = i ∨
      result = .ok (some (.interpreted (.instruction (ofMeaning i result).instruction))) := by
  unfold ofMeaning
  split
  · exact .inr rfl
  · exact .inl rfl

theorem ofMeaning_result : (ofMeaning i result).result = result := by
  unfold ofMeaning
  split <;> rfl

theorem ofMeaning_error (failed : (ofMeaning i result).result = .error e) :
    (ofMeaning i result).instruction = i := by
  unfold ofMeaning at failed ⊢
  split
  · cases failed
  · rfl

theorem ofUpdate_error (failed : (ofUpdate u).result = .error e) : u.run.result = .error e := by
  unfold ofUpdate at failed
  cases result : u.run.result with
  | ok done =>
    rw [result] at failed
    cases failed
  | error e =>
    rw [result] at failed
    cases failed
    rfl

theorem ofUpdate_ok (done : (ofUpdate u).result = .ok m) : u.run.result = .ok () ∧ m = none := by
  unfold ofUpdate at done
  cases result : u.run.result with
  | ok done' =>
    rw [result] at done
    cases done
    exact ⟨rfl, rfl⟩
  | error e =>
    rw [result] at done
    cases done

end Reply

def Call.reply (c : Call) (i : Instruction) : Reply :=
  match c.delivery with
  | .apart => .ofMeaning i (c.request.meaning c.context none).result
  | .extended => .ofMeaning i (c.request.meaning c.context (some i)).result
  | .inPlace => .ofUpdate (c.request.update c.context i)

structure Step where
  before : Instruction
  call : Call
  reply : Reply

def session : List Call → Instruction → List Step
  | [], _ => []
  | call :: calls, i =>
    let reply := call.reply i
    ⟨i, call, reply⟩ :: session calls reply.instruction

/-- What every call keeps is kept by the whole session, with what is assumed of its steps. -/
theorem session_steps (kept : Instruction → Prop) {assumed holds : Step → Prop}
    (step : ∀ (call : Call) i, kept i → assumed ⟨i, call, call.reply i⟩ →
      kept (call.reply i).instruction ∧ holds ⟨i, call, call.reply i⟩)
    {i : Instruction} (start : kept i) {calls : List Call}
    (all : ∀ s ∈ session calls i, assumed s) : ∀ s ∈ session calls i, holds s := by
  induction calls generalizing i with
  | nil => exact fun s member => nomatch member
  | cons call calls ih =>
    obtain ⟨first, others⟩ := List.forall_mem_cons.1 all
    obtain ⟨kept, holds⟩ := step call i start first
    exact List.forall_mem_cons.2 ⟨holds, ih kept others⟩

theorem session_reply {calls : List Call} {i : Instruction} :
    ∀ s ∈ session calls i, s.reply = s.call.reply s.before :=
  session_steps (fun _ => True) (fun _ _ _ _ => ⟨True.intro, rfl⟩) True.intro fun _ _ => True.intro

inductive Request.Means (ctx : Context) (existing : Option Instruction) :
    Request → Option Meaning → Prop
  | unknown {keyword name value} :
      Command.ofKeyword? keyword = none → Means ctx existing (.ofCommand keyword name value) none
  | property {keyword name value p i} :
      Command.ofKeyword? keyword = some (.property p) →
      ((p.write ctx name value).extend (existing.getD (.empty name))).result = .ok i →
      Means ctx existing (.ofCommand keyword name value) (some (.interpreted (.instruction i)))
  | listener {keyword name value command l} :
      Command.ofKeyword? keyword = some command → command = .trigger ∨ command = .delegate →
      Means ctx existing (.ofCommand keyword name value) (some (.interpreted (.listener l)))
  | ref {keyword name value} :
      Command.ofKeyword? keyword = some .ref →
      Means ctx existing (.ofCommand keyword name value)
        (some (.interpreted (.name ⟨name, .default⟩)))
  | options {keyword name value i} :
      Command.ofKeyword? keyword = some .options →
      (collect name value (writeSegment ctx value)).result = .ok i →
      Means ctx existing (.ofCommand keyword name value) (some (.interpreted (.instruction i)))
  | dotted {name value inner keyword m} :
      splitCommand? name = some (inner, keyword) →
      Means ctx existing (.ofCommand keyword inner value) m →
      Means ctx existing (.ofAttribute name value) m
  | element {name value} :
      splitCommand? name = none → name = refName →
      Means ctx existing (.ofAttribute name value) (some (.interpreted (.name ⟨value, .element⟩)))
  | plain {name value i} :
      splitCommand? name = none → name ≠ refName → (interpolated ctx name value).result = .ok i →
      Means ctx existing (.ofAttribute name value) (i.map .interpolated)

theorem resolve_eq_none {ctx : Context} {keyword : Text}
    (ignored : (resolve ctx keyword).result = .ok none) : Command.ofKeyword? keyword = none := by
  unfold resolve at ignored
  split at ignored
  · cases ignored
  · assumption

section Means

variable {ctx : Context} {existing : Option Instruction}

theorem means_of_interpret {keyword name value : Text} {i : Option Interpretation}
    (given : (interpret ctx keyword name value existing).result = .ok i) :
    Request.Means ctx existing (.ofCommand keyword name value) (i.map .interpreted) := by
  obtain ⟨found, known, given⟩ := Run.bind_eq_ok_iff.1 given
  cases found with
  | none =>
    cases given
    exact .unknown (resolve_eq_none known)
  | some command =>
    have known := resolve_result.1 known
    obtain ⟨-, -, given⟩ := Run.bind_eq_ok_iff.1 given
    cases command with
    | property p =>
      obtain ⟨i, written, same⟩ := Run.bind_eq_ok_iff.1 given
      cases same
      exact .property known written
    | trigger =>
      obtain ⟨l, -, same⟩ := Run.bind_eq_ok_iff.1 given
      cases same
      exact .listener known (.inl rfl)
    | delegate =>
      obtain ⟨l, -, same⟩ := Run.bind_eq_ok_iff.1 given
      cases same
      exact .listener known (.inr rfl)
    | ref =>
      cases given
      exact .ref known
    | options =>
      obtain ⟨i, collected, same⟩ := Run.bind_eq_ok_iff.1 given
      cases same
      exact .options known collected

theorem means_of_ok {r : Request} {m : Option Meaning}
    (given : (r.meaning ctx existing).result = .ok m) : r.Means ctx existing m := by
  cases r with
  | ofCommand keyword name value =>
    obtain ⟨i, interpreted, same⟩ := Run.bind_eq_ok_iff.1 given
    cases same
    exact means_of_interpret interpreted
  | ofAttribute name value =>
    obtain ⟨info, described, same⟩ := Run.bind_eq_ok_iff.1 given
    cases same
    unfold attributeInfo at described
    split at described
    · rename_i inner keyword parts
      obtain ⟨i, interpreted, same⟩ := Run.bind_eq_ok_iff.1 described
      cases same
      exact .dotted parts (means_of_interpret interpreted)
    · rename_i whole
      split at described
      · rename_i isRef
        cases described
        exact .element whole isRef
      · rename_i notRef
        obtain ⟨i, read, same⟩ := Run.bind_eq_ok_iff.1 described
        cases same
        exact .plain whole notRef read

end Means

def Request.left (target : Instruction) (m : Option Meaning) : Request → Instruction
  | .ofCommand keyword _ _ => leftBy (Command.ofKeyword? keyword) target (interpretation? m)
  | .ofAttribute name value =>
    match splitCommand? name with
    | some (_, keyword) => leftBy (Command.ofKeyword? keyword) target (interpretation? m)
    | none => target.insert name (plainEntry value m)

theorem Request.settles (ctx : Context) (target : Instruction) (r : Request) :
    ∃ w : Writing Unit, r.update ctx target = w.update target ∧
      Settles target (fun m => r.left target m) w (r.meaning ctx (some target)) := by
  cases r with
  | ofCommand keyword name value =>
    refine ⟨_, rfl, (settles_interpret ctx keyword name value _ target).map fun i => ?_⟩
    cases i <;> rfl
  | ofAttribute name value =>
    refine ⟨_, rfl, ?_⟩
    cases parts : splitCommand? name with
    | some part => exact (settles_command parts).map fun info => by simp only [left, parts]
    | none => exact (settles_plain parts).map fun info => by simp only [left, parts]

theorem update_done {ctx : Context} {target : Instruction} {r : Request}
    (done : (r.update ctx target).run.result = .ok ()) :
    ∃ m, r.Means ctx (some target) m ∧ (r.update ctx target).instruction = r.left target m := by
  obtain ⟨w, same, settles⟩ := r.settles ctx target
  rw [same] at done ⊢
  cases result : (r.meaning ctx (some target)).result with
  | error e =>
    rw [settles.failed result] at done
    cases done
  | ok m =>
    rw [settles.done result]
    exact ⟨m, means_of_ok result, rfl⟩

def Request.command? : Request → Option Command
  | .ofCommand keyword _ _ => Command.ofKeyword? keyword
  | .ofAttribute name _ => (splitCommand? name).bind fun parts => Command.ofKeyword? parts.2

def Request.value : Request → Text
  | .ofCommand _ _ value | .ofAttribute _ value => value

def Request.Writes (ctx : Context) (key : Text) (entry : Entry) : Request → Prop
  | .ofCommand keyword name value => CommandWrites ctx keyword name value key entry
  | .ofAttribute name value => AttributeWrites ctx name value key entry

def SegmentWrites (ctx : Context) (value key : Text) (entry : Entry) : Prop :=
  ∃ segment ∈ Segments.split value, AttributeWrites ctx segment.1 segment.2 key entry

/-- The entries that there are, whatever they are written for. -/
inductive Entry.Made (ctx : Context) : Text → Entry → Prop
  | literal {key text} : Made ctx key (.literal text)
  | bound {p : PropertyCommand} {name e} : Made ctx name (p.bound ctx name e)
  | element {value} : Made ctx refName (.name ⟨value, .element⟩)
  | interpolation {name value i} :
      (interpolated ctx name value).result = .ok (some i) → Made ctx name (.interpolation i)

section Made

variable {ctx : Context} {name value key : Text} {entry : Entry}

theorem made_of_commandWrites {keyword : Text}
    (writes : CommandWrites ctx keyword name value key entry) : entry.Made ctx key := by
  obtain ⟨p, -, writes⟩ := writes
  cases writes with
  | loopItem => exact .literal
  | bound => exact .bound

theorem made_of_attributeWrites (writes : AttributeWrites ctx name value key entry) :
    entry.Made ctx key := by
  cases writes with
  | command _ writes => exact made_of_commandWrites writes
  | plain _ writes =>
    cases writes with
    | element isRef =>
      subst isRef
      exact .element
    | interpolation _ read => exact .interpolation read
    | literal => exact .literal

theorem made_of_writes {r : Request}
    (writes : r.Writes ctx key entry ∨ SegmentWrites ctx r.value key entry) :
    entry.Made ctx key := by
  rcases writes with own | ⟨segment, -, writes⟩
  · cases r with
    | ofCommand keyword name value => exact made_of_commandWrites own
    | ofAttribute name value => exact made_of_attributeWrites own
  · exact made_of_attributeWrites writes

end Made

section Kept

variable {ctx : Context} {name value : Text} {allowed : Text → Entry → Prop} {i j : Instruction}
  {existing : Option Instruction} {r : Request}

theorem update_kept (fit : ∀ key entry, r.Writes ctx key entry → allowed key entry)
    (holds : i.Holds allowed) :
    i.Extends (r.update ctx i).instruction ∧ (r.update ctx i).instruction.Holds allowed := by
  cases r with
  | ofCommand keyword name value =>
    have commits := commits_interpretIntoWith ctx keyword name value (writeSegment ctx value)
    exact ⟨commits.extends i, (commits.mono fit).holds holds⟩
  | ofAttribute name value =>
    have commits := commits_writeAttribute ctx name value
    exact ⟨commits.extends i, (commits.mono fit).holds holds⟩

theorem collect_kept (fit : ∀ key entry, SegmentWrites ctx value key entry → allowed key entry)
    (given : (collect name value (writeSegment ctx value)).result = .ok j) :
    (Instruction.empty name).Extends j ∧ j.Holds allowed := by
  obtain ⟨-, rfl⟩ := Writing.extend_eq_ok_iff.1 given
  refine Writing.forM_keeps (fun i => (Instruction.empty name).Extends i ∧ i.Holds allowed)
    ?_ ⟨.refl _, Instruction.holds_empty name⟩
  rintro ⟨segment, member⟩ - i ⟨extends', holds⟩
  have commits : Writing.Commits allowed (writeAttribute ctx segment.1 segment.2) :=
    (commits_writeAttribute ctx segment.1 segment.2).mono fun key entry writes =>
      fit key entry ⟨segment, member, writes⟩
  exact ⟨extends'.trans (commits.extends i), commits.holds holds⟩

/-- An instruction that is given extends the one that was there, unless it collects the
segments of `options`. -/
theorem Request.Means.kept {m : Option Meaning} (means : r.Means ctx existing m)
    (fit : ∀ key entry,
      r.Writes ctx key entry ∨ SegmentWrites ctx r.value key entry → allowed key entry)
    (holds : ∀ i ∈ existing, i.Holds allowed) (given : m = some (.interpreted (.instruction j))) :
    j.Holds allowed ∧ ∃ name, (existing.getD (.empty name)).Extends j ∨
      r.command? = some .options ∧ (Instruction.empty name).Extends j := by
  induction means with
  | @property keyword name value p i known written =>
    cases given
    obtain ⟨-, rfl⟩ := Writing.extend_eq_ok_iff.1 written
    have commits := p.commits_write ctx name value
    have before : (existing.getD (.empty name)).Holds allowed := by
      cases existing with
      | none => exact Instruction.holds_empty name
      | some i => exact holds i rfl
    refine ⟨(commits.mono fun key entry writes => ?_).holds before, name, .inl (commits.extends _)⟩
    exact fit key entry (.inl ⟨p, known, writes⟩)
  | @options keyword name value i known collected =>
    cases given
    have kept := collect_kept (fun key entry writes => fit key entry (.inr writes)) collected
    exact ⟨kept.2, name, .inr ⟨known, kept.1⟩⟩
  | dotted parts _ ih =>
    obtain ⟨kept, name, extends'⟩ := ih (fun key entry writes =>
      fit key entry (writes.imp_left (.command parts))) given
    refine ⟨kept, name, ?_⟩
    simp only [command?, parts, Option.bind_some]
    exact extends'
  | @plain name value i =>
    cases i <;> cases given
  | unknown | listener | ref | element => cases given

end Kept

def Call.Begins (c : Call) : Prop :=
  c.delivery = .apart ∨ c.delivery = .extended ∧ c.request.command? = some .options

/-- The instruction before a step goes on, or another one has begun. -/
def Step.Continues (s : Step) : Prop :=
  s.before.Extends s.reply.instruction ∨
    s.call.Begins ∧ ∃ name, (Instruction.empty name).Extends s.reply.instruction

theorem Call.reply_kept {allowed : Text → Entry → Prop} (c : Call) {i : Instruction}
    (fit : ∀ key entry,
      c.request.Writes c.context key entry ∨ SegmentWrites c.context c.request.value key entry →
        allowed key entry)
    (holds : i.Holds allowed) :
    (c.reply i).instruction.Holds allowed ∧ Step.Continues ⟨i, c, c.reply i⟩ := by
  obtain ⟨ctx, request, delivery⟩ := c
  cases delivery with
  | apart =>
    rcases Reply.ofMeaning_cases i (request.meaning ctx none).result with same | given
    · exact ⟨same.symm ▸ holds, .inl (same.symm ▸ .refl i)⟩
    · obtain ⟨kept, name, extends'⟩ := (means_of_ok given).kept fit nofun rfl
      exact ⟨kept, .inr ⟨.inl rfl, name, extends'.elim id fun both => both.2⟩⟩
  | extended =>
    rcases Reply.ofMeaning_cases i (request.meaning ctx (some i)).result with same | given
    · exact ⟨same.symm ▸ holds, .inl (same.symm ▸ .refl i)⟩
    · have before : ∀ j ∈ some i, j.Holds allowed := fun j member => by
        cases member
        exact holds
      obtain ⟨kept, name, extends' | ⟨isOptions, extends'⟩⟩ :=
        (means_of_ok given).kept fit before rfl
      · exact ⟨kept, .inl extends'⟩
      · exact ⟨kept, .inr ⟨.inr ⟨rfl, isOptions⟩, name, extends'⟩⟩
  | inPlace =>
    have fit := fun key entry writes => fit key entry (.inl writes)
    obtain ⟨extends', kept⟩ := update_kept fit holds
    exact ⟨kept, .inl extends'⟩

theorem Call.reply_failed (c : Call) {i : Instruction} {e : BindingError}
    (failed : (c.reply i).result = .error e) : (c.reply i).instruction = i := by
  obtain ⟨ctx, request, delivery⟩ := c
  cases delivery with
  | apart | extended => exact Reply.ofMeaning_error failed
  | inPlace =>
    have failed := Reply.ofUpdate_error failed
    cases request with
    | ofCommand keyword name value => exact (commits_interpretIntoWith ..).unchanged failed
    | ofAttribute name value => exact (commits_writeAttribute ..).unchanged failed

theorem Call.means_of_reply (c : Call) {i : Instruction} {m : Meaning}
    (given : (c.reply i).result = .ok (some m)) :
    (∃ existing, c.request.Means c.context existing (some m)) ∧
      ∀ j, m = .interpreted (.instruction j) → (c.reply i).instruction = j := by
  obtain ⟨ctx, request, delivery⟩ := c
  cases delivery with
  | apart | extended =>
    have given := Reply.ofMeaning_result.symm.trans given
    refine ⟨⟨_, means_of_ok given⟩, ?_⟩
    rintro j rfl
    unfold Call.reply
    dsimp only
    rw [given]
    rfl
  | inPlace =>
    obtain ⟨-, none⟩ := Reply.ofUpdate_ok given
    cases none

end TemplateBinding
