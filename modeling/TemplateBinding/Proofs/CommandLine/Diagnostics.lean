import TemplateBinding.CommandLine.Session
import TemplateBinding.Proofs.Attribute.Observing

/-! Diagnostics do not influence results. The level of the log, the flag for verbose logs and the
registered filters decide what is written to the log, and nothing else; and a session with a
higher level writes the more severe part of what a session with a lower one writes. -/
namespace TemplateBinding

namespace Run

variable {ε α β : Type}

theorem result_bind (r : Run ε α) (next : α → Run ε β) :
    (r >>= next).result = r.result >>= fun a => (next a).result := by
  obtain ⟨log, result⟩ := r
  cases result <;> rfl

theorem result_mapM (f : α → Run ε β) (as : List α) :
    (as.mapM f).result = as.mapM fun a => (f a).result := by
  induction as with
  | nil => rfl
  | cons a as ih =>
    simp only [List.mapM_cons, result_bind, ih]
    rfl

theorem forM_record_result (logger : Logger) (level : Level) (messages : List Text) :
    (messages.forM (logger.record level) : Run ε Unit).result = .ok () := by
  induction messages with
  | nil => rfl
  | cons message messages ih =>
    have unfolded : ((message :: messages).forM (logger.record level) : Run ε Unit) =
        logger.record level message >>= fun _ => messages.forM (logger.record level) := rfl
    have recorded : (logger.record level message : Run ε Unit).result = .ok () := by
      unfold Logger.record
      cases logger.enabled level <;> rfl
    rw [unfolded, result_bind, recorded]
    exact ih

end Run

/-! The documents and the warnings of an attribute do not show which filters it holds. -/

section Against

variable (filters : Filters)

theorem Entry.toJson_against (entry : Entry) : (entry.against filters).toJson = entry.toJson := by
  cases entry <;> rfl

theorem Interpretation.toJson_against (i : Interpretation) :
    (i.against filters).toJson = i.toJson := by
  cases i with
  | instruction i =>
    simp only [against, toJson, Instruction.toJson, Instruction.against, writesAgainst,
      List.map_map, Function.comp_def, Prod.map, id, Entry.toJson_against]
  | listener | name => rfl

theorem AttributeInfo.toJson_against (info : AttributeInfo) :
    (info.against filters).toJson = info.toJson := by
  obtain ⟨name, value, command, meaning⟩ := info
  cases meaning with
  | none => rfl
  | some m =>
    cases m with
    | interpreted i =>
      simp only [against, toJson, Option.map_some, Meaning.against, Meaning.toJson,
        Interpretation.toJson_against]
    | interpolated i => rfl

theorem Entry.sources_against (entry : Entry) :
    (entry.against filters).sources = entry.sources := by
  cases entry <;> rfl

theorem AttributeInfo.warnings_against (info : AttributeInfo) (known : Filters) :
    (info.against filters).warnings known = info.warnings known := by
  have sources : (info.against filters).sources = info.sources := by
    obtain ⟨name, value, command, meaning⟩ := info
    rcases meaning with _ | (⟨i⟩ | l | n) | i
    case some.interpreted.instruction =>
      simp only [against, sources, Option.map_some, Meaning.against, Interpretation.against,
        Interpretation.sources, Instruction.against, writesAgainst, List.flatMap_map, Prod.map,
        Entry.sources_against]
    all_goals rfl
  rw [warnings, sources, warnings]

end Against

namespace CommandLine

inductive Task
  | attributes (given : List (Text × Text))
  | command (keyword name value : Text)

namespace Session

def perform (s : Session) : Task → Run Failure Json
  | .attributes given => s.attributes given
  | .command keyword name value => s.command keyword name value

def level (s : Session) : Level := if s.verbose then .debug else s.config.logLevel

variable {s s' : Session}

theorem logger_covers (lower : s.level.severity ≤ s'.level.severity) (level : Level)
    (kept : s'.logger.enabled level = true) : s.logger.enabled level = true :=
  decide_eq_true (Nat.le_trans lower (of_decide_eq_true kept))

theorem covers_of_level (agrees : s.context.Agrees s'.context)
    (lower : s.level.severity ≤ s'.level.severity) : s.context.Covers s'.context :=
  ⟨agrees, logger_covers lower⟩

section Covers

variable (covers : s.context.Covers s'.context)
include covers

theorem observed_command (keyword name value : Text) :
    Observed s'.logger id (s.command keyword name value) (s'.command keyword name value) := by
  have interpreted := observed_interpret covers name value keyword none
  refine (interpreted.mapError (Failure.ofCommand keyword name value)).bind fun i => ?_
  have shown : ((i.map (Interpretation.against s'.context.filters)).map
      Interpretation.toJson).getD .null = (i.map Interpretation.toJson).getD .null := by
    cases i with
    | none => rfl
    | some i => exact Interpretation.toJson_against _ i
  rw [shown]
  exact .pure _

theorem observed_describe (filters : s.filters = s'.filters) (pair : Text × Text) :
    Observed s'.logger id (s.describe pair) (s'.describe pair) := by
  have described := observed_attributeInfo covers pair.1 pair.2 none
  refine (described.mapError (Failure.ofAttribute pair.1 pair.2)).bind fun info => ?_
  rw [AttributeInfo.warnings_against, AttributeInfo.toJson_against, filters]
  refine Observed.bind (.forM fun message _ => ?_) fun _ => .pure _
  exact observed_record (covers.logger .warn) message

theorem describe_result (pair : Text × Text) :
    (s.describe pair).result = (s'.describe pair).result := by
  have shown (s : Session) : (s.describe pair).result =
      ((attributeInfo s.context pair.1 pair.2 none).mapError
        (Failure.ofAttribute pair.1 pair.2)).result.map AttributeInfo.toJson := by
    unfold describe
    simp only [Run.result_bind, Run.forM_record_result]
    generalize ((attributeInfo s.context pair.1 pair.2 none).mapError _).result = found
    cases found <;> rfl
  have described := (observed_attributeInfo covers pair.1 pair.2 none).mapError
    (Failure.ofAttribute pair.1 pair.2)
  rw [Option.map_none] at described
  rw [shown s, shown s', described.result]
  generalize ((attributeInfo s.context pair.1 pair.2 none).mapError _).result = found
  cases found with
  | error e => rfl
  | ok info => exact congrArg Except.ok (AttributeInfo.toJson_against _ info).symm

theorem result_of_covers (task : Task) : (s.perform task).result = (s'.perform task).result := by
  cases task with
  | attributes given =>
    have tag : s.tag = s'.tag := covers.tag
    have each : (fun pair => (s.describe pair).result) = fun pair => (s'.describe pair).result :=
      funext (describe_result covers)
    simp only [perform, attributes, Run.result_bind, Run.result_mapM, tag, each]
  | command keyword name value => exact (observed_command covers keyword name value).result_eq.symm

theorem observed_perform (filters : s.filters = s'.filters) (task : Task) :
    Observed s'.logger id (s.perform task) (s'.perform task) := by
  cases task with
  | attributes given =>
    have tag : s.tag = s'.tag := covers.tag
    unfold perform attributes
    rw [tag]
    refine Observed.bind (.mapM_same fun pair _ => ?_) fun _ => .pure _
    exact observed_describe covers filters pair
  | command keyword name value => exact observed_command covers keyword name value

end Covers

def loud (s : Session) : Session := { s with verbose := true }

theorem loud_covers (agrees : s.context.Agrees s'.context) : s.loud.context.Covers s'.context :=
  covers_of_level ⟨agrees.tag, agrees.unknownCommands, agrees.classAlias⟩ (Nat.zero_le _)

/-- Sessions with the same tag and the same rules come to the same document or the same failure,
whatever their filters and their levels are. With the same filters, the higher level writes just
the records of the lower one that are severe enough for it. -/
theorem perform_undisturbed {s s' : Session} (agrees : s.context.Agrees s'.context) (task : Task) :
    (s.perform task).result = (s'.perform task).result ∧
      (s.filters = s'.filters → s.level.severity ≤ s'.level.severity →
        (s'.perform task).log =
          (s.perform task).log.filter fun r => s'.level.severity ≤ r.level.severity) := by
  refine ⟨?_, fun filters lower => ?_⟩
  · -- Neither session need cover the other, but the loud one covers both.
    have itself : s.context.Agrees s.context := ⟨rfl, rfl, rfl⟩
    have own := result_of_covers (loud_covers itself) task
    exact own.symm.trans (result_of_covers (loud_covers agrees) task)
  · exact (observed_perform (covers_of_level agrees lower) filters task).log

/-- A failing run is cut short at both levels. Of what it reported, a missing filter alone is severe
enough for the higher one. -/
theorem perform_undisturbed_warning :
    let s : Session := ⟨"div", Filters.ofList ["upper"], { logLevel := .error }, true⟩
    let s' : Session := ⟨"div", Filters.ofList ["upper"], {}, false⟩
    let task : Task := .attributes [("title", "$\x7ba | nope\x7d"), ("x.zap", "1"), ("y.for", "z")]
    s.context.Agrees s'.context ∧ s.level = .debug ∧ s'.level = .warn ∧
      (s.perform task).result.isOk = false ∧
      (s.perform task).result = (s'.perform task).result ∧
      (s.perform task).log.length = 4 ∧
      (s'.perform task).log = [⟨.warn, "title: filter 'nope' is not registered"⟩] ∧
      (s'.perform task).log = (s.perform task).log.filter
        fun r => s'.level.severity ≤ r.level.severity := by
  intro s s' task
  have agrees : s.context.Agrees s'.context := ⟨rfl, rfl, rfl⟩
  obtain ⟨same, shown⟩ := perform_undisturbed agrees task
  exact ⟨agrees, rfl, rfl, by decide +kernel, same, by decide +kernel, by decide +kernel,
    shown rfl (by decide)⟩

end Session
end CommandLine
end TemplateBinding
