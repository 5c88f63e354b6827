import TemplateBinding.Proofs.Attribute.Options
import TemplateBinding.Proofs.Attribute.Sessions

/-! `two-way` and `bind` rename the property `class` if they are told to. The two settings cannot be
told apart by anything but the property that is bound in the end under the key `class`. -/
namespace TemplateBinding

def Context.aliasing (ctx : Context) (unify : Bool) : Context :=
  { ctx with config := { ctx.config with unifyClassAlias := unify } }

def classKey : Text := "class"

section Matched

variable {α β γ δ : Type}

/-- Two runs with the same log. They fail for the same reason, or they have related results. -/
inductive Matched (R : α → β → Prop) : Interpreting α → Interpreting β → Prop
  | failed (log e) : Matched R ⟨log, .error e⟩ ⟨log, .error e⟩
  | done {a b} (log) : R a b → Matched R ⟨log, .ok a⟩ ⟨log, .ok b⟩

namespace Matched

theorem of_result {R : α → α → Prop} {r : Interpreting α}
    (same : ∀ a, r.result = .ok a → R a a) : Matched R r r := by
  obtain ⟨log, result⟩ := r
  cases result with
  | error e => exact .failed log e
  | ok a => exact .done log (same a rfl)

theorem bind {R : α → β → Prop} {S : γ → δ → Prop} {r : Interpreting α} {r' : Interpreting β}
    {next : α → Interpreting γ} {next' : β → Interpreting δ} (first : Matched R r r')
    (later : ∀ a b, R a b → Matched S (next a) (next' b)) :
    Matched S (r >>= next) (r' >>= next') := by
  cases first with
  | failed log e => exact .failed log e
  | @done a b log related =>
    have second := later a b related
    rw [Run.bind_eq, Run.bind_eq]
    unfold Run.andThen
    dsimp only
    generalize next a = s at second ⊢
    generalize next' b = s' at second ⊢
    cases second with
    | failed log' e => exact .failed _ e
    | done log' related => exact .done _ related

theorem mono {R S : α → β → Prop} {r : Interpreting α} {r' : Interpreting β}
    (matched : Matched R r r') (weaker : ∀ a b, R a b → S a b) : Matched S r r' := by
  cases matched with
  | failed log e => exact .failed log e
  | done log related => exact .done log (weaker _ _ related)

theorem after {S : γ → δ → Prop} (r : Interpreting α) {next : α → Interpreting γ}
    {next' : α → Interpreting δ} (later : ∀ a, r.result = .ok a → Matched S (next a) (next' a)) :
    Matched S (r >>= next) (r >>= next') := by
  have same : Matched (fun a b => a = b ∧ r.result = .ok a) r r :=
    of_result fun _ given => ⟨rfl, given⟩
  refine same.bind ?_
  rintro a _ ⟨rfl, given⟩
  exact later a given

end Matched

inductive Aligned (R : α → β → γ → Prop) : List α → List β → List γ → Prop
  | nil : Aligned R [] [] []
  | cons {a b c as bs cs} :
      R a b c → Aligned R as bs cs → Aligned R (a :: as) (b :: bs) (c :: cs)

theorem Matched.mapM {R : α → β → γ → Prop} {f : α → Interpreting β} {f' : α → Interpreting γ}
    {as : List α} (each : ∀ a ∈ as, Matched (R a) (f a) (f' a)) :
    Matched (Aligned R as) (as.mapM f) (as.mapM f') := by
  induction as with
  | nil => exact .done [] .nil
  | cons a as ih =>
    obtain ⟨first, others⟩ := List.forall_mem_cons.1 each
    rw [List.mapM_cons, List.mapM_cons]
    exact first.bind fun b c head => (ih others).bind fun bs cs tail => .done [] (.cons head tail)

end Matched

/-! The keys that an attribute writes are found by its name alone. -/

def PropertyCommand.keys (name : Text) : PropertyCommand → List Text
  | .loop => [loopKey, name]
  | _ => [name]

def commandKeys (keyword name : Text) : List Text :=
  match Command.ofKeyword? keyword with
  | some (.property p) => p.keys name
  | _ => []

def writtenKeys (name : Text) : List Text :=
  match splitCommand? name with
  | some (inner, keyword) => commandKeys keyword inner
  | none => [name]

def PropertyCommand.OnRequest (p : PropertyCommand) : Prop := p = .twoWay ∨ p = .bind

def OnRequest (keyword name : Text) : Prop :=
  name = classKey ∧ (keyword = "two-way" ∨ keyword = "bind")

def ClassOnRequest (name : Text) : Prop :=
  ∃ inner keyword, splitCommand? name = some (inner, keyword) ∧ OnRequest keyword inner

theorem onRequest_iff {keyword name : Text} {p : PropertyCommand}
    (command : Command.ofKeyword? keyword = some (.property p)) :
    OnRequest keyword name ↔ name = classKey ∧ p.OnRequest := by
  have keyword := (Command.ofKeyword?_eq_some_iff keyword _).1 command
  subst keyword
  refine and_congr_right fun _ => ?_
  unfold PropertyCommand.OnRequest
  cases p <;> decide

theorem not_onRequest {keyword name : Text}
    (unwritten : ∀ p, Command.ofKeyword? keyword ≠ some (.property p)) :
    ¬ OnRequest keyword name := by
  rintro ⟨-, rfl | rfl⟩
  · exact unwritten .twoWay (by decide)
  · exact unwritten .bind (by decide)

/-- What is written with the one setting and with the other. -/
structure Written (renamed : Prop) (keys : List Text) (ws ws' : List (Text × Entry)) : Prop where
  keys : ws.map (·.1) = keys
  kept : ¬ renamed → ws' = ws
  renamed : renamed → ∃ b : Binding, b.target = classKey ∧ ws = [(classKey, .binding b)] ∧
    ws' = [(classKey, .binding { b with target := "className" })]

section Writes

variable (ctx : Context) (name value : Text)

theorem PropertyCommand.keys_writes {p : PropertyCommand} {ws : List (Text × Entry)}
    (done : (p.writes ctx name value).result = .ok ws) : ws.map (·.1) = p.keys name := by
  cases p with
  | loop =>
    unfold writes at done
    dsimp only at done
    split at done
    · cases done
    · obtain ⟨e, -, same⟩ := Run.bind_eq_ok_iff.1 done
      cases same
      rfl
  | oneWay | twoWay | oneTime | bind =>
    obtain ⟨e, -, same⟩ := Run.bind_eq_ok_iff.1 done
    cases same
    rfl

theorem PropertyCommand.writes_aliasing {p : PropertyCommand} (unasked : ¬ p.OnRequest)
    (unify : Bool) : p.writes (ctx.aliasing unify) name value = p.writes ctx name value := by
  cases p with
  | loop | oneWay | oneTime => rfl
  | twoWay => exact absurd (.inl rfl) unasked
  | bind => exact absurd (.inr rfl) unasked

theorem PropertyCommand.OnRequest.writes {p : PropertyCommand} (asked : p.OnRequest)
    (unify : Bool) :
    p.writes (ctx.aliasing unify) name value = parsed value >>= fun e =>
      pure [(name, .binding
        ⟨if unify then classAlias name else name, e, p.mode ctx.tag name, ctx.filters⟩)] := by
  rcases asked with rfl | rfl <;> rfl

theorem PropertyCommand.OnRequest.keys {p : PropertyCommand} (asked : p.OnRequest) :
    p.keys name = [name] := by
  rcases asked with rfl | rfl <;> rfl

theorem matched_property (p : PropertyCommand) :
    Matched (Written (name = classKey ∧ p.OnRequest) (p.keys name))
      (p.writes (ctx.aliasing false) name value) (p.writes (ctx.aliasing true) name value) := by
  by_cases asked : p.OnRequest
  · rw [asked.writes, asked.writes, asked.keys]
    refine .after _ fun e _ => .done [] ?_
    constructor
    case keys => rfl
    case kept =>
      intro other
      have unnamed : name ≠ "class" := fun same => other ⟨same, asked⟩
      rw [if_pos rfl, classAlias, if_neg unnamed]
      rfl
    case renamed =>
      rintro ⟨rfl, -⟩
      exact ⟨_, rfl, rfl, rfl⟩
  · rw [PropertyCommand.writes_aliasing ctx name value asked,
      PropertyCommand.writes_aliasing ctx name value asked]
    refine .of_result fun ws done => ?_
    exact ⟨PropertyCommand.keys_writes ctx name value done, fun _ => rfl,
      fun both => absurd both.2 asked⟩

theorem written_nil {keyword : Text}
    (unwritten : ∀ p, Command.ofKeyword? keyword ≠ some (.property p)) :
    Written (OnRequest keyword name) (commandKeys keyword name) [] [] where
  keys := by
    unfold commandKeys
    split
    · rename_i p found
      exact absurd found (unwritten p)
    · rfl
  kept _ := rfl
  renamed asked := absurd asked (not_onRequest unwritten)

theorem matched_commandWrites (keyword : Text)
    {each each' : (s : Text × Text) → s ∈ Segments.split value →
      Interpreting (List (Text × Entry))}
    (segments : ∀ s member, Matched (fun _ _ => True) (each s member) (each' s member)) :
    Matched (Written (OnRequest keyword name) (commandKeys keyword name))
      (commandWrites (ctx.aliasing false) keyword name value each)
      (commandWrites (ctx.aliasing true) keyword name value each') := by
  unfold commandWrites
  refine Matched.after (resolve ctx keyword) fun found known => ?_
  cases found with
  | none =>
    have unknown := resolve_eq_none known
    exact .done [] (written_nil name fun p => by simp [unknown])
  | some command =>
    have command' := resolve_result.1 known
    refine .after _ fun _ _ => ?_
    cases command with
    | property p =>
      have property := matched_property ctx name value p
      rw [commandKeys, command', onRequest_iff command']
      exact property
    | trigger | delegate =>
      refine Matched.after (parsed value) fun _ _ => .done [] (written_nil name fun p => ?_)
      simp [command']
    | ref => exact .done [] (written_nil name fun p => by simp [command'])
    | options =>
      have all : Matched (Aligned (fun _ _ _ => True) (Segments.split value).attach)
          ((Segments.split value).attach.mapM fun s => each s.1 s.2)
          ((Segments.split value).attach.mapM fun s => each' s.1 s.2) :=
        .mapM fun s _ => segments s.1 s.2
      exact all.bind fun _ _ _ => .done [] (written_nil name fun p => by simp [command'])

theorem classOnRequest_iff {inner keyword : Text}
    (parts : splitCommand? name = some (inner, keyword)) :
    ClassOnRequest name ↔ OnRequest keyword inner := by
  unfold ClassOnRequest
  constructor
  · rintro ⟨inner', keyword', parts', asked⟩
    cases parts.symm.trans parts'
    exact asked
  · exact fun asked => ⟨inner, keyword, parts, asked⟩

theorem not_classOnRequest (whole : splitCommand? name = none) : ¬ ClassOnRequest name := by
  rintro ⟨inner, keyword, parts, -⟩
  cases whole.symm.trans parts

theorem keys_plainWrites {ws : List (Text × Entry)}
    (done : (plainWrites ctx name value).result = .ok ws) :
    ws.map (·.1) = [name] := by
  unfold plainWrites at done
  split at done
  · cases done
    rfl
  · obtain ⟨found, -, done⟩ := Run.bind_eq_ok_iff.1 done
    cases found <;> (cases done; rfl)

theorem matched_attributeWrites :
    Matched (Written (ClassOnRequest name) (writtenKeys name))
      (attributeWrites (ctx.aliasing false) name value)
      (attributeWrites (ctx.aliasing true) name value) := by
  fun_induction attributeWrites (ctx.aliasing false) name value with
  | case1 name value inner keyword parts ih =>
    rw [attributeWrites, parts, classOnRequest_iff name parts]
    unfold writtenKeys
    rw [parts]
    exact matched_commandWrites ctx inner value keyword fun s member =>
      (ih s member).mono fun _ _ _ => trivial
  | case2 name value whole =>
    rw [attributeWrites, whole]
    unfold writtenKeys
    rw [whole]
    have unasked := not_classOnRequest name whole
    exact .of_result fun ws done =>
      ⟨keys_plainWrites ctx name value done, fun _ => rfl, fun asked => absurd asked unasked⟩

end Writes

/-! What is written ends up in an instruction. -/

/-- The same instruction, up to the property bound under the key `class` where that is renamed. -/
structure Instruction.Alike (renamed : Prop) (i i' : Instruction) : Prop where
  name : i'.name = i.name
  keys : i'.keys = i.keys
  kept : ∀ key, key ≠ classKey ∨ ¬ renamed → i'.get? key = i.get? key
  renamed : renamed → ∃ b : Binding, b.target = classKey ∧
    i.get? classKey = some (.binding b) ∧
    i'.get? classKey = some (.binding { b with target := "className" })

namespace Instruction.Alike

variable {renamed : Prop} {i i' : Instruction}

theorem refl (i : Instruction) : i.Alike False i := ⟨rfl, rfl, fun _ _ => rfl, False.elim⟩

theorem insertClass (alike : i.Alike renamed i') {b : Binding} (target : b.target = classKey) :
    (i.insertAll [(classKey, .binding b)]).Alike True
      (i'.insertAll [(classKey, .binding { b with target := "className" })]) := by
  have found (i : Instruction) (entry : Entry) (key : Text) :
      (i.insertAll [(classKey, entry)]).get? key =
        if key = classKey then some entry else i.get? key := lookup_put ..
  constructor
  case name => exact alike.name
  case keys =>
    rw [Instruction.keys_insertAll, Instruction.keys_insertAll, alike.keys]
    rfl
  case kept =>
    intro key other
    have unnamed : key ≠ classKey := other.resolve_right (not_not_intro trivial)
    rw [found, found, if_neg unnamed, if_neg unnamed, alike.kept key (.inl unnamed)]
  case renamed => exact fun _ => ⟨b, target, by rw [found, if_pos rfl], by rw [found, if_pos rfl]⟩

theorem insertSame (alike : i.Alike renamed i') (ws : List (Text × Entry)) :
    (i.insertAll ws).Alike (renamed ∧ classKey ∉ ws.map (·.1)) (i'.insertAll ws) := by
  constructor
  case name => simp only [Instruction.insertAll_name, alike.name]
  case keys => rw [Instruction.keys_insertAll, Instruction.keys_insertAll, alike.keys]
  case kept =>
    intro key other
    rw [Instruction.get?_insertAll, Instruction.get?_insertAll]
    by_cases old : key ≠ classKey ∨ ¬ renamed
    · rw [alike.kept key old]
    · -- The key of the class has been renamed, and is written once more.
      obtain ⟨same, was⟩ := not_or.1 old
      have member : key ∈ ws.map (·.1) := by
        rw [not_not.1 same]
        exact not_not.1 fun missing => other.resolve_left same ⟨not_not.1 was, missing⟩
      obtain ⟨w, inside, rfl⟩ := List.mem_map.1 member
      have stands : (ws.reverse.lookup w.1).isSome = true :=
        List.lookup_isSome_iff.2 ⟨w, List.mem_reverse.2 inside, beq_self_eq_true _⟩
      rw [Option.or_of_isSome stands, Option.or_of_isSome stands]
  case renamed =>
    rintro ⟨was, missing⟩
    have absent : ws.reverse.lookup classKey = none := lookup_eq_none (by simpa using missing)
    obtain ⟨b, target, found, found'⟩ := alike.renamed was
    refine ⟨b, target, ?_, ?_⟩
    · rw [Instruction.get?_insertAll, absent, Option.none_or, found]
    · rw [Instruction.get?_insertAll, absent, Option.none_or, found']

theorem insertAll {asked : Prop} {keys : List Text} {ws ws' : List (Text × Entry)}
    (alike : i.Alike renamed i') (written : Written asked keys ws ws') :
    (i.insertAll ws).Alike (asked ∨ renamed ∧ classKey ∉ keys) (i'.insertAll ws') := by
  by_cases given : asked
  · obtain ⟨b, target, rfl, rfl⟩ := written.renamed given
    rw [iff_true_intro (.inl given : asked ∨ renamed ∧ classKey ∉ keys)]
    exact alike.insertClass target
  · cases written.kept given
    rw [or_iff_right given, ← written.keys]
    exact alike.insertSame ws

end Instruction.Alike

/-- One segment after another: what was renamed stays so until something else is written. -/
def RenamedBy (before : Prop) : List (Text × Text) → Prop
  | [] => before
  | s :: ss => RenamedBy (ClassOnRequest s.1 ∨ before ∧ classKey ∉ writtenKeys s.1) ss

theorem Instruction.Alike.insertSegments {before : Prop} {segments : List (Text × Text)}
    {wss wss' : List (List (Text × Entry))}
    (written : Aligned (fun s => Written (ClassOnRequest s.1) (writtenKeys s.1)) segments wss wss')
    {i i' : Instruction} (alike : i.Alike before i') :
    (i.insertAll wss.flatten).Alike (RenamedBy before segments) (i'.insertAll wss'.flatten) := by
  induction written generalizing before i i' with
  | nil => exact alike
  | cons first _ ih =>
    simp only [List.flatten_cons, Instruction.insertAll_append]
    exact ih (alike.insertAll first)

/-- The last segment that writes under `class` decides. -/
theorem renamedBy_iff (before : Prop) (segments : List (Text × Text)) :
    RenamedBy before segments ↔
      before ∧ (∀ s ∈ segments, classKey ∉ writtenKeys s.1) ∨
        ∃ earlier s later, segments = earlier ++ s :: later ∧ ClassOnRequest s.1 ∧
          ∀ t ∈ later, classKey ∉ writtenKeys t.1 := by
  induction segments generalizing before with
  | nil => simp [RenamedBy]
  | cons s segments ih =>
    rw [RenamedBy, ih]
    constructor
    · rintro (⟨asked | ⟨was, first⟩, others⟩ | ⟨earlier, t, later, rfl, asked, others⟩)
      · exact .inr ⟨[], s, segments, rfl, asked, others⟩
      · exact .inl ⟨was, List.forall_mem_cons.2 ⟨first, others⟩⟩
      · exact .inr ⟨s :: earlier, t, later, rfl, asked, others⟩
    · rintro (⟨was, all⟩ | ⟨earlier, t, later, whole, asked, others⟩)
      · obtain ⟨first, others⟩ := List.forall_mem_cons.1 all
        exact .inl ⟨.inr ⟨was, first⟩, others⟩
      · cases earlier with
        | nil =>
          obtain ⟨rfl, rfl⟩ := List.cons.inj whole
          exact .inl ⟨.inl asked, others⟩
        | cons c earlier =>
          obtain ⟨rfl, rest⟩ := List.cons.inj whole
          exact .inr ⟨earlier, t, later, rest, asked, others⟩

/-- What an attribute binds under `class` in the end is bound by `two-way` or `bind`. -/
inductive ClassRequested (name value : Text) : Prop
  | own : ClassOnRequest name → ClassRequested name value
  | segment {inner earlier s later} :
      splitCommand? name = some (inner, Command.options.keyword) →
      Segments.split value = earlier ++ s :: later → ClassOnRequest s.1 →
      (∀ t ∈ later, classKey ∉ writtenKeys t.1) → ClassRequested name value

inductive Meaning.Alike (renamed : Prop) : Option Meaning → Option Meaning → Prop
  | instruction {i i'} : i.Alike renamed i' →
      Alike renamed (some (.interpreted (.instruction i))) (some (.interpreted (.instruction i')))
  | same (m) : ¬ renamed → Alike renamed m m

structure AttributeInfo.Alike (renamed : Prop) (a a' : AttributeInfo) : Prop where
  name : a'.name = a.name
  value : a'.value = a.value
  command : a'.command = a.command
  meaning : Meaning.Alike renamed a.meaning a'.meaning

section Infos

variable (ctx : Context) (name value : Text)

theorem matched_collect :
    Matched (Instruction.Alike (RenamedBy False (Segments.split value)))
      (collect name value (writeSegment (ctx.aliasing false) value))
      (collect name value (writeSegment (ctx.aliasing true) value)) := by
  rw [collect_segments, collect_segments]
  have segments : Matched
      (Aligned (fun s => Written (ClassOnRequest s.1) (writtenKeys s.1)) (Segments.split value))
      ((Segments.split value).mapM (segmentWrites (ctx.aliasing false)))
      ((Segments.split value).mapM (segmentWrites (ctx.aliasing true))) :=
    .mapM fun s _ => matched_attributeWrites ctx s.1 s.2
  exact segments.bind fun wss wss' written => .done [] (.insertSegments written (.refl _))

def CommandRequested (keyword : Text) : Prop :=
  OnRequest keyword name ∨
    keyword = Command.options.keyword ∧ RenamedBy False (Segments.split value)

theorem commandRequested_property {keyword : Text} {p : PropertyCommand}
    (command : Command.ofKeyword? keyword = some (.property p)) :
    CommandRequested name value keyword ↔ name = classKey ∧ p.OnRequest := by
  rw [← onRequest_iff command]
  refine or_iff_left ?_
  rintro ⟨rfl, -⟩
  cases command

theorem not_commandRequested {keyword : Text}
    (unwritten : ∀ p, Command.ofKeyword? keyword ≠ some (.property p))
    (other : Command.ofKeyword? keyword ≠ some .options) :
    ¬ CommandRequested name value keyword := by
  rintro (asked | ⟨rfl, -⟩)
  · exact not_onRequest unwritten asked
  · exact other (by decide)

theorem commandRequested_options :
    CommandRequested name value Command.options.keyword ↔
      RenamedBy False (Segments.split value) := by
  have other : ¬ OnRequest Command.options.keyword name := by
    rintro ⟨-, same | same⟩ <;> revert same <;> decide
  exact (or_iff_right other).trans (and_iff_right rfl)

theorem matched_interpret (keyword : Text) (existing : Option Instruction) :
    Matched (fun r r' => Meaning.Alike (CommandRequested name value keyword)
        (r.map .interpreted) (r'.map .interpreted))
      (interpret (ctx.aliasing false) keyword name value existing)
      (interpret (ctx.aliasing true) keyword name value existing) := by
  unfold interpret interpretWith
  refine Matched.after (resolve ctx keyword) fun found known => ?_
  cases found with
  | none =>
    have unknown := resolve_eq_none known
    refine .done [] (.same none ?_)
    exact not_commandRequested name value (by simp [unknown]) (by simp [unknown])
  | some command =>
    have command' := resolve_result.1 known
    refine .after _ fun _ _ => ?_
    cases command with
    | property p =>
      dsimp only
      rw [p.write_eq, p.write_eq, Writing.extend_ofWrites, Writing.extend_ofWrites,
        commandRequested_property name value command']
      refine Matched.bind (R := Instruction.Alike (name = classKey ∧ p.OnRequest)) ?_
        fun i i' alike => .done [] (.instruction alike)
      refine (matched_property ctx name value p).bind fun ws ws' written => .done [] ?_
      have alike := (Instruction.Alike.refl (existing.getD (.empty name))).insertAll written
      rwa [false_and, or_false] at alike
    | trigger | delegate =>
      refine Matched.after (listener name value _) fun l _ => .done [] (.same _ ?_)
      exact not_commandRequested name value (by simp [command']) (by simp [command'])
    | ref =>
      refine .done [] (.same _ ?_)
      exact not_commandRequested name value (by simp [command']) (by simp [command'])
    | options =>
      obtain rfl := (Command.ofKeyword?_eq_some_iff keyword _).1 command'
      rw [commandRequested_options]
      exact (matched_collect ctx name value).bind fun i i' alike => .done [] (.instruction alike)

theorem classRequested_iff {inner keyword : Text}
    (parts : splitCommand? name = some (inner, keyword)) :
    ClassRequested name value ↔ CommandRequested inner value keyword := by
  unfold CommandRequested
  rw [← classOnRequest_iff name parts, renamedBy_iff, false_and, false_or]
  constructor
  · rintro (asked | ⟨parts', whole, asked, others⟩)
    · exact .inl asked
    · cases parts.symm.trans parts'
      exact .inr ⟨rfl, _, _, _, whole, asked, others⟩
  · rintro (asked | ⟨rfl, _, _, _, whole, asked, others⟩)
    · exact .own asked
    · exact .segment parts whole asked others

theorem not_classRequested (whole : splitCommand? name = none) : ¬ ClassRequested name value := by
  rintro (asked | ⟨parts, -⟩)
  · exact not_classOnRequest name whole asked
  · cases whole.symm.trans parts

/-- Whether `class` is renamed on request makes no difference to an attribute, except that the
binding under `class` is for another property if `two-way` or `bind` has written it. -/
theorem attributeInfo_aliasing (existing : Option Instruction) :
    Matched (AttributeInfo.Alike (ClassRequested name value))
      (attributeInfo (ctx.aliasing false) name value existing)
      (attributeInfo (ctx.aliasing true) name value existing) := by
  cases parts : splitCommand? name with
  | some part =>
    obtain ⟨inner, keyword⟩ := part
    rw [attributeInfo_command parts, attributeInfo_command parts,
      classRequested_iff name value parts]
    refine (matched_interpret ctx inner value keyword existing).bind fun r r' alike => ?_
    exact .done [] ⟨rfl, rfl, rfl, alike⟩
  | none =>
    have unasked := not_classRequested name value parts
    have same (a : AttributeInfo) : a.Alike (ClassRequested name value) a :=
      ⟨rfl, rfl, rfl, .same _ unasked⟩
    unfold attributeInfo
    rw [parts]
    exact .of_result fun a _ => same a

end Infos

end TemplateBinding
