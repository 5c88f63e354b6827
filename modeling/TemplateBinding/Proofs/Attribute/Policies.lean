import TemplateBinding.Proofs.Attribute.Agreement
import TemplateBinding.Proofs.Attribute.Options

/-! Unknown commands are ignored or rejected. Rejecting only cuts a run short, at the first
unknown keyword that it meets; until then the two policies cannot be told apart. -/
namespace TemplateBinding

def Context.under (ctx : Context) (policy : UnknownCommands) : Context :=
  { ctx with config := { ctx.config with unknownCommands := policy } }

section Stricter

variable {α β : Type}

/-- The strict run is the lenient one, or it has stopped at an unknown command. -/
def Stricter (strict lenient : Interpreting α) : Prop :=
  lenient = strict ∨
    (∃ k, strict.result = .error (.unknownCommand k)) ∧ strict.log <+: lenient.log

theorem Stricter.refl (r : Interpreting α) : Stricter r r := .inl rfl

theorem Stricter.log {r r' : Interpreting α} (stricter : Stricter r r') : r.log <+: r'.log := by
  rcases stricter with rfl | ⟨-, shorter⟩
  · exact List.prefix_refl _
  · exact shorter

theorem Run.log_prefix_bind {ε : Type} (r : Run ε α) (next : α → Run ε β) :
    r.log <+: (r >>= next).log := by
  obtain ⟨log, result⟩ := r
  cases result with
  | error e => exact List.prefix_refl _
  | ok a => exact List.prefix_append ..

theorem Stricter.bind {r r' : Interpreting α} {next next' : α → Interpreting β}
    (first : Stricter r r') (later : ∀ a, r.result = .ok a → Stricter (next a) (next' a)) :
    Stricter (r >>= next) (r' >>= next') := by
  rcases first with rfl | ⟨⟨k, failed⟩, shorter⟩
  · obtain ⟨log, result⟩ := r'
    cases result with
    | error e => exact .inl rfl
    | ok a =>
      rcases later a rfl with same | ⟨⟨k, failed⟩, shorter⟩
      · simp only [Run.bind_eq, Run.andThen, same]
        exact .refl _
      · exact .inr ⟨⟨k, failed⟩, (List.prefix_append_right_inj log).2 shorter⟩
  · obtain ⟨log, result⟩ := r
    cases failed
    exact .inr ⟨⟨k, rfl⟩, shorter.trans (r'.log_prefix_bind next')⟩

theorem Stricter.mapM {f f' : α → Interpreting β} {as : List α}
    (each : ∀ a ∈ as, Stricter (f a) (f' a)) : Stricter (as.mapM f) (as.mapM f') := by
  induction as with
  | nil => exact .refl _
  | cons a as ih =>
    obtain ⟨first, others⟩ := List.forall_mem_cons.1 each
    rw [List.mapM_cons, List.mapM_cons]
    exact first.bind fun b _ => (ih others).bind fun bs _ => .refl _

end Stricter

/-! The policy is asked for an unknown keyword, and for nothing else. -/

section Policy

variable (ctx : Context)

theorem resolve_under (policy : UnknownCommands) {keyword : Text} {command : Command}
    (known : Command.ofKeyword? keyword = some command) :
    resolve (ctx.under policy) keyword = pure (some command) := by
  unfold resolve
  rw [known]

theorem resolve_reject {keyword : Text} (unknown : Command.ofKeyword? keyword = none) :
    (resolve (ctx.under .reject) keyword).result = .error (.unknownCommand keyword) := by
  unfold resolve
  rw [unknown]
  exact Run.bind_eq_error_iff.2 (.inr ⟨(), Context.trace_result _ _, rfl⟩)

theorem stricter_resolve (keyword : Text) :
    Stricter (resolve (ctx.under .reject) keyword)
      (resolve (ctx.under .ignore) keyword) := by
  cases known : Command.ofKeyword? keyword with
  | some command => exact .inl (by rw [resolve_under ctx _ known, resolve_under ctx _ known])
  | none =>
    unfold resolve
    rw [known]
    exact (Stricter.refl _).bind fun _ _ => .inr ⟨⟨keyword, rfl⟩, List.nil_prefix⟩

variable (name value : Text)

theorem PropertyCommand.write_under (p : PropertyCommand) (policy : UnknownCommands) :
    p.write (ctx.under policy) name value = p.write ctx name value :=
  by cases p <;> rfl

theorem PropertyCommand.writes_under (p : PropertyCommand) (policy : UnknownCommands) :
    p.writes (ctx.under policy) name value = p.writes ctx name value :=
  by cases p <;> rfl

theorem stricter_commandWrites (keyword : Text)
    {each each' : (s : Text × Text) → s ∈ Segments.split value →
      Interpreting (List (Text × Entry))}
    (segments : ∀ s member, Stricter (each s member) (each' s member)) :
    Stricter (commandWrites (ctx.under .reject) keyword name value each)
      (commandWrites (ctx.under .ignore) keyword name value each') := by
  refine (stricter_resolve ctx keyword).bind fun found _ => ?_
  cases found with
  | none => exact .refl _
  | some command =>
    refine (Stricter.refl _).bind fun _ _ => ?_
    cases command with
    | property p =>
      dsimp only
      rw [p.writes_under, p.writes_under]
      exact .refl _
    | trigger | delegate | ref => exact .refl _
    | options =>
      refine Stricter.bind (.mapM ?_) fun _ _ => .refl _
      rintro ⟨s, member⟩ -
      exact segments s member

theorem stricter_attributeWrites :
    Stricter (attributeWrites (ctx.under .reject) name value)
      (attributeWrites (ctx.under .ignore) name value) := by
  fun_induction attributeWrites (ctx.under .reject) name value with
  | case1 name value inner keyword parts ih =>
    rw [attributeWrites, parts]
    exact stricter_commandWrites ctx inner value keyword fun s member => ih s member
  | case2 name value whole =>
    rw [attributeWrites, whole]
    exact .refl _

theorem stricter_collect :
    Stricter (collect name value (writeSegment (ctx.under .reject) value))
      (collect name value (writeSegment (ctx.under .ignore) value)) := by
  rw [collect_segments, collect_segments]
  refine Stricter.bind (.mapM fun s _ => ?_) fun _ _ => .refl _
  exact stricter_attributeWrites ctx s.1 s.2

theorem stricter_interpret (keyword : Text) (existing : Option Instruction) :
    Stricter (interpret (ctx.under .reject) keyword name value existing)
      (interpret (ctx.under .ignore) keyword name value existing) := by
  refine (stricter_resolve ctx keyword).bind fun found _ => ?_
  cases found with
  | none => exact .refl _
  | some command =>
    refine (Stricter.refl _).bind fun _ _ => ?_
    cases command with
    | property p =>
      dsimp only
      rw [p.write_under, p.write_under]
      exact .refl _
    | trigger | delegate | ref => exact .refl _
    | options => exact (stricter_collect ctx name value).bind fun _ _ => .refl _

theorem stricter_attributeInfo (existing : Option Instruction) :
    Stricter (attributeInfo (ctx.under .reject) name value existing)
      (attributeInfo (ctx.under .ignore) name value existing) := by
  unfold attributeInfo
  split
  · rename_i inner keyword parts
    exact (stricter_interpret ctx inner value keyword existing).bind fun _ _ => .refl _
  · exact .refl _

end Policy

/-! Where a rejecting run stops. -/

inductive KeywordsKnown : Text → Text → Prop
  | plain {name value} : splitCommand? name = none → KeywordsKnown name value
  | command {name value inner keyword command} :
      splitCommand? name = some (inner, keyword) → Command.ofKeyword? keyword = some command →
      (command = .options → ∀ s ∈ Segments.split value, KeywordsKnown s.1 s.2) →
      KeywordsKnown name value

structure Untroubled (ctx : Context) (name value : Text) : Prop where
  known : KeywordsKnown name value
  accepted : ∀ target, (addAttribute (ctx.under .ignore) name value target).run.result = .ok ()

/-- The keyword is the first unknown one that is met. It stands in the name itself, or in a
segment of `options`, where nothing is wrong with the segments before. -/
inductive FirstUnknown (ctx : Context) (k : Text) : Text → Text → Prop
  | name {name value inner} :
      splitCommand? name = some (inner, k) → Command.ofKeyword? k = none →
      FirstUnknown ctx k name value
  | segment {name value inner keyword before s after} :
      splitCommand? name = some (inner, keyword) → Command.ofKeyword? keyword = some .options →
      Segments.split value = before ++ s :: after → (∀ b ∈ before, Untroubled ctx b.1 b.2) →
      FirstUnknown ctx k s.1 s.2 → FirstUnknown ctx k name value

theorem FirstUnknown.unknown {ctx : Context} {k name value : Text}
    (first : FirstUnknown ctx k name value) : Command.ofKeyword? k = none := by
  induction first with
  | name _ unknown => exact unknown
  | segment _ _ _ _ _ ih => exact ih

section Spared

variable {α β : Type}

def Spared (r : Interpreting α) : Prop := ∀ k, r.result ≠ .error (.unknownCommand k)

theorem spared_ok {r : Interpreting α} {a : α} (given : r.result = .ok a) : Spared r := by
  intro k failed
  cases given.symm.trans failed

theorem Spared.bind {r : Interpreting α} {next : α → Interpreting β} (first : Spared r)
    (later : ∀ a, r.result = .ok a → Spared (next a)) : Spared (r >>= next) := by
  intro k failed
  rcases Run.bind_eq_error_iff.1 failed with failed | ⟨a, given, failed⟩
  · exact first k failed
  · exact later a given k failed

theorem Spared.mapM {f : α → Interpreting β} {as : List α} (each : ∀ a ∈ as, Spared (f a)) :
    Spared (as.mapM f) := by
  intro k failed
  obtain ⟨before, a, after, rfl, -, failed⟩ := Run.mapM_eq_error_iff.1 failed
  exact each a (by simp) k failed

theorem spared_parsed (source : Text) : Spared (parsed source) := by
  intro k failed
  unfold parsed Run.ofExcept at failed
  cases read : Expr.parse source <;> simp [read, Except.mapError] at failed

theorem PropertyCommand.spared_writes (ctx : Context) (p : PropertyCommand) (name value : Text) :
    Spared (p.writes ctx name value) := by
  have plain (source : Text) (f : Expr → List (Text × Entry)) :
      Spared (parsed source >>= fun e => pure (f e)) :=
    (spared_parsed source).bind fun e _ => spared_ok rfl
  cases p with
  | loop =>
    unfold writes
    dsimp only
    split
    · exact nofun
    · exact plain _ _
  | oneWay | twoWay | oneTime | bind => exact plain value _

theorem spared_interpolated (ctx : Context) (name value : Text) :
    Spared (interpolated ctx name value) := by
  unfold interpolated
  dsimp only
  split
  · refine Spared.bind (.mapM fun piece _ => ?_) fun parts _ =>
      (spared_ok (ctx.trace_result _)).bind fun _ _ => spared_ok rfl
    intro k failed
    unfold Run.ofExcept Template.Piece.parse at failed
    split at failed
    · cases failed
    · dsimp only at failed
      split at failed <;> cases failed
  · exact spared_ok rfl

theorem spared_plainWrites (ctx : Context) (name value : Text) :
    Spared (plainWrites ctx name value) := by
  unfold plainWrites
  split
  · exact spared_ok rfl
  · refine (spared_interpolated ctx name value).bind fun found _ => ?_
    cases found <;> exact spared_ok rfl

end Spared

section Rejecting

variable {ctx : Context} {name value keyword k : Text} {command : Command}
  {each : (s : Text × Text) → s ∈ Segments.split value → Interpreting (List (Text × Entry))}

theorem commandWrites_unknown (unknown : Command.ofKeyword? keyword = none) :
    (commandWrites (ctx.under .reject) keyword name value each).result =
      .error (.unknownCommand keyword) :=
  Run.bind_eq_error_iff.2 (.inl (resolve_reject ctx unknown))

theorem spared_commandWrites (known : Command.ofKeyword? keyword = some command)
    (other : command ≠ .options) :
    Spared (commandWrites (ctx.under .reject) keyword name value each) := by
  unfold commandWrites
  rw [resolve_under ctx _ known, pure_bind]
  refine (spared_ok (reportDispatch_result ..)).bind fun _ _ => ?_
  cases command with
  | property p => exact p.spared_writes _ name value
  | trigger | delegate => exact (spared_parsed value).bind fun _ _ => spared_ok rfl
  | ref => exact spared_ok rfl
  | options => exact absurd rfl other

theorem commandWrites_options (isOptions : Command.ofKeyword? keyword = some .options)
    (f : Text × Text → Interpreting (List (Text × Entry))) :
    (commandWrites (ctx.under .reject) keyword name value fun s _ => f s).result =
      ((Segments.split value).mapM f).result.map fun _ => [] := by
  have dispatched : (commandWrites (ctx.under .reject) keyword name value fun s _ => f s) =
      reportDispatch (ctx.under .reject) name .options >>= fun _ =>
        ((Segments.split value).attach.mapM fun s => f s.1) >>= fun _ => pure [] := by
    unfold commandWrites
    rw [resolve_under ctx _ isOptions, pure_bind]
  rw [dispatched, Run.mapM_attach]
  cases outcome : ((Segments.split value).mapM f).result <;>
    simp [Run.bind_eq, Run.andThen, reportDispatch_result, outcome, Run.pure_eq, Except.map]

theorem options_failed_iff (isOptions : Command.ofKeyword? keyword = some .options)
    {f : Text × Text → Interpreting (List (Text × Entry))} {e : BindingError} :
    (commandWrites (ctx.under .reject) keyword name value fun s _ => f s).result = .error e ↔
      ∃ before s after, Segments.split value = before ++ s :: after ∧
        (∀ b ∈ before, ∃ ws, (f b).result = .ok ws) ∧ (f s).result = .error e := by
  rw [commandWrites_options isOptions, ← Run.mapM_eq_error_iff]
  cases ((Segments.split value).mapM f).result <;> simp [Except.map]

theorem segment_done (isOptions : Command.ofKeyword? keyword = some .options)
    {f : Text × Text → Interpreting (List (Text × Entry))} {ws : List (Text × Entry)}
    (given :
      (commandWrites (ctx.under .reject) keyword name value fun s _ => f s).result = .ok ws) :
    ∀ s ∈ Segments.split value, ∃ ws, (f s).result = .ok ws := by
  intro s member
  rw [commandWrites_options isOptions] at given
  cases outcome : ((Segments.split value).mapM f).result with
  | error e =>
    rw [outcome] at given
    cases given
  | ok wss =>
    obtain ⟨ws, -, done⟩ := (exists_of_forall₂ (Run.mapM_eq_ok_iff.1 outcome)).1 s member
    exact ⟨ws, done⟩

theorem attributeWrites_command {inner : Text}
    (parts : splitCommand? name = some (inner, keyword)) :
    attributeWrites ctx name value =
      commandWrites ctx keyword inner value fun s _ => segmentWrites ctx s := by
  rw [attributeWrites, parts]
  rfl

theorem attributeWrites_plain (whole : splitCommand? name = none) :
    attributeWrites ctx name value = plainWrites ctx name value := by
  rw [attributeWrites, whole]

theorem known_of_done {ws : List (Text × Entry)}
    (given : (attributeWrites (ctx.under .reject) name value).result = .ok ws) :
    KeywordsKnown name value := by
  fun_induction attributeWrites (ctx.under .reject) name value generalizing ws with
  | case1 name value inner keyword parts ih =>
    cases known : Command.ofKeyword? keyword with
    | none =>
      rw [commandWrites_unknown known] at given
      cases given
    | some command =>
      refine .command parts known ?_
      rintro rfl s member
      obtain ⟨ws', done⟩ := segment_done known given s member
      exact ih s member done
  | case2 name value whole => exact .plain whole

theorem spared_of_known (known : KeywordsKnown name value) :
    Spared (attributeWrites (ctx.under .reject) name value) := by
  induction known with
  | plain whole =>
    rw [attributeWrites_plain whole]
    exact spared_plainWrites _ _ _
  | @command name value inner keyword command parts known _ ih =>
    rw [attributeWrites_command parts]
    by_cases isOptions : command = .options
    · subst isOptions
      intro k failed
      obtain ⟨before, s, after, whole, -, failed⟩ := (options_failed_iff known).1 failed
      exact ih rfl s (by simp [whole]) k failed
    · exact spared_commandWrites known isOptions

theorem addAttribute_done_iff (target : Instruction) :
    (addAttribute ctx name value target).run.result = .ok () ↔
      ∃ ws, (attributeWrites ctx name value).result = .ok ws := by
  unfold addAttribute Writing.update
  rw [writeAttribute_eq]
  unfold Writing.ofWrites
  cases (attributeWrites ctx name value).result <;> simp

theorem untroubled_iff :
    Untroubled ctx name value ↔
      ∃ ws, (attributeWrites (ctx.under .reject) name value).result = .ok ws := by
  have stricter := stricter_attributeWrites ctx name value
  constructor
  · rintro ⟨known, accepted⟩
    rcases stricter with same | ⟨⟨k, failed⟩, -⟩
    · rw [← same]
      exact (addAttribute_done_iff (.empty name)).1 (accepted _)
    · exact absurd failed (spared_of_known known k)
  · rintro ⟨ws, done⟩
    refine ⟨known_of_done done, fun target => (addAttribute_done_iff target).2 ⟨ws, ?_⟩⟩
    rcases stricter with same | ⟨⟨k, failed⟩, -⟩
    · rw [same, done]
    · cases done.symm.trans failed

theorem attributeWrites_rejected_iff :
    (attributeWrites (ctx.under .reject) name value).result = .error (.unknownCommand k) ↔
      FirstUnknown ctx k name value := by
  constructor
  · intro failed
    fun_induction attributeWrites (ctx.under .reject) name value with
    | case1 name value inner keyword parts ih =>
      cases known : Command.ofKeyword? keyword with
      | none =>
        rw [commandWrites_unknown known] at failed
        cases failed
        exact .name parts known
      | some command =>
        by_cases isOptions : command = .options
        · subst isOptions
          obtain ⟨before, s, after, whole, sound, failed⟩ := (options_failed_iff known).1 failed
          have first := ih s (by simp [whole]) failed
          exact .segment parts known whole (fun b member => untroubled_iff.2 (sound b member)) first
        · exact absurd failed (spared_commandWrites known isOptions k)
    | case2 name value whole => exact absurd failed (spared_plainWrites _ name value k)
  · intro first
    induction first with
    | name parts unknown =>
      rw [attributeWrites_command parts]
      exact commandWrites_unknown unknown
    | segment parts isOptions whole sound _ ih =>
      rw [attributeWrites_command parts]
      have sound := fun b member => untroubled_iff.1 (sound b member)
      exact (options_failed_iff isOptions).2 ⟨_, _, _, whole, sound, ih⟩

end Rejecting

section Described

variable {ctx : Context} {name value : Text}

theorem attributeInfo_none :
    ∃ target, attributeInfo ctx name value none = attributeInfo ctx name value (some target) := by
  cases parts : splitCommand? name with
  | some part =>
    refine ⟨.empty part.1, ?_⟩
    rw [attributeInfo_command parts, attributeInfo_command parts]
    rfl
  | none =>
    refine ⟨.empty name, ?_⟩
    unfold attributeInfo
    rw [parts]

theorem Settles.failed_iff {α : Type} {target : Instruction} {left : α → Instruction}
    {r : Interpreting (List (Text × Entry))} {r' : Interpreting α} {e : BindingError}
    (settles : Settles target left (.ofWrites r) r') :
    r'.result = .error e ↔ r.result = .error e := by
  have same := congrArg (·.2.result) settles
  unfold Writing.ofWrites at same
  cases given : r.result <;> cases given' : r'.result <;> simp_all

theorem attributeInfo_failed_iff {existing : Option Instruction} {e : BindingError} :
    (attributeInfo ctx name value existing).result = .error e ↔
      (attributeWrites ctx name value).result = .error e := by
  obtain ⟨target, same⟩ : ∃ target,
      attributeInfo ctx name value existing = attributeInfo ctx name value (some target) := by
    cases existing with
    | none => exact attributeInfo_none
    | some target => exact ⟨target, rfl⟩
  rw [same]
  obtain ⟨left, settles⟩ : ∃ left : AttributeInfo → Instruction,
      Settles target left (writeAttribute ctx name value)
        (attributeInfo ctx name value (some target)) := by
    cases parts : splitCommand? name with
    | some part => exact ⟨_, settles_command parts⟩
    | none => exact ⟨_, settles_plain parts⟩
  rw [writeAttribute_eq] at settles
  exact settles.failed_iff

end Described

/-- Rejecting unknown commands only adds failures for unknown commands. Any other outcome is the
same, with the same log, as where they are ignored. The failures come exactly where the first
unknown keyword is met behind nothing that fails, and until there the log is the same. -/
theorem attributeInfo_rejecting (ctx : Context) (name value : Text)
    (existing : Option Instruction) :
    let rejecting := attributeInfo (ctx.under .reject) name value existing
    let ignoring := attributeInfo (ctx.under .ignore) name value existing
    ((∃ k, rejecting.result = .error (.unknownCommand k)) ∨ ignoring = rejecting) ∧
      (∀ k, rejecting.result = .error (.unknownCommand k) ↔
        (∀ c : Command, c.keyword ≠ k) ∧ FirstUnknown ctx k name value) ∧
      rejecting.log <+: ignoring.log := by
  have stricter := stricter_attributeInfo ctx name value existing
  refine ⟨stricter.symm.imp_left And.left, fun k => ?_, stricter.log⟩
  rw [attributeInfo_failed_iff, attributeWrites_rejected_iff]
  refine ⟨fun first => ⟨fun c same => ?_, first⟩, And.right⟩
  have known := (Command.ofKeyword?_eq_some_iff k c).2 same
  cases known.symm.trans first.unknown

/-- The unknown keyword stands in options inside of options, behind a segment that is sound. -/
theorem attributeInfo_rejecting_nested :
    let ctx : Context := { tag := "div" }
    let value : Text := "a: 1; b.options: c.zap: 2; d.zip: 3"
    (attributeInfo (ctx.under .ignore) "o.options" value none).result.isOk = true ∧
      (attributeInfo (ctx.under .reject) "o.options" value none).result =
        .error (.unknownCommand "zap") ∧
      FirstUnknown ctx "zap" "o.options" value := by
  intro ctx value
  have rejects : (match (attributeInfo (ctx.under .reject) "o.options" value none).result with
      | .ok _ => none
      | .error e => some e) = some (.unknownCommand "zap") := by decide +kernel
  have rejected : (attributeInfo (ctx.under .reject) "o.options" value none).result =
      .error (.unknownCommand "zap") := by
    split at rejects
    · cases rejects
    · rename_i e failed
      rw [failed, Option.some.inj rejects]
  have first := ((attributeInfo_rejecting ctx "o.options" value none).2.1 "zap").1 rejected
  exact ⟨by decide +kernel, rejected, first.2⟩

end TemplateBinding
