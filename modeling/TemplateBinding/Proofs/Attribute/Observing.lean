import TemplateBinding.Proofs.Attribute.Options

/-! Nothing is decided by the logger or by the filters. The logger is asked at every report, also
within options, and what depends on its answer is the report alone; the filters are put into what
is made, and not looked at. So where the two are others, the same is made with the other filters,
and of the log there is what the other logger keeps. -/
namespace TemplateBinding

section Observed

variable {ε δ α β γ η : Type}

/-- Of the log of the first run, the second has what the logger keeps, and its result is made of
that of the first. -/
structure Observed (logger : Logger) (f : α → β) (r : Run ε α) (r' : Run ε β) : Prop where
  log : r'.log = logger.keep r.log
  result : r'.result = r.result.map f

namespace Observed

variable {logger : Logger} {f : α → β} {r : Run ε α} {r' : Run ε β}

theorem pure (a : α) : Observed logger f (Pure.pure a : Run ε α) (Pure.pure (f a)) := ⟨rfl, rfl⟩

theorem of_silent {r : Run ε α} (silent : r.log = []) : Observed logger id r r := by
  obtain ⟨log, result⟩ := r
  subst silent
  cases result <;> exact ⟨rfl, rfl⟩

theorem bind {g : γ → η} {next : α → Run ε γ} {next' : β → Run ε η} (first : Observed logger f r r')
    (later : ∀ a, Observed logger g (next a) (next' (f a))) :
    Observed logger g (r >>= next) (r' >>= next') := by
  obtain ⟨log, result⟩ := r
  obtain ⟨log', result'⟩ := r'
  obtain ⟨rfl, rfl⟩ := first
  cases result with
  | error e => exact ⟨rfl, rfl⟩
  | ok a =>
    obtain ⟨kept, made⟩ := later a
    refine ⟨?_, made⟩
    change logger.keep log ++ (next' (f a)).log = logger.keep (log ++ (next a).log)
    rw [kept]
    exact (List.filter_append ..).symm

theorem mapM {step : γ → Run ε α} {step' : γ → Run ε β} {as : List γ}
    (each : ∀ a ∈ as, Observed logger f (step a) (step' a)) :
    Observed logger (List.map f) (as.mapM step) (as.mapM step') := by
  induction as with
  | nil => exact .pure []
  | cons a as ih =>
    obtain ⟨first, others⟩ := List.forall_mem_cons.1 each
    rw [List.mapM_cons, List.mapM_cons]
    exact first.bind fun b => (ih others).bind fun bs => .pure (b :: bs)

theorem mapM_same {r r' : γ → Run ε α} {as : List γ}
    (each : ∀ a ∈ as, Observed logger id (r a) (r' a)) :
    Observed logger id (as.mapM r) (as.mapM r') := by
  rw [← List.map_id_fun]
  exact mapM each

theorem forM {r r' : γ → Run ε Unit} {as : List γ}
    (each : ∀ a ∈ as, Observed logger id (r a) (r' a)) :
    Observed logger id (as.forM r) (as.forM r') := by
  induction as with
  | nil => exact .pure ()
  | cons a as ih =>
    obtain ⟨first, others⟩ := List.forall_mem_cons.1 each
    exact first.bind fun _ => ih others

theorem mapError (observed : Observed logger f r r') (g : ε → δ) :
    Observed logger f (r.mapError g) (r'.mapError g) := by
  obtain ⟨log, result⟩ := r
  obtain ⟨log', result'⟩ := r'
  obtain ⟨rfl, rfl⟩ := observed
  cases result <;> exact ⟨rfl, rfl⟩

theorem result_eq {r r' : Run ε α} (observed : Observed logger id r r') :
    r'.result = r.result := by
  rw [observed.result]
  cases r.result <;> rfl

end Observed

theorem observed_parsed (logger : Logger) (source : Text) :
    Observed logger id (parsed source) (parsed source) := .of_silent rfl

theorem observed_listener {logger : Logger} (name value : Text) (delegated : Bool) :
    Observed logger id (listener name value delegated) (listener name value delegated) :=
  (observed_parsed logger value).bind fun _ => .pure _

/-- A logger that keeps what another one keeps hands on enough for it. -/
theorem observed_record {logger logger' : Logger} {level : Level}
    (covers : logger'.enabled level = true → logger.enabled level = true) (message : Text) :
    Observed logger' id (logger.record level message : Run ε Unit)
      (logger'.record level message) := by
  unfold Logger.record
  cases kept' : logger'.enabled level with
  | true =>
    rw [covers kept']
    exact ⟨by simp [Run.report, Logger.keep, kept'], rfl⟩
  | false =>
    cases logger.enabled level with
    | true => exact ⟨by simp [Run.report, Run.pure_eq, Logger.keep, kept'], rfl⟩
    | false => exact .pure ()

end Observed

/-! The filters that are held can be replaced by others. -/

def Binding.against (filters : Filters) (b : Binding) : Binding := { b with filters := filters }

def Interpolation.against (filters : Filters) (i : Interpolation) : Interpolation :=
  { i with filters := filters }

def Entry.against (filters : Filters) : Entry → Entry
  | .literal text => .literal text
  | .binding b => .binding (b.against filters)
  | .name n => .name n
  | .interpolation i => .interpolation (i.against filters)

abbrev writesAgainst (filters : Filters) (ws : List (Text × Entry)) : List (Text × Entry) :=
  ws.map (Prod.map id (Entry.against filters))

def Instruction.against (filters : Filters) (i : Instruction) : Instruction where
  name := i.name
  entries := writesAgainst filters i.entries
  distinct := by
    rw [List.map_map]
    exact i.distinct

def Interpretation.against (filters : Filters) : Interpretation → Interpretation
  | .instruction i => .instruction (i.against filters)
  | .listener l => .listener l
  | .name n => .name n

def Meaning.against (filters : Filters) : Meaning → Meaning
  | .interpreted i => .interpreted (i.against filters)
  | .interpolated i => .interpolated (i.against filters)

def AttributeInfo.against (filters : Filters) (info : AttributeInfo) : AttributeInfo :=
  { info with meaning := info.meaning.map (Meaning.against filters) }

theorem map_put {α β : Type} (f : α → β) (key : Text) (value : α) (entries : List (Text × α)) :
    (put key value entries).map (Prod.map id f) =
      put key (f value) (entries.map (Prod.map id f)) := by
  induction entries with
  | nil => rfl
  | cons head rest ih =>
    obtain ⟨k, v⟩ := head
    unfold put
    by_cases same : k = key
    · simp [same]
    · simp [same, ih]

theorem Instruction.against_insertAll (filters : Filters) (i : Instruction)
    (ws : List (Text × Entry)) :
    (i.insertAll ws).against filters =
      (i.against filters).insertAll (writesAgainst filters ws) := by
  induction ws generalizing i with
  | nil => rfl
  | cons w ws ih =>
    have first : (i.insert w.1 w.2).against filters =
        (i.against filters).insert w.1 (w.2.against filters) := by
      simp only [against, insert, writesAgainst, map_put]
    rw [insertAll_cons, ih, first]
    rfl

/-- The logger answers twice as it answers once. -/
theorem Context.trace_eq (ctx : Context) (message : Text) :
    ctx.trace message = ctx.logger.record .debug message := by
  unfold trace Logger.record
  cases ctx.logger.enabled .debug <;> rfl

/-- The same tag and the same rules. The logger and the filters may differ. -/
structure Context.Agrees (ctx ctx' : Context) : Prop where
  tag : ctx.tag = ctx'.tag
  unknownCommands : ctx.config.unknownCommands = ctx'.config.unknownCommands
  classAlias : ctx.config.unifyClassAlias = ctx'.config.unifyClassAlias

structure Context.Covers (ctx ctx' : Context) : Prop extends ctx.Agrees ctx' where
  logger : ∀ level, ctx'.logger.enabled level = true → ctx.logger.enabled level = true

section Covers

variable {ctx ctx' : Context} (covers : ctx.Covers ctx') (name value : Text)
include covers

theorem observed_trace (message : Text) :
    Observed ctx'.logger id (ctx.trace message) (ctx'.trace message) := by
  rw [ctx.trace_eq, ctx'.trace_eq]
  exact observed_record (covers.logger .debug) message

theorem observed_resolve (keyword : Text) :
    Observed ctx'.logger id (resolve ctx keyword) (resolve ctx' keyword) := by
  unfold resolve
  cases Command.ofKeyword? keyword with
  | some command => exact .pure (some command)
  | none =>
    refine (observed_trace covers _).bind fun _ => ?_
    rw [covers.unknownCommands]
    exact .of_silent (by cases ctx'.config.unknownCommands <;> rfl)

theorem observed_interpolated :
    Observed ctx'.logger (Option.map (Interpolation.against ctx'.filters))
      (interpolated ctx name value) (interpolated ctx' name value) := by
  unfold interpolated
  dsimp only
  split
  · have parts : Observed ctx'.logger id
        ((Template.pieces value).mapM fun piece => Run.ofExcept piece.parse)
        ((Template.pieces value).mapM fun piece => Run.ofExcept piece.parse) :=
      .mapM_same fun piece _ => .of_silent rfl
    exact parts.bind fun parts => (observed_trace covers _).bind fun _ => .pure _
  · exact .pure none

theorem PropertyCommand.against_bound (p : PropertyCommand) (e : Expr) :
    (p.bound ctx name e).against ctx'.filters = p.bound ctx' name e := by
  unfold bound
  rw [covers.tag]
  cases p <;> simp only [Entry.against, Binding.against, target, covers.classAlias]

theorem PropertyCommand.observed_writes (p : PropertyCommand) :
    Observed ctx'.logger (writesAgainst ctx'.filters) (p.writes ctx name value)
      (p.writes ctx' name value) := by
  have plain (p : PropertyCommand) (source : Text) (before : List (Text × Entry))
      (same : writesAgainst ctx'.filters before = before) :
      Observed ctx'.logger (writesAgainst ctx'.filters)
        (parsed source >>= fun e => pure (before ++ [(name, p.bound ctx name e)]))
        (parsed source >>= fun e => pure (before ++ [(name, p.bound ctx' name e)])) := by
    refine (observed_parsed ctx'.logger source).bind fun e => ?_
    have made : writesAgainst ctx'.filters (before ++ [(name, p.bound ctx name e)]) =
        before ++ [(name, p.bound ctx' name e)] := by
      rw [← against_bound covers name p e, writesAgainst, List.map_append]
      exact congrArg (· ++ _) same
    rw [id, ← made]
    exact .pure _
  cases p with
  | loop =>
    unfold writes
    dsimp only
    cases loopForm? value with
    | none => exact ⟨rfl, rfl⟩
    | some sides => exact plain .loop sides.2 [(loopKey, .literal sides.1)] rfl
  | oneWay => exact plain .oneWay value [] rfl
  | twoWay => exact plain .twoWay value [] rfl
  | oneTime => exact plain .oneTime value [] rfl
  | bind => exact plain .bind value [] rfl

theorem observed_plainWrites :
    Observed ctx'.logger (writesAgainst ctx'.filters) (plainWrites ctx name value)
      (plainWrites ctx' name value) := by
  unfold plainWrites
  split
  · exact .pure _
  · refine (observed_interpolated covers name value).bind fun found => ?_
    cases found with
    | none => exact .pure _
    | some i => exact .pure _

theorem observed_commandWrites (keyword : Text)
    {each each' : (s : Text × Text) → s ∈ Segments.split value →
      Interpreting (List (Text × Entry))}
    (segments : ∀ s member, Observed ctx'.logger (writesAgainst ctx'.filters) (each s member)
      (each' s member)) :
    Observed ctx'.logger (writesAgainst ctx'.filters) (commandWrites ctx keyword name value each)
      (commandWrites ctx' keyword name value each') := by
  refine (observed_resolve covers keyword).bind fun found => ?_
  cases found with
  | none => exact .pure []
  | some command =>
    refine (observed_trace covers _).bind fun _ => ?_
    cases command with
    | property p => exact p.observed_writes covers name value
    | trigger | delegate => exact (observed_parsed _ value).bind fun _ => .pure []
    | ref => exact .pure []
    | options =>
      have all : Observed ctx'.logger (List.map (writesAgainst ctx'.filters))
          ((Segments.split value).attach.mapM fun s => each s.1 s.2)
          ((Segments.split value).attach.mapM fun s => each' s.1 s.2) :=
        .mapM fun s _ => segments s.1 s.2
      exact all.bind fun _ => .pure []

theorem observed_attributeWrites :
    Observed ctx'.logger (writesAgainst ctx'.filters) (attributeWrites ctx name value)
      (attributeWrites ctx' name value) := by
  fun_induction attributeWrites ctx name value with
  | case1 name value inner keyword parts ih =>
    rw [attributeWrites, parts]
    exact observed_commandWrites covers inner value keyword fun s member => ih s member
  | case2 name value whole =>
    rw [attributeWrites, whole]
    exact observed_plainWrites covers name value

theorem observed_collect :
    Observed ctx'.logger (Instruction.against ctx'.filters)
      (collect name value (writeSegment ctx value))
      (collect name value (writeSegment ctx' value)) := by
  rw [collect_segments, collect_segments]
  have segments : Observed ctx'.logger (List.map (writesAgainst ctx'.filters))
      ((Segments.split value).mapM (segmentWrites ctx))
      ((Segments.split value).mapM (segmentWrites ctx')) :=
    .mapM fun s _ => observed_attributeWrites covers s.1 s.2
  refine segments.bind fun wss => ?_
  have made : ((Instruction.empty name).insertAll wss.flatten).against ctx'.filters =
      (Instruction.empty name).insertAll (wss.map (writesAgainst ctx'.filters)).flatten := by
    rw [Instruction.against_insertAll, writesAgainst, List.map_flatten]
    rfl
  rw [← made]
  exact .pure _

theorem observed_interpret (keyword : Text) (existing : Option Instruction) :
    Observed ctx'.logger (Option.map (Interpretation.against ctx'.filters))
      (interpret ctx keyword name value existing)
      (interpret ctx' keyword name value (existing.map (Instruction.against ctx'.filters))) := by
  refine (observed_resolve covers keyword).bind fun found => ?_
  cases found with
  | none => exact .pure none
  | some command =>
    refine (observed_trace covers _).bind fun _ => ?_
    cases command with
    | property p =>
      dsimp only
      rw [p.write_eq, p.write_eq, Writing.extend_ofWrites, Writing.extend_ofWrites]
      have extended : Observed ctx'.logger (Instruction.against ctx'.filters)
          (p.writes ctx name value >>= fun ws =>
            pure ((existing.getD (.empty name)).insertAll ws))
          (p.writes ctx' name value >>= fun ws =>
            pure (((existing.map (Instruction.against ctx'.filters)).getD
              (.empty name)).insertAll ws)) := by
        refine (p.observed_writes covers name value).bind fun ws => ?_
        have target : (existing.map (Instruction.against ctx'.filters)).getD (.empty name) =
            (existing.getD (.empty name)).against ctx'.filters := by
          cases existing <;> rfl
        rw [target, ← Instruction.against_insertAll]
        exact .pure _
      exact extended.bind fun i => .pure _
    | trigger | delegate => exact (observed_listener name value _).bind fun l => .pure _
    | ref => exact .pure _
    | options => exact (observed_collect covers name value).bind fun i => .pure _

/-- An attribute means the same with another logger and with other filters, except that it holds the
others, and that the other logger keeps its part of the log. -/
theorem observed_attributeInfo (existing : Option Instruction) :
    Observed ctx'.logger (AttributeInfo.against ctx'.filters)
      (attributeInfo ctx name value existing)
      (attributeInfo ctx' name value (existing.map (Instruction.against ctx'.filters))) := by
  unfold attributeInfo
  cases splitCommand? name with
  | some part =>
    obtain ⟨inner, keyword⟩ := part
    refine (observed_interpret covers inner value keyword existing).bind fun i => ?_
    have made : (AttributeInfo.mk inner value (some keyword) (i.map .interpreted)).against
        ctx'.filters = ⟨inner, value, some keyword,
          (i.map (Interpretation.against ctx'.filters)).map .interpreted⟩ := by
      cases i <;> rfl
    rw [← made]
    exact .pure _
  | none =>
    dsimp only
    split
    · exact .pure _
    · refine (observed_interpolated covers name value).bind fun i => ?_
      have made : (AttributeInfo.mk name value none (i.map .interpolated)).against ctx'.filters =
          ⟨name, value, none, (i.map (Interpolation.against ctx'.filters)).map .interpolated⟩ := by
        cases i <;> rfl
      rw [← made]
      exact .pure _

end Covers

end TemplateBinding
