import TemplateBinding.Attribute.Delivery
import TemplateBinding.Proofs.Text.Slicing

/-! Instructions are written in place, yet no failure leaves one half written: whatever can
fail comes before the first entry. So writing an attribute is the same as finding out which
entries it has, without a look at the instruction, and then inserting them. -/
namespace TemplateBinding

section Put

variable {α : Type} {key : Text} {value : α} {entries : List (Text × α)}

theorem mem_put_self : (key, value) ∈ put key value entries := by
  induction entries with
  | nil => simp [put]
  | cons head rest ih =>
    unfold put
    split
    · exact List.mem_cons_self
    · exact List.mem_cons_of_mem _ ih

theorem eq_or_mem_of_mem_put {entry : Text × α} (member : entry ∈ put key value entries) :
    entry = (key, value) ∨ entry ∈ entries := by
  induction entries with
  | nil => exact .inl (List.mem_singleton.1 member)
  | cons head rest ih =>
    unfold put at member
    split at member
    · rcases List.mem_cons.1 member with same | later
      · exact .inl same
      · exact .inr (List.mem_cons_of_mem _ later)
    · rcases List.mem_cons.1 member with same | later
      · exact .inr (same ▸ List.mem_cons_self)
      · exact (ih later).imp_right (List.mem_cons_of_mem _)

theorem keys_prefix_put : entries.map (·.1) <+: (put key value entries).map (·.1) := by
  rw [keys_put]
  split
  · exact List.prefix_refl _
  · exact List.prefix_append ..

end Put

namespace Instruction

/-- The name stays, and so do the keys, in their order. New keys come behind them. -/
structure Extends (i j : Instruction) : Prop where
  name : j.name = i.name
  keys : i.keys <+: j.keys

theorem Extends.refl (i : Instruction) : i.Extends i := ⟨rfl, List.prefix_refl _⟩

theorem Extends.trans {i j k : Instruction} (first : i.Extends j) (second : j.Extends k) :
    i.Extends k :=
  ⟨second.name.trans first.name, first.keys.trans second.keys⟩

theorem extends_insertAll (i : Instruction) (writes : List (Text × Entry)) :
    i.Extends (i.insertAll writes) := by
  induction writes generalizing i with
  | nil => exact .refl i
  | cons w ws ih =>
    have first : i.Extends (i.insert w.1 w.2) := ⟨rfl, keys_prefix_put⟩
    exact first.trans (ih _)

def Holds (allowed : Text → Entry → Prop) (i : Instruction) : Prop :=
  ∀ w ∈ i.entries, allowed w.1 w.2

variable {allowed : Text → Entry → Prop}

theorem holds_empty (name : Text) : (empty name).Holds allowed := fun _ member => nomatch member

theorem Holds.insertAll {i : Instruction} {writes : List (Text × Entry)} (holds : i.Holds allowed)
    (fit : ∀ w ∈ writes, allowed w.1 w.2) : (i.insertAll writes).Holds allowed := by
  induction writes generalizing i with
  | nil => exact holds
  | cons w ws ih =>
    obtain ⟨first, others⟩ := List.forall_mem_cons.1 fit
    refine ih (fun entry member => ?_) others
    rcases eq_or_mem_of_mem_put member with rfl | old
    · exact first
    · exact holds entry old

end Instruction

namespace Writing

variable {α : Type} {allowed : Text → Entry → Prop}

def ofWrites (r : Interpreting (List (Text × Entry))) : Writing Unit := fun i =>
  match r.result with
  | .ok writes => (i.insertAll writes, ⟨r.log, .ok ()⟩)
  | .error e => (i, ⟨r.log, .error e⟩)

/-- All writing is done at the end, and only of entries that are allowed. What is written,
logged or complained about does not depend on the instruction. -/
def Commits (allowed : Text → Entry → Prop) (w : Writing Unit) : Prop :=
  ∃ r, w = ofWrites r ∧ ∀ writes, r.result = .ok writes → ∀ entry ∈ writes, allowed entry.1 entry.2

theorem bind_ofRun (r : Interpreting α) {β : Type} (next : α → Writing β) (i : Instruction) :
    (ofRun r >>= next) i =
      match r.result with
      | .ok a => ((next a i).1, ⟨r.log ++ (next a i).2.log, (next a i).2.result⟩)
      | .error e => (i, ⟨r.log, .error e⟩) := rfl

theorem bind_ofRun_done {r : Interpreting α} {β : Type} {next : α → Writing β} {i : Instruction}
    {b : β} (done : ((ofRun r >>= next) i).2.result = .ok b) :
    ∃ a, r.result = .ok a ∧ (next a i).2.result = .ok b ∧
      ((ofRun r >>= next) i).1 = (next a i).1 := by
  obtain ⟨log, result⟩ := r
  cases result with
  | ok a => exact ⟨a, rfl, done, rfl⟩
  | error e => cases done

theorem commits_pure : Commits allowed (pure ()) := by
  refine ⟨pure [], rfl, ?_⟩
  rintro writes given entry member
  cases given
  cases member

theorem commits_insert {key : Text} {entry : Entry} (fit : allowed key entry) :
    Commits allowed (insert key entry) := by
  refine ⟨pure [(key, entry)], rfl, ?_⟩
  rintro writes given written member
  cases given
  cases List.mem_singleton.1 member
  exact fit

theorem commits_insert_insert {key key' : Text} {entry entry' : Entry} (fit : allowed key entry)
    (fit' : allowed key' entry') :
    Commits allowed (do insert key entry; insert key' entry') := by
  refine ⟨pure [(key, entry), (key', entry')], rfl, ?_⟩
  rintro writes given written member
  cases given
  rcases List.mem_cons.1 member with rfl | member
  · exact fit
  · cases List.mem_singleton.1 member
    exact fit'

theorem commits_bind {r : Interpreting α} {next : α → Writing Unit}
    (later : ∀ a, r.result = .ok a → Commits allowed (next a)) :
    Commits allowed (ofRun r >>= next) := by
  obtain ⟨log, result⟩ := r
  cases result with
  | error e =>
    -- Nothing was written before the failure, so there is nothing to undo.
    refine ⟨⟨log, .error e⟩, rfl, ?_⟩
    rintro writes given
    cases given
  | ok a =>
    obtain ⟨r, same, fit⟩ := later a rfl
    refine ⟨⟨log ++ r.log, r.result⟩, ?_, fit⟩
    funext i
    simp only [bind_ofRun, same, ofWrites]
    cases r.result <;> rfl

theorem commits_dropped (r : Interpreting α) : Commits allowed (ofRun r >>= fun _ => pure ()) :=
  commits_bind fun _ _ => commits_pure

theorem Commits.mono {others : Text → Entry → Prop} {w : Writing Unit} (commits : Commits allowed w)
    (weaker : ∀ key entry, allowed key entry → others key entry) : Commits others w := by
  obtain ⟨r, same, fit⟩ := commits
  exact ⟨r, same, fun writes given entry member => weaker _ _ (fit writes given entry member)⟩

theorem Commits.unchanged {w : Writing Unit} (commits : Commits allowed w) {i : Instruction}
    {e : BindingError} (failed : (w i).2.result = .error e) : (w i).1 = i := by
  obtain ⟨r, rfl, -⟩ := commits
  unfold ofWrites at failed ⊢
  split at failed
  · cases failed
  · rfl

theorem Commits.extends {w : Writing Unit} (commits : Commits allowed w) (i : Instruction) :
    i.Extends (w i).1 := by
  obtain ⟨r, rfl, -⟩ := commits
  unfold ofWrites
  split
  · exact Instruction.extends_insertAll ..
  · exact .refl i

theorem Commits.holds {w : Writing Unit} (commits : Commits allowed w) {i : Instruction}
    (holds : i.Holds allowed) : (w i).1.Holds allowed := by
  obtain ⟨r, rfl, fit⟩ := commits
  unfold ofWrites
  split
  · rename_i writes result
    exact holds.insertAll (fit writes result)
  · exact holds

theorem extend_eq_ok_iff {w : Writing Unit} {i j : Instruction} :
    (w.extend i).result = .ok j ↔ (w i).2.result = .ok () ∧ (w i).1 = j := by
  unfold extend
  rw [Run.bind_eq_ok_iff]
  constructor
  · rintro ⟨done, written, same⟩
    cases same
    exact ⟨written, rfl⟩
  · rintro ⟨written, rfl⟩
    exact ⟨(), written, rfl⟩

theorem forM_keeps (kept : Instruction → Prop) {f : α → Writing Unit} {as : List α}
    (each : ∀ a ∈ as, ∀ i, kept i → kept (f a i).1) {i : Instruction} (start : kept i) :
    kept (as.forM f i).1 := by
  induction as generalizing i with
  | nil => exact start
  | cons a as ih =>
    obtain ⟨first, others⟩ := List.forall_mem_cons.1 each
    have behind := first i start
    have later := ih others behind
    have unfolded : (a :: as).forM f = (f a).andThen fun _ => as.forM f := rfl
    rw [unfolded]
    unfold andThen
    dsimp only
    split
    · exact later
    · exact behind

end Writing

/-! What each kind of attribute writes. -/

theorem parsed_result {source : Text} {e : Expr} :
    (parsed source).result = .ok e ↔ Expr.parse source = .ok e := by
  unfold parsed Run.ofExcept
  cases Expr.parse source with
  | error error => exact ⟨nofun, nofun⟩
  | ok tree =>
    constructor <;>
    · intro same
      cases same
      rfl

def PropertyCommand.source? (value : Text) : PropertyCommand → Option Text
  | .loop => (loopForm? value).map (·.2)
  | _ => some value

theorem firstCut_of_loopForm? {value item items : Text}
    (form : loopForm? value = some (item, items)) : Text.FirstCut " of " value item items := by
  unfold loopForm? at form
  split at form
  · cases form
  · rename_i item' items' found
    split at form
    · cases form
    · cases form
      exact Text.firstCut_of_cut? found

inductive PropertyCommand.Writes (ctx : Context) (name value : Text) :
    PropertyCommand → Text → Entry → Prop
  | loopItem {item items} :
      loopForm? value = some (item, items) → Writes ctx name value .loop loopKey (.literal item)
  | bound {p source e} :
      p.source? value = some source → Expr.parse source = .ok e →
      Writes ctx name value p name (p.bound ctx name e)

theorem PropertyCommand.commits_write (ctx : Context) (p : PropertyCommand) (name value : Text) :
    Writing.Commits (p.Writes ctx name value) (p.write ctx name value) := by
  have plain (source : Text) (only : p.source? value = some source) :
      Writing.Commits (p.Writes ctx name value)
        (Writing.ofRun (parsed source) >>= fun e => Writing.insert name (p.bound ctx name e)) :=
    Writing.commits_bind fun e read =>
      Writing.commits_insert (.bound only (parsed_result.1 read))
  cases p with
  | loop =>
    unfold write
    dsimp only
    split
    · refine ⟨Run.fail .loopForm, rfl, ?_⟩
      rintro writes given
      cases given
    · rename_i item items form
      have source : PropertyCommand.loop.source? value = some items := by simp [source?, form]
      exact Writing.commits_bind fun e read =>
        Writing.commits_insert_insert (.loopItem form) (.bound source (parsed_result.1 read))
  | oneWay | twoWay | oneTime | bind => exact plain value rfl

inductive PlainWrites (ctx : Context) (name value : Text) : Text → Entry → Prop
  | element : name = refName → PlainWrites ctx name value name (.name ⟨value, .element⟩)
  | interpolation {i} :
      name ≠ refName → (interpolated ctx name value).result = .ok (some i) →
      PlainWrites ctx name value name (.interpolation i)
  | literal : PlainWrites ctx name value name (.literal value)

theorem commits_writePlain (ctx : Context) (name value : Text) :
    Writing.Commits (PlainWrites ctx name value) (writePlain ctx name value) := by
  unfold writePlain
  split
  · rename_i isRef
    exact Writing.commits_insert (.element isRef)
  · rename_i notRef
    refine Writing.commits_bind fun found read => ?_
    cases found with
    | some i => exact Writing.commits_insert (.interpolation notRef read)
    | none => exact Writing.commits_insert .literal

def CommandWrites (ctx : Context) (keyword name value key : Text) (entry : Entry) : Prop :=
  ∃ p, Command.ofKeyword? keyword = some (.property p) ∧ p.Writes ctx name value key entry

theorem resolve_result {ctx : Context} {keyword : Text} {command : Command} :
    (resolve ctx keyword).result = .ok (some command) ↔
      Command.ofKeyword? keyword = some command := by
  unfold resolve
  cases Command.ofKeyword? keyword with
  | some found => simp [Run.pure_eq]
  | none =>
    cases ctx.config.unknownCommands <;>
      simp [Run.bind_eq, Run.andThen, ctx.trace_result, Run.fail, Run.pure_eq]

/-- Whatever is done with the segments of `options`, it does not reach the instruction. -/
theorem commits_interpretIntoWith (ctx : Context) (keyword name value : Text)
    (write : SegmentWriter value) :
    Writing.Commits (CommandWrites ctx keyword name value)
      (interpretIntoWith ctx keyword name value write) := by
  refine Writing.commits_bind fun found known => ?_
  cases found with
  | none => exact Writing.commits_pure
  | some command =>
    refine Writing.commits_bind fun _ _ => ?_
    cases command with
    | property p =>
      exact (p.commits_write ctx name value).mono fun key entry writes =>
        ⟨p, resolve_result.1 known, writes⟩
    | trigger | delegate | options => exact Writing.commits_dropped _
    | ref => exact Writing.commits_pure

inductive AttributeWrites (ctx : Context) (name value key : Text) (entry : Entry) : Prop
  | command {inner keyword} :
      splitCommand? name = some (inner, keyword) →
      CommandWrites ctx keyword inner value key entry → AttributeWrites ctx name value key entry
  | plain :
      splitCommand? name = none → PlainWrites ctx name value key entry →
      AttributeWrites ctx name value key entry

theorem commits_writeAttribute (ctx : Context) (name value : Text) :
    Writing.Commits (AttributeWrites ctx name value) (writeAttribute ctx name value) := by
  unfold writeAttribute
  split
  · rename_i inner keyword split
    exact (commits_interpretIntoWith ctx keyword inner value _).mono fun key entry writes =>
      .command split writes
  · rename_i split
    exact (commits_writePlain ctx name value).mono fun key entry writes => .plain split writes

end TemplateBinding
