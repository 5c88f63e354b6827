import Mathlib.Data.List.Nodup
import TemplateBinding.Proofs.Attribute.Commits
import TemplateBinding.Proofs.Attribute.Scanning
import TemplateBinding.Proofs.Template.Parts

/-! The segments of an `options` value do not see one another. What a segment writes, or why it
fails, is found without an instruction; what the whole value makes is the fold of that. -/
namespace TemplateBinding

section Lookup

variable {α : Type}

theorem lookup_cons_eq (key k : Text) (v : α) (entries : List (Text × α)) :
    ((k, v) :: entries).lookup key = if key = k then some v else entries.lookup key := by
  rw [List.lookup_cons]
  by_cases found : key = k
  · simp [found]
  · simp [found, beq_false_of_ne found]

theorem lookup_put (key k : Text) (v : α) (entries : List (Text × α)) :
    (put k v entries).lookup key = if key = k then some v else entries.lookup key := by
  induction entries with
  | nil => exact lookup_cons_eq key k v []
  | cons head rest ih =>
    obtain ⟨k', v'⟩ := head
    unfold put
    split
    · rename_i same
      rw [lookup_cons_eq, lookup_cons_eq, same]
      split <;> rfl
    · rename_i other
      rw [lookup_cons_eq, lookup_cons_eq, ih]
      by_cases found : key = k'
      · rw [if_pos found, if_pos found, if_neg (found.symm ▸ other)]
      · rw [if_neg found, if_neg found]

theorem lookup_eq_none {key : Text} {entries : List (Text × α)}
    (absent : key ∉ entries.map (·.1)) : entries.lookup key = none := by
  induction entries with
  | nil => rfl
  | cons head rest ih =>
    simp only [List.map_cons, List.mem_cons, not_or] at absent
    rw [lookup_cons_eq, if_neg absent.1, ih absent.2]

theorem mem_iff_lookup {key : Text} {v : α} {entries : List (Text × α)}
    (distinct : (entries.map (·.1)).Nodup) :
    (key, v) ∈ entries ↔ entries.lookup key = some v := by
  induction entries with
  | nil => simp
  | cons head rest ih =>
    obtain ⟨k, v'⟩ := head
    obtain ⟨absent, distinct⟩ := List.nodup_cons.1 distinct
    rw [lookup_cons_eq, List.mem_cons, ih distinct]
    by_cases found : key = k
    · subst found
      simp [lookup_eq_none absent, eq_comm]
    · simp [found]

end Lookup

namespace Instruction

variable {i j : Instruction}

theorem get?_insertAll (i : Instruction) (ws : List (Text × Entry)) (key : Text) :
    (i.insertAll ws).get? key = (ws.reverse.lookup key).or (i.get? key) := by
  induction ws generalizing i with
  | nil => rfl
  | cons w ws ih =>
    have first : (i.insert w.1 w.2).get? key = if key = w.1 then some w.2 else i.get? key :=
      lookup_put ..
    rw [insertAll_cons, ih, first, List.reverse_cons, List.lookup_append, Option.or_assoc,
      lookup_cons_eq]
    split <;> rfl

theorem keys_insertAll (i : Instruction) (ws : List (Text × Entry)) :
    (i.insertAll ws).keys = i.keys ++ ((ws.map (·.1)).removeAll i.keys).eraseDups := by
  induction ws generalizing i with
  | nil => simp
  | cons w ws ih =>
    have first : (i.insert w.1 w.2).keys = if w.1 ∈ i.keys then i.keys else i.keys ++ [w.1] :=
      keys_put ..
    rw [insertAll_cons, ih, first]
    split
    · rename_i present
      simp [List.removeAll, present]
    · rename_i absent
      simp [List.removeAll, absent, List.eraseDups_cons, List.filter_filter, Bool.and_comm,
        beq_eq_decide]

@[simp] theorem insertAll_name (i : Instruction) (ws : List (Text × Entry)) :
    (i.insertAll ws).name = i.name := (extends_insertAll i ws).name

theorem perm_of_get?_eq (same : ∀ key, i.get? key = j.get? key) : i.entries.Perm j.entries := by
  refine (List.perm_ext_iff_of_nodup (List.Nodup.of_map _ i.distinct)
    (List.Nodup.of_map _ j.distinct)).2 ?_
  rintro ⟨key, entry⟩
  rw [mem_iff_lookup i.distinct, mem_iff_lookup j.distinct]
  exact Eq.congr_left (same key)

end Instruction

namespace Writing

variable {α : Type}

theorem bind_ofWrites (r : Interpreting α) (f : α → Interpreting (List (Text × Entry))) :
    (ofRun r >>= fun a => ofWrites (f a)) = ofWrites (r >>= f) := by
  obtain ⟨log, result⟩ := r
  funext i
  cases result with
  | error e => rfl
  | ok a =>
    rw [bind_ofRun, Run.bind_eq]
    unfold ofWrites Run.andThen
    dsimp only
    cases (f a).result <;> rfl

theorem dropped_eq (r : Interpreting α) :
    (ofRun r >>= fun _ => pure ()) = ofWrites (r >>= fun _ => pure []) :=
  bind_ofWrites r fun _ => pure []

theorem extend_ofWrites (r : Interpreting (List (Text × Entry))) (i : Instruction) :
    extend (ofWrites r) i = r >>= fun ws => pure (i.insertAll ws) := by
  obtain ⟨log, result⟩ := r
  cases result <;> rfl

theorem extend_ofWrites_bind (r : Interpreting (List (Text × Entry))) (w : Writing Unit)
    (i : Instruction) :
    extend (ofWrites r >>= fun _ => w) i = r >>= fun ws => extend w (i.insertAll ws) := by
  obtain ⟨log, result⟩ := r
  cases result with
  | error e => rfl
  | ok ws =>
    rw [Run.bind_eq]
    unfold extend
    simp only [Run.bind_eq, Run.andThen]
    have step : (ofWrites ⟨log, .ok ws⟩ >>= fun _ => w) i =
        let later := w (i.insertAll ws)
        (later.1, ⟨log ++ later.2.log, later.2.result⟩) := rfl
    rw [step]
    cases (w (i.insertAll ws)).2.result <;> simp [Run.pure_eq]

theorem extend_forM (f : α → Interpreting (List (Text × Entry))) (as : List α) (i : Instruction) :
    extend (as.forM fun a => ofWrites (f a)) i =
      as.mapM f >>= fun wss => pure (i.insertAll wss.flatten) := by
  induction as generalizing i with
  | nil => rfl
  | cons a as ih =>
    have unfolded : ((a :: as).forM fun a => ofWrites (f a)) =
        ofWrites (f a) >>= fun _ => as.forM fun a => ofWrites (f a) := rfl
    rw [unfolded, extend_ofWrites_bind, List.mapM_cons]
    simp only [bind_assoc, pure_bind, ih, List.flatten_cons, Instruction.insertAll_append]

end Writing

/-! What attributes write, without an instruction. -/

def PropertyCommand.writes (ctx : Context) (name value : Text) :
    PropertyCommand → Interpreting (List (Text × Entry))
  | .loop =>
    match loopForm? value with
    | none => Run.fail .loopForm
    | some (item, items) => do
      let e ← parsed items
      pure [(loopKey, .literal item), (name, PropertyCommand.loop.bound ctx name e)]
  | p => do
    let e ← parsed value
    pure [(name, p.bound ctx name e)]

def plainWrites (ctx : Context) (name value : Text) : Interpreting (List (Text × Entry)) :=
  if name = refName then pure [(name, .name ⟨value, .element⟩)]
  else do
    match ← interpolated ctx name value with
    | some i => pure [(name, .interpolation i)]
    | none => pure [(name, .literal value)]

/-- The entries of `name.keyword="value"`. Only property commands have any. Of `options` inside of
others it only matters whether one of their segments fails. -/
def commandWrites (ctx : Context) (keyword name value : Text)
    (each : (s : Text × Text) → s ∈ Segments.split value → Interpreting (List (Text × Entry))) :
    Interpreting (List (Text × Entry)) := do
  match ← resolve ctx keyword with
  | none => pure []
  | some command => do
    reportDispatch ctx name command
    match command with
    | .property p => p.writes ctx name value
    | .trigger | .delegate => do
      let _ ← parsed value
      pure []
    | .ref => pure []
    | .options => do
      let _ ← (Segments.split value).attach.mapM fun ⟨s, member⟩ => each s member
      pure []

def attributeWrites (ctx : Context) (name value : Text) : Interpreting (List (Text × Entry)) :=
  match splitCommand? name with
  | some (inner, keyword) =>
    commandWrites ctx keyword inner value fun s _member => attributeWrites ctx s.1 s.2
  | none => plainWrites ctx name value
termination_by value.length
decreasing_by exact Segments.split_shorter _member

theorem PropertyCommand.write_eq (ctx : Context) (p : PropertyCommand) (name value : Text) :
    p.write ctx name value = Writing.ofWrites (p.writes ctx name value) := by
  have plain (source : Text) (f : Expr → Entry) :
      (Writing.ofRun (parsed source) >>= fun e => Writing.insert name (f e)) =
        Writing.ofWrites (parsed source >>= fun e => pure [(name, f e)]) :=
    Writing.bind_ofWrites (parsed source) fun e => pure [(name, f e)]
  cases p with
  | loop =>
    cases form : loopForm? value with
    | none =>
      simp only [write, writes, form]
      rfl
    | some sides =>
      simp only [write, writes, form]
      exact Writing.bind_ofWrites (parsed sides.2) fun e =>
        pure [(loopKey, .literal sides.1), (name, PropertyCommand.loop.bound ctx name e)]
  | oneWay | twoWay | oneTime | bind => exact plain value _

theorem writePlain_eq (ctx : Context) (name value : Text) :
    writePlain ctx name value = Writing.ofWrites (plainWrites ctx name value) := by
  unfold writePlain plainWrites
  split
  · rfl
  · rw [← Writing.bind_ofWrites]
    congr 1
    funext found
    cases found <;> rfl

theorem listener_dropped (name value : Text) (delegated : Bool) :
    (listener name value delegated >>= fun _ => pure ([] : List (Text × Entry))) =
      parsed value >>= fun _ => pure [] := by
  unfold listener
  rw [bind_assoc]
  simp only [pure_bind]

section Segments

variable {ctx : Context} {name value : Text} {write : SegmentWriter value}
  {each : (s : Text × Text) → s ∈ Segments.split value → Interpreting (List (Text × Entry))}
  (same : ∀ s member, write s member = Writing.ofWrites (each s member))
include same

theorem collect_eq :
    collect name value write =
      (Segments.split value).attach.mapM (fun ⟨s, member⟩ => each s member) >>= fun wss =>
        pure ((Instruction.empty name).insertAll wss.flatten) := by
  have written : (fun s : { s // s ∈ Segments.split value } => write s.1 s.2) =
      fun s => Writing.ofWrites (each s.1 s.2) := funext fun s => same s.1 s.2
  unfold collect
  dsimp only
  rw [written]
  exact Writing.extend_forM _ _ _

theorem interpretIntoWith_eq (keyword : Text) :
    interpretIntoWith ctx keyword name value write =
      Writing.ofWrites (commandWrites ctx keyword name value each) := by
  unfold interpretIntoWith commandWrites
  rw [← Writing.bind_ofWrites]
  congr 1
  funext found
  cases found with
  | none => rfl
  | some command =>
    dsimp only
    rw [← Writing.bind_ofWrites]
    congr 1
    funext _
    cases command with
    | property p => exact p.write_eq ctx name value
    | trigger | delegate =>
      dsimp only
      rw [← listener_dropped]
      exact Writing.dropped_eq _
    | ref => rfl
    | options =>
      refine (Writing.dropped_eq (collect name value write)).trans ?_
      rw [collect_eq same, bind_assoc]
      simp only [pure_bind]

end Segments

/-- Writing an attribute is inserting its entries, and no look at the instruction decides on
them. -/
theorem writeAttribute_eq (ctx : Context) (name value : Text) :
    writeAttribute ctx name value = Writing.ofWrites (attributeWrites ctx name value) := by
  fun_induction attributeWrites ctx name value with
  | case1 name value inner keyword parts ih =>
    rw [writeAttribute, parts]
    exact interpretIntoWith_eq (fun s member => ih s member) keyword
  | case2 name value whole =>
    rw [writeAttribute, whole]
    exact writePlain_eq ctx name value

def segmentWrites (ctx : Context) (s : Text × Text) : Interpreting (List (Text × Entry)) :=
  attributeWrites ctx s.1 s.2

theorem collect_segments (ctx : Context) (name value : Text) :
    collect name value (writeSegment ctx value) =
      (Segments.split value).mapM (segmentWrites ctx) >>= fun wss =>
        pure ((Instruction.empty name).insertAll wss.flatten) := by
  rw [← Run.mapM_attach (Segments.split value) (segmentWrites ctx)]
  exact collect_eq fun s _ => writeAttribute_eq ctx s.1 s.2

theorem resolve_known (ctx : Context) {keyword : Text} {command : Command}
    (found : Command.ofKeyword? keyword = some command) :
    resolve ctx keyword = pure (some command) := by
  unfold resolve
  rw [found]

theorem interpretWith_options (ctx : Context) (name value : Text) (write : SegmentWriter value)
    (existing : Option Instruction) :
    interpretWith ctx "options" name value write existing =
      reportDispatch ctx name .options >>= fun _ => collect name value write >>= fun i =>
        pure (some (.instruction i)) := by
  have found : Command.ofKeyword? "options" = some .options := by decide
  unfold interpretWith
  rw [resolve_known ctx found, pure_bind]

theorem interpret_options_result (ctx : Context) (name value : Text)
    (existing : Option Instruction) :
    (interpret ctx "options" name value existing).result =
      ((Segments.split value).mapM (segmentWrites ctx)).result.map fun wss =>
        some (.instruction ((Instruction.empty name).insertAll wss.flatten)) := by
  unfold interpret
  rw [interpretWith_options, collect_segments]
  cases outcome : ((Segments.split value).mapM (segmentWrites ctx)).result <;>
    simp [Run.bind_eq, Run.andThen, reportDispatch_result, outcome, Run.pure_eq, Except.map]

/-- The instruction `name` that holds the last of some entries under each key, and the keys in
the order in which they first come. -/
structure Collected (name : Text) (ws : List (Text × Entry)) (i : Instruction) : Prop where
  named : i.name = name
  keys : i.keys = (ws.map (·.1)).eraseDups
  last : ∀ key, i.get? key = ws.reverse.lookup key

theorem collected_insertAll (name : Text) (ws : List (Text × Entry)) :
    Collected name ws ((Instruction.empty name).insertAll ws) where
  named := Instruction.insertAll_name ..
  keys := by
    rw [Instruction.keys_insertAll]
    simp [Instruction.empty, Instruction.keys, List.removeAll]
  last key := by
    rw [Instruction.get?_insertAll]
    exact Option.or_none

theorem perm_of_swap {name : Text} {before ws ws' after : List (Text × Entry)} {i j : Instruction}
    (first : Collected name (before ++ ws ++ ws' ++ after) i)
    (second : Collected name (before ++ ws' ++ ws ++ after) j)
    (apart : ∀ key ∈ ws.map (·.1), key ∉ ws'.map (·.1)) : i.entries.Perm j.entries := by
  have missing (us : List (Text × Entry)) (key : Text) (absent : key ∉ us.map (·.1)) :
      us.reverse.lookup key = none := lookup_eq_none (by simpa using absent)
  refine Instruction.perm_of_get?_eq fun key => ?_
  rw [first.last, second.last]
  simp only [List.reverse_append, List.lookup_append]
  by_cases member : key ∈ ws.map (·.1)
  · rw [missing ws' key (apart key member), Option.none_or, Option.none_or]
  · rw [missing ws key member, Option.none_or, Option.none_or]

theorem forall₂_swap {α β : Type} {R : α → β → Prop} {before after : List α} {a a' : α}
    {bs : List β} (related : List.Forall₂ R (before ++ a :: a' :: after) bs) :
    ∃ front b b' back, bs = front ++ b :: b' :: back ∧ R a b ∧ R a' b' ∧
      List.Forall₂ R (before ++ a' :: a :: after) (front ++ b' :: b :: back) := by
  induction before generalizing bs with
  | nil =>
    obtain ⟨b, bs, first, others, rfl⟩ := List.forall₂_cons_left_iff.1 related
    obtain ⟨b', back, second, rest, rfl⟩ := List.forall₂_cons_left_iff.1 others
    exact ⟨[], b, b', back, rfl, first, second, .cons second (.cons first rest)⟩
  | cons c before ih =>
    obtain ⟨d, bs, here, others, rfl⟩ := List.forall₂_cons_left_iff.1 related
    obtain ⟨front, b, b', back, rfl, first, second, swapped⟩ := ih others
    exact ⟨d :: front, b, b', back, rfl, first, second, .cons here swapped⟩

structure FoldsSegments (ctx : Context) (name value : Text) : Prop where
  /-- No existing instruction is looked at, whatever is done with the segments. -/
  fresh : ∀ (write : SegmentWriter value) (existing existing' : Option Instruction),
    interpretWith ctx "options" name value write existing =
      interpretWith ctx "options" name value write existing'
  /-- A segment fails and leaves the instruction as it was, or inserts its entries. Neither the
  failure nor the entries depend on the instruction. -/
  written : ∀ (s : Text × Text) (target : Instruction),
    addAttribute ctx s.1 s.2 target =
      match (segmentWrites ctx s).result with
      | .ok ws => ⟨target.insertAll ws, ⟨(segmentWrites ctx s).log, .ok ()⟩⟩
      | .error e => ⟨target, ⟨(segmentWrites ctx s).log, .error e⟩⟩
  failed : ∀ existing e, (interpret ctx "options" name value existing).result = .error e ↔
    ∃ before s after, Segments.split value = before ++ s :: after ∧
      (∀ b ∈ before, ∃ ws, (segmentWrites ctx b).result = .ok ws) ∧
      (segmentWrites ctx s).result = .error e
  done : ∀ existing found, (interpret ctx "options" name value existing).result = .ok found ↔
    ∃ wss i, List.Forall₂ (fun s ws => (segmentWrites ctx s).result = .ok ws)
        (Segments.split value) wss ∧
      found = some (.instruction i) ∧ i = (Instruction.empty name).insertAll wss.flatten ∧
      Collected name wss.flatten i
  parted : ∀ a b, Segments.split (a ++ ';' :: b) = Segments.split a ++ Segments.split b
  swapped : ∀ value' before s t after ws ws' existing existing' found,
    Segments.split value = before ++ s :: t :: after →
    Segments.split value' = before ++ t :: s :: after →
    (segmentWrites ctx s).result = .ok ws → (segmentWrites ctx t).result = .ok ws' →
    (∀ key ∈ ws.map (·.1), key ∉ ws'.map (·.1)) →
    (interpret ctx "options" name value existing).result = .ok found →
    ∃ i j, found = some (.instruction i) ∧
      (interpret ctx "options" name value' existing').result = .ok (some (.instruction j)) ∧
      j.name = i.name ∧ i.entries.Perm j.entries

theorem interpret_options_done {ctx : Context} {name value : Text} {existing : Option Instruction}
    {found : Option Interpretation} :
    (interpret ctx "options" name value existing).result = .ok found ↔
      ∃ wss i, List.Forall₂ (fun s ws => (segmentWrites ctx s).result = .ok ws)
          (Segments.split value) wss ∧
        found = some (.instruction i) ∧ i = (Instruction.empty name).insertAll wss.flatten ∧
        Collected name wss.flatten i := by
  rw [interpret_options_result]
  constructor
  · intro given
    cases outcome : ((Segments.split value).mapM (segmentWrites ctx)).result with
    | error e =>
      rw [outcome] at given
      cases given
    | ok wss =>
      rw [outcome] at given
      cases given
      exact ⟨wss, _, Run.mapM_eq_ok_iff.1 outcome, rfl, rfl, collected_insertAll ..⟩
  · rintro ⟨wss, i, related, rfl, rfl, -⟩
    rw [Run.mapM_eq_ok_iff.2 related]
    rfl

/-- An `options` attribute is the fold of its segments, which do not see one another. -/
theorem interpret_options_folds (ctx : Context) (name value : Text) :
    FoldsSegments ctx name value := by
  constructor
  case fresh =>
    intro write existing existing'
    rw [interpretWith_options, interpretWith_options]
  case written =>
    intro s target
    unfold addAttribute Writing.update
    rw [writeAttribute_eq]
    unfold Writing.ofWrites segmentWrites
    cases (attributeWrites ctx s.1 s.2).result <;> rfl
  case failed =>
    intro existing e
    rw [interpret_options_result, ← Run.mapM_eq_error_iff]
    cases ((Segments.split value).mapM (segmentWrites ctx)).result <;> simp [Except.map]
  case done => exact fun existing found => interpret_options_done
  case parted => exact Segments.splitFrom_append none []
  case swapped =>
    intro value' before s t after ws ws' existing existing' found whole whole' first second apart
      given
    obtain ⟨wss, i, related, rfl, -, collected⟩ := interpret_options_done.1 given
    rw [whole] at related
    obtain ⟨front, w, w', back, rfl, first', second', related'⟩ := forall₂_swap related
    cases first.symm.trans first'
    cases second.symm.trans second'
    rw [← whole'] at related'
    obtain ⟨j, made, collected'⟩ : ∃ j,
        j = (Instruction.empty name).insertAll (front ++ ws' :: ws :: back).flatten ∧
          Collected name (front ++ ws' :: ws :: back).flatten j :=
      ⟨_, rfl, collected_insertAll ..⟩
    refine ⟨i, j, rfl, interpret_options_done.2 ⟨_, j, related', rfl, made, collected'⟩, ?_, ?_⟩
    · exact collected'.named.trans collected.named.symm
    · simp only [List.flatten_append, List.flatten_cons, ← List.append_assoc]
        at collected collected'
      exact perm_of_swap collected collected' apart

/-- A loop may change places with options in it, which write nothing of their own. -/
theorem interpret_options_folds_loop :
    let ctx : Context := { tag := "ul" }
    let value : Text := "a: 1; row.for: x of xs; b.options: local: 2"
    let value' : Text := "a: 1; b.options: local: 2; row.for: x of xs"
    ∃ i j, (interpret ctx "options" "o" value none).result = .ok (some (.instruction i)) ∧
      (interpret ctx "options" "o" value' (some i)).result = .ok (some (.instruction j)) ∧
      i.keys = ["a".toList, "local".toList, "row".toList] ∧
      j.name = i.name ∧ i.entries.Perm j.entries := by
  intro ctx value value'
  let plain : Text × Text := ("a", " 1")
  let loop : Text × Text := ("row.for", " x of xs")
  let nested : Text × Text := ("b.options", " local: 2")
  have whole : Segments.split value = [plain] ++ loop :: nested :: [] := by decide +kernel
  have whole' : Segments.split value' = [plain] ++ nested :: loop :: [] := by decide +kernel
  have keys {s : Text × Text} {ks : List Text}
      (given : (segmentWrites ctx s).result.toOption.map (·.map (·.1)) = some ks) :
      ∃ ws, (segmentWrites ctx s).result = .ok ws ∧ ws.map (·.1) = ks := by
    cases outcome : (segmentWrites ctx s).result with
    | error e =>
      rw [outcome] at given
      cases given
    | ok ws =>
      rw [outcome] at given
      exact ⟨ws, rfl, Option.some.inj given⟩
  obtain ⟨ws₀, first, keys₀⟩ : ∃ ws, (segmentWrites ctx plain).result = .ok ws ∧
      ws.map (·.1) = ["a".toList] := keys (by decide +kernel)
  obtain ⟨ws, second, keys₁⟩ : ∃ ws, (segmentWrites ctx loop).result = .ok ws ∧
      ws.map (·.1) = ["local".toList, "row".toList] := keys (by decide +kernel)
  obtain ⟨ws', third, keys₂⟩ : ∃ ws, (segmentWrites ctx nested).result = .ok ws ∧
      ws.map (·.1) = [] := keys (by decide +kernel)
  have folds := interpret_options_folds ctx "o" value
  obtain ⟨i, made, collected⟩ : ∃ i,
      i = (Instruction.empty "o").insertAll [ws₀, ws, ws'].flatten ∧
        Collected "o" [ws₀, ws, ws'].flatten i := ⟨_, rfl, collected_insertAll ..⟩
  have given : (interpret ctx "options" "o" value none).result = .ok (some (.instruction i)) :=
    (folds.done none _).2
      ⟨_, i, whole ▸ .cons first (.cons second (.cons third .nil)), rfl, made, collected⟩
  have apart : ∀ key ∈ ws.map (·.1), key ∉ ws'.map (·.1) := by simp [keys₂]
  obtain ⟨i', j, same, given', named, perm⟩ := folds.swapped value' [plain] loop nested [] ws ws'
    none (some i) _ whole whole' second third apart given
  cases same
  refine ⟨i, j, given, given', ?_, named, perm⟩
  rw [collected.keys]
  simp only [List.flatten_cons, List.flatten_nil, List.map_append, keys₀, keys₁, keys₂]
  decide

end TemplateBinding
