import TemplateBinding.Proofs.Attribute.Options

/-! What a loop leaves behind. Its items are bound under the name of the attribute, and its variable
stands under a key of its own. An attribute of that name takes the place of the variable. -/
namespace TemplateBinding

theorem interpret_property_result {ctx : Context} {keyword name value : Text}
    {existing : Option Instruction} {p : PropertyCommand}
    (command : Command.ofKeyword? keyword = some (.property p)) :
    (interpret ctx keyword name value existing).result =
      (p.writes ctx name value).result.map fun ws =>
        some (.instruction ((existing.getD (Instruction.empty name)).insertAll ws)) := by
  unfold interpret interpretWith
  rw [resolve_known ctx command, pure_bind]
  dsimp only
  rw [p.write_eq]
  unfold Writing.extend Writing.ofWrites
  cases outcome : (p.writes ctx name value).result <;>
    simp [Run.bind_eq, Run.andThen, reportDispatch_result, Run.pure_eq, Except.map]

theorem interpret_property_done {ctx : Context} {keyword name value : Text}
    {existing : Option Instruction} {r : Option Interpretation} {p : PropertyCommand}
    (command : Command.ofKeyword? keyword = some (.property p))
    (done : (interpret ctx keyword name value existing).result = .ok r) :
    ∃ ws, (p.writes ctx name value).result = .ok ws ∧
      r = some (.instruction ((existing.getD (Instruction.empty name)).insertAll ws)) := by
  rw [interpret_property_result command] at done
  cases outcome : (p.writes ctx name value).result with
  | error e =>
    rw [outcome] at done
    cases done
  | ok ws =>
    rw [outcome] at done
    cases done
    exact ⟨ws, rfl, rfl⟩

def loopEntries (filters : Filters) (name item : Text) (items : Expr) : List (Text × Entry) :=
  [(loopKey, .literal item), (name, .binding ⟨name, items, .oneWay, filters⟩)]

theorem loop_writes_done {ctx : Context} {name value : Text} {ws : List (Text × Entry)}
    (done : (PropertyCommand.loop.writes ctx name value).result = .ok ws) :
    ∃ item items e, Text.FirstCut " of " value item items ∧ Expr.parse items = .ok e ∧
      ws = loopEntries ctx.filters name item e := by
  unfold PropertyCommand.writes at done
  dsimp only at done
  split at done
  · cases done
  · rename_i item items form
    obtain ⟨e, read, same⟩ := Run.bind_eq_ok_iff.1 done
    cases same
    exact ⟨item, items, e, firstCut_of_loopForm? form, parsed_result.1 read, rfl⟩

/-- What a loop leaves in an instruction `old` under any key but that of its variable. -/
structure Looped (filters : Filters) (name : Text) (items : Expr) (old i : Instruction) : Prop where
  bound : i.get? name = some (.binding ⟨name, items, .oneWay, filters⟩)
  others : ∀ key, key ≠ loopKey → key ≠ name → i.get? key = old.get? key
  keys : i.keys = old.keys ++ ([loopKey, name].removeAll old.keys).eraseDups
  name : i.name = old.name

theorem get?_loopEntries (filters : Filters) (name item : Text) (e : Expr) (old : Instruction)
    (key : Text) :
    (old.insertAll (loopEntries filters name item e)).get? key =
      if key = name then some (.binding ⟨name, e, .oneWay, filters⟩)
      else if key = loopKey then some (.literal item)
      else old.get? key := by
  rw [Instruction.get?_insertAll, loopEntries, List.reverse_cons, List.reverse_singleton,
    List.singleton_append, lookup_cons_eq, lookup_cons_eq]
  split
  · rfl
  · split <;> rfl

theorem looped_insertAll (filters : Filters) (name item : Text) (e : Expr) (old : Instruction) :
    Looped filters name e old (old.insertAll (loopEntries filters name item e)) := by
  have found := get?_loopEntries filters name item e old
  constructor
  case bound => rw [found, if_pos rfl]
  case others =>
    intro key unreserved unnamed
    rw [found, if_neg unnamed, if_neg unreserved]
  case keys => exact Instruction.keys_insertAll ..
  case name => exact Instruction.insertAll_name ..

/-- A loop that succeeds binds its items and leaves all else as it was. Its variable is kept
exactly if the attribute does not have the name under which variables are kept. -/
theorem interpret_loop_delivers {ctx : Context} {name value : Text}
    {existing : Option Instruction} {r : Option Interpretation}
    (done : (interpret ctx "for" name value existing).result = .ok r) :
    ∃ item items e i,
      r = some (.instruction i) ∧ Text.FirstCut " of " value item items ∧
        Expr.parse items = .ok e ∧
        Looped ctx.filters name e (existing.getD (Instruction.empty name)) i ∧
        (i.get? loopKey = some (.literal item) ↔ name ≠ loopKey) := by
  have command : Command.ofKeyword? "for" = some (.property .loop) := by decide
  obtain ⟨ws, written, rfl⟩ := interpret_property_done command done
  obtain ⟨item, items, e, cut, parsed, rfl⟩ := loop_writes_done written
  refine ⟨item, items, e, _, rfl, cut, parsed, looped_insertAll ctx.filters name item e _, ?_⟩
  rw [get?_loopEntries]
  by_cases reserved : loopKey = name
  · simp [reserved]
  · simp [reserved, Ne.symm reserved]

theorem interpret_loop_delivers_rows :
    let old := (Instruction.empty "div").insertAll
      [("rows", .literal "a"), ("x", .literal "b"), ("local", .literal "c")]
    ∃ item e i,
      (interpret { tag := "div" } "for" "rows" "item of items" (some old)).result =
        .ok (some (.instruction i)) ∧
      i.keys = ["rows".toList, "x".toList, "local".toList] ∧
      i.get? "local" = some (.literal item) ∧
      i.get? "rows" = some (.binding ⟨"rows", e, .oneWay, .empty⟩) ∧
      i.get? "x" = some (.literal "b") := by
  intro old
  have read : (interpret { tag := "div" } "for" "rows" "item of items"
      (some old)).result.isOk = true := by decide +kernel
  cases done : (interpret { tag := "div" } "for" "rows" "item of items" (some old)).result with
  | error error =>
    rw [done] at read
    cases read
  | ok r =>
    obtain ⟨item, items, e, i, rfl, -, -, looped, kept⟩ := interpret_loop_delivers done
    refine ⟨item, e, i, rfl, ?_, kept.2 (by decide), looped.bound, ?_⟩
    · exact looped.keys.trans (by decide)
    · exact (looped.others "x" (by decide) (by decide)).trans (by rfl)

/-- The items of a loop called `local` are bound, and its variable is nowhere. -/
theorem interpret_loop_local :
    ¬ ∀ (ctx : Context) (name value : Text) (existing : Option Instruction)
        (r : Option Interpretation),
      (interpret ctx "for" name value existing).result = .ok r →
        ∃ item items e i,
          r = some (.instruction i) ∧ Text.FirstCut " of " value item items ∧
            Expr.parse items = .ok e ∧ i.get? loopKey = some (.literal item) ∧
            Looped ctx.filters name e (existing.getD (Instruction.empty name)) i := by
  intro all
  have read : (interpret { tag := "div" } "for" "local" "item of items"
      none).result.isOk = true := by decide +kernel
  cases done : (interpret { tag := "div" } "for" "local" "item of items" none).result with
  | error error =>
    rw [done] at read
    cases read
  | ok r =>
    obtain ⟨item, items, e, i, -, -, -, kept, looped⟩ := all _ _ _ _ _ done
    have bound : i.get? loopKey = some (.binding ⟨loopKey, e, .oneWay, .empty⟩) := looped.bound
    rw [kept] at bound
    cases bound

end TemplateBinding
