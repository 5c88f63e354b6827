import TemplateBinding.Proofs.Attribute.Loops

/-! Which values are loops. The word between the two sides is read from the left, and stands in the
value only once. Whether a value is a loop is settled before its items are read. -/
namespace TemplateBinding

/-- The two sides of a loop. The word between them occurs in neither, nor half in the first side
and half in itself, and neither side is blank. -/
structure LoopForm (value item items : Text) : Prop where
  whole : value = item ++ " of " ++ items
  item_free : ¬ (" of " : Text) <:+: item
  item_apart : ¬ (" of" : Text) <:+ item
  items_free : ¬ (" of " : Text) <:+: items
  item_filled : Text.trim item ≠ []
  items_filled : Text.trim items ≠ []

theorem infix_overlap_iff {item : Text} :
    (" of " : Text) <:+: item ++ (" of " : Text).dropLast ↔
      (" of " : Text) <:+: item ∨ (" of" : Text) <:+ item := by
  have word : (" of " : Text) = " of" ++ [' '] := rfl
  have spread : item ++ (" of " : Text).dropLast = item ++ [' '] ++ ['o'] ++ ['f'] := by simp
  have ended : (" of" : Text) ++ [' '] <:+ item ++ [' '] ↔ (" of" : Text) <:+ item :=
    List.suffix_append_self_iff
  rw [spread, word, Text.infix_concat_iff_of_ne (by decide),
    Text.infix_concat_iff_of_ne (by decide), List.infix_concat_iff, ended, or_comm]

theorem firstCut_loop_iff {value item items : Text} :
    Text.FirstCut " of " value item items ↔
      value = item ++ " of " ++ items ∧ ¬ (" of " : Text) <:+: item ∧
        ¬ (" of" : Text) <:+ item := by
  rw [Text.firstCut_iff (by decide), infix_overlap_iff, not_or]

theorem loopForm?_eq_some_iff {value item items : Text} :
    loopForm? value = some (item, items) ↔ LoopForm value item items := by
  constructor
  · intro form
    obtain ⟨whole, free, apart⟩ := firstCut_loop_iff.1 (firstCut_of_loopForm? form)
    unfold loopForm? at form
    split at form
    · cases form
    · split at form
      · cases form
      · rename_i plain
        cases form
        simp only [Bool.or_eq_true, not_or, List.isEmpty_iff, Option.isSome_iff_ne_none, ne_eq,
          not_not, Text.cut?_eq_none_iff] at plain
        exact ⟨whole, free, apart, plain.1.1, plain.1.2, plain.2⟩
  · intro form
    have cut := Text.cut?_eq_some_iff.2
      (firstCut_loop_iff.2 ⟨form.whole, form.item_free, form.item_apart⟩)
    have once := Text.cut?_eq_none_iff.2 form.items_free
    unfold loopForm?
    rw [cut]
    dsimp only
    rw [once]
    simp [form.item_filled, form.items_filled]

theorem LoopForm.unique {value item items item' items' : Text} (form : LoopForm value item items)
    (form' : LoopForm value item' items') : item' = item ∧ items' = items := by
  have same := (loopForm?_eq_some_iff.2 form').symm.trans (loopForm?_eq_some_iff.2 form)
  cases same
  exact ⟨rfl, rfl⟩

theorem loop_writes_result (ctx : Context) (name value : Text) :
    (PropertyCommand.loop.writes ctx name value).result =
      match loopForm? value with
      | none => .error .loopForm
      | some (item, items) =>
        ((Expr.parse items).mapError (.expression items)).map
          (loopEntries ctx.filters name item) := by
  unfold PropertyCommand.writes
  cases loopForm? value with
  | none => rfl
  | some sides =>
    obtain ⟨item, items⟩ := sides
    unfold parsed Run.ofExcept
    dsimp only
    cases Expr.parse items <;> rfl

/-- A value is refused as a loop exactly if it does not have two sides. If it has them, there are
no others, and all depends on how the second one is read: its error is the outcome, or the first
one is kept as it is and the expression is bound. -/
theorem interpret_loop_accepts (ctx : Context) (name value : Text)
    (existing : Option Instruction) :
    ((interpret ctx "for" name value existing).result = .error .loopForm ↔
        ¬ ∃ item items, LoopForm value item items) ∧
      ∀ item items, LoopForm value item items →
        (∀ item' items', LoopForm value item' items' → item' = item ∧ items' = items) ∧
          (interpret ctx "for" name value existing).result =
            match Expr.parse items with
            | .error error => .error (.expression items error)
            | .ok e =>
              .ok (some (.instruction
                ((existing.getD (Instruction.empty name)).insertAll
                  (loopEntries ctx.filters name item e)))) := by
  have command : Command.ofKeyword? "for" = some (.property .loop) := by decide
  have outcome {item items : Text} (form : LoopForm value item items) :
      (interpret ctx "for" name value existing).result =
        match Expr.parse items with
        | .error error => .error (.expression items error)
        | .ok e => .ok (some (.instruction
            ((existing.getD (Instruction.empty name)).insertAll
              (loopEntries ctx.filters name item e)))) := by
    rw [interpret_property_result command, loop_writes_result, loopForm?_eq_some_iff.2 form]
    dsimp only
    cases Expr.parse items <;> rfl
  refine ⟨⟨?_, ?_⟩, fun item items form => ⟨fun _ _ => form.unique, outcome form⟩⟩
  · rintro refused ⟨item, items, form⟩
    rw [outcome form] at refused
    cases read : Expr.parse items <;> simp [read] at refused
  · intro formless
    have none : loopForm? value = none := Option.eq_none_iff_forall_ne_some.2 fun sides found =>
      formless ⟨sides.1, sides.2, loopForm?_eq_some_iff.1 found⟩
    rw [interpret_property_result command, loop_writes_result, none]
    rfl

/-- The word ends the first side as early as it can, and what is left of a second one is read as a
part of the items. -/
theorem interpret_loop_accepts_overlap :
    LoopForm "a of of.b" "a" "of.b" ∧
      (∃ i, (interpret { tag := "li" } "for" "row" "a of of.b" none).result =
          .ok (some (.instruction i)) ∧ i.get? loopKey = some (.literal "a")) ∧
      LoopForm "a of )" "a" ")" ∧
      ∃ error, (interpret { tag := "li" } "for" "row" "a of )" none).result =
        .error (.expression ")" error) := by
  have form : LoopForm "a of of.b" "a" "of.b" := by constructor <;> decide +kernel
  have form' : LoopForm "a of )" "a" ")" := by constructor <;> decide +kernel
  have outcome := ((interpret_loop_accepts { tag := "li" } "row" "a of of.b" none).2 _ _ form).2
  have outcome' := ((interpret_loop_accepts { tag := "li" } "row" "a of )" none).2 _ _ form').2
  have read : (Expr.parse "of.b").isOk = true := by decide +kernel
  have unread : (Expr.parse ")").isOk = false := by decide +kernel
  refine ⟨form, ?_, form', ?_⟩
  · cases parsed : Expr.parse "of.b" with
    | error error =>
      rw [parsed] at read
      cases read
    | ok e =>
      rw [parsed] at outcome
      refine ⟨_, outcome, ?_⟩
      rw [get?_loopEntries]
      rfl
  · cases parsed : Expr.parse ")" with
    | error error =>
      rw [parsed] at outcome'
      exact ⟨error, outcome'⟩
    | ok e =>
      rw [parsed] at unread
      cases unread

end TemplateBinding
