import TemplateBinding.Proofs.Attribute.Sessions
import TemplateBinding.Proofs.Template.Parts

/-! What stands under a key is about that key, in every instruction that any session of
calls can build. -/
namespace TemplateBinding

inductive Woven : List Part → Prop
  | last {text e} : Woven [.literal text, .expression e]
  | closed {text e behind} : Woven [.literal text, .expression e, .literal behind]
  | more {text e parts} : Woven parts → Woven (.literal text :: .expression e :: parts)

theorem woven_or_literal {t : Text} {parts : List Part}
    (read : List.Forall₂ (fun piece part => piece.parse = .ok part) (Template.pieces t) parts) :
    Woven parts ∨ ∃ text, parts = [.literal text] := by
  fun_induction Template.pieces t generalizing parts with
  | case1 t hole =>
    cases read with
    | cons first none =>
      cases first
      cases none
      exact .inr ⟨t, rfl⟩
  | case2 t before source after hole shorter ih =>
    cases read with
    | cons first read =>
      cases first
      cases read with
      | cons second others =>
        obtain ⟨e, rfl, -⟩ := part_of_expression second
        split at others
        · cases others
          exact .inl .last
        · rcases ih others with woven | ⟨text, rfl⟩
          · exact .inl (.more woven)
          · exact .inl .closed

theorem woven_of_interpolated {ctx : Context} {name value : Text} {i : Interpolation}
    (read : (interpolated ctx name value).result = .ok (some i)) : Woven i.parts := by
  obtain ⟨-, -, expression, parts⟩ := interpolated_done read
  rcases woven_or_literal parts with woven | ⟨text, alone⟩
  · exact woven
  · rw [alone] at parts
    obtain ⟨piece, only⟩ := List.length_eq_one_iff.1 parts.length_eq
    rw [only] at parts expression
    cases piece with
    | literal text => cases expression
    | expression source =>
      cases parts with
      | cons first _ =>
        obtain ⟨e, same, -⟩ := part_of_expression first
        cases same

/-- What may stand under a key. A binding is for that property, where `class` may be called
`className`. So is an interpolation. The only names are those of elements. -/
def Entry.Placed (key : Text) : Entry → Prop
  | .literal _ => True
  | .binding b => b.target = key ∨ key = "class" ∧ b.target = "className"
  | .interpolation i => i.target = key ∧ Woven i.parts
  | .name n => key = refName ∧ n.mode = .element

theorem PropertyCommand.target_cases (config : Config) (name : Text) (p : PropertyCommand) :
    p.target config name = name ∨ name = "class" ∧ p.target config name = "className" := by
  have aliased : classAlias name = name ∨ name = "class" ∧ classAlias name = "className" := by
    unfold classAlias
    split
    · rename_i isClass
      exact .inr ⟨isClass, rfl⟩
    · exact .inl rfl
  cases p with
  | loop => exact .inl rfl
  | oneWay | oneTime => exact aliased
  | twoWay | bind =>
    unfold target
    dsimp only
    split
    · exact aliased
    · exact .inl rfl

theorem Entry.Made.placed {ctx : Context} {key : Text} {entry : Entry}
    (made : entry.Made ctx key) : entry.Placed key := by
  cases made with
  | literal => trivial
  | @bound p => exact p.target_cases ctx.config key
  | element => exact ⟨rfl, rfl⟩
  | interpolation read => exact ⟨(interpolated_done read).1, woven_of_interpolated read⟩

/-- At every step of every session, whether it succeeds or not, the instruction keeps its
name and its keys, in their order, unless the call has begun another one. Everything in it
stands under the key that it is about. -/
theorem session_placed (name : Text) (calls : List Call) :
    ∀ s ∈ session calls (Instruction.empty name),
      s.Continues ∧ s.reply.instruction.Holds fun key entry => entry.Placed key := by
  refine session_steps (fun i => i.Holds fun key entry => entry.Placed key)
    (fun call i placed _ => ?_) (Instruction.holds_empty name) fun _ _ => True.intro
  obtain ⟨holds, continues⟩ :=
    call.reply_kept (fun _ _ writes => (made_of_writes writes).placed) placed
  exact ⟨holds, continues, holds⟩

/-- A class is bound and a title is woven. A loop that cannot be read leaves both as they are, and
then the title is overwritten by a binding. -/
theorem session_placed_class :
    let onDiv name value : Call := ⟨{ tag := "div" }, .ofAttribute name value, .inPlace⟩
    let steps := session [onDiv "class.one-way" "a", onDiv "title" "$\x7bb\x7d",
      onDiv "title.for" "x of )", onDiv "title.bind" "c"] (Instruction.empty "div")
    (steps.map fun s => s.reply.result.isOk) = [true, true, false, true] ∧
      (steps.map fun s => s.reply.instruction.keys) =
        ["class".toList] :: List.replicate 3 ["class".toList, "title".toList] ∧
      (steps.map fun s => (s.reply.instruction.binding? "class").map Binding.target) =
        List.replicate 4 (some "className".toList) ∧
      (steps.map fun s => (s.reply.instruction.binding? "title").map Binding.target) =
        List.replicate 3 none ++ [some "title".toList] ∧
      ∃ last, steps.getLast? = some last ∧ last.Continues ∧
        last.reply.instruction.Holds fun key entry => entry.Placed key := by
  intro onDiv steps
  refine ⟨by decide +kernel, by decide +kernel, by decide +kernel, by decide +kernel, ?_⟩
  have begun : steps ≠ [] := List.cons_ne_nil _ _
  have last : steps.getLast? = some (steps.getLast begun) := List.getLast?_eq_some_getLast begun
  exact ⟨_, last, session_placed "div" _ _ (List.getLast_mem begun)⟩

end TemplateBinding
