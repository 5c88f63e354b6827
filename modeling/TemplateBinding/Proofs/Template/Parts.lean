import Mathlib.Data.List.Forall2
import TemplateBinding.Attribute.Evaluation

/-! A template is read piece by piece. Its parts are its pieces, and its expressions are
read from what stands between the braces. -/
namespace TemplateBinding

theorem Run.mapM_eq_ok_iff {ε α β : Type} {f : α → Run ε β} {as : List α} {bs : List β} :
    (as.mapM f).result = .ok bs ↔ List.Forall₂ (fun a b => (f a).result = .ok b) as bs := by
  induction as generalizing bs with
  | nil =>
    constructor
    · intro given
      cases given
      exact .nil
    · intro related
      cases related
      rfl
  | cons a as ih =>
    rw [List.mapM_cons, Run.bind_eq_ok_iff]
    constructor
    · rintro ⟨b, first, given⟩
      obtain ⟨others, later, same⟩ := Run.bind_eq_ok_iff.1 given
      cases same
      exact .cons first (ih.1 later)
    · rintro (_ | ⟨first, later⟩)
      exact ⟨_, first, Run.bind_eq_ok_iff.2 ⟨_, ih.2 later, rfl⟩⟩

theorem Run.mapM_eq_error_iff {ε α β : Type} {f : α → Run ε β} {as : List α} {e : ε} :
    (as.mapM f).result = .error e ↔
      ∃ before a after, as = before ++ a :: after ∧
        (∀ b ∈ before, ∃ c, (f b).result = .ok c) ∧ (f a).result = .error e := by
  induction as with
  | nil =>
    constructor
    · intro failed
      cases failed
    · rintro ⟨before, a, after, whole, -⟩
      cases before <;> cases whole
  | cons a as ih =>
    rw [List.mapM_cons, Run.bind_eq_error_iff]
    constructor
    · rintro (failed | ⟨b, done, failed⟩)
      · exact ⟨[], a, as, rfl, nofun, failed⟩
      · rcases Run.bind_eq_error_iff.1 failed with failed | ⟨bs, -, failed⟩
        · obtain ⟨before, a', after, rfl, others, failed⟩ := ih.1 failed
          exact ⟨a :: before, a', after, rfl, List.forall_mem_cons.2 ⟨⟨b, done⟩, others⟩, failed⟩
        · cases failed
    · rintro ⟨before, a', after, whole, others, failed⟩
      cases before with
      | nil =>
        cases whole
        exact .inl failed
      | cons b before =>
        cases whole
        obtain ⟨⟨c, done⟩, others⟩ := List.forall_mem_cons.1 others
        have later := ih.2 ⟨before, a', after, rfl, others, failed⟩
        exact .inr ⟨c, done, Run.bind_eq_error_iff.2 (.inl later)⟩

/-- The members of a list know that they are, and a run need not make use of it. -/
theorem Run.mapM_attach {ε α β : Type} (as : List α) (f : α → Run ε β) :
    (as.attach.mapM fun a => f a.1) = as.mapM f := by
  rw [List.mapM_subtype fun _ _ => rfl, List.unattach_attach]

theorem interpolated_done {ctx : Context} {name value : Text} {found : Option Interpolation}
    (read : (interpolated ctx name value).result = .ok found) :
    match found with
    | none => (Template.pieces value).any Template.Piece.isExpression = false
    | some i =>
      i.target = name ∧ i.filters = ctx.filters ∧
        (Template.pieces value).any Template.Piece.isExpression = true ∧
        List.Forall₂ (fun piece part => piece.parse = .ok part) (Template.pieces value)
          i.parts := by
  unfold interpolated at read
  dsimp only at read
  split at read
  · rename_i expression
    obtain ⟨parts, parsed, read⟩ := Run.bind_eq_ok_iff.1 read
    obtain ⟨-, -, same⟩ := Run.bind_eq_ok_iff.1 read
    cases same
    exact ⟨rfl, rfl, expression, Run.mapM_eq_ok_iff.1 parsed⟩
  · rename_i none
    cases read
    exact Bool.eq_false_iff.2 none

theorem part_of_expression {source : Text} {part : Part}
    (read : (Template.Piece.expression source).parse = .ok part) :
    ∃ e, part = .expression e ∧ Expr.parse source = .ok e := by
  unfold Template.Piece.parse at read
  dsimp only at read
  split at read
  · rename_i e parsed
    cases read
    exact ⟨e, rfl, parsed⟩
  · cases read

def Template.Piece.source? : Piece → Option Text
  | .literal _ => none
  | .expression source => some source

def Template.sources (t : Text) : List Text := (pieces t).filterMap Piece.source?

theorem exists_of_forall₂ {α β : Type} {R : α → β → Prop} {as : List α} {bs : List β}
    (related : List.Forall₂ R as bs) :
    (∀ a ∈ as, ∃ b ∈ bs, R a b) ∧ ∀ b ∈ bs, ∃ a ∈ as, R a b := by
  induction related with
  | nil => exact ⟨nofun, nofun⟩
  | @cons a b as bs first _ ih =>
    refine ⟨List.forall_mem_cons.2 ⟨⟨b, List.mem_cons_self, first⟩, fun a member => ?_⟩,
      List.forall_mem_cons.2 ⟨⟨a, List.mem_cons_self, first⟩, fun b member => ?_⟩⟩
    · obtain ⟨b, among, related⟩ := ih.1 a member
      exact ⟨b, List.mem_cons_of_mem _ among, related⟩
    · obtain ⟨a, among, related⟩ := ih.2 b member
      exact ⟨a, List.mem_cons_of_mem _ among, related⟩

section Interpolated

variable {ctx : Context} {name value source : Text}

theorem expressions_of_interpolated {i : Interpolation}
    (read : (interpolated ctx name value).result = .ok (some i)) :
    List.Forall₂ (fun source e => Expr.parse source = .ok e) (Template.sources value)
      i.expressions := by
  refine List.rel_filterMap (fun piece part parsed => ?_) (interpolated_done read).2.2.2
  cases piece with
  | literal text =>
    cases parsed
    exact .none
  | expression source =>
    obtain ⟨e, rfl, accepted⟩ := part_of_expression parsed
    exact .some accepted

theorem expression_of_source {found : Option Interpolation}
    (read : (interpolated ctx name value).result = .ok found)
    (member : source ∈ Template.sources value) :
    ∃ i e, found = some i ∧ e ∈ i.expressions ∧ Expr.parse source = .ok e := by
  cases found with
  | none =>
    obtain ⟨piece, among, isSource⟩ := List.mem_filterMap.1 member
    cases piece with
    | literal text => cases isSource
    | expression source => exact absurd rfl (List.any_eq_false.1 (interpolated_done read) _ among)
  | some i =>
    obtain ⟨e, among, parsed⟩ := (exists_of_forall₂ (expressions_of_interpolated read)).1 _ member
    exact ⟨i, e, rfl, among, parsed⟩

end Interpolated

theorem mem_of_pieces {t : Text} :
    ∀ piece ∈ Template.pieces t, ∀ source ∈ piece.source?, ∀ c ∈ source, c ∈ t := by
  fun_induction Template.pieces t with
  | case1 t => exact List.forall_mem_singleton.2 nofun
  | case2 t before source after hole shorter ih =>
    have whole := Template.eq_of_firstHole? hole
    refine List.forall_mem_cons.2 ⟨nofun, List.forall_mem_cons.2 ⟨?_, fun piece member => ?_⟩⟩
    · rintro _ same c member
      cases same
      simp [whole, member]
    · split at member
      · cases member
      · intro source' isSource c inside
        have later := ih piece member source' isSource c inside
        simp [whole, later]

theorem mem_of_sources {t source : Text} (member : source ∈ Template.sources t) :
    ∀ c ∈ source, c ∈ t := by
  obtain ⟨piece, among, isSource⟩ := List.mem_filterMap.1 member
  exact mem_of_pieces piece among source isSource

end TemplateBinding
