import TemplateBinding.Proofs.Template.Embedding
import TemplateBinding.Proofs.Template.Parts
import TemplateBinding.Proofs.Text.Slicing

/-! What a text is split into. The pieces make up the text and alternate, and an opening begins an
expression if it is closed. Only one list of pieces is like that. -/
namespace TemplateBinding

namespace Template

def Piece.spelled : Piece → Text
  | .literal text => text
  | .expression source => opening ++ source ++ ['}']

inductive Alternating : List Piece → Prop
  | literal {text} : Alternating [.literal text]
  | expression {text source} : Alternating [.literal text, .expression source]
  | more {text source ps} :
      Alternating ps → Alternating (.literal text :: .expression source :: ps)

/-- The search for a closing brace ends behind the text, and not within it. -/
def Closed (source : Text) : Prop :=
  closing? (.outside 0) (source ++ ['}']) = some (source, [])

def Unclosed (t : Text) : Prop :=
  ∀ before rest, t = before ++ opening ++ rest → ¬ opening <:+: before →
    closing? (.outside 0) rest = none

/-- How a text is split. The literal at the end is left out if it is empty and not all there is. -/
structure Splits (t : Text) (ps : List Piece) : Prop where
  lossless : ps.flatMap Piece.spelled = t
  alternating : Alternating ps
  omitted : ps.getLast? = some (.literal []) → ps = [.literal []]
  before : ∀ text source, [.literal text, .expression source] <:+: ps → ¬ opening <:+: text
  final : ∀ text, ps.getLast? = some (.literal text) → Unclosed text
  closed : ∀ source, .expression source ∈ ps → Closed source

theorem closing?_behind {s : Search} {source after : Text} :
    closing? s (source ++ '}' :: after) = some (source, after) ↔
      closing? s (source ++ ['}']) = some (source, []) := by
  induction source generalizing s with
  | nil =>
    simp only [List.nil_append, closing?]
    cases s.step '}' <;> simp
  | cons c cs ih =>
    simp only [List.cons_append, closing?]
    cases s.step c with
    | none => simp
    | some next => simp [ih]

theorem closing?_eq_some_iff {source after t : Text} :
    closing? (.outside 0) t = some (source, after) ↔
      t = source ++ '}' :: after ∧ Closed source := by
  constructor
  · intro found
    have whole := eq_of_closing? found
    exact ⟨whole, closing?_behind.1 (whole ▸ found)⟩
  · rintro ⟨rfl, closed⟩
    exact closing?_behind.2 closed

theorem firstHole?_eq_some_iff {t before source after : Text} :
    firstHole? t = some (before, source, after) ↔
      t = before ++ opening ++ (source ++ '}' :: after) ∧ ¬ opening <:+: before ∧
        Closed source := by
  have cut_iff := @cut?_opening_eq_some_iff t before (source ++ '}' :: after)
  constructor
  · intro hole
    unfold firstHole? at hole
    simp only [Option.bind_eq_bind, Option.bind_eq_some_iff, Prod.exists, Option.some.injEq,
      Prod.mk.injEq] at hole
    obtain ⟨_, rest, cut, _, _, found, rfl, rfl, rfl⟩ := hole
    obtain ⟨rfl, closed⟩ := closing?_eq_some_iff.1 found
    obtain ⟨whole, absent⟩ := cut_iff.1 cut
    exact ⟨whole, absent, closed⟩
  · rintro ⟨whole, absent, closed⟩
    have cut := cut_iff.2 ⟨whole, absent⟩
    have found := closing?_eq_some_iff.2 ⟨(rfl : source ++ '}' :: after = _), closed⟩
    have found : closing? ⟨0, none, false⟩ (source ++ '}' :: after) = some (source, after) := found
    simp only [firstHole?, cut, found, Option.bind_eq_bind, Option.bind_some]

theorem firstHole?_eq_none_iff {t : Text} : firstHole? t = none ↔ Unclosed t := by
  constructor
  · intro none before rest whole absent
    cases found : closing? (.outside 0) rest with
    | none => rfl
    | some pair =>
      obtain ⟨source, after⟩ := pair
      obtain ⟨rfl, closed⟩ := closing?_eq_some_iff.1 found
      have hole := firstHole?_eq_some_iff.2 ⟨whole, absent, closed⟩
      rw [none] at hole
      cases hole
  · intro unclosed
    cases hole : firstHole? t with
    | none => rfl
    | some found =>
      obtain ⟨before, source, after⟩ := found
      obtain ⟨whole, absent, closed⟩ := firstHole?_eq_some_iff.1 hole
      have none := unclosed before _ whole absent
      rw [closing?_eq_some_iff.2 ⟨rfl, closed⟩] at none
      cases none

theorem Alternating.ne_nil {ps : List Piece} (alternating : Alternating ps) : ps ≠ [] := by
  cases alternating <;> simp

section Splits

variable {t before source after : Text} {ps : List Piece}

theorem splits_literal (unclosed : Unclosed t) : Splits t [.literal t] := by
  constructor
  case lossless => simp [Piece.spelled]
  case alternating => exact .literal
  case omitted => simp
  case before =>
    intro text source pair
    simpa using pair.length_le
  case final =>
    intro text last
    cases last
    exact unclosed
  case closed => simp

theorem splits_last (absent : ¬ opening <:+: before) (closed : Closed source) :
    Splits (before ++ opening ++ (source ++ ['}'])) [.literal before, .expression source] := by
  constructor
  case lossless => simp [Piece.spelled]
  case alternating => exact .expression
  case omitted => simp
  case before =>
    intro text source' pair
    cases pair.eq_of_length rfl
    exact absent
  case final => simp
  case closed => simpa using closed

theorem splits_more (absent : ¬ opening <:+: before) (closed : Closed source) (some : after ≠ [])
    (rest : Splits after ps) :
    Splits (before ++ opening ++ (source ++ '}' :: after))
      (.literal before :: .expression source :: ps) := by
  have last : (Piece.literal before :: .expression source :: ps).getLast? = ps.getLast? := by
    simp [List.getLast?_cons, List.getLast?_eq_some_getLast rest.alternating.ne_nil]
  constructor
  case lossless => simp [Piece.spelled, rest.lossless]
  case alternating => exact .more rest.alternating
  case omitted =>
    intro empty
    have only := rest.omitted (last ▸ empty)
    exact absurd (by simp [← rest.lossless, only, Piece.spelled]) some
  case before =>
    intro text source' pair
    rcases List.infix_cons_iff.1 pair with first | later
    · obtain ⟨us, whole⟩ := first
      cases whole
      exact absent
    · rcases List.infix_cons_iff.1 later with first | later
      · obtain ⟨us, whole⟩ := first
        cases whole
      · exact rest.before text source' later
  case final =>
    intro text isLast
    exact rest.final text (last ▸ isLast)
  case closed =>
    intro source' member
    simp only [List.mem_cons, reduceCtorEq, false_or, Piece.expression.injEq] at member
    rcases member with rfl | later
    · exact closed
    · exact rest.closed source' later

end Splits

theorem splits_pieces (t : Text) : Splits t (pieces t) := by
  fun_induction pieces t with
  | case1 t none => exact splits_literal (firstHole?_eq_none_iff.1 none)
  | case2 t before source after hole shorter ih =>
    obtain ⟨rfl, absent, closed⟩ := firstHole?_eq_some_iff.1 hole
    split
    · rename_i empty
      rw [List.isEmpty_iff.1 empty]
      exact splits_last absent closed
    · rename_i some
      exact splits_more absent closed (fun empty => some (List.isEmpty_iff.2 empty)) ih

theorem Splits.behind {t before source : Text} {ps : List Piece} (alternating : Alternating ps)
    (splits : Splits t (.literal before :: .expression source :: ps)) :
    Splits (ps.flatMap Piece.spelled) ps ∧ ps.flatMap Piece.spelled ≠ [] := by
  have last : (Piece.literal before :: .expression source :: ps).getLast? = ps.getLast? := by
    simp [List.getLast?_cons, List.getLast?_eq_some_getLast alternating.ne_nil]
  have inside : ps <:+: .literal before :: .expression source :: ps :=
    ⟨[.literal before, .expression source], [], by simp⟩
  have filled : ps.getLast? ≠ some (.literal []) := by
    intro empty
    cases splits.omitted (last.trans empty)
  constructor
  · constructor
    case lossless => rfl
    case alternating => exact alternating
    case omitted => exact fun empty => absurd empty filled
    case before => exact fun text source pair => splits.before text source (pair.trans inside)
    case final => exact fun text isLast => splits.final text (last.trans isLast)
    case closed => exact fun source member => splits.closed source (inside.subset member)
  · intro empty
    cases alternating with
    | literal =>
      simp only [List.flatMap_cons, List.flatMap_nil, List.append_nil, Piece.spelled] at empty
      exact filled (by rw [empty]; rfl)
    | expression | more => simp [Piece.spelled, opening] at empty

theorem eq_pieces_of_splits {t : Text} {ps : List Piece} (splits : Splits t ps) :
    ps = pieces t := by
  have alternating := splits.alternating
  induction alternating generalizing t with
  | @literal text =>
    have whole : text = t := by simpa [Piece.spelled] using splits.lossless
    subst whole
    exact (pieces_of_none (firstHole?_eq_none_iff.2 (splits.final text rfl))).symm
  | @expression before source =>
    have whole : t = before ++ opening ++ (source ++ '}' :: []) := by
      simp [← splits.lossless, Piece.spelled]
    have absent := splits.before before source (List.infix_refl _)
    have hole := firstHole?_eq_some_iff.2 ⟨whole, absent, splits.closed source (by simp)⟩
    exact (pieces_of_some hole).symm
  | @more before source ps alternating ih =>
    obtain ⟨rest, some⟩ := splits.behind alternating
    have whole : t = before ++ opening ++ (source ++ '}' :: ps.flatMap Piece.spelled) := by
      simp [← splits.lossless, Piece.spelled]
    have first := (List.prefix_append [.literal before, .expression source] ps).isInfix
    have absent := splits.before before source first
    have hole := firstHole?_eq_some_iff.2 ⟨whole, absent, splits.closed source (by simp)⟩
    have later := ih rest
    rw [pieces_of_some hole, if_neg (by simpa using some), ← later]

theorem pieces_eq_iff {t : Text} {ps : List Piece} : pieces t = ps ↔ Splits t ps := by
  constructor
  · rintro rfl
    exact splits_pieces t
  · exact fun splits => (eq_pieces_of_splits splits).symm

inductive Becomes : Piece → Part → Prop
  | literal {text} : Becomes (.literal text) (.literal text)
  | expression {source e} :
      Expr.parse source = .ok e → Becomes (.expression source) (.expression e)

/-- What pieces are read as. The first expression that cannot be read is complained about. -/
inductive Interpolates (ctx : Context) (name : Text) (ps : List Piece) :
    Except BindingError (Option Interpolation) → Prop
  | plain : (∀ source, .expression source ∉ ps) → Interpolates ctx name ps (.ok none)
  | refused {before source after error} :
      ps = before ++ .expression source :: after →
      (∀ source, .expression source ∈ before → ∃ e, Expr.parse source = .ok e) →
      Expr.parse source = .error error →
      Interpolates ctx name ps (.error (.expression source error))
  | parted {source parts} :
      .expression source ∈ ps → List.Forall₂ Becomes ps parts →
      Interpolates ctx name ps (.ok (some ⟨name, parts, ctx.filters⟩))

theorem Piece.parse_eq_ok_iff {piece : Piece} {part : Part} :
    piece.parse = .ok part ↔ Becomes piece part := by
  constructor
  · intro read
    cases piece with
    | literal text =>
      cases read
      exact .literal
    | expression source =>
      obtain ⟨e, rfl, parsed⟩ := part_of_expression read
      exact .expression parsed
  · intro becomes
    cases becomes with
    | literal => rfl
    | expression parsed => simp [Piece.parse, parsed]

theorem Piece.parse_eq_error_iff {piece : Piece} {e : BindingError} :
    piece.parse = .error e ↔
      ∃ source error, piece = .expression source ∧ Expr.parse source = .error error ∧
        e = .expression source error := by
  cases piece with
  | literal text => simp [Piece.parse]
  | expression source =>
    cases parsed : Expr.parse source <;> simp [Piece.parse, parsed, eq_comm]

theorem exists_becomes_iff {piece : Piece} :
    (∃ part, Becomes piece part) ↔
      ∀ source, piece = .expression source → ∃ e, Expr.parse source = .ok e := by
  cases piece with
  | literal text => exact iff_of_true ⟨_, .literal⟩ nofun
  | expression source =>
    constructor
    · rintro ⟨part, becomes⟩ _ same
      cases same
      cases becomes with
      | expression parsed => exact ⟨_, parsed⟩
    · intro readable
      obtain ⟨e, parsed⟩ := readable source rfl
      exact ⟨_, .expression parsed⟩

theorem any_isExpression_iff {ps : List Piece} :
    ps.any Piece.isExpression = true ↔ ∃ source, .expression source ∈ ps := by
  rw [List.any_eq_true]
  constructor
  · rintro ⟨piece, member, isExpression⟩
    cases piece with
    | literal text => cases isExpression
    | expression source => exact ⟨source, member⟩
  · rintro ⟨source, member⟩
    exact ⟨_, member, rfl⟩

def readAll (ps : List Piece) : Interpreting (List Part) :=
  ps.mapM fun piece => Run.ofExcept piece.parse

theorem readAll_eq_ok_iff {ps : List Piece} {parts : List Part} :
    (readAll ps).result = .ok parts ↔ List.Forall₂ Becomes ps parts := by
  have each : (fun piece part => (Run.ofExcept piece.parse).result = .ok part) = Becomes := by
    funext piece part
    exact propext Piece.parse_eq_ok_iff
  rw [readAll, Run.mapM_eq_ok_iff, each]

theorem readAll_eq_error_iff {ps : List Piece} {e : BindingError} :
    (readAll ps).result = .error e ↔
      ∃ before source after error, ps = before ++ .expression source :: after ∧
        (∀ source, .expression source ∈ before → ∃ e, Expr.parse source = .ok e) ∧
        Expr.parse source = .error error ∧ e = .expression source error := by
  have readable (before : List Piece) :
      (∀ piece ∈ before, ∃ part, (Run.ofExcept piece.parse).result = .ok part) ↔
        ∀ source, .expression source ∈ before → ∃ e, Expr.parse source = .ok e := by
    constructor
    · intro all source member
      obtain ⟨part, read⟩ := all _ member
      have read : (Piece.expression source).parse = .ok part := read
      exact exists_becomes_iff.1 ⟨part, Piece.parse_eq_ok_iff.1 read⟩ source rfl
    · intro all piece member
      obtain ⟨part, becomes⟩ := exists_becomes_iff.2 fun source same => all source (same ▸ member)
      exact ⟨part, Piece.parse_eq_ok_iff.2 becomes⟩
  rw [readAll, Run.mapM_eq_error_iff]
  constructor
  · rintro ⟨before, piece, after, whole, others, failed⟩
    obtain ⟨source, error, rfl, parsed, rfl⟩ := Piece.parse_eq_error_iff.1 failed
    exact ⟨before, source, after, error, whole, (readable before).1 others, parsed, rfl⟩
  · rintro ⟨before, source, after, error, whole, others, parsed, rfl⟩
    have failed := Piece.parse_eq_error_iff.2 ⟨source, error, rfl, parsed, rfl⟩
    exact ⟨before, _, after, whole, (readable before).2 others, failed⟩

theorem interpolated_plain {ctx : Context} {name value : Text}
    (none : ∀ source, .expression source ∉ pieces value) :
    (interpolated ctx name value).result = .ok .none := by
  have plain : ¬ (pieces value).any Piece.isExpression = true := by
    rw [any_isExpression_iff]
    rintro ⟨source, member⟩
    exact none source member
  unfold interpolated
  dsimp only
  rw [if_neg plain]
  rfl

theorem interpolated_result {ctx : Context} {name value source : Text}
    (expression : .expression source ∈ pieces value) :
    (interpolated ctx name value).result =
      (readAll (pieces value)).result.map fun parts => some ⟨name, parts, ctx.filters⟩ := by
  unfold interpolated
  dsimp only
  rw [if_pos (any_isExpression_iff.2 ⟨source, expression⟩)]
  change (readAll (pieces value) >>= _).result = _
  cases read : (readAll (pieces value)).result with
  | ok parts => simp [Run.bind_eq, Run.andThen, read, ctx.trace_result, Run.pure_eq, Except.map]
  | error e => simp [Run.bind_eq, Run.andThen, read, Except.map]

theorem interpolates_result (ctx : Context) (name value : Text) :
    Interpolates ctx name (pieces value) (interpolated ctx name value).result := by
  by_cases expression : ∃ source, .expression source ∈ pieces value
  · obtain ⟨source, member⟩ := expression
    rw [interpolated_result member]
    cases read : (readAll (pieces value)).result with
    | ok parts => exact .parted member (readAll_eq_ok_iff.1 read)
    | error e =>
      obtain ⟨before, source, after, error, whole, others, parsed, rfl⟩ :=
        readAll_eq_error_iff.1 read
      exact .refused whole others parsed
  · rw [interpolated_plain (not_exists.1 expression)]
    exact .plain (not_exists.1 expression)

theorem interpolated_eq_iff {ctx : Context} {name value : Text}
    {r : Except BindingError (Option Interpolation)} :
    (interpolated ctx name value).result = r ↔ Interpolates ctx name (pieces value) r := by
  constructor
  · rintro rfl
    exact interpolates_result ctx name value
  · intro outcome
    cases outcome with
    | plain none => exact interpolated_plain none
    | @refused before source after error whole others parsed =>
      have read := readAll_eq_error_iff.2 ⟨before, source, after, error, whole, others, parsed, rfl⟩
      have member : .expression source ∈ pieces value := by simp [whole]
      rw [interpolated_result member, read]
      rfl
    | parted member becomes =>
      rw [interpolated_result member, readAll_eq_ok_iff.2 becomes]
      rfl

end Template

open Template

/-- The pieces of a text are the one splitting of it, and what is read from it is read from these
pieces. -/
theorem interpolated_splits (ctx : Context) (name value : Text) :
    (∀ ps, pieces value = ps ↔ Splits value ps) ∧
      ∀ r, (interpolated ctx name value).result = r ↔
        Interpolates ctx name (pieces value) r :=
  ⟨fun _ => pieces_eq_iff, fun _ => interpolated_eq_iff⟩

end TemplateBinding
