import TemplateBinding.Attribute.Evaluation
import TemplateBinding.Proofs.Template.Nesting
import TemplateBinding.Proofs.Text.Slicing

/-! Expressions put into a template are found again, each as the tree that it is on its
own, with the texts around them. -/
namespace TemplateBinding

namespace Template

/-- A text without an opening may end like the beginning of one. -/
theorem cut?_opening_eq_some_iff {t before rest : Text} :
    Text.cut? opening t = some (before, rest) ↔
      t = before ++ opening ++ rest ∧ ¬ opening <:+: before := by
  have free : ['$'] ++ ['{'] <:+: before ++ ['$'] ↔ ['$'] ++ ['{'] <:+: before :=
    Text.infix_concat_iff_of_ne (by decide)
  rw [Text.cut?_eq_some_iff, Text.firstCut_iff (by decide)]
  exact and_congr_right fun _ => not_congr free

theorem firstHole?_eq_none {t : Text} (absent : ¬ opening <:+: t) : firstHole? t = none := by
  simp [firstHole?, Text.cut?_eq_none_iff.2 absent]

theorem pieces_of_none {t : Text} (none : firstHole? t = none) : pieces t = [.literal t] := by
  rw [pieces]
  split
  · rfl
  · rename_i hole
    rw [none] at hole
    cases hole

theorem pieces_of_some {t before source after : Text}
    (hole : firstHole? t = some (before, source, after)) :
    pieces t =
      .literal before :: .expression source :: if after.isEmpty then [] else pieces after := by
  rw [pieces]
  split
  · rename_i none
    rw [hole] at none
    cases none
  · rename_i found
    rw [hole] at found
    cases found
    rfl

theorem pieces_literal {t : Text} (absent : ¬ opening <:+: t) : pieces t = [.literal t] :=
  pieces_of_none (firstHole?_eq_none absent)

/-- An expression in a template, with the literal text before it and the tree it has. -/
structure Hole where
  before : Text
  source : Text
  tree : Expr

def Hole.text (h : Hole) : Text := h.before ++ opening ++ (h.source ++ ['}'])

def Hole.pieces (h : Hole) : List Piece := [.literal h.before, .expression h.source]

def Hole.parts (h : Hole) : List Part := [.literal h.before, .expression h.tree]

def assemble (holes : List Hole) (last : Text) : Text := holes.flatMap Hole.text ++ last

structure Hole.Sound (h : Hole) : Prop where
  literal : ¬ opening <:+: h.before
  accepted : Expr.parse h.source = .ok h.tree

theorem firstHole?_hole {h : Hole} (sound : h.Sound) (after : Text) :
    firstHole? (h.text ++ after) = some (h.before, h.source, after) := by
  have found := cut?_opening_eq_some_iff.2
    ⟨(rfl : h.before ++ opening ++ (h.source ++ '}' :: after) = _), sound.literal⟩
  have closed := closing?_of_parse sound.accepted after
  rw [show h.text ++ after = h.before ++ opening ++ (h.source ++ '}' :: after) by
    simp [Hole.text]]
  simp only [firstHole?, found, Option.bind_eq_bind, Option.bind_some]
  rw [show (⟨0, none, false⟩ : Search) = .outside 0 from rfl, closed]
  rfl

theorem pieces_hole {h : Hole} (sound : h.Sound) (after : Text) :
    pieces (h.text ++ after) = h.pieces ++ if after.isEmpty then [] else pieces after :=
  pieces_of_some (firstHole?_hole sound after)

def lastPieces (last : Text) : List Piece := if last = [] then [] else [.literal last]

def lastParts (last : Text) : List Part := if last = [] then [] else [.literal last]

theorem assemble_isEmpty {h : Hole} {hs : List Hole} {last : Text} :
    (assemble (h :: hs) last).isEmpty = false := by
  simp [assemble, Hole.text, opening]

theorem pieces_assemble {h : Hole} {hs : List Hole} {last : Text} (first : h.Sound)
    (others : ∀ h ∈ hs, h.Sound) (final : ¬ opening <:+: last) :
    pieces (assemble (h :: hs) last) = (h :: hs).flatMap Hole.pieces ++ lastPieces last := by
  induction hs generalizing h with
  | nil =>
    have alone := pieces_hole first last
    simp only [assemble, List.flatMap_cons, List.flatMap_nil, List.append_nil, alone]
    cases last with
    | nil => rfl
    | cons c cs => simp [lastPieces, pieces_literal final]
  | cons second hs ih =>
    obtain ⟨next, rest⟩ := List.forall_mem_cons.1 others
    have later := ih next rest
    have split : assemble (h :: second :: hs) last = h.text ++ assemble (second :: hs) last := by
      simp [assemble]
    rw [split, pieces_hole first, assemble_isEmpty, if_neg (by simp), later,
      ← List.append_assoc]
    rfl

theorem parse_pieces {hs : List Hole} (sound : ∀ h ∈ hs, h.Sound) (last : Text) :
    (hs.flatMap Hole.pieces ++ lastPieces last).mapM (fun piece => Run.ofExcept piece.parse)
      = pure (hs.flatMap Hole.parts ++ lastParts last) := by
  induction hs with
  | nil =>
    unfold lastPieces lastParts
    split <;> rfl
  | cons h hs ih =>
    obtain ⟨first, others⟩ := List.forall_mem_cons.1 sound
    have literal : Run.ofExcept (Piece.literal h.before).parse = pure (.literal h.before) := rfl
    have expression :
        Run.ofExcept (Piece.expression h.source).parse = pure (.expression h.tree) := by
      rw [Piece.parse, first.accepted]
      rfl
    have later := ih others
    simp only [List.flatMap_cons, Hole.pieces, Hole.parts, List.cons_append, List.nil_append,
      List.mapM_cons, literal, expression, later, pure_bind]

end Template

open Template

/-- A template with at least one expression is read as the literals and the trees that it
was assembled from, whatever braces, quotes and openings the expressions have in them. -/
theorem interpolated_assemble (ctx : Context) (name last : Text) (holes : List Hole)
    (some : holes ≠ []) (sound : ∀ h ∈ holes, h.Sound) (final : ¬ opening <:+: last) :
    (interpolated ctx name (assemble holes last)).result =
      .ok (.some ⟨name, holes.flatMap Hole.parts ++ lastParts last, ctx.filters⟩) := by
  obtain ⟨h, hs, rfl⟩ := List.exists_cons_of_ne_nil some
  obtain ⟨first, others⟩ := List.forall_mem_cons.1 sound
  have split := pieces_assemble first others final
  have expression : (pieces (assemble (h :: hs) last)).any Piece.isExpression = true := by
    rw [split]
    rfl
  unfold interpolated
  simp only [expression, if_true]
  rw [split, parse_pieces sound last, pure_bind]
  exact Run.bind_eq_ok_iff.2 ⟨(), ctx.trace_result _, rfl⟩

/-- A brace in a string, a quote behind a backslash, and an opening in a string. There is nothing
between the two expressions, and nothing behind them. -/
theorem interpolated_assemble_quoted :
    ∃ tree other, Expr.parse "\x7ba: '\x7d', b: '\\'$\x7b'\x7d" = .ok tree ∧
      Expr.parse "c | d" = .ok other ∧
      (interpolated { tag := "div" } "title" (assemble
          [⟨"\x7d$", "\x7ba: '\x7d', b: '\\'$\x7b'\x7d", tree⟩, ⟨"", "c | d", other⟩] "")).result =
        .ok (.some ⟨"title",
          [.literal "\x7d$", .expression tree, .literal "", .expression other], .empty⟩) := by
  have accepted {source : Text} (read : (Expr.parse source).isOk = true) :
      ∃ tree, Expr.parse source = .ok tree := by
    cases run : Expr.parse source with
    | error error =>
      rw [run] at read
      cases read
    | ok tree => exact ⟨tree, rfl⟩
  obtain ⟨tree, first⟩ : ∃ tree, Expr.parse "\x7ba: '\x7d', b: '\\'$\x7b'\x7d" = .ok tree :=
    accepted (by decide +kernel)
  obtain ⟨other, second⟩ : ∃ tree, Expr.parse "c | d" = .ok tree := accepted (by decide +kernel)
  refine ⟨tree, other, first, second, interpolated_assemble { tag := "div" } "title" ""
    [⟨"\x7d$", _, tree⟩, ⟨"", _, other⟩] (List.cons_ne_nil _ _) ?_ ?_⟩
  · have literal : ¬ opening <:+: "\x7d$".toList := by decide
    have nothing : ¬ opening <:+: ([] : Text) := by decide
    intro h member
    simp only [List.mem_cons, List.not_mem_nil, or_false] at member
    rcases member with rfl | rfl
    · exact ⟨literal, first⟩
    · exact ⟨nothing, second⟩
  · decide

end TemplateBinding
