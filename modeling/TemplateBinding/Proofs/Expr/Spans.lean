import TemplateBinding.Proofs.Grammar.Acceptance
import TemplateBinding.Proofs.Grammar.Tiling
import TemplateBinding.Proofs.Grammar.Transport
import TemplateBinding.Proofs.Text.Slicing

/-! The spans in a tree that was read. Each covers exactly the text of its node, so that
reading this text alone gives the node again. -/
namespace TemplateBinding

namespace Grammar

theorem Derives.node {ts e n} (derived : Derives .filtered ts e) (within : n.Within e) :
    n.isImplicitThis = true ∨ ∃ x us y, ts = x ++ (us ++ y) ∧ Derives .filtered us n := by
  induction within generalizing ts with
  | here => exact .inr ⟨[], ts, [], by simp, derived⟩
  | @under c e member inner ih =>
    rcases (derived.tiled trivial).mem member with implicit | ⟨x, us, y, rfl, derived'⟩
    · cases c with
      | implicitThis s =>
        rw [inner.eq_of_leaf rfl]
        exact .inl rfl
      | _ => cases implicit
    · apply (ih derived').imp_right
      rintro ⟨x', vs, y', rfl, derived''⟩
      exact ⟨x ++ x', vs, y' ++ y, by simp, derived''⟩

theorem Whole.node {size ts a n} (whole : Whole size ts a) (within : n.Within a) :
    n = a ∨ n.isImplicitThis = true ∨
      ∃ x us y, ts = x ++ (us ++ y) ∧ Derives .filtered us n := by
  cases within with
  | here => exact .inl rfl
  | @under c e member inner =>
    right
    rcases whole.tiled.mem member with implicit | ⟨x, us, y, rfl, derived⟩
    · cases c with
      | implicitThis s =>
        rw [inner.eq_of_leaf rfl]
        exact .inl rfl
      | _ => cases implicit
    · apply (derived.node inner).imp_right
      rintro ⟨x', vs, y', rfl, derived'⟩
      exact ⟨x ++ x', vs, y' ++ y, by simp, derived'⟩

theorem alike_shift (n : Nat) (ts : List Token) :
    Alike (· - n) id ts (ts.map (Token.shift n)) := by
  unfold Alike
  rw [List.map_map]
  rfl

theorem Derives.shift {p ts e} (derived : Derives p ts e) (regular : p.Regular) (n : Nat) :
    Derives p (ts.map (Token.shift n)) (e.move (· - n)) := by
  obtain ⟨d, derived', same⟩ := derived.along regular (alike_shift n ts)
  rw [Expr.move_id] at same
  exact same ▸ derived'

theorem Sequence.shift {ts es} (sequence : Sequence ts es) (n : Nat) :
    Sequence (ts.map (Token.shift n)) (es.map (Expr.move (· - n))) := by
  obtain ⟨ds, sequence', same⟩ := sequence.along (alike_shift n ts)
  rw [Expr.moveAll_id, Expr.moveAll_eq] at same
  exact same ▸ sequence'

end Grammar

open Grammar

namespace Expr

/-- What the span of a node of `t` promises. -/
structure Faithful (t : Text) (n : Expr) : Prop where
  ordered : n.span.start ≤ n.span.stop
  inside : n.span.stop ≤ t.byteSize
  begins : Text.IsBoundary n.span.start t
  ends : Text.IsBoundary n.span.stop t
  children_inside : ∀ c ∈ n.children,
    n.span.start ≤ c.span.start ∧ c.span.start ≤ c.span.stop ∧ c.span.stop ≤ n.span.stop
  children_ordered : n.children.Pairwise fun a b => a.span.stop ≤ b.span.start
  parse_slice :
    Expr.parse (t.slice n.span.start n.span.stop) = .ok (n.move (· - n.span.start))

/-- A node is faithful if it covers a stretch of tokens, and is their whole tree when they
are moved to the beginning. -/
theorem faithful_of_stretch {t : Text} {x us y : List Token} {n : Expr}
    (reads : Reads 0 t (x ++ (us ++ y))) (some : us ≠ []) (span : n.span = spanOf us)
    (tiled : Tiled us n.children)
    (own : ∀ size, Whole size (us.map (Token.shift n.span.start)) (n.move (· - n.span.start))) :
    n.Faithful t := by
  obtain ⟨a, b, c, rfl, cover, part⟩ := reads.stretch some
  rw [Nat.zero_add] at cover part
  rw [← span] at cover
  have first : n.span.start = Text.byteSize a := by rw [cover]
  have last : n.span.stop = Text.byteSize a + Text.byteSize b := by rw [cover]
  obtain ⟨-, within, -⟩ := part.ordered.spanOf some
  rw [← span] at within
  obtain ⟨pairwise, inside⟩ := tiled.spans within
  constructor
  case ordered => exact within.le
  case inside =>
    simp only [last, Text.byteSize_append]
    omega
  case begins => exact ⟨a, b ++ c, rfl, first⟩
  case ends => exact ⟨a ++ b, c, by simp, by rw [last, Text.byteSize_append]⟩
  case children_inside => exact inside
  case children_ordered => exact pairwise
  case parse_slice =>
    have moved := part.shift (Nat.le_refl _)
    rw [Nat.sub_self, ← first] at moved
    have found : tokens b = us.map (Token.shift n.span.start) := moved.tokensFrom_eq
    rw [last, first, Text.slice_append, ← first, Expr.parse_eq_ok_iff, found]
    exact ⟨moved.valid, own _⟩

theorem faithful_of_derives {t : Text} {x us y : List Token} {n : Expr}
    (reads : Reads 0 t (x ++ (us ++ y))) (derived : Derives .filtered us n) : n.Faithful t :=
  faithful_of_stretch reads derived.ne_nil derived.span (derived.tiled trivial) fun _ =>
    .alone (derived.shift trivial _)

theorem faithful_empty {t : Text} (accepted : Expr.parse t = .ok (.empty ⟨0, t.byteSize⟩)) :
    (Expr.empty ⟨0, t.byteSize⟩).Faithful t := by
  have slice := Text.slice_append [] t []
  rw [List.append_nil, List.nil_append, Text.byteSize_nil, Nat.zero_add] at slice
  constructor
  case ordered => exact Nat.zero_le _
  case inside => exact Nat.le_refl _
  case begins => exact ⟨[], t, rfl, rfl⟩
  case ends => exact ⟨t, [], by simp, rfl⟩
  case children_inside =>
    intro c member
    cases member
  case children_ordered => exact .nil
  case parse_slice =>
    simp only [Expr.span, slice, accepted]
    rfl

theorem faithful_chain {t : Text} {lead us : List Token} {es : List Expr}
    (reads : Reads 0 t (lead ++ us)) (semicolons : Semicolons lead) (sequence : Sequence us es)
    (several : 1 < es.length) (plain : ∀ e ∈ es, e.isFilter = false) :
    (Expr.chain (spanOf (lead ++ us)) es).Faithful t := by
  have some : lead ++ us ≠ [] := by simp [sequence.ne_nil]
  have root : Whole t.byteSize (lead ++ us) _ := .chain semicolons sequence several plain
  have reads' : Reads 0 t ([] ++ ((lead ++ us) ++ [])) := by simpa using reads
  apply faithful_of_stretch reads' some rfl root.tiled
  intro size
  generalize (Expr.chain (spanOf (lead ++ us)) es).span.start = n
  have span := (alike_shift n (lead ++ us)).span some
  have lead' := semicolons.along (alike_shift n lead)
  have plain' : ∀ e ∈ es.map (Expr.move (· - n)), e.isFilter = false := by
    simpa using plain
  have whole : Whole size _ _ :=
    .chain lead' (sequence.shift n) (by simpa using several) plain'
  rw [← List.map_append] at whole
  have span' : spanOf ((lead ++ us).map (Token.shift n)) =
      (spanOf (lead ++ us)).move (· - n) := span
  rw [Expr.move, Expr.moveAll_eq, ← span']
  exact whole

theorem faithful_root {t : Text} {a : Expr} (accepted : Expr.parse t = .ok a) : a.Faithful t := by
  obtain ⟨valid, whole⟩ := Expr.parse_eq_ok_iff.1 accepted
  have reads : Reads 0 t (tokens t) := reads_tokensFrom valid
  generalize tokens t = ts at reads whole
  cases whole with
  | empty _ => exact faithful_empty accepted
  | alone derived =>
    have reads' : Reads 0 t ([] ++ (ts ++ [])) := by simpa using reads
    exact faithful_of_derives reads' derived
  | single _ sequence _ =>
    cases sequence with
    | last derived _ => exact faithful_of_derives reads derived
    | more _ _ _ rest => cases rest
  | chain semicolons sequence several plain =>
    exact faithful_chain reads semicolons sequence several plain

/-- Every written node of a text that is read has a faithful span. -/
theorem parse_faithful {t : Text} {a n : Expr} (accepted : Expr.parse t = .ok a)
    (within : n.Within a) (written : n.isImplicitThis = false) : n.Faithful t := by
  obtain ⟨valid, whole⟩ := Expr.parse_eq_ok_iff.1 accepted
  have reads : Reads 0 t (tokens t) := reads_tokensFrom valid
  rcases whole.node within with rfl | implicit | ⟨x, us, y, split, derived⟩
  · exact faithful_root accepted
  · rw [written] at implicit
    cases implicit
  · rw [split] at reads
    exact faithful_of_derives reads derived

theorem parse_faithful_receiver :
    Expr.parse " 'é'.b" =
        .ok (.property ⟨1, 7⟩ (.literal ⟨1, 5⟩ (.string "é")) "b") ∧
      (Expr.literal ⟨1, 5⟩ (.string "é")).Faithful " 'é'.b" := by
  have found : tokens " 'é'.b" =
      [⟨1, 5, .string "é"⟩, ⟨5, 6, .punctuation '.'⟩, ⟨6, 7, .identifier "b"⟩] := by
    decide +kernel
  have receiver : Derives .member [⟨1, 5, .string "é"⟩] (.literal ⟨1, 5⟩ (.string "é")) :=
    .head (.string rfl)
  have derived : Derives .member
      ([⟨1, 5, .string "é"⟩] ++ [⟨5, 6, .punctuation '.'⟩, ⟨6, 7, .identifier "b"⟩])
      (.property ⟨1, 7⟩ (.literal ⟨1, 5⟩ (.string "é")) "b") :=
    .property receiver rfl (.inl rfl)
  have accepted :
      Expr.parse " 'é'.b" = .ok (.property ⟨1, 7⟩ (.literal ⟨1, 5⟩ (.string "é")) "b") := by
    rw [Expr.parse_eq_ok_iff, found]
    exact ⟨by decide, .alone (derived.loosen trivial)⟩
  exact ⟨accepted, parse_faithful accepted (.under List.mem_cons_self .here) rfl⟩

end Expr

end TemplateBinding
