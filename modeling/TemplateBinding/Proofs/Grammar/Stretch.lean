import TemplateBinding.Proofs.Grammar.Derivation
import TemplateBinding.Proofs.Grammar.Spelling

/-! Stretches of the tokens of a text. They follow one another in the text, and the part of
the text that a stretch covers has the tokens of the stretch, moved to its beginning. -/
namespace TemplateBinding.Grammar

def Ordered (low : Nat) : List Token → Nat → Prop
  | [], high => low ≤ high
  | t :: ts, high => low ≤ t.start ∧ t.start ≤ t.stop ∧ Ordered t.stop ts high

theorem Ordered.le {low high : Nat} {ts : List Token} (ordered : Ordered low ts high) :
    low ≤ high := by
  induction ts generalizing low with
  | nil => exact ordered
  | cons t ts ih =>
    obtain ⟨first, own, rest⟩ := ordered
    exact Nat.le_trans first (Nat.le_trans own (ih rest))

theorem Ordered.mono {low low' high : Nat} {ts : List Token} (ordered : Ordered low ts high)
    (le : low' ≤ low) : Ordered low' ts high := by
  cases ts with
  | nil => exact Nat.le_trans le ordered
  | cons t ts => exact ⟨Nat.le_trans le ordered.1, ordered.2⟩

theorem Ordered.split {low high : Nat} {ts us : List Token}
    (ordered : Ordered low (ts ++ us) high) :
    Ordered low ts (lastStop low ts) ∧ Ordered (lastStop low ts) us high := by
  induction ts generalizing low with
  | nil => exact ⟨Nat.le_refl low, ordered⟩
  | cons t ts ih =>
    obtain ⟨first, own, rest⟩ := ordered
    obtain ⟨before, behind⟩ := ih rest
    exact ⟨⟨first, own, before⟩, behind⟩

theorem Ordered.spanOf {low high : Nat} {ts : List Token} (ordered : Ordered low ts high)
    (some : ts ≠ []) :
    low ≤ (spanOf ts).start ∧ Ordered (spanOf ts).start ts (spanOf ts).stop ∧
      (spanOf ts).stop ≤ high := by
  obtain ⟨t, ts, rfl⟩ := List.exists_cons_of_ne_nil some
  obtain ⟨first, own, rest⟩ := ordered
  rw [← List.append_nil ts] at rest
  obtain ⟨before, last⟩ := rest.split
  exact ⟨first, ⟨Nat.le_refl _, own, before⟩, last⟩

theorem ordered_tokensFrom (start : Nat) (t : Text) :
    Ordered start (tokensFrom start t) (start + Text.byteSize t) := by
  fun_induction tokensFrom start t with
  | case1 => exact Nat.le_refl _
  | case2 start c cs space ih =>
    rw [Text.byteSize_cons, ← Nat.add_assoc]
    exact ih.mono (Nat.le_add_right _ _)
  | case3 start c cs space piece stop ih =>
    have whole : piece.spelling ++ piece.rest = c :: cs := Piece.first_append c cs
    rw [← whole, Text.byteSize_append, ← Nat.add_assoc]
    exact ⟨Nat.le_refl _, Nat.le_add_right _ _, ih⟩

theorem Reads.ordered {start : Nat} {t : Text} {ts : List Token} (reads : Reads start t ts) :
    Ordered start ts (start + Text.byteSize t) := by
  rw [← reads.tokensFrom_eq]
  exact ordered_tokensFrom start t

theorem Reads.drop {start : Nat} {t : Text} {ts us : List Token}
    (reads : Reads start t (ts ++ us)) (some : us ≠ []) :
    ∃ a b, t = a ++ b ∧ firstStart us = start + Text.byteSize a ∧
      Reads (start + Text.byteSize a) b us := by
  generalize whole : ts ++ us = all at reads
  induction reads generalizing ts with
  | nil => exact absurd (List.append_eq_nil_iff.1 whole).2 some
  | @layout start c cs ts space reads ih =>
    obtain ⟨a, b, rfl, first, rest⟩ := ih whole
    rw [Nat.add_assoc, ← Text.byteSize_cons] at first rest
    exact ⟨c :: a, b, rfl, first, rest⟩
  | @token start l s cs ts' spells parted reads ih =>
    cases ts with
    | nil =>
      subst whole
      exact ⟨[], s ++ cs, rfl, rfl, .token spells parted reads⟩
    | cons t ts =>
      obtain ⟨-, later⟩ := List.cons.inj whole
      obtain ⟨a, b, rfl, first, rest⟩ := ih later
      rw [Nat.add_assoc, ← Text.byteSize_append] at first rest
      exact ⟨s ++ a, b, by simp, first, rest⟩

theorem Reads.take {start : Nat} {t : Text} {us vs : List Token}
    (reads : Reads start t (us ++ vs)) :
    ∃ b c, t = b ++ c ∧ lastStop start us = start + Text.byteSize b ∧ Reads start b us := by
  generalize whole : us ++ vs = all at reads
  induction reads generalizing us with
  | nil =>
    obtain ⟨rfl, rfl⟩ := List.append_eq_nil_iff.1 whole
    exact ⟨[], [], rfl, rfl, .nil⟩
  | @layout start c cs ts space reads ih =>
    cases us with
    | nil => exact ⟨[], c :: cs, rfl, rfl, .nil⟩
    | cons u us =>
      obtain ⟨b, d, rfl, last, rest⟩ := ih whole
      refine ⟨c :: b, d, rfl, ?_, .layout space rest⟩
      rw [Text.byteSize_cons, ← Nat.add_assoc, ← last]
      rfl
  | @token start l s cs ts spells parted reads ih =>
    cases us with
    | nil => exact ⟨[], s ++ cs, rfl, rfl, .nil⟩
    | cons u us =>
      obtain ⟨rfl, later⟩ := List.cons.inj whole
      obtain ⟨b, d, rfl, last, rest⟩ := ih later
      refine ⟨s ++ b, d, by simp, ?_, .token spells parted.of_prefix rest⟩
      rw [Text.byteSize_append, ← Nat.add_assoc, ← last]
      rfl

theorem Reads.stretch {start : Nat} {t : Text} {ts us vs : List Token}
    (reads : Reads start t (ts ++ (us ++ vs))) (some : us ≠ []) :
    ∃ a b c, t = a ++ (b ++ c) ∧
      spanOf us = ⟨start + Text.byteSize a, start + Text.byteSize a + Text.byteSize b⟩ ∧
      Reads (start + Text.byteSize a) b us := by
  obtain ⟨a, rest, rfl, first, reads⟩ := reads.drop (by simp [some])
  obtain ⟨b, c, rfl, last, reads⟩ := reads.take
  refine ⟨a, b, c, rfl, ?_, reads⟩
  obtain ⟨u, us, rfl⟩ := List.exists_cons_of_ne_nil some
  rw [← last, ← first]
  rfl

def Token.shift (n : Nat) (t : Token) : Token := ⟨t.start - n, t.stop - n, t.lexeme⟩

theorem Reads.shift {start n : Nat} {t : Text} {ts : List Token} (reads : Reads start t ts)
    (le : n ≤ start) : Reads (start - n) t (ts.map (Token.shift n)) := by
  induction reads with
  | nil => exact .nil
  | @layout start c cs ts space _ ih =>
    have rest := ih (Nat.le_trans le (Nat.le_add_right _ _))
    rw [Nat.sub_add_comm le] at rest
    exact .layout space rest
  | @token start l s cs ts spells parted _ ih =>
    have rest := ih (Nat.le_trans le (Nat.le_add_right _ _))
    rw [Nat.sub_add_comm le] at rest
    rw [List.map_cons, Token.shift, Nat.sub_add_comm le]
    exact .token spells parted rest

end TemplateBinding.Grammar
