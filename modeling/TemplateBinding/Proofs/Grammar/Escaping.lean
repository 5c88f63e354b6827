import Mathlib.Algebra.Group.Nat.Even
import Mathlib.Data.List.DropRight
import TemplateBinding.Proofs.Grammar.Quoting

/-! A quoted text ends at the first quote that is not escaped. A backslash escapes the character
behind it, also another backslash, so a quote ends the text if an even number of backslashes stands
directly before it. -/
namespace TemplateBinding.Grammar

def escaped (q : Char) : Text → Text
  | [] => []
  | c :: cs => if c = '\\' ∨ c = q then '\\' :: c :: escaped q cs else c :: escaped q cs

def backslashes (t : Text) : Nat := (t.rtakeWhile (· = '\\')).length

def Unclosed (q : Char) (t : Text) : Prop :=
  ∀ before after, t = before ++ q :: after → ¬ Even (backslashes before)

/-- The text between two quotes: the quote behind it is the first one that is not escaped. -/
structure Enclosed (q : Char) (t : Text) : Prop where
  closed : Even (backslashes t)
  unclosed : Unclosed q t

theorem backslashes_nil : backslashes [] = 0 := rfl

theorem backslashes_concat (t : Text) (c : Char) :
    backslashes (t ++ [c]) = if c = '\\' then backslashes t + 1 else 0 := by
  unfold backslashes
  rw [List.rtakeWhile_concat]
  split <;> simp_all

theorem backslashes_cons {c : Char} (plain : c ≠ '\\') (t : Text) :
    backslashes (c :: t) = backslashes t := by
  induction t using List.reverseRecOn with
  | nil => simpa [plain, backslashes_nil] using backslashes_concat [] c
  | append_singleton t d ih => rw [← List.cons_append, backslashes_concat, backslashes_concat, ih]

theorem even_backslashes_escape (d : Char) (t : Text) :
    Even (backslashes ('\\' :: d :: t)) ↔ Even (backslashes t) := by
  induction t using List.reverseRecOn with
  | nil =>
    have last := backslashes_concat ['\\'] d
    have first := backslashes_concat [] '\\'
    simp only [List.nil_append, List.singleton_append] at first last
    rw [last, first, backslashes_nil]
    split <;> decide
  | append_singleton t c ih =>
    have whole : '\\' :: d :: (t ++ [c]) = ('\\' :: d :: t) ++ [c] := rfl
    rw [whole, backslashes_concat, backslashes_concat]
    split
    · rw [Nat.even_add_one, Nat.even_add_one, ih]
    · exact Iff.rfl

section Unclosed

variable {q : Char}

theorem unclosed_nil : Unclosed q [] := by
  intro before after whole
  simp at whole

theorem not_unclosed_quote (t : Text) : ¬ Unclosed q (q :: t) := by
  intro unclosed
  exact unclosed [] t rfl (by simp [backslashes_nil])

theorem unclosed_cons {c : Char} (plain : c ≠ '\\') (other : c ≠ q) (t : Text) :
    Unclosed q (c :: t) ↔ Unclosed q t := by
  constructor
  · intro unclosed before after whole
    rw [← backslashes_cons plain]
    exact unclosed (c :: before) after (by rw [whole]; rfl)
  · intro unclosed before after whole
    cases before with
    | nil => exact absurd (List.cons.inj whole).1 other
    | cons d before =>
      obtain ⟨rfl, rest⟩ := List.cons.inj whole
      rw [backslashes_cons plain]
      exact unclosed before after rest

variable (other : q ≠ '\\')
include other

theorem unclosed_backslash : Unclosed q ['\\'] := by
  intro before after whole
  cases before with
  | nil => exact absurd (List.cons.inj whole).1.symm other
  | cons d before => simp at whole

theorem unclosed_escape (d : Char) (t : Text) :
    Unclosed q ('\\' :: d :: t) ↔ Unclosed q t := by
  constructor
  · intro unclosed before after whole
    rw [← even_backslashes_escape d]
    exact unclosed ('\\' :: d :: before) after (by rw [whole]; rfl)
  · intro unclosed before after whole
    match before with
    | [] => exact absurd (List.cons.inj whole).1.symm other
    | [c] =>
      -- The quote is the escaped character itself.
      obtain ⟨rfl, -⟩ := List.cons.inj whole
      exact Nat.not_even_one
    | c :: e :: before =>
      simp only [List.cons_append, List.cons.injEq] at whole
      obtain ⟨rfl, rfl, rest⟩ := whole
      rw [even_backslashes_escape]
      exact unclosed before after rest

end Unclosed

namespace Quotation

variable {q : Char}

theorem read?_eq_none_iff (other : q ≠ '\\') (t : Text) : read? q t = none ↔ Unclosed q t := by
  fun_induction read? q t with
  | case1 => exact iff_of_true rfl unclosed_nil
  | case2 => exact iff_of_true rfl (unclosed_backslash other)
  | case3 d ds ih => rw [Option.map_eq_none_iff, ih, unclosed_escape other]
  | case4 cs _ => exact iff_of_false (by simp) (not_unclosed_quote cs)
  | case5 c cs plain differs ih => rw [Option.map_eq_none_iff, ih, unclosed_cons plain differs]

theorem enclosed_of_read? (other : q ≠ '\\') {t : Text} {r : Quotation}
    (found : read? q t = some r) : ∃ inner, r.spelling = inner ++ [q] ∧ Enclosed q inner := by
  fun_induction read? q t generalizing r with
  | case1 => cases found
  | case2 => cases found
  | case3 d ds ih =>
    obtain ⟨rest, read, rfl⟩ := Option.map_eq_some_iff.1 found
    obtain ⟨inner, spelled, closed, unclosed⟩ := ih read
    refine ⟨'\\' :: d :: inner, by simp [spelled], ?_, (unclosed_escape other d inner).2 unclosed⟩
    rwa [even_backslashes_escape]
  | case4 =>
    cases found
    exact ⟨[], rfl, by simp [backslashes_nil], unclosed_nil⟩
  | case5 c cs plain differs ih =>
    obtain ⟨rest, read, rfl⟩ := Option.map_eq_some_iff.1 found
    obtain ⟨inner, spelled, closed, unclosed⟩ := ih read
    refine ⟨c :: inner, by simp [spelled], ?_, (unclosed_cons plain differs inner).2 unclosed⟩
    rwa [backslashes_cons plain]

theorem read?_escaped (quote : isQuote q = true) (s r : Text) :
    read? q (escaped q s ++ q :: r) = some ⟨s, escaped q s ++ [q], r⟩ := by
  have literal : q ≠ '\\' ∧ unescape q = q := by
    simp only [isQuote, Bool.or_eq_true, decide_eq_true_eq] at quote
    rcases quote with rfl | rfl <;> decide
  induction s with
  | nil => exact read?_quote literal.1 r
  | cons c cs ih =>
    unfold escaped
    split
    · rename_i special
      have same : unescape c = c := by
        rcases special with rfl | rfl
        · rfl
        · exact literal.2
      simp only [List.cons_append, read?_escape, ih, same, Option.map_some]
    · rename_i plain
      rw [not_or] at plain
      rw [List.cons_append, read?_cons plain.1 plain.2, ih]
      rfl

end Quotation

def Token.moved (n : Nat) (k : Token) : Token := ⟨n + k.start, n + k.stop, k.lexeme⟩

theorem tokensFrom_add (n start : Nat) (t : Text) :
    tokensFrom (n + start) t = (tokensFrom start t).map (Token.moved n) := by
  fun_induction tokensFrom start t with
  | case1 => rw [tokensFrom_nil, List.map_nil]
  | case2 start c cs space ih => rw [tokensFrom_layout space, Nat.add_assoc, ih]
  | case3 start c cs solid piece stop ih =>
    rw [tokensFrom, if_neg solid, List.map_cons, ← ih]
    simp only [Token.moved, stop, piece, Nat.add_assoc]

structure Quotes (q : Char) : Prop where
  /-- Every text is the value of a quoted one, and what follows is not touched. -/
  onto : ∀ s r, tokens (q :: escaped q s ++ q :: r) =
    ⟨0, Text.byteSize (q :: escaped q s ++ [q]), .string s⟩ ::
      (tokens r).map (Token.moved (Text.byteSize (q :: escaped q s ++ [q])))
  enclosed : ∀ s, Enclosed q (escaped q s)
  /-- Without such a quote the whole text is one invalid token. -/
  unterminated : ∀ t,
    (∃ fault ks, tokens (q :: t) = ⟨0, Text.byteSize (q :: t), .invalid fault⟩ :: ks) ↔
      ∀ before after, t = before ++ q :: after → ¬ Even (backslashes (q :: before))

theorem unclosed_iff_behind {q : Char} (other : q ≠ '\\') (t : Text) :
    Unclosed q t ↔
      ∀ before after, t = before ++ q :: after → ¬ Even (backslashes (q :: before)) := by
  simp only [Unclosed, backslashes_cons other]

theorem tokens_quoted {q : Char} (quote : isQuote q = true) : Quotes q := by
  have other : q ≠ '\\' := by
    simp only [isQuote, Bool.or_eq_true, decide_eq_true_eq] at quote
    rcases quote with rfl | rfl <;> decide
  constructor
  · intro s r
    have read := Quotation.read?_escaped quote s r
    have token := tokens_quotation quote (escaped q s ++ q :: r)
    simp only [Piece.quotation, read] at token
    have later := tokensFrom_add (Text.byteSize (q :: escaped q s ++ [q])) 0 r
    rw [Nat.add_zero] at later
    exact token.trans (congrArg _ later)
  · intro s
    obtain ⟨inner, spelled, enclosed⟩ :=
      Quotation.enclosed_of_read? other (Quotation.read?_escaped quote s [])
    rwa [List.append_cancel_right spelled]
  · intro t
    rw [← unclosed_iff_behind other, ← Quotation.read?_eq_none_iff other]
    have token := tokens_quotation quote t
    unfold Piece.quotation at token
    cases found : Quotation.read? q t with
    | none =>
      rw [found] at token
      exact iff_of_true ⟨_, _, token⟩ rfl
    | some r =>
      rw [found] at token
      refine iff_of_false ?_ (Option.some_ne_none r)
      rintro ⟨fault, ks, invalid⟩
      have lexeme := congrArg Token.lexeme (List.cons.inj (token.symm.trans invalid)).1
      exact Lexeme.noConfusion lexeme

/-- A quote and a backslash between quotes. Where the backslash is left alone, it keeps the
quotation open. -/
theorem tokens_quoted_escape :
    isQuote '\'' = true ∧
      tokens "'\\'\\\\'+a" =
        [⟨0, 6, .string "'\\"⟩, ⟨6, 7, .operator "+"⟩, ⟨7, 8, .identifier "a"⟩] ∧
      ∃ fault ks, tokens "'a\\'" = ⟨0, 4, .invalid fault⟩ :: ks := by
  have quote : isQuote '\'' = true := by decide
  have quoted := tokens_quoted quote
  refine ⟨quote, ?_, ?_⟩
  · have behind : tokens "+a" = [⟨0, 1, .operator "+"⟩, ⟨1, 2, .identifier "a"⟩] := by
      decide +kernel
    have whole := quoted.onto "'\\" "+a"
    rw [behind] at whole
    exact whole
  · refine (quoted.unterminated "a\\'").2 ((unclosed_iff_behind (by decide) _).1 ?_)
    exact (Quotation.read?_eq_none_iff (by decide) _).1 rfl

end TemplateBinding.Grammar
