import TemplateBinding.Expr.Printer
import TemplateBinding.Proofs.Grammar.Spelling
import TemplateBinding.Proofs.Text.Slicing

/-! A quoted text is read with its escapes. Quoting escapes the closing quote and nothing else, so
a backslash of the text itself is read as an escape that nobody wrote: it is lost, or the
quotation ends in the wrong place. -/
namespace TemplateBinding.Grammar

/-- What is read of a text that was quoted. A backslash is read together with the character
after it, and nothing can be read if that is a quote. -/
def reread? : Text → Option Text
  | [] => some []
  | c :: cs =>
    if c = '\\' then
      match cs with
      -- The closing quote would belong to the text.
      | [] => none
      -- The backslash that escapes the quote would be escaped itself.
      | d :: ds => if d = '\'' then none else (reread? ds).map (unescape d :: ·)
    else (reread? cs).map (c :: ·)

theorem reread?_of_not_mem {s : Text} (plain : '\\' ∉ s) : reread? s = some s := by
  induction s with
  | nil => rfl
  | cons c cs ih =>
    simp only [List.mem_cons, not_or] at plain
    rw [reread?.eq_def]
    simp only [if_neg (Ne.symm plain.1), ih plain.2, Option.map_some]

theorem length_of_reread? {s v : Text} (given : reread? s = some v) :
    v.length ≤ s.length ∧ ('\\' ∈ s → v.length < s.length) := by
  fun_induction reread? s generalizing v with
  | case1 =>
    cases given
    exact ⟨Nat.le_refl _, nofun⟩
  | case2 => cases given
  | case3 => cases given
  | case4 d ds other ih =>
    obtain ⟨w, later, rfl⟩ := Option.map_eq_some_iff.1 given
    have shorter := (ih later).1
    simp only [List.length_cons]
    omega
  | case5 c cs other ih =>
    obtain ⟨w, later, rfl⟩ := Option.map_eq_some_iff.1 given
    obtain ⟨shorter, strictly⟩ := ih later
    refine ⟨Nat.succ_le_succ shorter, fun member => Nat.succ_lt_succ (strictly ?_)⟩
    exact (List.mem_cons.1 member).resolve_left (Ne.symm other)

theorem reread?_eq_self_iff (s : Text) : reread? s = some s ↔ '\\' ∉ s := by
  constructor
  · intro given member
    exact Nat.lt_irrefl _ ((length_of_reread? given).2 member)
  · exact reread?_of_not_mem

theorem escapeQuotes_quote (cs : Text) :
    escapeQuotes ('\'' :: cs) = '\\' :: '\'' :: escapeQuotes cs := by
  simp [escapeQuotes]

theorem escapeQuotes_cons {c : Char} (other : c ≠ '\'') (cs : Text) :
    escapeQuotes (c :: cs) = c :: escapeQuotes cs := by
  simp [escapeQuotes, other]

namespace Quotation

theorem read?_escape (q d : Char) (ds : Text) :
    read? q ('\\' :: d :: ds) =
      (read? q ds).map fun r => ⟨unescape d :: r.value, '\\' :: d :: r.spelling, r.rest⟩ := by
  rw [read?.eq_def]
  rfl

theorem read?_escapeQuotes {s v : Text} (given : reread? s = some v) :
    read? '\'' (escapeQuotes s ++ ['\'']) = some ⟨v, escapeQuotes s ++ ['\''], []⟩ := by
  fun_induction reread? s generalizing v with
  | case1 =>
    cases given
    rfl
  | case2 => cases given
  | case3 => cases given
  | case4 d ds other ih =>
    obtain ⟨w, later, rfl⟩ := Option.map_eq_some_iff.1 given
    rw [escapeQuotes_cons (by decide), escapeQuotes_cons other]
    simp only [List.cons_append, read?_escape, ih later, Option.map_some]
  | case5 c cs other ih =>
    obtain ⟨w, later, rfl⟩ := Option.map_eq_some_iff.1 given
    by_cases quote : c = '\''
    · subst quote
      rw [escapeQuotes_quote]
      simp only [List.cons_append, read?_escape, ih later, Option.map_some]
      rfl
    · rw [escapeQuotes_cons quote, List.cons_append, read?_cons other quote, ih later]
      rfl

theorem reread?_of_read? {s : Text} {r : Quotation}
    (found : read? '\'' (escapeQuotes s ++ ['\'']) = some r) (whole : r.rest = []) :
    reread? s = some r.value := by
  fun_induction reread? s generalizing r with
  | case1 =>
    cases found
    rfl
  | case2 => cases found
  | case3 ds =>
    -- The quote behind the two backslashes has ended the quotation.
    rw [escapeQuotes_cons (by decide), escapeQuotes_quote] at found
    simp only [List.cons_append, read?_escape] at found
    rw [read?_quote (by decide)] at found
    cases found
    simp at whole
  | case4 d ds other ih =>
    rw [escapeQuotes_cons (by decide), escapeQuotes_cons other] at found
    simp only [List.cons_append, read?_escape] at found
    obtain ⟨inner, later, rfl⟩ := Option.map_eq_some_iff.1 found
    rw [ih later whole]
    rfl
  | case5 c cs other ih =>
    by_cases quote : c = '\''
    · subst quote
      rw [escapeQuotes_quote] at found
      simp only [List.cons_append, read?_escape] at found
      obtain ⟨inner, later, rfl⟩ := Option.map_eq_some_iff.1 found
      rw [ih later whole]
      rfl
    · rw [escapeQuotes_cons quote, List.cons_append, read?_cons other quote] at found
      obtain ⟨inner, later, rfl⟩ := Option.map_eq_some_iff.1 found
      rw [ih later whole]
      rfl

end Quotation

theorem spells_quoteText {s v : Text} (given : reread? s = some v) :
    Spells (.string v) (quoteText s) :=
  .string (by decide) (Quotation.read?_escapeQuotes given)

theorem tokens_quotation {q : Char} (quote : isQuote q = true) (t : Text) :
    tokens (q :: t) =
      let piece := Piece.quotation q t
      let stop := Text.byteSize piece.spelling
      ⟨0, stop, piece.lexeme⟩ :: tokensFrom stop piece.rest := by
  have others : isLayout q = false ∧ isNameStart q = false ∧ isDigit q = false ∧ q ≠ '.' ∧
      q ∉ punctuation := by
    simp only [isQuote, Bool.or_eq_true, decide_eq_true_eq] at quote
    rcases quote with rfl | rfl <;> decide
  obtain ⟨space, unnamed, undigit, pointless, unmarked⟩ := others
  have first : Piece.first q t = Piece.quotation q t := by
    simp [Piece.first, unnamed, undigit, pointless, unmarked, quote]
  rw [tokens, tokensFrom, if_neg (by simp [space]), first]
  simp

theorem tokens_quoteText_iff (s v : Text) :
    tokens (quoteText s) = [⟨0, Text.byteSize (quoteText s), .string v⟩] ↔
      reread? s = some v := by
  constructor
  · intro only
    have quote : isQuote '\'' = true := by decide
    have read := tokens_quotation quote (escapeQuotes s ++ ['\''])
    have same : quoteText s = '\'' :: (escapeQuotes s ++ ['\'']) := rfl
    rw [same] at only
    rw [only] at read
    unfold Piece.quotation at read
    cases found : Quotation.read? '\'' (escapeQuotes s ++ ['\'']) with
    | none =>
      rw [found] at read
      cases read
    | some r =>
      rw [found] at read
      obtain ⟨token, -⟩ := List.cons.inj read
      obtain ⟨-, stop, value⟩ := Token.mk.inj token
      have whole : ('\'' :: r.spelling) ++ r.rest = '\'' :: (escapeQuotes s ++ ['\'']) ++ [] := by
        simp [Quotation.read?_append found]
      obtain ⟨-, ended⟩ := Text.append_inj_of_byteSize whole stop.symm
      rw [Quotation.reread?_of_read? found ended, (Lexeme.string.inj value).symm]
  · intro given
    have parted : Parted (.string v) [] := nofun
    have spelled := tokensFrom_spelled (spells_quoteText given) parted 0
    rw [List.append_nil, tokensFrom_nil, Nat.zero_add] at spelled
    exact spelled

/-- A string literal is printed as one string token with its own value exactly if there is no
backslash in it. -/
theorem tokens_print_string_iff (span : Span) (s : Text) :
    let printed := (Expr.literal span (.string s)).print
    tokens printed = [⟨0, Text.byteSize printed, .string s⟩] ↔ '\\' ∉ s :=
  (tokens_quoteText_iff s s).trans (reread?_eq_self_iff s)

/-- The closing quote behind a backslash closes nothing. -/
theorem tokens_print_backslash :
    ¬ ∀ (span : Span) (s : Text),
      let printed := (Expr.literal span (.string s)).print
      tokens printed = [⟨0, Text.byteSize printed, .string s⟩] := by
  intro all
  have found := (tokens_quoteText_iff ['\\'] ['\\']).1 (all ⟨0, 0⟩ ['\\'])
  cases found

/-- Where the text can be read again, it may still be another one. -/
example : reread? "a\\nb".toList = some "a\nb".toList := by decide

end TemplateBinding.Grammar
