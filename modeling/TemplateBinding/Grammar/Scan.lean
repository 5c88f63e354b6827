import TemplateBinding.Grammar.Numeral
import TemplateBinding.Grammar.Token

/-!
Splitting a text into tokens. `Piece.first` reads one token from a text that does not begin
with layout, and `tokens` repeats it. The pieces and the layout between them make up the
whole text, whether or not it is valid.
-/
namespace TemplateBinding.Grammar

structure Piece where
  lexeme : Lexeme
  spelling : Text
  rest : Text

def unescape : Char → Char
  | 'n' => '\n'
  | 'r' => '\r'
  | 't' => '\t'
  | c => c

structure Quotation where
  value : Text
  spelling : Text
  rest : Text

/-- Reads up to the first quote `q` that no backslash escapes. -/
def Quotation.read? (q : Char) : Text → Option Quotation
  | [] => none
  | c :: cs =>
    if c = '\\' then
      match cs with
      | [] => none
      | d :: ds =>
        (read? q ds).map fun r => ⟨unescape d :: r.value, c :: d :: r.spelling, r.rest⟩
    else if c = q then some ⟨[], [c], cs⟩
    else (read? q cs).map fun r => ⟨c :: r.value, c :: r.spelling, r.rest⟩

namespace Piece

def word (t : Text) : Piece :=
  let spelling := t.takeWhile isNamePart
  let lexeme := if spelling ∈ keywords then .keyword spelling else .identifier spelling
  ⟨lexeme, spelling, t.dropWhile isNamePart⟩

def numeral (t : Text) : Piece :=
  let run := numeralRun false t
  let lexeme := match numeral? run.1 with
    | some value => .number (.ofDecimal value) run.1
    | none => .invalid (.malformedNumeral run.1)
  ⟨lexeme, run.1, run.2⟩

def quotation (q : Char) (t : Text) : Piece :=
  match Quotation.read? q t with
  | some r => ⟨.string r.value, q :: r.spelling, r.rest⟩
  | none => ⟨.invalid .unterminatedQuote, q :: t, []⟩

def symbol (c : Char) (cs : Text) : Piece :=
  match operators.find? (·.isPrefixOf (c :: cs)) with
  | some op => ⟨.operator op, op, (c :: cs).drop op.length⟩
  | none => ⟨.invalid (.unexpected c), [c], cs⟩

def first (c : Char) (cs : Text) : Piece :=
  if isNameStart c then word (c :: cs)
  else if isDigit c || c = '.' && (cs.head?.any isDigit) then numeral (c :: cs)
  else if c ∈ punctuation then ⟨.punctuation c, [c], cs⟩
  else if isQuote c then quotation c cs
  else symbol c cs

end Piece

theorem Quotation.read?_append {q : Char} {t : Text} {r : Quotation}
    (found : Quotation.read? q t = some r) : r.spelling ++ r.rest = t := by
  fun_induction Quotation.read? q t generalizing r with
  | case1 => simp at found
  | case2 => simp at found
  | case3 d ds ih =>
    obtain ⟨inner, read, rfl⟩ := Option.map_eq_some_iff.1 found
    simp [ih read]
  | case4 =>
    cases found
    rfl
  | case5 c cs plain other ih =>
    obtain ⟨inner, read, rfl⟩ := Option.map_eq_some_iff.1 found
    simp [ih read]

namespace Piece

theorem first_append (c : Char) (cs : Text) :
    (first c cs).spelling ++ (first c cs).rest = c :: cs := by
  unfold first
  repeat' split
  · simp [word, List.takeWhile_append_dropWhile]
  · exact numeralRun_append false (c :: cs)
  · rfl
  · unfold quotation
    split
    · rename_i found
      simp [Quotation.read?_append found]
    · simp
  · unfold symbol
    split
    · rename_i op found
      have here := List.find?_some found
      obtain ⟨rest, whole⟩ := List.isPrefixOf_iff_prefix.1 here
      simp [← whole]
    · rfl

theorem first_spelling_ne_nil (c : Char) (cs : Text) : (first c cs).spelling ≠ [] := by
  unfold first
  repeat' split
  · rename_i start
    simp [word, isNamePart, start]
  · rename_i start
    have taken : extendsRun false c = true := by
      simp only [Bool.or_eq_true, Bool.and_eq_true] at start
      rcases start with digit | ⟨point, _⟩
      · simp [extendsRun, digit]
      · simp [extendsRun, point]
    simp [numeral, numeralRun, taken]
  · simp
  · unfold quotation
    split <;> simp
  · unfold symbol
    split
    · rename_i op found
      have member := List.mem_of_find?_eq_some found
      intro none
      subst none
      revert member
      decide
    · simp

theorem first_rest_lt (c : Char) (cs : Text) : (first c cs).rest.length < (c :: cs).length := by
  have whole := congrArg List.length (first_append c cs)
  have some := List.length_pos_iff.2 (first_spelling_ne_nil c cs)
  simp only [List.length_append] at whole
  omega

end Piece

def tokensFrom (start : Nat) : Text → List Token
  | [] => []
  | c :: cs =>
    if isLayout c then tokensFrom (start + c.utf8Size) cs
    else
      let piece := Piece.first c cs
      let stop := start + Text.byteSize piece.spelling
      ⟨start, stop, piece.lexeme⟩ :: tokensFrom stop piece.rest
termination_by t => t.length
decreasing_by
  · simp
  · exact Piece.first_rest_lt c cs

def tokens (t : Text) : List Token := tokensFrom 0 t

/-- The text of a token of `source`. For an invalid token that is the complaint about it. -/
def Token.text (source : Text) (t : Token) : Text :=
  match t.lexeme with
  | .invalid fault => fault.message t.start source
  | lexeme => lexeme.text

end TemplateBinding.Grammar
