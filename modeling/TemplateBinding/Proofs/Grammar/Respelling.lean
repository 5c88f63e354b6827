import TemplateBinding.Proofs.Grammar.Quoting
import TemplateBinding.Proofs.Grammar.Transport
import TemplateBinding.Proofs.Number.Readback

/-! Tokens as they are printed. A number is spelled anew and a string is quoted anew; the
token that is found there is the same, up to how its number was spelled. -/
namespace TemplateBinding.Grammar

def lexemes (t : Text) : List Lexeme := (tokens t).map Token.lexeme

theorem lexemes_tokensFrom (start start' : Nat) (t : Text) :
    (tokensFrom start t).map Token.lexeme = (tokensFrom start' t).map Token.lexeme := by
  fun_induction tokensFrom start t generalizing start' with
  | case1 => rw [tokensFrom_nil]
  | case2 start c cs space ih =>
    rw [tokensFrom_layout space]
    exact ih _
  | case3 start c cs other piece stop ih =>
    rw [tokensFrom.eq_def start', List.map_cons, ih (start' + Text.byteSize piece.spelling)]
    simp only [if_neg other]
    rfl

theorem lexemes_nil : lexemes [] = [] := by
  rw [lexemes, tokens, tokensFrom_nil, List.map_nil]

theorem lexemes_layout {c : Char} (space : isLayout c = true) (rest : Text) :
    lexemes (c :: rest) = lexemes rest := by
  rw [lexemes, tokens, tokensFrom_layout space]
  exact lexemes_tokensFrom _ _ _

theorem lexemes_blank (rest : Text) : lexemes (' ' :: rest) = lexemes rest :=
  lexemes_layout (by decide) rest

theorem lexemes_spelled {l : Lexeme} {s rest : Text} (spells : Spells l s)
    (parted : Parted l rest) : lexemes (s ++ rest) = l :: lexemes rest := by
  rw [lexemes, tokens, tokensFrom_spelled spells parted, List.map_cons]
  exact congrArg (l :: ·) (lexemes_tokensFrom _ _ _)

theorem lexemes_mark {c : Char} (mark : c ∈ punctuation) (plain : c ≠ '.') (rest : Text) :
    lexemes (c :: rest) = .punctuation c :: lexemes rest := by
  have parted : Parted (.punctuation c) rest := fun d _ => by simp [Lexeme.extendedBy, plain]
  exact lexemes_spelled (.punctuation mark) parted

namespace Lexeme

/-- A lexeme as it is found again where it was printed. -/
def canonical : Lexeme → Lexeme
  | .number value _ => .number value value.plainText
  | l => l

def printed : Lexeme → Text
  | .number value _ => value.plainText
  | .string value => quoteText value
  | l => l.text

@[simp] theorem unspelled_canonical (l : Lexeme) : l.canonical.unspelled = l.unspelled := by
  cases l <;> rfl

def Printable (l : Lexeme) : Prop := Spells l.canonical l.printed

end Lexeme

theorem Spells.printable {l : Lexeme} {s : Text} (spells : Spells l s)
    (plain : ∀ v, l = .string v → '\\' ∉ v)
    (finite : ∀ x spelling, l = .number x spelling → x.isFinite = true) : l.Printable := by
  cases spells with
  | identifier start parts other => exact .identifier start parts other
  | keyword member => exact .keyword member
  | number => exact spells_plainText (finite _ _ rfl) rfl
  | punctuation member => exact .punctuation member
  | string => exact spells_quoteText (reread?_of_not_mem (plain _ rfl))
  | operator member => exact .operator member

/-- The characters that the printer puts directly behind an expression. -/
def separators : List Char := [' ', '(', ')', '[', ']', '}', ',', ':', ';']

theorem not_mem_operators {c : Char} {op : Text} (unused : ∀ o ∈ operators, c ∉ o) :
    op ++ [c] ∉ operators :=
  fun member => unused _ member (by simp)

theorem extendedBy_separator {c : Char} (member : c ∈ separators) (l : Lexeme) :
    l.canonical.extendedBy c = false := by
  have unnamed : ∀ d ∈ separators, isNamePart d = false := List.all_iff_forall_prop.1 rfl
  have undigit : ∀ d ∈ separators, isDigit d = false := List.all_iff_forall_prop.1 rfl
  have unused : ∀ d ∈ separators, ∀ o ∈ operators, d ∉ o := List.all_iff_forall_prop.1 rfl
  have stop : ∀ d ∈ separators, ∀ b, extendsRun b d = false := List.all_iff_forall_prop.1 rfl
  cases l with
  | identifier | keyword => exact unnamed c member
  | number => exact stop c member _
  | punctuation => simp [Lexeme.canonical, Lexeme.extendedBy, undigit c member]
  | operator =>
    simp only [Lexeme.canonical, Lexeme.extendedBy, decide_eq_false_iff_not]
    exact not_mem_operators (unused c member)
  | string | invalid => rfl

theorem extendedBy_point {l : Lexeme} (other : l.isNumber = false) :
    l.canonical.extendedBy '.' = false := by
  have unused : ∀ o ∈ operators, '.' ∉ o := by decide
  cases l with
  | number => cases other
  | operator =>
    simp only [Lexeme.canonical, Lexeme.extendedBy, decide_eq_false_iff_not]
    exact not_mem_operators unused
  | punctuation => simp [Lexeme.canonical, Lexeme.extendedBy, isDigit]
  | identifier | keyword | string | invalid => rfl

end TemplateBinding.Grammar
