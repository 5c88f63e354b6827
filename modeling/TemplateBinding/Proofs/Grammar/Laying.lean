import Mathlib.Data.List.Chain
import TemplateBinding.Proofs.Grammar.Respelling

/-! Texts with lexemes printed one behind the other. Whether the lexemes are found again is
another matter: a text can be laid out of numbers that have no numeral, and of a number with a
point directly behind it. -/
namespace TemplateBinding.Grammar

/-- What is behind a printed lexeme parts it from the next one, unless a point is next to a
number. -/
def Joins (l : Lexeme) (ls : List Lexeme) (rest : Text) : Prop :=
  Parted l.canonical rest ∨ l.isNumber = true ∧ ls.head? = some (.punctuation '.')

/-- The lexemes stand printed in the text, in this order and with blanks between some of them,
but with none before a point. -/
inductive Laid : List Lexeme → Text → Prop
  | nil : Laid [] []
  | blank {ls t} : ls.head? ≠ some (.punctuation '.') → Laid ls t → Laid ls (' ' :: t)
  | lexeme {l ls rest} : Joins l ls rest → Laid ls rest → Laid (l :: ls) (l.printed ++ rest)

def Unpointed (l m : Lexeme) : Prop := l.isNumber = true → m ≠ .punctuation '.'

theorem isChain_unpointed_iff {ts : List Token} :
    (ts.map Token.lexeme).IsChain Unpointed ↔
      ∀ x y, [x, y] <:+: ts → x.lexeme.isNumber = true → y.lexeme ≠ .punctuation '.' := by
  rw [List.isChain_map]
  constructor
  · intro chain x y pair
    have part := chain.infix pair
    exact List.isChain_pair.1 part
  · exact fun points => (List.isChain_isInfix ts).imp points

theorem Joins.parted {l : Lexeme} {ls : List Lexeme} {rest : Text} (joins : Joins l ls rest)
    (next : ∀ m ∈ ls.head?, Unpointed l m) : Parted l.canonical rest := by
  rcases joins with parted | ⟨number, point⟩
  · exact parted
  · exact absurd rfl (next _ point number)

theorem Laid.lexemes {ls : List Lexeme} {t : Text} (laid : Laid ls t)
    (printable : ∀ l ∈ ls, l.Printable) (points : ls.IsChain Unpointed) :
    lexemes t = ls.map Lexeme.canonical := by
  induction laid with
  | nil => exact lexemes_nil
  | blank _ _ ih => rw [lexemes_blank, ih printable points]
  | @lexeme l ls rest joins _ ih =>
    obtain ⟨first, others⟩ := List.forall_mem_cons.1 printable
    obtain ⟨next, points'⟩ := List.isChain_cons.1 points
    rw [lexemes_spelled first (joins.parted next), ih others points', List.map_cons]

theorem Laid.begins {l : Lexeme} {ls : List Lexeme} {t : Text} (laid : Laid (l :: ls) t) :
    t.head? = some ' ' ∨ ∃ rest, t = l.printed ++ rest := by
  cases laid with
  | blank _ _ => exact .inl rfl
  | lexeme _ _ => exact .inr ⟨_, rfl⟩

theorem Laid.mark {l : Lexeme} {c : Char} {ls : List Lexeme} {rest : Text}
    (isMark : l = .punctuation c) (plain : c ≠ '.') (laid : Laid ls rest) :
    Laid (l :: ls) (c :: rest) := by
  subst isMark
  have parted : Parted (.punctuation c) rest := fun d _ => by simp [Lexeme.extendedBy, plain]
  exact .lexeme (.inl parted) laid

def Lexeme.isLettered : Lexeme → Bool
  | .identifier x | .keyword x => x.head?.any isNameStart
  | _ => true

theorem Spells.isLettered {l : Lexeme} {s : Text} (spells : Spells l s) :
    l.isLettered = true := by
  cases spells with
  | identifier start _ _ => exact start
  | keyword member =>
    have letters : ∀ w ∈ keywords, w.head?.any isNameStart = true := by decide
    exact letters _ member
  | _ => rfl

theorem Lexeme.Printable.isLettered {l : Lexeme} (printable : l.Printable) :
    l.isLettered = true := by
  have same : l.canonical.isLettered = l.isLettered := by cases l <;> rfl
  exact same ▸ Spells.isLettered printable

theorem plainText_begins (x : Binary64) :
    ∃ c cs, x.plainText = c :: cs ∧ (isDigit c = true ∨ isNameStart c = true ∨ c = '-') := by
  obtain ⟨d, ds, whole, digit⟩ := (Binary64.shortest .up x.rank).positional_begins
  unfold Binary64.plainText Binary64.signText
  rw [whole]
  split
  · exact ⟨'N', _, rfl, .inr (.inl (by decide))⟩
  split <;> split
  · exact ⟨'-', _, rfl, .inr (.inr rfl)⟩
  · exact ⟨d, _, rfl, .inl digit⟩
  · exact ⟨'-', _, rfl, .inr (.inr rfl)⟩
  · exact ⟨'i', _, rfl, .inr (.inl (by decide))⟩

theorem Laid.bang {l : Lexeme} {ls : List Lexeme} {t : Text} (isMark : l = .operator "!")
    (other : ∀ c ∈ t.head?, c ≠ '=') (laid : Laid ls t) : Laid (l :: ls) ('!' :: t) := by
  subst isMark
  have parted : Parted (.operator "!") t := by
    intro c head
    simp [Lexeme.extendedBy, operators, other c head]
  exact .lexeme (.inl parted) laid

theorem Laid.sign {l : Lexeme} {ls : List Lexeme} {t : Text} (isSign : l ∈ signs)
    (laid : Laid ls t) : Laid (l :: ls) (l.text ++ t) := by
  simp only [signs, List.mem_cons, List.not_mem_nil, or_false] at isSign
  rcases isSign with rfl | rfl <;>
  · refine .lexeme (.inl fun c _ => ?_) laid
    simp [Lexeme.extendedBy, Lexeme.canonical, operators]

/-- What may stand directly behind a phrase: a separator, or a point that is the next lexeme. -/
structure Trails (ls : List Lexeme) (rest : Text) : Prop where
  laid : Laid ls rest
  first : ∀ c ∈ rest.head?, c ∈ separators ∨ c = '.' ∧ ls.head? = some (.punctuation '.')

namespace Trails

theorem nil : Trails [] [] := ⟨.nil, nofun⟩

variable {l m : Lexeme} {ls : List Lexeme} {rest : Text}

theorem lexeme (trails : Trails ls rest) (isOne : l = m) : Laid (l :: ls) (m.printed ++ rest) := by
  subst isOne
  refine .lexeme ?_ trails.laid
  by_cases pointed : l.isNumber = true ∧ ls.head? = some (.punctuation '.')
  · exact .inr pointed
  · refine .inl fun c head => ?_
    rcases trails.first c head with separator | ⟨rfl, point⟩
    · exact extendedBy_separator separator l
    · exact extendedBy_point (by simpa [point] using pointed)

theorem of_separator {c : Char} (separator : c ∈ separators) (laid : Laid ls (c :: rest)) :
    Trails ls (c :: rest) := by
  refine ⟨laid, fun d head => .inl ?_⟩
  cases head
  exact separator

theorem mark {c : Char} (isMark : l = .punctuation c) (separator : c ∈ separators)
    (laid : Laid ls rest) : Trails (l :: ls) (c :: rest) :=
  of_separator separator (laid.mark isMark (ne_of_mem_of_not_mem separator (by decide)))

theorem blank (next : ls.head? ≠ some (.punctuation '.')) (laid : Laid ls rest) :
    Trails ls (' ' :: rest) :=
  of_separator (by decide) (.blank next laid)

theorem between (other : l ≠ .punctuation '.') (next : ls.head? ≠ some (.punctuation '.'))
    (laid : Laid ls rest) : Trails (l :: ls) (' ' :: (l.printed ++ ' ' :: rest)) :=
  blank (by simpa using other) ((blank next laid).lexeme rfl)

theorem operator {op : Text} (isOperator : l = .operator op)
    (next : ls.head? ≠ some (.punctuation '.')) (laid : Laid ls rest) :
    Trails (l :: ls) (' ' :: (op ++ ' ' :: rest)) := by
  subst isOperator
  exact between nofun next laid

end Trails

theorem Trails.point {l name : Lexeme} {ls : List Lexeme} {x rest : Text}
    (isPoint : l = .punctuation '.') (isName : name = .identifier x ∨ name = .keyword x)
    (lettered : name.isLettered = true) (trails : Trails ls rest) :
    Trails (l :: name :: ls) ('.' :: (x ++ rest)) := by
  subst isPoint
  have word : Laid (name :: ls) (x ++ rest) := by
    rcases isName with isName | isName <;> exact trails.lexeme isName
  have start : x.head?.any isNameStart = true := by
    rcases isName with rfl | rfl <;> exact lettered
  have undigit : Parted (.punctuation '.') (x ++ rest) := by
    obtain ⟨c, cs, rfl⟩ := List.exists_cons_of_ne_nil (l := x) (by rintro rfl; cases start)
    intro d head
    cases head
    cases digit : isDigit c with
    | false => simp [Lexeme.extendedBy, digit]
    | true =>
      have unnamed := Piece.not_isNameStart_of_isDigit digit
      simp [unnamed] at start
  have laid : Laid (.punctuation '.' :: name :: ls) ('.' :: (x ++ rest)) :=
    .lexeme (.inl undigit) word
  refine ⟨laid, fun c head => .inr ?_⟩
  cases head
  exact ⟨rfl, rfl⟩

end TemplateBinding.Grammar
