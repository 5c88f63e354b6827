import Mathlib.Data.Bool.AllAny
import TemplateBinding.Grammar.Scan

/-! What a token may be spelled with, and what may stand behind it. A scan finds a token
exactly where one is spelled and the character behind it would not have become a part of
it, so a scan of other texts with the same tokens in them can be predicted. -/
namespace TemplateBinding.Grammar

inductive Spells : Lexeme → Text → Prop
  | identifier {c cs} :
      isNameStart c = true → (∀ d ∈ cs, isNamePart d = true) → c :: cs ∉ keywords →
      Spells (.identifier (c :: cs)) (c :: cs)
  | keyword {w} : w ∈ keywords → Spells (.keyword w) w
  | number {c cs d} :
      (isDigit c || c = '.' && cs.head?.any isDigit) = true →
      numeralRun false (c :: cs) = (c :: cs, []) → numeral? (c :: cs) = some d →
      Spells (.number (.ofDecimal d) (c :: cs)) (c :: cs)
  | punctuation {c} : c ∈ punctuation → Spells (.punctuation c) [c]
  | string {q cs v} :
      isQuote q = true → Quotation.read? q cs = some ⟨v, cs, []⟩ → Spells (.string v) (q :: cs)
  | operator {op} : op ∈ operators → Spells (.operator op) op

/-- Whether a character directly behind a token would have become a part of it. -/
def Lexeme.extendedBy (l : Lexeme) (c : Char) : Bool :=
  match l with
  | .identifier _ | .keyword _ => isNamePart c
  | .number _ spelling => extendsRun (spelling.getLast?.elim false isExponentMark) c
  | .punctuation mark => mark = '.' && isDigit c
  | .operator symbol => symbol ++ [c] ∈ operators
  | .string _ | .invalid _ => false

/-- The text behind a token does not extend it. -/
def Parted (l : Lexeme) (rest : Text) : Prop := ∀ c ∈ rest.head?, l.extendedBy c = false

theorem Parted.of_prefix {l : Lexeme} {rest us : Text} (parted : Parted l (rest ++ us)) :
    Parted l rest := by
  intro c member
  apply parted c
  rw [List.head?_append, Option.mem_def.1 member]
  rfl

theorem takeWhile_eq_nil {p : Char → Bool} {rest : Text} (stop : ∀ c ∈ rest.head?, p c = false) :
    rest.takeWhile p = [] := by
  cases rest with
  | nil => rfl
  | cons c cs => simp [stop c rfl]

theorem head?_dropWhile {p : Char → Bool} (t : Text) :
    ∀ c ∈ (t.dropWhile p).head?, p c = false := by
  intro c member
  have stop := List.head?_dropWhile_not p t
  rw [Option.mem_def.1 member] at stop
  exact stop

theorem takeWhile_spelled {p : Char → Bool} {s rest : Text} (all : ∀ c ∈ s, p c = true)
    (stop : ∀ c ∈ rest.head?, p c = false) : (s ++ rest).takeWhile p = s := by
  rw [List.takeWhile_append_of_pos all, takeWhile_eq_nil stop, List.append_nil]

theorem dropWhile_spelled {p : Char → Bool} {s rest : Text} (all : ∀ c ∈ s, p c = true)
    (stop : ∀ c ∈ rest.head?, p c = false) : (s ++ rest).dropWhile p = rest := by
  have whole := List.takeWhile_append_dropWhile (p := p) (l := s ++ rest)
  rw [takeWhile_spelled all stop] at whole
  exact List.append_cancel_left whole

theorem numeralRun_spelled {afterMark : Bool} {s rest : Text}
    (run : numeralRun afterMark s = (s, []))
    (stop : ∀ c ∈ rest.head?, extendsRun (s.getLast?.elim afterMark isExponentMark) c = false) :
    numeralRun afterMark (s ++ rest) = (s, rest) := by
  induction s generalizing afterMark with
  | nil =>
    cases rest with
    | nil => rfl
    | cons c cs =>
      have stopped : extendsRun afterMark c = false := stop c rfl
      simp [numeralRun, stopped]
  | cons x s ih =>
    unfold numeralRun at run
    split at run
    · rename_i extends'
      simp only [Prod.mk.injEq, List.cons.injEq, true_and] at run
      have inner : numeralRun (isExponentMark x) s = (s, []) := Prod.ext run.1 run.2
      have later := ih inner (by
        intro c member
        have stopped := stop c member
        rw [List.getLast?_cons] at stopped
        cases last : s.getLast? <;> simpa [last] using stopped)
      simp [numeralRun, extends', later]
    · simp at run

theorem numeralRun_spells (afterMark : Bool) (t : Text) :
    numeralRun afterMark (numeralRun afterMark t).1 = ((numeralRun afterMark t).1, []) ∧
      ∀ c ∈ (numeralRun afterMark t).2.head?,
        extendsRun ((numeralRun afterMark t).1.getLast?.elim afterMark isExponentMark) c
          = false := by
  induction t generalizing afterMark with
  | nil => simp [numeralRun]
  | cons x t ih =>
    cases extends' : extendsRun afterMark x with
    | true =>
      obtain ⟨again, stop⟩ := ih (isExponentMark x)
      simp only [numeralRun, extends', if_true]
      refine ⟨by rw [again], fun c member => ?_⟩
      have stopped := stop c member
      rw [List.getLast?_cons]
      cases last : (numeralRun (isExponentMark x) t).1.getLast? <;> simpa [last] using stopped
    | false => simp [numeralRun, extends']

namespace Quotation

theorem read?_quote {q : Char} (other : q ≠ '\\') (cs : Text) :
    read? q (q :: cs) = some ⟨[], [q], cs⟩ := by
  unfold read?
  rw [if_neg other, if_pos rfl]

theorem read?_cons {q c : Char} (plain : c ≠ '\\') (other : c ≠ q) (cs : Text) :
    read? q (c :: cs) = (read? q cs).map fun r => ⟨c :: r.value, c :: r.spelling, r.rest⟩ := by
  rw [read?.eq_def]
  simp only [if_neg plain, if_neg other]

theorem read?_spelled {q : Char} {t : Text} {r : Quotation} (found : read? q t = some r)
    (us : Text) : read? q (t ++ us) = some ⟨r.value, r.spelling, r.rest ++ us⟩ := by
  fun_induction read? q t generalizing r with
  | case1 => cases found
  | case2 => cases found
  | case3 d ds ih =>
    obtain ⟨inner, read, rfl⟩ := Option.map_eq_some_iff.1 found
    simp [read?, ih read]
  | case4 cs other =>
    cases found
    exact read?_quote other (cs ++ us)
  | case5 c cs plain other ih =>
    obtain ⟨inner, read, rfl⟩ := Option.map_eq_some_iff.1 found
    rw [List.cons_append, read?_cons plain other, ih read]
    rfl

theorem read?_spells {q : Char} {t : Text} {r : Quotation} (found : read? q t = some r) :
    read? q r.spelling = some ⟨r.value, r.spelling, []⟩ := by
  fun_induction read? q t generalizing r with
  | case1 => cases found
  | case2 => cases found
  | case3 d ds ih =>
    obtain ⟨inner, read, rfl⟩ := Option.map_eq_some_iff.1 found
    simp [read?, ih read]
  | case4 cs other =>
    cases found
    exact read?_quote other []
  | case5 c cs plain other ih =>
    obtain ⟨inner, read, rfl⟩ := Option.map_eq_some_iff.1 found
    rw [read?_cons plain other, ih read]
    rfl

end Quotation

theorem operators_pairwise : operators.Pairwise fun a b => ¬ a <+: b := by decide

theorem take_mem_operators :
    ∀ a ∈ operators, ∀ b ∈ operators, a <+: b → b.take (a.length + 1) ∈ operators := by
  decide

theorem find?_operators {op rest : Text} (member : op ∈ operators)
    (parted : Parted (.operator op) rest) :
    operators.find? (·.isPrefixOf (op ++ rest)) = some op := by
  obtain ⟨before, after, split⟩ := List.mem_iff_append.1 member
  refine List.find?_eq_some_iff_append.2 ⟨by simp, before, after, split, fun a first => ?_⟩
  have member' : a ∈ operators := by simp [split, first]
  have ordered : ¬ a <+: op := by
    have pairwise := operators_pairwise
    rw [split, List.pairwise_append] at pairwise
    exact pairwise.2.2 a first op List.mem_cons_self
  simp only [Bool.not_eq_true', ← Bool.not_eq_true, List.isPrefixOf_iff_prefix]
  intro begins
  rcases List.prefix_or_prefix_of_prefix begins (List.prefix_append op rest) with shorter | longer
  · exact ordered shorter
  · obtain ⟨us, rfl⟩ := longer
    cases us with
    | nil => exact ordered (by simp)
    | cons x us =>
      obtain ⟨us', whole⟩ := begins
      rw [List.append_assoc] at whole
      have same := List.append_cancel_left whole
      have extended := take_mem_operators op member _ member' (List.prefix_append _ _)
      rw [List.take_length_add_append, List.take_one] at extended
      have stop := parted x (by rw [← same]; rfl)
      simp only [Lexeme.extendedBy, decide_eq_false_iff_not] at stop
      exact stop extended

theorem parted_of_find?_operators {op rest : Text}
    (found : operators.find? (·.isPrefixOf (op ++ rest)) = some op) :
    Parted (.operator op) rest := by
  obtain ⟨-, before, after, split, others⟩ := List.find?_eq_some_iff_append.1 found
  intro x head
  cases rest with
  | nil => cases head
  | cons y rest =>
    cases head
    simp only [Lexeme.extendedBy, decide_eq_false_iff_not]
    intro member
    have pairwise := operators_pairwise
    rw [split] at member pairwise
    rw [List.pairwise_append, List.pairwise_cons] at pairwise
    rcases List.mem_append.1 member with first | later
    · have begins : (op ++ [x]).isPrefixOf (op ++ x :: rest) = true :=
        List.isPrefixOf_iff_prefix.2 ⟨rest, by simp⟩
      have stop := others _ first
      rw [begins] at stop
      cases stop
    · rcases List.mem_cons.1 later with same | later
      · simp at same
      · exact pairwise.2.1.1 _ later (List.prefix_append op [x])

namespace Piece

theorem first_word {c : Char} {cs rest : Text} (start : isNameStart c = true)
    (parts : ∀ d ∈ cs, isNamePart d = true) (stop : ∀ d ∈ rest.head?, isNamePart d = false) :
    first c (cs ++ rest) =
      ⟨if c :: cs ∈ keywords then .keyword (c :: cs) else .identifier (c :: cs),
        c :: cs, rest⟩ := by
  have all : ∀ d ∈ c :: cs, isNamePart d = true := by
    intro d member
    rcases List.mem_cons.1 member with rfl | member
    · simp [isNamePart, start]
    · exact parts d member
  unfold first
  rw [if_pos start, word, ← List.cons_append, takeWhile_spelled all stop,
    dropWhile_spelled all stop]

theorem not_isNameStart_of_isDigit {c : Char} (digit : isDigit c = true) :
    isNameStart c = false := by
  simp only [isDigit, Bool.and_eq_true, decide_eq_true_eq] at digit
  simp only [isNameStart, Bool.or_eq_false_iff, Bool.and_eq_false_iff, decide_eq_false_iff_not]
  have low : c.val ≤ '9'.val := digit.2
  have high : '0'.val ≤ c.val := digit.1
  refine ⟨⟨⟨.inl fun le => ?_, .inl fun le => ?_⟩, fun same => ?_⟩, fun same => ?_⟩
  · have le : 'a'.val ≤ c.val := le
    exact absurd (UInt32.le_trans le low) (by decide)
  · have le : 'A'.val ≤ c.val := le
    exact absurd (UInt32.le_trans le low) (by decide)
  · subst same
    exact absurd low (by decide)
  · subst same
    exact absurd high (by decide)

theorem letters_of_mem_keywords {c : Char} {cs : Text} (member : c :: cs ∈ keywords) :
    isNameStart c = true ∧ ∀ d ∈ cs, isNamePart d = true := by
  have letters : ∀ w ∈ keywords, w.head?.all isNameStart = true ∧
      w.tail.all isNamePart = true := by decide
  obtain ⟨start, parts⟩ := letters _ member
  exact ⟨start, List.all_eq_true.1 parts⟩

theorem first_eq {l : Lexeme} {c : Char} {cs rest : Text} (spells : Spells l (c :: cs))
    (parted : Parted l rest) : first c (cs ++ rest) = ⟨l, c :: cs, rest⟩ := by
  cases spells with
  | identifier start parts other => rw [first_word start parts parted, if_neg other]
  | keyword member =>
    obtain ⟨start, parts⟩ := letters_of_mem_keywords member
    have word : first c (cs ++ rest) = _ := first_word start parts parted
    rw [word]
    exact congrArg (Piece.mk · _ _) (if_pos member)
  | @number _ _ d start run value =>
    have unnamed : isNameStart c = false := by
      rcases Bool.or_eq_true_iff.1 start with digit | point
      · exact not_isNameStart_of_isDigit digit
      · simp only [Bool.and_eq_true, decide_eq_true_eq] at point
        rw [point.1]
        decide
    have begins : (isDigit c || c = '.' && ((cs ++ rest).head?.any isDigit)) = true := by
      cases cs with
      | nil =>
        have digit : isDigit c = true := by simpa using start
        simp [digit]
      | cons => exact start
    have run' := numeralRun_spelled run parted
    rw [List.cons_append] at run'
    unfold first numeral
    simp only [unnamed, Bool.false_eq_true, if_false, begins, if_true, run', value]
  | punctuation member =>
    have others : ∀ d ∈ punctuation, isNameStart d = false ∧ isDigit d = false :=
      List.all_iff_forall_prop.1 rfl
    obtain ⟨unnamed, undigit⟩ := others c member
    have pointless : (c = '.' && rest.head?.any isDigit) = false := by
      cases rest with
      | nil => simp
      | cons d => exact parted d rfl
    simp [first, unnamed, undigit, pointless, member]
  | @string _ _ v quote read =>
    have others : isNameStart c = false ∧ isDigit c = false ∧ c ≠ '.' ∧ c ∉ punctuation := by
      simp only [isQuote, Bool.or_eq_true, decide_eq_true_eq] at quote
      rcases quote with rfl | rfl <;> decide
    obtain ⟨unnamed, undigit, pointless, unmarked⟩ := others
    simp [first, unnamed, undigit, pointless, unmarked, quote, quotation,
      Quotation.read?_spelled read]
  | operator member =>
    have others : ∀ d ∈ operators.filterMap List.head?, isNameStart d = false ∧
        isDigit d = false ∧ d ≠ '.' ∧ d ∉ punctuation ∧ isQuote d = false :=
      List.all_iff_forall_prop.1 rfl
    have head : c ∈ operators.filterMap List.head? := List.mem_filterMap.2 ⟨_, member, rfl⟩
    obtain ⟨unnamed, undigit, pointless, unmarked, unquoted⟩ := others c head
    have found := find?_operators member parted
    rw [List.cons_append] at found
    simp [first, unnamed, undigit, pointless, unmarked, unquoted, symbol, found]

structure Exact (p : Piece) : Prop where
  spells : Spells p.lexeme p.spelling
  parted : Parted p.lexeme p.rest

theorem exact_word {c : Char} {cs : Text} (start : isNameStart c = true) :
    (word (c :: cs)).Exact := by
  have named : isNamePart c = true := by simp [isNamePart, start]
  have stop : Parted (.identifier []) ((c :: cs).dropWhile isNamePart) := head?_dropWhile _
  simp only [word]
  split
  · rename_i member
    exact ⟨.keyword member, stop⟩
  · rename_i other
    constructor
    · simp only [List.takeWhile_cons_of_pos named] at other ⊢
      exact .identifier start (List.all_eq_true.1 List.all_takeWhile) other
    · exact stop

theorem numeralRun_cons {c : Char} {cs : Text}
    (begins : (isDigit c || c = '.' && cs.head?.any isDigit) = true) :
    ∃ rest, (numeralRun false (c :: cs)).1 = c :: rest ∧
      (isDigit c || c = '.' && rest.head?.any isDigit) = true := by
  have taken : extendsRun false c = true := by
    rcases Bool.or_eq_true_iff.1 begins with digit | point
    · simp [extendsRun, digit]
    · simp only [Bool.and_eq_true, decide_eq_true_eq] at point
      simp [extendsRun, point.1]
  refine ⟨(numeralRun (isExponentMark c) cs).1, by simp only [numeralRun, taken, if_true], ?_⟩
  rcases Bool.or_eq_true_iff.1 begins with digit | point
  · simp [digit]
  · cases cs with
    | nil => simp at point
    | cons d cs =>
      simp only [List.head?_cons, Option.any_some, Bool.and_eq_true] at point
      simp [numeralRun, extendsRun, point.1, point.2]

theorem exact_numeral {c : Char} {cs : Text}
    (begins : (isDigit c || c = '.' && cs.head?.any isDigit) = true)
    (valid : (numeral (c :: cs)).lexeme.isInvalid = false) : (numeral (c :: cs)).Exact := by
  obtain ⟨again, stop⟩ := numeralRun_spells false (c :: cs)
  obtain ⟨rest, same, begins'⟩ := numeralRun_cons begins
  simp only [numeral] at valid ⊢
  cases value : numeral? (numeralRun false (c :: cs)).1 with
  | none =>
    rw [value] at valid
    cases valid
  | some d =>
    constructor
    · rw [same] at again value
      simp only [same]
      exact .number begins' again value
    · exact stop

theorem exact_punctuation {c : Char} {cs : Text}
    (other : ¬ (isDigit c || c = '.' && cs.head?.any isDigit) = true)
    (member : c ∈ punctuation) : Exact ⟨.punctuation c, [c], cs⟩ := by
  constructor
  · exact .punctuation member
  · intro d head
    cases cs with
    | nil => cases head
    | cons _ cs =>
      cases head
      simp only [Bool.not_eq_true, Bool.or_eq_false_iff] at other
      exact other.2

theorem exact_quotation {q : Char} {t : Text} (quote : isQuote q = true)
    (valid : (quotation q t).lexeme.isInvalid = false) : (quotation q t).Exact := by
  unfold quotation at valid ⊢
  split
  · rename_i r found
    exact ⟨.string quote (Quotation.read?_spells found), fun d _ => rfl⟩
  · rename_i none
    rw [none] at valid
    cases valid

theorem exact_symbol {c : Char} {cs : Text} (valid : (symbol c cs).lexeme.isInvalid = false) :
    (symbol c cs).Exact := by
  unfold symbol at valid ⊢
  split
  · rename_i op found
    have begins := List.find?_some found
    obtain ⟨rest, whole⟩ := List.isPrefixOf_iff_prefix.1 begins
    constructor
    · exact .operator (List.mem_of_find?_eq_some found)
    · simp only [← whole, List.drop_left] at found ⊢
      exact parted_of_find?_operators found
  · rename_i none
    rw [none] at valid
    cases valid

theorem exact_first {c : Char} {cs : Text} (valid : (first c cs).lexeme.isInvalid = false) :
    (first c cs).Exact := by
  unfold first at valid ⊢
  split
  · exact exact_word ‹_›
  rename_i unnamed
  rw [if_neg unnamed] at valid
  split
  · rename_i begins
    rw [if_pos begins] at valid
    exact exact_numeral begins valid
  rename_i undigit
  rw [if_neg undigit] at valid
  split
  · exact exact_punctuation undigit ‹_›
  rename_i unmarked
  rw [if_neg unmarked] at valid
  split
  · rename_i quote
    rw [if_pos quote] at valid
    exact exact_quotation quote valid
  · rename_i unquoted
    rw [if_neg unquoted] at valid
    exact exact_symbol valid

end Piece

theorem Spells.ne_nil {l : Lexeme} {s : Text} (spells : Spells l s) : s ≠ [] := by
  cases spells with
  | keyword member => exact fun empty => absurd (empty ▸ member) (by decide)
  | operator member => exact fun empty => absurd (empty ▸ member) (by decide)
  | _ => simp

theorem Spells.not_isLayout {l : Lexeme} {c : Char} {cs : Text} (spells : Spells l (c :: cs)) :
    isLayout c = false := by
  rw [isLayout, ← Bool.not_eq_true, List.contains_iff_mem]
  intro member
  have unnamed : ∀ d ∈ layout, isNameStart d = false := List.all_iff_forall_prop.1 rfl
  have undigit : ∀ d ∈ layout, isDigit d = false ∧ d ≠ '.' := List.all_iff_forall_prop.1 rfl
  have unquoted : ∀ d ∈ layout, isQuote d = false := List.all_iff_forall_prop.1 rfl
  cases spells with
  | identifier start _ _ => simp [unnamed c member] at start
  | keyword word =>
    have start := (Piece.letters_of_mem_keywords word).1
    simp [unnamed c member] at start
  | number start _ _ => simp [undigit c member] at start
  | punctuation mark =>
    have others : ∀ d ∈ Grammar.punctuation, d ∉ layout := List.all_iff_forall_prop.1 rfl
    exact others c mark member
  | string quote _ => simp [unquoted c member] at quote
  | operator op =>
    have others : ∀ d ∈ operators.filterMap List.head?, d ∉ layout :=
      List.all_iff_forall_prop.1 rfl
    exact others c (List.mem_filterMap.2 ⟨_, op, rfl⟩) member

theorem tokensFrom_nil (start : Nat) : tokensFrom start [] = [] := by
  rw [tokensFrom]

theorem tokensFrom_layout {c : Char} (space : isLayout c = true) (start : Nat) (cs : Text) :
    tokensFrom start (c :: cs) = tokensFrom (start + c.utf8Size) cs := by
  rw [tokensFrom, if_pos space]

theorem tokensFrom_spelled {l : Lexeme} {s rest : Text} (spells : Spells l s)
    (parted : Parted l rest) (start : Nat) :
    tokensFrom start (s ++ rest) =
      ⟨start, start + Text.byteSize s, l⟩ :: tokensFrom (start + Text.byteSize s) rest := by
  obtain ⟨c, cs, rfl⟩ := List.exists_cons_of_ne_nil spells.ne_nil
  rw [List.cons_append, tokensFrom, if_neg (by simp [spells.not_isLayout])]
  simp only [Piece.first_eq spells parted]

/-- The text is a row of spelled tokens with layout between them. The first number is the
byte position where it begins. -/
inductive Reads : Nat → Text → List Token → Prop
  | nil {start} : Reads start [] []
  | layout {start c cs ts} :
      isLayout c = true → Reads (start + c.utf8Size) cs ts → Reads start (c :: cs) ts
  | token {start l s rest ts} :
      Spells l s → Parted l rest → Reads (start + Text.byteSize s) rest ts →
      Reads start (s ++ rest) (⟨start, start + Text.byteSize s, l⟩ :: ts)

theorem reads_tokensFrom {start : Nat} {t : Text}
    (valid : ∀ k ∈ tokensFrom start t, k.lexeme.isInvalid = false) :
    Reads start t (tokensFrom start t) := by
  fun_induction tokensFrom start t with
  | case1 => exact .nil
  | case2 start c cs space ih => exact .layout space (ih valid)
  | case3 start c cs _ piece stop ih =>
    rw [List.forall_mem_cons] at valid
    obtain ⟨spells, parted⟩ := Piece.exact_first valid.1
    rw [← Piece.first_append c cs]
    exact .token spells parted (ih valid.2)

theorem Reads.tokensFrom_eq {start : Nat} {t : Text} {ts : List Token} (reads : Reads start t ts) :
    tokensFrom start t = ts := by
  induction reads with
  | nil => exact tokensFrom_nil _
  | layout space _ ih => rw [tokensFrom_layout space, ih]
  | token spells parted _ ih => rw [tokensFrom_spelled spells parted, ih]

theorem Spells.valid {l : Lexeme} {s : Text} (spells : Spells l s) : l.isInvalid = false := by
  cases spells <;> rfl

theorem Reads.valid {start : Nat} {t : Text} {ts : List Token} (reads : Reads start t ts) :
    ∀ k ∈ ts, k.lexeme.isInvalid = false := by
  induction reads with
  | nil => simp
  | layout _ _ ih => exact ih
  | token spells _ _ ih => exact List.forall_mem_cons.2 ⟨spells.valid, ih⟩

theorem Reads.spelled {start : Nat} {t : Text} {ts : List Token} (reads : Reads start t ts) :
    ∀ k ∈ ts, ∃ s, Spells k.lexeme s := by
  induction reads with
  | nil => simp
  | layout _ _ ih => exact ih
  | token spells _ _ ih => exact List.forall_mem_cons.2 ⟨⟨_, spells⟩, ih⟩

end TemplateBinding.Grammar
