import TemplateBinding.Grammar.Progress
import TemplateBinding.Proofs.Grammar.Passage

/-! What is derived, the descent finds. A phrase is found wherever the token behind it
cannot continue it; a loop is found to arrive at its own next round, which is how a
left-recursive rule meets a function that never recurses to the left. -/
namespace TemplateBinding.Grammar

def accessors : List Lexeme := [.punctuation '.', .punctuation '[', .punctuation '(']

namespace Phrase

def read : Phrase → Nat → Cursor → Step (Expr × Cursor)
  | .filtered => Grammar.filtered
  | .expression => Grammar.expression
  | .conditional => Grammar.conditional
  | .binary levels => fun n c => Grammar.binary n levels c
  | .prefixed => Grammar.prefixed
  | .member => Grammar.member
  | .primary => Grammar.primary

def room : Phrase → Nat
  | .filtered => 13
  | .expression => 12
  | .conditional => 11
  | .binary levels => 4 + levels.length
  | .prefixed => 3
  | .member => 2
  | .primary => 1

/-- What is left to do for a phrase of which a part was read: the next round of its loop. -/
def tail : Phrase → Nat → Nat → Expr → Cursor → Step (Expr × Cursor)
  | .filtered => filterTail
  | .binary (level :: levels) => fun n => binaryTail n level levels
  | .member => memberTail
  | _ => fun _ _ e c => .ok (e, c)

/-- The tokens behind which a phrase would not arrive at its own loop. -/
def inner : Phrase → List Lexeme
  | .filtered =>
    .punctuation ':' :: .operator "=" :: .operator "?" :: accessors ++ precedence.flatten
  | .expression | .conditional =>
    .operator "=" :: .operator "?" :: accessors ++ precedence.flatten
  | .binary [] | .prefixed => accessors
  | .binary (_ :: levels) => accessors ++ levels.flatten
  | .member | .primary => []

def outer : Phrase → List Lexeme
  | .filtered => .operator "|" :: filtered.inner
  | .binary levels => accessors ++ levels.flatten
  | .member => accessors
  | p => p.inner

def Regular : Phrase → Prop
  | .binary levels => levels <:+ precedence
  | _ => True

theorem Regular.mem {level : List Lexeme} {levels : List (List Lexeme)}
    (regular : (Phrase.binary (level :: levels)).Regular) : level ∈ precedence :=
  List.IsSuffix.subset regular List.mem_cons_self

theorem Regular.tighter {level : List Lexeme} {levels : List (List Lexeme)}
    (regular : (Phrase.binary (level :: levels)).Regular) : (Phrase.binary levels).Regular :=
  (List.suffix_cons level levels).trans regular

def opens : Lexeme → Bool
  | .punctuation mark => mark ∈ ['(', '[', '{']
  | .keyword _ | .identifier _ | .string _ | .number .. => true
  | .operator _ | .invalid _ => false

def Starts : Phrase → Lexeme → Prop
  | .member, l | .primary, l => opens l = true
  | _, l => opens l = true ∨ l ∈ .operator "!" :: signs

end Phrase

theorem Derives.starts {p ts e} (derived : Derives p ts e) :
    ∃ t us, ts = t :: us ∧ p.Starts t.lexeme := by
  match derived with
  | .unfiltered h | .unassigned h | .unconditional h | .operand h | .tighter h => exact h.starts
  | .unprefixed h =>
    obtain ⟨t, us, rfl, opening⟩ := h.starts
    exact ⟨t, us, rfl, .inl opening⟩
  | .head h =>
    obtain ⟨t, us, rfl, opening⟩ := h.starts
    exact ⟨t, us, rfl, opening⟩
  | .filter h .. | .conditional h .. | .binary h .. | .property h .. | .keyed h .. | .call h .. =>
    obtain ⟨t, us, rfl, start⟩ := h.starts
    exact ⟨t, _, rfl, start⟩
  | .setProperty h .. | .setKeyed h .. =>
    obtain ⟨t, us, rfl, opening⟩ := h.starts
    exact ⟨t, _, rfl, .inl opening⟩
  | .negation isMark _ => exact ⟨_, _, rfl, .inr (by rw [isMark]; decide)⟩
  | .unary isSign _ => exact ⟨_, _, rfl, .inr (List.mem_cons_of_mem _ isSign)⟩
  | .parenthesized isOpened .. | .array isOpened .. | .object isOpened .. =>
    exact ⟨_, _, rfl, by rw [isOpened]; rfl⟩
  | .constant h _ | .this h | .name h | .number h | .string h =>
    exact ⟨_, _, rfl, by rw [h]; rfl⟩

namespace Cursor

def Avoids (c : Cursor) (ls : List Lexeme) : Prop := ∀ l d, c.next? = some (l, d) → l ∉ ls

theorem Avoids.mono {c : Cursor} {ls ms : List Lexeme} (avoids : c.Avoids ls)
    (fewer : ∀ l ∈ ms, l ∈ ls) : c.Avoids ms :=
  fun l d next member => avoids l d next (fewer l member)

theorem Passes.avoids {c d : Cursor} {t : Token} {ts : List Token} {ls : List Lexeme}
    (passes : c.Passes (t :: ts) d) (other : t.lexeme ∉ ls) : c.Avoids ls := by
  intro l e next
  obtain ⟨e', first, _⟩ := passes.uncons
  have same := next?_eq_some_iff.2 ⟨t, rfl, first⟩
  rw [same] at next
  cases next
  exact other

theorem Avoids.accept? {c : Cursor} {l : Lexeme} (avoids : c.Avoids [l]) : c.accept? l = none := by
  cases found : c.accept? l with
  | none => rfl
  | some d =>
    obtain ⟨t, rfl, passes⟩ := accept?_eq_some_iff.1 found
    exact absurd (List.mem_singleton.2 rfl) (avoids _ d (next?_eq_some_iff.2 ⟨t, rfl, passes⟩))

theorem Avoids.acceptAny? {c : Cursor} {ls : List Lexeme} (avoids : c.Avoids ls) :
    c.acceptAny? ls = none := by
  cases found : c.acceptAny? ls with
  | none => rfl
  | some pair =>
    obtain ⟨t, member, _, passes⟩ := acceptAny?_eq_some_iff.1 found
    exact absurd member (avoids _ _ (next?_eq_some_iff.2 ⟨t, rfl, passes⟩))

end Cursor

/-- With an allowance of `room` above that for the tokens ahead, the result is `a`. -/
def Finds {α : Type} (f : Nat → Cursor → Step (α × Cursor)) (room : Nat) (c : Cursor) (a : α)
    (d : Cursor) : Prop :=
  ∀ n, 16 * c.left + room ≤ n → f n c = .ok (a, d)

/-- The phrase is read up to `d`, and then its loop goes on. -/
def Arrives (p : Phrase) (c : Cursor) (e : Expr) (d : Cursor) : Prop :=
  ∀ n, 16 * c.left + p.room ≤ n → ∃ m, 16 * d.left + 1 ≤ m ∧ p.read n c = p.tail m c.column e d

theorem tail_ends {p : Phrase} {d : Cursor} (ends : d.Avoids p.outer) (m start : Nat) (e : Expr) :
    p.tail (m + 1) start e d = .ok (e, d) := by
  match p with
  | .filtered =>
    have bar : d.accept? (.operator "|") = none := (ends.mono (by simp [Phrase.outer])).accept?
    simp only [Phrase.tail, filterTail, bar]
  | .binary (level :: levels) =>
    have ended : d.Avoids level := ends.mono fun l member => by simp [Phrase.outer, member]
    have op : d.acceptAny? level = none := ended.acceptAny?
    simp only [Phrase.tail, binaryTail, op]
  | .member =>
    simp only [Phrase.tail, memberTail]
    split
    · rename_i next
      exact absurd (by decide) (ends _ _ next)
    · rename_i next
      exact absurd (by decide) (ends _ _ next)
    · rename_i next
      exact absurd (by decide) (ends _ _ next)
    · rfl
  | .expression | .conditional | .binary [] | .prefixed | .primary => rfl

theorem Arrives.finds {p : Phrase} {c d : Cursor} {e : Expr} (arrives : Arrives p c e d)
    (ends : d.Avoids p.outer) : Finds p.read p.room c e d := by
  intro n room
  obtain ⟨m, enough, arrived⟩ := arrives n room
  obtain ⟨m, rfl⟩ : ∃ k, m = k + 1 := ⟨m - 1, by omega⟩
  rw [arrived, tail_ends ends]

theorem finds_of_succ {α : Type} {f : Nat → Cursor → Step (α × Cursor)} {room : Nat} {c d : Cursor}
    {a : α} (finds : ∀ n, 16 * c.left + (room + 1) ≤ n + 1 → f (n + 1) c = .ok (a, d)) :
    Finds f (room + 1) c a d := by
  intro n enough
  cases n with
  | zero => omega
  | succ n => exact finds n enough

theorem arrives_of_finds {p : Phrase} {c d : Cursor} {e : Expr}
    (plain : ∀ m start, p.tail m start e d = .ok (e, d)) (finds : Finds p.read p.room c e d) :
    Arrives p c e d :=
  fun n room => ⟨16 * d.left + 1, Nat.le_refl _, by rw [finds n room, plain]⟩

section Steps

variable {c d d₁ d₂ d₃ d₄ : Cursor} {e : Expr}

theorem arrives_unfiltered (inner : Finds expression 12 c e d) (fewer : d.left < c.left) :
    Arrives .filtered c e d := by
  intro n room
  simp only [Phrase.room] at room
  obtain ⟨m, rfl⟩ : ∃ k, n = k + 1 := ⟨n - 1, by omega⟩
  have found := inner m (by omega)
  exact ⟨m, by omega, by simp only [Phrase.read, filtered, found]; rfl⟩

theorem arrives_filter {subject : Expr} {bar name : Token} {x : Text} {args : List Expr}
    (before : Arrives .filtered c subject d) (isBar : bar.lexeme = .operator "|")
    (first : d.Passes [bar] d₁) (isName : name.lexeme = .identifier x)
    (second : d₁.Passes [name] d₂) (given : Finds filterArgs 1 d₂ args d₃)
    (fewer : d₃.left ≤ d₂.left) :
    Arrives .filtered c (.filter ⟨c.column, d₃.passed⟩ subject x args) d₃ := by
  intro n room
  obtain ⟨m, enough, arrived⟩ := before n room
  have left₁ := first.left_succ
  have left₂ := second.left_succ
  obtain ⟨m, rfl⟩ : ∃ k, m = k + 1 := ⟨m - 1, by omega⟩
  have accepted := Cursor.accept?_eq_some_iff.2 ⟨bar, isBar, first⟩
  have named := Cursor.filterName_eq_ok_iff.2 ⟨name, isName, second⟩
  have found := given m (by omega)
  refine ⟨m, by omega, ?_⟩
  simp only [arrived, Phrase.tail, filterTail, accepted, named, bind, Except.bind, found]

theorem finds_noArgs (ends : c.Avoids [.punctuation ':']) : Finds filterArgs 1 c [] c := by
  apply finds_of_succ
  intro m room
  simp only [filterArgs, ends.accept?]

theorem finds_moreArgs {colon : Token} {arg : Expr} {args : List Expr}
    (isColon : colon.lexeme = .punctuation ':') (first : c.Passes [colon] d₁)
    (inner : Finds expression 12 d₁ arg d₂) (fewer : d₂.left ≤ d₁.left)
    (rest : Finds filterArgs 1 d₂ args d₃) : Finds filterArgs 1 c (arg :: args) d₃ := by
  apply finds_of_succ
  intro m room
  have left₁ := first.left_succ
  have accepted := Cursor.accept?_eq_some_iff.2 ⟨colon, isColon, first⟩
  have found := inner m (by omega)
  have others := rest m (by omega)
  simp only [filterArgs, accepted, bind, Except.bind, found, others]

theorem finds_unassigned (inner : Finds conditional 11 c e d)
    (ends : d.Avoids [.operator "="]) : Finds expression 12 c e d := by
  apply finds_of_succ
  intro m room
  have found := inner m (by omega)
  simp only [expression, found, bind, Except.bind, ends.accept?]

theorem finds_setProperty {span : Span} {receiver value : Expr} {x : Text} {equals : Token}
    (inner : Finds conditional 11 c (.property span receiver x) d)
    (isEquals : equals.lexeme = .operator "=") (first : d.Passes [equals] d₁)
    (fewer : d.left ≤ c.left) (rest : Finds expression 12 d₁ value d₂) :
    Finds expression 12 c (.setProperty ⟨c.column, d₂.passed⟩ receiver x value) d₂ := by
  apply finds_of_succ
  intro m room
  have left₁ := first.left_succ
  have accepted := Cursor.accept?_eq_some_iff.2 ⟨equals, isEquals, first⟩
  have found := inner m (by omega)
  have valued := rest m (by omega)
  simp only [expression, found, bind, Except.bind, accepted, valued]

theorem finds_setKeyed {span : Span} {receiver key value : Expr} {equals : Token}
    (inner : Finds conditional 11 c (.keyed span receiver key) d)
    (isEquals : equals.lexeme = .operator "=") (first : d.Passes [equals] d₁)
    (fewer : d.left ≤ c.left) (rest : Finds expression 12 d₁ value d₂) :
    Finds expression 12 c (.setKeyed ⟨c.column, d₂.passed⟩ receiver key value) d₂ := by
  apply finds_of_succ
  intro m room
  have left₁ := first.left_succ
  have accepted := Cursor.accept?_eq_some_iff.2 ⟨equals, isEquals, first⟩
  have found := inner m (by omega)
  have valued := rest m (by omega)
  simp only [expression, found, bind, Except.bind, accepted, valued]

theorem finds_unconditional (inner : Finds (Phrase.binary precedence).read 10 c e d)
    (ends : d.Avoids [.operator "?"]) : Finds conditional 11 c e d := by
  apply finds_of_succ
  intro m room
  have found : Grammar.binary m precedence c = .ok (e, d) := inner m (by omega)
  simp only [conditional, found, bind, Except.bind, ends.accept?]

theorem finds_conditional {condition yes no : Expr} {mark colon : Token}
    (inner : Finds (Phrase.binary precedence).read 10 c condition d)
    (isMark : mark.lexeme = .operator "?") (first : d.Passes [mark] d₁)
    (affirmed : Finds expression 12 d₁ yes d₂) (isColon : colon.lexeme = .punctuation ':')
    (second : d₂.Passes [colon] d₃) (denied : Finds expression 12 d₃ no d₄)
    (fewer : d.left ≤ c.left) (fewer₁ : d₂.left ≤ d₁.left) :
    Finds conditional 11 c (.conditional ⟨c.column, d₄.passed⟩ condition yes no) d₄ := by
  apply finds_of_succ
  intro m room
  have left₁ := first.left_succ
  have left₂ := second.left_succ
  have found : Grammar.binary m precedence c = .ok (condition, d) := inner m (by omega)
  have accepted := Cursor.accept?_eq_some_iff.2 ⟨mark, isMark, first⟩
  have colons := Cursor.accept?_eq_some_iff.2 ⟨colon, isColon, second⟩
  have affirming := affirmed m (by omega)
  have denying := denied m (by omega)
  simp only [conditional, found, bind, Except.bind, accepted, affirming, colons, denying]

theorem finds_operand (inner : Finds prefixed 3 c e d) :
    Finds (Phrase.binary []).read (Phrase.binary []).room c e d := by
  apply finds_of_succ
  intro m room
  exact inner m (by omega)

theorem arrives_tighter {level : List Lexeme} {levels : List (List Lexeme)}
    (inner : Finds (Phrase.binary levels).read (Phrase.binary levels).room c e d)
    (fewer : d.left ≤ c.left) : Arrives (.binary (level :: levels)) c e d := by
  intro n room
  simp only [Phrase.room, List.length_cons] at room
  obtain ⟨m, rfl⟩ : ∃ k, n = k + 1 := ⟨n - 1, by omega⟩
  have found : Grammar.binary m levels c = .ok (e, d) := inner m (by simp only [Phrase.room]; omega)
  exact ⟨m, by omega, by simp only [Phrase.read, Grammar.binary, found]; rfl⟩

theorem arrives_binary {level : List Lexeme} {levels : List (List Lexeme)} {left right : Expr}
    {op : Token} (before : Arrives (.binary (level :: levels)) c left d) (few : levels.length ≤ 6)
    (isOp : op.lexeme ∈ level) (first : d.Passes [op] d₁)
    (inner : Finds (Phrase.binary levels).read (Phrase.binary levels).room d₁ right d₂)
    (fewer : d₂.left ≤ d₁.left) :
    Arrives (.binary (level :: levels)) c
      (.binary ⟨c.column, d₂.passed⟩ op.lexeme.text left right) d₂ := by
  intro n room
  obtain ⟨m, enough, arrived⟩ := before n room
  have left₁ := first.left_succ
  obtain ⟨m, rfl⟩ : ∃ k, m = k + 1 := ⟨m - 1, by omega⟩
  have accepted := Cursor.acceptAny?_eq_some_iff.2 ⟨op, isOp, rfl, first⟩
  have found : Grammar.binary m levels d₁ = .ok (right, d₂) :=
    inner m (by simp only [Phrase.room]; omega)
  refine ⟨m, by omega, ?_⟩
  simp only [arrived, Phrase.tail, binaryTail, accepted, bind, Except.bind, found]

theorem finds_unprefixed (inner : Finds member 2 c e d)
    (starts : c.Avoids (.operator "!" :: signs)) : Finds prefixed 3 c e d := by
  apply finds_of_succ
  intro m room
  have unmarked : c.Avoids [.operator "!"] := starts.mono (by simp)
  have unsigned : c.Avoids signs := starts.mono (by simp +contextual)
  have bang := unmarked.accept?
  have sign := unsigned.acceptAny?
  simp only [prefixed, bang, sign]
  exact inner m (by omega)

theorem finds_negation {mark : Token} (isMark : mark.lexeme = .operator "!")
    (first : c.Passes [mark] d₁) (inner : Finds prefixed 3 d₁ e d₂) :
    Finds prefixed 3 c (.negation ⟨c.column, d₂.passed⟩ e) d₂ := by
  apply finds_of_succ
  intro m room
  have left₁ := first.left_succ
  have accepted := Cursor.accept?_eq_some_iff.2 ⟨mark, isMark, first⟩
  have found := inner m (by omega)
  simp only [prefixed, accepted, bind, Except.bind, found]

theorem finds_unary {sign : Token} (isSign : sign.lexeme ∈ signs) (first : c.Passes [sign] d₁)
    (inner : Finds prefixed 3 d₁ e d₂) :
    Finds prefixed 3 c (.unary ⟨c.column, d₂.passed⟩ sign.lexeme.text e) d₂ := by
  apply finds_of_succ
  intro m room
  have left₁ := first.left_succ
  have other : sign.lexeme ∉ [Lexeme.operator "!"] := by
    intro bang
    rw [List.mem_singleton.1 bang] at isSign
    revert isSign
    decide
  have bang := (first.avoids other).accept?
  have accepted := Cursor.acceptAny?_eq_some_iff.2 ⟨sign, isSign, rfl, first⟩
  have found := inner m (by omega)
  simp only [prefixed, bang, accepted, bind, Except.bind, found]

theorem arrives_head (inner : Finds primary 1 c e d) (fewer : d.left ≤ c.left) :
    Arrives .member c e d := by
  intro n room
  simp only [Phrase.room] at room
  obtain ⟨m, rfl⟩ : ∃ k, n = k + 1 := ⟨n - 1, by omega⟩
  have found := inner m (by omega)
  exact ⟨m, by omega, by simp only [Phrase.read, member, found]; rfl⟩

theorem arrives_property {receiver : Expr} {point name : Token} {x : Text}
    (before : Arrives .member c receiver d) (isPoint : point.lexeme = .punctuation '.')
    (first : d.Passes [point] d₁) (isName : name.lexeme = .identifier x ∨ name.lexeme = .keyword x)
    (second : d₁.Passes [name] d₂) :
    Arrives .member c (.property ⟨c.column, d₂.passed⟩ receiver x) d₂ := by
  intro n room
  obtain ⟨m, enough, arrived⟩ := before n room
  have left₁ := first.left_succ
  have left₂ := second.left_succ
  obtain ⟨m, rfl⟩ : ∃ k, m = k + 1 := ⟨m - 1, by omega⟩
  have next := Cursor.next?_eq_some_iff.2 ⟨point, isPoint, first⟩
  have named := Cursor.memberName_eq_ok_iff.2 ⟨name, isName, second⟩
  refine ⟨m, by omega, ?_⟩
  simp only [arrived, Phrase.tail, memberTail, next, named, bind, Except.bind]

theorem arrives_keyed {receiver key : Expr} {opened closed : Token}
    (before : Arrives .member c receiver d) (isOpened : opened.lexeme = .punctuation '[')
    (first : d.Passes [opened] d₁) (inner : Finds expression 12 d₁ key d₂)
    (isClosed : closed.lexeme = .punctuation ']') (second : d₂.Passes [closed] d₃)
    (fewer : d₂.left ≤ d₁.left) :
    Arrives .member c (.keyed ⟨c.column, d₃.passed⟩ receiver key) d₃ := by
  intro n room
  obtain ⟨m, enough, arrived⟩ := before n room
  have left₁ := first.left_succ
  have left₂ := second.left_succ
  obtain ⟨m, rfl⟩ : ∃ k, m = k + 1 := ⟨m - 1, by omega⟩
  have next := Cursor.next?_eq_some_iff.2 ⟨opened, isOpened, first⟩
  have found := inner m (by omega)
  have closing := Cursor.expect_eq_ok_iff.2 ⟨closed, isClosed, second⟩
  refine ⟨m, by omega, ?_⟩
  simp only [arrived, Phrase.tail, memberTail, next, found, bind, Except.bind, closing]

theorem arrives_call {callee : Expr} {args : List Expr} {opened : Token}
    (before : Arrives .member c callee d) (isOpened : opened.lexeme = .punctuation '(')
    (first : d.Passes [opened] d₁) (inner : Finds callArgs 15 d₁ args d₂)
    (fewer : d₂.left ≤ d₁.left) :
    Arrives .member c (.call ⟨c.column, d₂.passed⟩ callee args) d₂ := by
  intro n room
  obtain ⟨m, enough, arrived⟩ := before n room
  have left₁ := first.left_succ
  obtain ⟨m, rfl⟩ : ∃ k, m = k + 1 := ⟨m - 1, by omega⟩
  have next := Cursor.next?_eq_some_iff.2 ⟨opened, isOpened, first⟩
  have found := inner m (by omega)
  refine ⟨m, by omega, ?_⟩
  simp only [arrived, Phrase.tail, memberTail, next, found, bind, Except.bind]

theorem finds_upTo_none {α : Type} {f list : Nat → Cursor → Step (α × Cursor)} {mark : Char}
    {none : α} {closed : Token} (succ : ∀ n, f (n + 1) = upTo mark none (list n))
    (isClosed : closed.lexeme = .punctuation mark) (first : c.Passes [closed] d) :
    Finds f 15 c none d := by
  apply finds_of_succ
  intro m room
  have accepted := Cursor.accept?_eq_some_iff.2 ⟨closed, isClosed, first⟩
  simp only [succ, upTo, accepted]

theorem finds_upTo {α : Type} {f list : Nat → Cursor → Step (α × Cursor)} {mark : Char}
    {none a : α} {closed : Token} (succ : ∀ n, f (n + 1) = upTo mark none (list n))
    (starts : c.Avoids [.punctuation mark]) (inner : Finds list 14 c a d)
    (isClosed : closed.lexeme = .punctuation mark) (first : d.Passes [closed] d₁) :
    Finds f 15 c a d₁ := by
  apply finds_of_succ
  intro m room
  have found := inner m (by omega)
  have closing := Cursor.expect_eq_ok_iff.2 ⟨closed, isClosed, first⟩
  simp only [succ, upTo, starts.accept?, found, bind, Except.bind, closing]

theorem finds_last {one : Nat → Cursor → Step (Expr × Cursor)}
    {list : Nat → Cursor → Step (List Expr × Cursor)}
    (succ : ∀ n, list (n + 1) = separated (one n) (list n)) (inner : Finds one 13 c e d)
    (ends : d.Avoids [.punctuation ',']) : Finds list 14 c [e] d := by
  apply finds_of_succ
  intro m room
  have found := inner m (by omega)
  simp only [succ, separated, found, bind, Except.bind, ends.accept?]

theorem finds_more {one : Nat → Cursor → Step (Expr × Cursor)}
    {list : Nat → Cursor → Step (List Expr × Cursor)} {comma : Token} {es : List Expr}
    (succ : ∀ n, list (n + 1) = separated (one n) (list n)) (inner : Finds one 13 c e d)
    (isComma : comma.lexeme = .punctuation ',') (first : d.Passes [comma] d₁)
    (rest : Finds list 14 d₁ es d₂) (fewer : d.left ≤ c.left) : Finds list 14 c (e :: es) d₂ := by
  apply finds_of_succ
  intro m room
  have left₁ := first.left_succ
  have found := inner m (by omega)
  have accepted := Cursor.accept?_eq_some_iff.2 ⟨comma, isComma, first⟩
  have others := rest m (by omega)
  simp only [succ, separated, found, bind, Except.bind, accepted, others]

theorem finds_lastEntry {key colon : Token} {k : Key} (isKey : IsKey key.lexeme k)
    (first : c.Passes [key] d) (isColon : colon.lexeme = .punctuation ':')
    (second : d.Passes [colon] d₁) (inner : Finds expression 12 d₁ e d₂)
    (ends : d₂.Avoids [.punctuation ',']) : Finds entries 14 c [(k, e)] d₂ := by
  apply finds_of_succ
  intro m room
  have left₁ := first.left_succ
  have left₂ := second.left_succ
  have keyed := Cursor.entryKey_eq_ok_iff.2 ⟨key, isKey, first⟩
  have parted := Cursor.expect_eq_ok_iff.2 ⟨colon, isColon, second⟩
  have found := inner m (by omega)
  simp only [entries, keyed, bind, Except.bind, parted, found, ends.accept?]

theorem finds_moreEntries {key colon comma : Token} {k : Key} {kvs : List (Key × Expr)}
    (isKey : IsKey key.lexeme k) (first : c.Passes [key] d)
    (isColon : colon.lexeme = .punctuation ':') (second : d.Passes [colon] d₁)
    (inner : Finds expression 12 d₁ e d₂) (isComma : comma.lexeme = .punctuation ',')
    (third : d₂.Passes [comma] d₃) (rest : Finds entries 14 d₃ kvs d₄) (fewer : d₂.left ≤ d₁.left) :
    Finds entries 14 c ((k, e) :: kvs) d₄ := by
  apply finds_of_succ
  intro m room
  have left₁ := first.left_succ
  have left₂ := second.left_succ
  have left₃ := third.left_succ
  have keyed := Cursor.entryKey_eq_ok_iff.2 ⟨key, isKey, first⟩
  have parted := Cursor.expect_eq_ok_iff.2 ⟨colon, isColon, second⟩
  have found := inner m (by omega)
  have accepted := Cursor.accept?_eq_some_iff.2 ⟨comma, isComma, third⟩
  have others := rest m (by omega)
  simp only [entries, keyed, bind, Except.bind, parted, found, accepted, others]

theorem finds_parenthesized {opened closed : Token} (isOpened : opened.lexeme = .punctuation '(')
    (first : c.Passes [opened] d) (inner : Finds filtered 13 d e d₁)
    (isClosed : closed.lexeme = .punctuation ')') (second : d₁.Passes [closed] d₂) :
    Finds primary 1 c (.parenthesized ⟨c.column, d₂.passed⟩ e) d₂ := by
  apply finds_of_succ
  intro m room
  have left₁ := first.left_succ
  have next := Cursor.next?_eq_some_iff.2 ⟨opened, isOpened, first⟩
  have found := inner m (by omega)
  have closing := Cursor.expect_eq_ok_iff.2 ⟨closed, isClosed, second⟩
  simp only [primary, next, found, bind, Except.bind, closing]

theorem finds_array {opened : Token} {es : List Expr} (isOpened : opened.lexeme = .punctuation '[')
    (first : c.Passes [opened] d) (inner : Finds arrayItems 15 d es d₁) :
    Finds primary 1 c (.array ⟨c.column, d₁.passed⟩ es) d₁ := by
  apply finds_of_succ
  intro m room
  have left₁ := first.left_succ
  have next := Cursor.next?_eq_some_iff.2 ⟨opened, isOpened, first⟩
  have found := inner m (by omega)
  simp only [primary, next, found, bind, Except.bind]

theorem finds_object {opened : Token} {kvs : List (Key × Expr)}
    (isOpened : opened.lexeme = .punctuation '{') (first : c.Passes [opened] d)
    (inner : Finds objectEntries 15 d kvs d₁) :
    Finds primary 1 c (.object ⟨c.column, d₁.passed⟩ (kvs.map (·.1)) (kvs.map (·.2))) d₁ := by
  apply finds_of_succ
  intro m room
  have left₁ := first.left_succ
  have next := Cursor.next?_eq_some_iff.2 ⟨opened, isOpened, first⟩
  have found := inner m (by omega)
  simp only [primary, next, found, bind, Except.bind]

theorem finds_keyword {t : Token} {word : Text} (isKeyword : t.lexeme = .keyword word)
    (first : c.Passes [t] d) (means : ofKeyword? ⟨c.column, d.passed⟩ word = some e) :
    Finds primary 1 c e d := by
  apply finds_of_succ
  intro m _
  have next := Cursor.next?_eq_some_iff.2 ⟨t, isKeyword, first⟩
  simp only [primary, next, means]

theorem finds_name {t : Token} {x : Text} (isName : t.lexeme = .identifier x)
    (first : c.Passes [t] d) :
    Finds primary 1 c
      (.property ⟨c.column, d.passed⟩ (.implicitThis ⟨c.column, c.column⟩) x) d := by
  apply finds_of_succ
  intro m _
  have next := Cursor.next?_eq_some_iff.2 ⟨t, isName, first⟩
  simp only [primary, next]

theorem finds_number {t : Token} {value : Binary64} {spelling : Text}
    (isNumber : t.lexeme = .number value spelling) (first : c.Passes [t] d) :
    Finds primary 1 c (.literal ⟨c.column, d.passed⟩ (.number value)) d := by
  apply finds_of_succ
  intro m _
  have next := Cursor.next?_eq_some_iff.2 ⟨t, isNumber, first⟩
  simp only [primary, next]

theorem finds_string {t : Token} {value : Text} (isString : t.lexeme = .string value)
    (first : c.Passes [t] d) :
    Finds primary 1 c (.literal ⟨c.column, d.passed⟩ (.string value)) d := by
  apply finds_of_succ
  intro m _
  have next := Cursor.next?_eq_some_iff.2 ⟨t, isString, first⟩
  simp only [primary, next]

end Steps

theorem Phrase.mem_outer_of_mem_inner {p : Phrase} {l : Lexeme} (member : l ∈ p.inner) :
    l ∈ p.outer := by
  match p with
  | .filtered => exact List.mem_cons_of_mem _ member
  | .binary (level :: levels) =>
    simp only [Phrase.inner, Phrase.outer, List.flatten_cons, List.mem_append] at member ⊢
    exact member.imp_right .inr
  | .binary [] | .prefixed => exact List.mem_append_left _ member
  | .expression | .conditional => exact member
  | .member | .primary => cases member

theorem finds_of_arrives {p : Phrase} {c d : Cursor} {e : Expr}
    (arrives : d.Avoids p.inner → Arrives p c e d) (ends : d.Avoids p.outer) :
    Finds p.read p.room c e d :=
  (arrives (ends.mono fun _ => Phrase.mem_outer_of_mem_inner)).finds ends

theorem not_mem_tighter {level : List Lexeme} {levels : List (List Lexeme)} {l : Lexeme}
    (regular : level :: levels <:+ precedence) (member : l ∈ level) :
    l ∉ accessors ++ levels.flatten := by
  have disjoint : ∀ n < 7, ∀ l ∈ (precedence.drop n).headD [],
      l ∉ accessors ++ (precedence.drop n).tail.flatten := by decide
  have few : precedence.length - (level :: levels).length < 7 :=
    Nat.lt_of_le_of_lt (Nat.sub_le _ _) (by decide)
  have apart := disjoint _ few l
  rw [← List.suffix_iff_eq_drop.1 regular] at apart
  exact apart member

theorem finds_conditional_of_member {c d : Cursor} {e : Expr} (inner : Finds member 2 c e d)
    (starts : c.Avoids (.operator "!" :: signs)) (fewer : d.left ≤ c.left)
    (ends : d.Avoids (.operator "?" :: accessors ++ precedence.flatten)) :
    Finds conditional 11 c e d := by
  have levels (levels : List (List Lexeme)) (ends : d.Avoids (accessors ++ levels.flatten)) :
      Finds (Phrase.binary levels).read (Phrase.binary levels).room c e d := by
    induction levels with
    | nil => exact finds_operand (finds_unprefixed inner starts)
    | cons level levels ih =>
      have found := ih (ends.mono fun l member => by
        simp only [List.flatten_cons, List.mem_append] at member ⊢
        exact member.imp_right .inr)
      exact (arrives_tighter found fewer).finds ends
  exact finds_unconditional (levels precedence (ends.mono (by simp +contextual)))
    (ends.mono (by simp))

theorem Args.avoids {ts args} {c d : Cursor} {ls : List Lexeme} (given : Args ts args)
    (passes : c.Passes ts d) (ends : d.Avoids ls) (other : .punctuation ':' ∉ ls) :
    c.Avoids ls := by
  cases given with
  | none => rwa [passes.unique (.refl c)] at ends
  | more isColon _ _ => exact passes.avoids (by rw [isColon]; exact other)

theorem Derives.avoids_prefixes {ts e} {c d : Cursor} (derived : Derives .member ts e)
    (passes : c.Passes ts d) : c.Avoids (.operator "!" :: signs) := by
  obtain ⟨t, us, rfl, opening⟩ := derived.starts
  apply passes.avoids
  intro member
  have closed : ∀ l ∈ Lexeme.operator "!" :: signs, Phrase.opens l = false := by decide
  have opened : Phrase.opens t.lexeme = true := opening
  rw [closed _ member] at opened
  cases opened

theorem Derives.finds_target {ts us e} {c d₁ d : Cursor} {equals : Token}
    (derived : Derives .member ts e)
    (arrives : d₁.Avoids Phrase.member.inner → Arrives .member c e d₁) (before : c.Passes ts d₁)
    (rest : d₁.Passes (equals :: us) d) (isEquals : equals.lexeme = .operator "=") :
    Finds Grammar.conditional 11 c e d₁ := by
  have target := finds_of_arrives arrives (rest.avoids (by rw [isEquals]; decide))
  exact finds_conditional_of_member target (derived.avoids_prefixes before) before.le
    (rest.avoids (by rw [isEquals]; decide))

theorem Finds.mono {α : Type} {f : Nat → Cursor → Step (α × Cursor)} {small large : Nat}
    {c d : Cursor} {a : α} (finds : Finds f small c a d) (le : small ≤ large) :
    Finds f large c a d :=
  fun n room => finds n (by omega)

section Lists

variable {p : Phrase} (isItem : p = .filtered ∨ p = .expression)
include isItem

theorem regular_of_isItem : p.Regular := by
  rcases isItem with rfl | rfl <;> trivial

theorem room_of_isItem : p.room ≤ 13 := by
  rcases isItem with rfl | rfl <;> decide

theorem comma_of_isItem : .punctuation ',' ∉ p.outer := by
  rcases isItem with rfl | rfl <;> decide

end Lists

theorem Phrase.Starts.not_mem_closers {p : Phrase} {l : Lexeme} (starts : p.Starts l) :
    l ∉ .punctuation ';' :: closers := by
  have opened : opens l = true ∨ l ∈ .operator "!" :: signs := by
    cases p <;> first | exact starts | exact .inl starts
  have apart : ∀ l ∈ .punctuation ';' :: closers,
      ¬ (opens l = true ∨ l ∈ .operator "!" :: signs) := by decide
  exact fun member => apart l member opened

theorem Items.finds_upTo {p ts es} {c d : Cursor} {closed : Token} {mark : Char}
    {list f : Nat → Cursor → Step (List Expr × Cursor)} (listed : Items p ts es)
    (succ : ∀ n, f (n + 1) = upTo mark [] (list n))
    (isClosed : closed.lexeme = .punctuation mark) (closes : .punctuation mark ∈ closers)
    (passes : c.Passes (ts ++ [closed]) d)
    (inner : es ≠ [] → ∀ d₁, c.Passes ts d₁ → d₁.Passes [closed] d → Finds list 14 c es d₁) :
    Finds f 15 c es d := by
  obtain ⟨d₁, before, last⟩ := passes.split
  have starts {t us} (same : ts = t :: us) (starts : p.Starts t.lexeme) :
      c.Avoids [.punctuation mark] := by
    subst same
    refine before.avoids fun isMark => starts.not_mem_closers (List.mem_cons_of_mem _ ?_)
    rwa [List.mem_singleton.1 isMark]
  match listed with
  | .none => exact finds_upTo_none succ isClosed passes
  | .last h =>
    obtain ⟨t, us, same, opening⟩ := h.starts
    exact Grammar.finds_upTo succ (starts same opening) (inner (by simp) d₁ before last) isClosed
      last
  | .more h .. =>
    obtain ⟨t, us, same, opening⟩ := h.starts
    exact Grammar.finds_upTo succ (starts (by rw [same]; rfl) opening)
      (inner (by simp) d₁ before last) isClosed last

theorem Entries.finds_upTo {ts kvs} {c d : Cursor} {closed : Token} (listed : Entries ts kvs)
    (isClosed : closed.lexeme = .punctuation '}') (passes : c.Passes (ts ++ [closed]) d)
    (inner : kvs ≠ [] → ∀ d₁, c.Passes ts d₁ → d₁.Passes [closed] d → Finds entries 14 c kvs d₁) :
    Finds objectEntries 15 c kvs d := by
  obtain ⟨d₁, before, last⟩ := passes.split
  have starts {t us k} (same : ts = t :: us) (isKey : IsKey t.lexeme k) :
      c.Avoids [.punctuation '}'] := by
    subst same
    apply before.avoids
    intro isMark
    rw [List.mem_singleton.1 isMark] at isKey
    cases isKey
  match listed with
  | .none => exact finds_upTo_none objectEntries_succ isClosed passes
  | .last isKey .. | .more isKey .. =>
    exact Grammar.finds_upTo objectEntries_succ (starts rfl isKey)
      (inner (by simp) d₁ before last) isClosed last

mutual

theorem Derives.arrives {p ts e} {c d : Cursor} (derived : Derives p ts e) (regular : p.Regular)
    (passes : c.Passes ts d) (ends : d.Avoids p.inner) : Arrives p c e d := by
  match derived with
  | .unfiltered h =>
    exact arrives_unfiltered
      (finds_of_arrives (h.arrives trivial passes) (ends.mono (by decide))) (passes.lt h.ne_nil)
  | .filter h isBar isName given =>
    obtain ⟨d₁, before, rest⟩ := passes.split
    obtain ⟨d₂, first, rest₁⟩ := rest.uncons
    obtain ⟨d₃, second, third⟩ := rest₁.uncons
    rw [← passes.span (by simp)]
    have subject := h.arrives trivial before (rest.avoids (by rw [isBar]; decide))
    exact arrives_filter subject isBar first isName second (given.finds third ends) third.le
  | .unassigned h =>
    have inner := finds_of_arrives (h.arrives trivial passes) ends
    exact arrives_of_finds (fun _ _ => rfl) (finds_unassigned inner (ends.mono (by decide)))
  | .setProperty h isEquals valued =>
    obtain ⟨d₁, before, rest⟩ := passes.split
    obtain ⟨d₂, first, second⟩ := rest.uncons
    rw [← passes.span (by simp)]
    have through := h.finds_target (h.arrives trivial before) before rest isEquals
    exact arrives_of_finds (fun _ _ => rfl) (finds_setProperty through isEquals first before.le
      (finds_of_arrives (valued.arrives trivial second) ends))
  | .setKeyed h isEquals valued =>
    obtain ⟨d₁, before, rest⟩ := passes.split
    obtain ⟨d₂, first, second⟩ := rest.uncons
    rw [← passes.span (by simp)]
    have through := h.finds_target (h.arrives trivial before) before rest isEquals
    exact arrives_of_finds (fun _ _ => rfl) (finds_setKeyed through isEquals first before.le
      (finds_of_arrives (valued.arrives trivial second) ends))
  | .unconditional h =>
    have inner := finds_of_arrives (h.arrives List.suffix_rfl passes) (ends.mono (by decide))
    exact arrives_of_finds (fun _ _ => rfl) (finds_unconditional inner (ends.mono (by decide)))
  | .conditional h isMark affirmed isColon denied =>
    obtain ⟨d₁, before, rest⟩ := passes.split
    obtain ⟨d₂, first, rest₁⟩ := rest.uncons
    obtain ⟨d₃, second, rest₂⟩ := rest₁.split
    obtain ⟨d₄, third, fourth⟩ := rest₂.uncons
    rw [← passes.span (by simp)]
    have inner := finds_of_arrives (h.arrives List.suffix_rfl before)
      (rest.avoids (by rw [isMark]; decide))
    have affirming := finds_of_arrives (affirmed.arrives trivial second)
      (rest₂.avoids (by rw [isColon]; decide))
    have denying := finds_of_arrives (denied.arrives trivial fourth) ends
    have found := finds_conditional inner isMark first affirming isColon third denying before.le
      second.le
    exact arrives_of_finds (fun _ _ => rfl) found
  | .operand h =>
    have inner := finds_of_arrives (h.arrives trivial passes) ends
    exact arrives_of_finds (fun _ _ => rfl) (finds_operand inner)
  | .tighter h =>
    have inner := finds_of_arrives (h.arrives regular.tighter passes) ends
    exact arrives_tighter inner passes.le
  | .binary h isOp operand =>
    obtain ⟨d₁, before, rest⟩ := passes.split
    obtain ⟨d₂, first, second⟩ := rest.uncons
    rw [← passes.span (by simp)]
    have left := h.arrives regular before (rest.avoids (not_mem_tighter regular isOp))
    have right := finds_of_arrives (operand.arrives regular.tighter second) ends
    exact arrives_binary left (List.IsSuffix.length_le regular.tighter) isOp first right second.le
  | .unprefixed h =>
    have inner := finds_of_arrives (h.arrives trivial passes) ends
    exact arrives_of_finds (fun _ _ => rfl) (finds_unprefixed inner (h.avoids_prefixes passes))
  | .negation isMark h =>
    obtain ⟨d₁, first, second⟩ := passes.uncons
    rw [← passes.span (by simp)]
    exact arrives_of_finds (fun _ _ => rfl) (finds_negation isMark first
      (finds_of_arrives (h.arrives trivial second) ends))
  | .unary isSign h =>
    obtain ⟨d₁, first, second⟩ := passes.uncons
    rw [← passes.span (by simp)]
    exact arrives_of_finds (fun _ _ => rfl) (finds_unary isSign first
      (finds_of_arrives (h.arrives trivial second) ends))
  | .head h =>
    exact arrives_head (finds_of_arrives (h.arrives trivial passes) ends) passes.le
  | .property h isPoint isName =>
    obtain ⟨d₁, before, rest⟩ := passes.split
    obtain ⟨d₂, first, second⟩ := rest.uncons
    rw [← passes.span (by simp)]
    exact arrives_property (h.arrives trivial before (rest.avoids List.not_mem_nil)) isPoint first
      isName second
  | .keyed h isOpened inner isClosed =>
    obtain ⟨d₁, before, rest⟩ := passes.split
    obtain ⟨d₂, first, rest₁⟩ := rest.uncons
    obtain ⟨d₃, second, third⟩ := rest₁.split
    rw [← passes.span (by simp)]
    have key := finds_of_arrives (inner.arrives trivial second)
      (third.avoids (by rw [isClosed]; decide))
    exact arrives_keyed (h.arrives trivial before (rest.avoids List.not_mem_nil)) isOpened first
      key isClosed third second.le
  | .call h isOpened listed isClosed =>
    obtain ⟨d₁, before, rest⟩ := passes.split
    obtain ⟨d₂, first, rest₁⟩ := rest.uncons
    rw [← passes.span (by simp)]
    have args := listed.finds_upTo callArgs_succ isClosed (by decide) rest₁
      fun some d₃ second third => listed.finds some (.inl rfl) arguments_succ second
        (third.avoids (by rw [isClosed]; decide))
    exact arrives_call (h.arrives trivial before (rest.avoids List.not_mem_nil)) isOpened first
      args rest₁.le
  | .parenthesized isOpened h isClosed =>
    obtain ⟨d₁, first, rest⟩ := passes.uncons
    obtain ⟨d₂, second, third⟩ := rest.split
    rw [← passes.span (by simp)]
    have inner := finds_of_arrives (h.arrives trivial second)
      (third.avoids (by rw [isClosed]; decide))
    exact arrives_of_finds (fun _ _ => rfl)
      (finds_parenthesized isOpened first inner isClosed third)
  | .array isOpened listed isClosed =>
    obtain ⟨d₁, first, rest⟩ := passes.uncons
    rw [← passes.span (by simp)]
    have items := listed.finds_upTo arrayItems_succ isClosed (by decide) rest
      fun some d₂ second third => listed.finds some (.inr rfl) elements_succ second
        (third.avoids (by rw [isClosed]; decide))
    exact arrives_of_finds (fun _ _ => rfl) (finds_array isOpened first items)
  | .object isOpened listed isClosed =>
    obtain ⟨d₁, first, rest⟩ := passes.uncons
    rw [← passes.span (by simp)]
    have items := listed.finds_upTo isClosed rest
      fun some d₂ second third => listed.finds some second
        (third.avoids (by rw [isClosed]; decide))
    exact arrives_of_finds (fun _ _ => rfl) (finds_object isOpened first items)
  | .constant isKeyword member =>
    rw [← passes.span (by simp)]
    exact arrives_of_finds (fun _ _ => rfl)
      (finds_keyword isKeyword passes (ofKeyword?_eq_some_iff.2 (.inl ⟨_, member, rfl⟩)))
  | .this isKeyword =>
    rw [← passes.span (by simp)]
    exact arrives_of_finds (fun _ _ => rfl)
      (finds_keyword isKeyword passes (ofKeyword?_eq_some_iff.2 (.inr ⟨rfl, rfl⟩)))
  | .name isName =>
    rw [← passes.span (by simp), ← passes.column]
    exact arrives_of_finds (fun _ _ => rfl) (finds_name isName passes)
  | .number isNumber =>
    rw [← passes.span (by simp)]
    exact arrives_of_finds (fun _ _ => rfl) (finds_number isNumber passes)
  | .string isString =>
    rw [← passes.span (by simp)]
    exact arrives_of_finds (fun _ _ => rfl) (finds_string isString passes)

theorem Args.finds {ts args} {c d : Cursor} (given : Args ts args) (passes : c.Passes ts d)
    (ends : d.Avoids Phrase.filtered.inner) : Finds filterArgs 1 c args d := by
  match given with
  | .none =>
    rw [passes.unique (.refl c)] at ends ⊢
    exact finds_noArgs (ends.mono (by decide))
  | .more isColon h given =>
    obtain ⟨d₁, first, rest⟩ := passes.uncons
    obtain ⟨d₂, second, third⟩ := rest.split
    have stops : d₂.Avoids Phrase.expression.outer :=
      given.avoids third (ends.mono (by decide)) (by decide)
    exact finds_moreArgs isColon first (finds_of_arrives (h.arrives trivial second) stops)
      second.le (given.finds third ends)

theorem Items.finds {p ts es} {c d : Cursor} {list : Nat → Cursor → Step (List Expr × Cursor)}
    (listed : Items p ts es) (some : es ≠ []) (isItem : p = .filtered ∨ p = .expression)
    (succ : ∀ n, list (n + 1) = separated (p.read n) (list n)) (passes : c.Passes ts d)
    (ends : d.Avoids (.punctuation ',' :: p.outer)) : Finds list 14 c es d := by
  match listed with
  | .none => exact absurd rfl some
  | .last h =>
    have inner := finds_of_arrives (h.arrives (regular_of_isItem isItem) passes)
      (ends.mono fun l => List.mem_cons_of_mem _)
    exact finds_last succ (inner.mono (room_of_isItem isItem)) (ends.mono (by simp))
  | .more h isComma listed some =>
    obtain ⟨d₁, before, rest⟩ := passes.split
    obtain ⟨d₂, first, second⟩ := rest.uncons
    have inner := finds_of_arrives (h.arrives (regular_of_isItem isItem) before)
      (rest.avoids (by rw [isComma]; exact comma_of_isItem isItem))
    exact finds_more succ (inner.mono (room_of_isItem isItem)) isComma first
      (listed.finds some isItem succ second ends) before.le

theorem Entries.finds {ts kvs} {c d : Cursor} (listed : Entries ts kvs) (some : kvs ≠ [])
    (passes : c.Passes ts d) (ends : d.Avoids (.punctuation ',' :: Phrase.expression.outer)) :
    Finds entries 14 c kvs d := by
  match listed with
  | .none => exact absurd rfl some
  | .last isKey isColon h =>
    obtain ⟨d₁, first, rest⟩ := passes.uncons
    obtain ⟨d₂, second, third⟩ := rest.uncons
    exact finds_lastEntry isKey first isColon second
      (finds_of_arrives (h.arrives trivial third) (ends.mono fun l => List.mem_cons_of_mem _))
      (ends.mono (by simp))
  | .more isKey isColon h isComma listed some =>
    obtain ⟨d₁, first, rest⟩ := passes.uncons
    obtain ⟨d₂, second, rest₁⟩ := rest.uncons
    obtain ⟨d₃, third, rest₂⟩ := rest₁.split
    obtain ⟨d₄, fourth, fifth⟩ := rest₂.uncons
    have inner := finds_of_arrives (h.arrives trivial third)
      (rest₂.avoids (by rw [isComma]; decide))
    exact finds_moreEntries isKey first isColon second inner isComma fourth
      (listed.finds some fifth ends) third.le

end

/-- The tokens of a phrase are read as that phrase, wherever the next one cannot continue it. -/
theorem Derives.finds {p ts e} {c d : Cursor} (derived : Derives p ts e) (regular : p.Regular)
    (passes : c.Passes ts d) (ends : d.Avoids p.outer) : Finds p.read p.room c e d :=
  finds_of_arrives (derived.arrives regular passes) ends

theorem Derives.expression {p ts e} (derived : Derives p ts e) (regular : p.Regular)
    (unfiltered : p ≠ .filtered) : Derives .expression ts e := by
  have all (derived : Derives (.binary precedence) ts e) : Derives .expression ts e :=
    .unassigned (.unconditional derived)
  have levels (before levels : List (List Lexeme)) (derived : Derives (.binary levels) ts e) :
      Derives (.binary (before ++ levels)) ts e := by
    induction before with
    | nil => exact derived
    | cons level before ih => exact .tighter ih
  have prefixed (derived : Derives .prefixed ts e) : Derives .expression ts e :=
    all (levels precedence [] (.operand derived))
  cases p with
  | filtered => exact absurd rfl unfiltered
  | expression => exact derived
  | conditional => exact .unassigned derived
  | binary tighter =>
    obtain ⟨before, whole⟩ := regular
    exact all (whole ▸ levels before tighter derived)
  | prefixed => exact prefixed derived
  | member => exact prefixed (.unprefixed derived)
  | primary => exact prefixed (.unprefixed (.head derived))

theorem Derives.loosen {p ts e} (derived : Derives p ts e) (regular : p.Regular) :
    Derives .filtered ts e := by
  cases p with
  | filtered => exact derived
  | _ => exact .unfiltered (derived.expression regular nofun)

end TemplateBinding.Grammar
