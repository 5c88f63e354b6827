import TemplateBinding.Proofs.Expr.Places
import TemplateBinding.Proofs.Grammar.Acceptance
import TemplateBinding.Proofs.Grammar.Tiling

/-! The filters of an expression can be seen in its tokens. Every bar applies a filter, the token
behind it is the name, and no filter is applied without one. The tree has the names in another
order: a filter comes before what it is applied to. -/
namespace TemplateBinding.Grammar

def Lexeme.isBar (l : Lexeme) : Bool := l = .operator "|"

def behindBars (ts : List Token) : List Text :=
  (ts.zip ts.tail).filterMap fun (bar, name) =>
    if bar.lexeme.isBar then some name.lexeme.text else none

theorem behindBars_cons {t : Token} (other : t.lexeme.isBar = false) (ts : List Token) :
    behindBars (t :: ts) = behindBars ts := by
  cases ts <;> simp [behindBars, other]

theorem behindBars_bar {bar : Token} (isBar : bar.lexeme.isBar = true) (name : Token)
    (ts : List Token) :
    behindBars (bar :: name :: ts) = name.lexeme.text :: behindBars (name :: ts) := by
  simp [behindBars, isBar]

/-- The bars among the tokens have these names behind them, whatever other tokens follow, and the
last token is no bar. -/
structure Barred (ts : List Token) (names : List Text) : Prop where
  behind : ∀ us, (behindBars (ts ++ us)).Perm (names ++ behindBars us)
  bars : ts.countP (·.lexeme.isBar) = names.length

theorem Barred.nil : Barred [] [] := ⟨fun _ => .refl _, rfl⟩

theorem Barred.append {ts us : List Token} {names names' : List Text} (first : Barred ts names)
    (second : Barred us names') : Barred (ts ++ us) (names ++ names') where
  behind vs := by
    calc
      behindBars (ts ++ us ++ vs) = behindBars (ts ++ (us ++ vs)) := by rw [List.append_assoc]
      List.Perm _ (names ++ behindBars (us ++ vs)) := first.behind (us ++ vs)
      List.Perm _ (names ++ (names' ++ behindBars vs)) := (second.behind vs).append_left names
      _ = names ++ names' ++ behindBars vs := by rw [List.append_assoc]
  bars := by rw [List.countP_append, first.bars, second.bars, List.length_append]

theorem Barred.followed {ts us : List Token} {names : List Text} (first : Barred ts names)
    (second : Barred us []) : Barred (ts ++ us) names := by
  have both := first.append second
  rwa [List.append_nil] at both

theorem Barred.cons {t : Token} {ts : List Token} {l : Lexeme} {names : List Text}
    (isOne : t.lexeme = l) (other : l.isBar = false) (rest : Barred ts names) :
    Barred (t :: ts) names where
  behind us := by
    rw [List.cons_append, behindBars_cons (isOne ▸ other)]
    exact rest.behind us
  bars := by
    rw [List.countP_cons_of_neg (by simp [isOne, other]), rest.bars]

theorem Barred.filter {bar name : Token} {ts : List Token} {x : Text} {names : List Text}
    (isBar : bar.lexeme = .operator "|") (isName : name.lexeme = .identifier x)
    (rest : Barred ts names) : Barred (bar :: name :: ts) (x :: names) where
  behind us := by
    have named := rest.cons isName rfl
    rw [List.cons_append, List.cons_append, behindBars_bar (by rw [isBar]; rfl), isName]
    exact (named.behind us).cons x
  bars := by
    have named := rest.cons isName rfl
    rw [List.countP_cons_of_pos (by rw [isBar]; rfl), named.bars, List.length_cons]

theorem Barred.perm {ts : List Token} {names names' : List Text} (barred : Barred ts names)
    (same : names.Perm names') : Barred ts names' where
  behind us := (barred.behind us).trans (same.append_right _)
  bars := barred.bars.trans same.length_eq

theorem bar_not_mem_precedence : ∀ level ∈ precedence, ∀ l ∈ level, l.isBar = false := by decide

theorem bar_not_mem_signs : ∀ l ∈ signs, l.isBar = false := by decide

theorem IsKey.not_bar {l : Lexeme} {k : Key} (key : IsKey l k) : l.isBar = false := by
  cases key <;> rfl

mutual

theorem Derives.barred {p ts e} (derived : Derives p ts e) (regular : p.Regular) :
    Barred ts e.filterNames := by
  match derived with
  | .unfiltered h | .unassigned h | .unprefixed h | .head h => exact h.barred trivial
  | .operand h => exact h.barred trivial
  | .unconditional h => exact h.barred (List.suffix_refl _)
  | .tighter h => exact h.barred regular.tighter
  | .filter h isBar isName given =>
    exact ((h.barred trivial).append (given.barred.filter isBar isName)).perm List.perm_middle
  | .setProperty h isEquals value | .setKeyed h isEquals value =>
    exact (h.barred trivial).append ((value.barred trivial).cons isEquals rfl)
  | .conditional condition isMark yes isColon no =>
    have rest := (yes.barred trivial).append ((no.barred trivial).cons isColon rfl)
    have all := (condition.barred (List.suffix_refl _)).append (rest.cons isMark rfl)
    rwa [← List.append_assoc (Expr.filterNames _)] at all
  | .binary left isOp right =>
    have other := bar_not_mem_precedence _ regular.mem _ isOp
    exact (left.barred regular).append ((right.barred regular.tighter).cons rfl other)
  | .negation isMark h =>
    exact (h.barred trivial).cons isMark rfl
  | .unary isSign h =>
    exact (h.barred trivial).cons rfl (bar_not_mem_signs _ isSign)
  | .property h isPoint isName =>
    refine (h.barred trivial).followed (.cons isPoint rfl ?_)
    rcases isName with isName | isName <;> exact .cons isName rfl .nil
  | .keyed h isOpened key isClosed =>
    have rest := (key.barred trivial).followed (.cons isClosed rfl .nil)
    exact (h.barred trivial).append (rest.cons isOpened rfl)
  | .call h isOpened args isClosed =>
    have rest := (args.barred trivial).followed (.cons isClosed rfl .nil)
    exact (h.barred trivial).append (rest.cons isOpened rfl)
  | .parenthesized isOpened inner isClosed =>
    exact ((inner.barred trivial).followed (.cons isClosed rfl .nil)).cons isOpened rfl
  | .array isOpened items isClosed =>
    exact ((items.barred trivial).followed (.cons isClosed rfl .nil)).cons isOpened rfl
  | .object isOpened inner isClosed =>
    exact (inner.barred.followed (.cons isClosed rfl .nil)).cons isOpened rfl
  | .constant isOne _ | .this isOne | .name isOne | .number isOne | .string isOne =>
    exact Barred.nil.cons isOne rfl

theorem Args.barred {ts es} (derived : Args ts es) : Barred ts (Expr.filterNamesOfAll es) := by
  match derived with
  | .none => exact .nil
  | .more isColon arg rest => exact ((arg.barred trivial).append rest.barred).cons isColon rfl

theorem Items.barred {p ts es} (derived : Items p ts es) (regular : p.Regular) :
    Barred ts (Expr.filterNamesOfAll es) := by
  match derived with
  | .none => exact .nil
  | .last h =>
    rw [Expr.filterNamesOfAll_eq, List.flatMap_singleton]
    exact h.barred regular
  | .more h isComma rest _ =>
    exact (h.barred regular).append ((rest.barred regular).cons isComma rfl)

theorem Entries.barred {ts kvs} (derived : Entries ts kvs) :
    Barred ts (Expr.filterNamesOfAll (kvs.map (·.2))) := by
  match derived with
  | .none => exact .nil
  | .last key isColon value =>
    rw [List.map_singleton, Expr.filterNamesOfAll_eq, List.flatMap_singleton]
    exact ((value.barred trivial).cons isColon rfl).cons rfl key.not_bar
  | .more key isColon value isComma rest _ =>
    have behind := (value.barred trivial).append (rest.barred.cons isComma rfl)
    exact (behind.cons isColon rfl).cons rfl key.not_bar

end

theorem Semicolons.barred {ss : List Token} (semicolons : Semicolons ss) : Barred ss [] := by
  induction ss with
  | nil => exact .nil
  | cons s ss ih =>
    obtain ⟨first, others⟩ := List.forall_mem_cons.1 semicolons
    exact (ih others).cons first rfl

theorem Sequence.barred {ts es} (sequence : Sequence ts es) :
    Barred ts (Expr.filterNamesOfAll es) := by
  induction sequence with
  | last derived semicolons => exact (derived.barred trivial).append semicolons.barred
  | more derived semicolons _ _ ih =>
    exact (derived.barred trivial).append (semicolons.barred.append ih)

theorem Whole.barred {size ts e} (whole : Whole size ts e) : Barred ts e.filterNames := by
  cases whole with
  | empty semicolons => exact semicolons.barred
  | alone derived => exact derived.barred trivial
  | single before sequence _ =>
    have all := before.barred.append sequence.barred
    rwa [Expr.filterNamesOfAll_eq, List.flatMap_singleton] at all
  | chain before sequence _ _ => exact before.barred.append sequence.barred

end TemplateBinding.Grammar

namespace TemplateBinding

open Grammar

/-- No filter of a text is missed, wherever it is applied, and none is made up. In the tree of an
expression, read from a text or not, every filter has its name in the list, before the names of the
filters within it. -/
theorem Expr.filterNames_complete :
    (∀ source e, Expr.parse source = .ok e →
        e.filterNames.Perm (behindBars (tokens source)) ∧
          e.filterNames.length = (tokens source).countP (·.lexeme.isBar)) ∧
      ∀ e : Expr, ∃ places, FilterPlaces e.at? e.filterNames places := by
  refine ⟨fun source e read => ?_, exists_filterPlaces⟩
  have barred := (Expr.parse_eq_ok_iff.1 read).2.barred
  have behind := barred.behind []
  rw [List.append_nil] at behind
  exact ⟨(behind.trans (.of_eq (List.append_nil _))).symm, barred.bars.symm⟩

/-- The list begins with the filter that is applied last, and a filter in an argument comes behind
the one that it is given to. -/
theorem Expr.filterNames_complete_nested :
    ∃ e, Expr.parse "f(a | g:(b | h), '|') | k" = .ok e ∧
      e.filterNames.Perm [['g'], ['h'], ['k']] ∧ e.filterNames.length = 3 ∧
      ∃ places, FilterPlaces e.at? e.filterNames places := by
  have read : (Expr.parse "f(a | g:(b | h), '|') | k").isOk = true := by decide +kernel
  cases run : Expr.parse "f(a | g:(b | h), '|') | k" with
  | error error =>
    rw [run] at read
    cases read
  | ok e =>
    obtain ⟨texts, trees⟩ := Expr.filterNames_complete
    obtain ⟨perm, length⟩ := texts _ e run
    have behind : behindBars (tokens "f(a | g:(b | h), '|') | k") = [['g'], ['h'], ['k']] := by
      decide +kernel
    have bars : (tokens "f(a | g:(b | h), '|') | k").countP (·.lexeme.isBar) = 3 := by
      decide +kernel
    exact ⟨e, rfl, behind ▸ perm, length.trans bars, trees e⟩

end TemplateBinding
