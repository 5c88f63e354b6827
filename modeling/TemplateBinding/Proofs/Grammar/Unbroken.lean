import TemplateBinding.Proofs.Grammar.Acceptance
import TemplateBinding.Proofs.Grammar.Spelling

/-! Whether an expression is a chain can be seen in its tokens. No phrase has a semicolon in
it, so where one stands between two other tokens, it parts two items. -/
namespace TemplateBinding

def Expr.isChain : Expr → Bool
  | .chain .. => true
  | _ => false

namespace Grammar

def Lexeme.isSemicolon (l : Lexeme) : Bool := l = .punctuation ';'

theorem semicolons_nil : Semicolons [] := fun _ member => nomatch member

def Unbroken (ts : List Token) : Prop := ∀ t ∈ ts, t.lexeme.isSemicolon = false

theorem Unbroken.nil : Unbroken [] := fun _ member => nomatch member

theorem Unbroken.append {ts us : List Token} (first : Unbroken ts) (second : Unbroken us) :
    Unbroken (ts ++ us) := List.forall_mem_append.2 ⟨first, second⟩

theorem Unbroken.cons {t : Token} {ts : List Token} {l : Lexeme} (isOne : t.lexeme = l)
    (other : l.isSemicolon = false) (rest : Unbroken ts) : Unbroken (t :: ts) :=
  List.forall_mem_cons.2 ⟨isOne ▸ other, rest⟩

theorem unbroken_of_mem_precedence :
    ∀ level ∈ precedence, ∀ l ∈ level, l.isSemicolon = false := by decide

theorem unbroken_of_mem_signs : ∀ l ∈ signs, l.isSemicolon = false := by decide

theorem IsKey.unbroken {l : Lexeme} {k : Key} (key : IsKey l k) : l.isSemicolon = false := by
  cases key <;> rfl

mutual

theorem Derives.unbroken {p ts e} (derived : Derives p ts e) (regular : p.Regular) :
    Unbroken ts := by
  match derived with
  | .unfiltered h | .unassigned h | .unprefixed h | .head h => exact h.unbroken trivial
  | .operand h => exact h.unbroken trivial
  | .unconditional h => exact h.unbroken (List.suffix_refl _)
  | .tighter h => exact h.unbroken regular.tighter
  | .filter h isBar isName given =>
    exact (h.unbroken trivial).append (.cons isBar rfl (.cons isName rfl given.unbroken))
  | .setProperty h isEquals value | .setKeyed h isEquals value =>
    exact (h.unbroken trivial).append (.cons isEquals rfl (value.unbroken trivial))
  | .conditional condition isMark yes isColon no =>
    have rest := (yes.unbroken trivial).append (.cons isColon rfl (no.unbroken trivial))
    exact (condition.unbroken (List.suffix_refl _)).append (.cons isMark rfl rest)
  | .binary left isOp right =>
    have other := unbroken_of_mem_precedence _ regular.mem _ isOp
    exact (left.unbroken regular).append (.cons rfl other (right.unbroken regular.tighter))
  | .negation isMark h => exact .cons isMark rfl (h.unbroken trivial)
  | .unary isSign h => exact .cons rfl (unbroken_of_mem_signs _ isSign) (h.unbroken trivial)
  | .property h isPoint isName =>
    refine (h.unbroken trivial).append (.cons isPoint rfl ?_)
    rcases isName with isName | isName <;> exact .cons isName rfl .nil
  | .keyed h isOpened key isClosed =>
    have rest := (key.unbroken trivial).append (.cons isClosed rfl .nil)
    exact (h.unbroken trivial).append (.cons isOpened rfl rest)
  | .call h isOpened args isClosed =>
    have rest := (args.unbroken trivial).append (.cons isClosed rfl .nil)
    exact (h.unbroken trivial).append (.cons isOpened rfl rest)
  | .parenthesized isOpened inner isClosed =>
    exact .cons isOpened rfl ((inner.unbroken trivial).append (.cons isClosed rfl .nil))
  | .array isOpened items isClosed =>
    exact .cons isOpened rfl ((items.unbroken trivial).append (.cons isClosed rfl .nil))
  | .object isOpened inner isClosed =>
    exact .cons isOpened rfl (inner.unbroken.append (.cons isClosed rfl .nil))
  | .constant isOne _ | .this isOne | .name isOne | .number isOne | .string isOne =>
    exact .cons isOne rfl .nil

theorem Args.unbroken {ts es} (derived : Args ts es) : Unbroken ts := by
  match derived with
  | .none => exact .nil
  | .more isColon arg rest =>
    exact .cons isColon rfl ((arg.unbroken trivial).append rest.unbroken)

theorem Items.unbroken {p ts es} (derived : Items p ts es) (regular : p.Regular) :
    Unbroken ts := by
  match derived with
  | .none => exact .nil
  | .last h => exact h.unbroken regular
  | .more h isComma rest _ =>
    exact (h.unbroken regular).append (.cons isComma rfl (rest.unbroken regular))

theorem Entries.unbroken {ts kvs} (derived : Entries ts kvs) : Unbroken ts := by
  match derived with
  | .none => exact .nil
  | .last key isColon value =>
    exact .cons rfl key.unbroken (.cons isColon rfl (value.unbroken trivial))
  | .more key isColon value isComma rest _ =>
    have behind := (value.unbroken trivial).append (.cons isComma rfl rest.unbroken)
    exact .cons rfl key.unbroken (.cons isColon rfl behind)

end

theorem Derives.isChain {p ts e} (derived : Derives p ts e) : e.isChain = false := by
  match derived with
  | .unfiltered h | .unassigned h | .unconditional h | .operand h | .tighter h | .unprefixed h
  | .head h => exact h.isChain
  | .filter .. | .setProperty .. | .setKeyed .. | .conditional .. | .binary .. | .negation ..
  | .unary .. | .property .. | .keyed .. | .call .. | .parenthesized .. | .array .. | .object ..
  | .constant .. | .this .. | .name .. | .number .. | .string .. => rfl

def Joined (ts : List Token) : Prop :=
  ∃ us s vs, ts = us ++ s :: vs ∧ s.lexeme = .punctuation ';' ∧ ¬ Semicolons us ∧ ¬ Semicolons vs

theorem not_joined_of_alone {lead ts ss : List Token} (before : Semicolons lead)
    (unbroken : Unbroken ts) (behind : Semicolons ss) : ¬ Joined (lead ++ (ts ++ ss)) := by
  rintro ⟨us, s, vs, whole, isOne, left, right⟩
  -- The semicolon is behind the phrase, or in it, or before it.
  rcases List.append_eq_append_iff.1 whole with ⟨as, rfl, inner⟩ | ⟨as, rfl, -⟩
  · rcases List.append_eq_append_iff.1 inner with ⟨bs, rfl, rest⟩ | ⟨bs, rfl, rest⟩
    · rw [rest] at behind
      exact right fun t member => behind t (by simp [member])
    · cases bs with
      | nil =>
        rw [List.nil_append] at rest
        rw [← rest] at behind
        exact right fun t member => behind t (List.mem_cons_of_mem _ member)
      | cons b bs =>
        simp only [List.cons_append, List.cons.injEq] at rest
        have other := unbroken b (by simp)
        rw [← rest.1, isOne] at other
        cases other
  · exact left fun t member => before t (List.mem_append_left _ member)

theorem Derives.not_semicolons {ts e} (derived : Derives .filtered ts e) : ¬ Semicolons ts := by
  intro semicolons
  obtain ⟨t, rest, rfl⟩ := List.exists_cons_of_ne_nil derived.ne_nil
  have other := derived.unbroken trivial t List.mem_cons_self
  rw [semicolons t List.mem_cons_self] at other
  cases other

theorem Sequence.not_semicolons {ts es} (sequence : Sequence ts es) : ¬ Semicolons ts := by
  cases sequence with
  | last derived _ | more derived _ _ _ =>
    exact fun all => derived.not_semicolons fun t member => all t (List.mem_append_left _ member)

theorem Sequence.joined {ts es} (sequence : Sequence ts es) (several : 1 < es.length)
    (lead : List Token) : Joined (lead ++ ts) := by
  cases sequence with
  | last => exact absurd several (Nat.lt_irrefl 1)
  | @more ts ss us e es derived semicolons some rest =>
    obtain ⟨s, ss, rfl⟩ := List.exists_cons_of_ne_nil some
    refine ⟨lead ++ ts, s, ss ++ us, by simp, semicolons s List.mem_cons_self, ?_, ?_⟩
    · intro all
      exact derived.not_semicolons fun t member => all t (List.mem_append_right _ member)
    · intro all
      exact rest.not_semicolons fun t member => all t (List.mem_append_right _ member)

theorem Whole.isChain_iff {size ts e} (whole : Whole size ts e) : e.isChain = true ↔ Joined ts := by
  cases whole with
  | @empty ss semicolons =>
    have apart := not_joined_of_alone semicolons .nil semicolons_nil
    rw [List.append_nil, List.append_nil] at apart
    exact iff_of_false Bool.false_ne_true apart
  | @alone ts e derived =>
    have apart := not_joined_of_alone semicolons_nil (derived.unbroken trivial) semicolons_nil
    rw [List.append_nil] at apart
    exact iff_of_false (by simp [derived.isChain]) apart
  | single before sequence _ =>
    cases sequence with
    | last derived behind =>
      have apart := not_joined_of_alone before (derived.unbroken trivial) behind
      exact iff_of_false (by simp [derived.isChain]) apart
    | more _ _ _ rest => cases rest
  | chain before sequence several _ => exact iff_of_true rfl (sequence.joined several _)

theorem Whole.phrase {size ts e} (whole : Whole size ts e) (single : e.isChain = false)
    (some : ∀ span, e ≠ .empty span) :
    ∃ lead us ss, ts = lead ++ (us ++ ss) ∧ Semicolons lead ∧ Derives .filtered us e ∧
      Semicolons ss := by
  cases whole with
  | empty => exact absurd rfl (some _)
  | alone derived => exact ⟨[], ts, [], by simp, semicolons_nil, derived, semicolons_nil⟩
  | @single lead _ _ before sequence _ =>
    cases sequence with
    | @last us ss _ derived behind => exact ⟨lead, us, ss, rfl, before, derived, behind⟩
    | more _ _ _ rest => cases rest
  | chain => cases single

theorem Reads.mem_of_punctuation {start : Nat} {t : Text} {ts : List Token}
    (reads : Reads start t ts) {c : Char} :
    ∀ k ∈ ts, k.lexeme = .punctuation c → c ∈ t := by
  induction reads with
  | nil => exact fun k member => nomatch member
  | layout _ _ ih => exact fun k member isOne => List.mem_cons_of_mem _ (ih k member isOne)
  | token spells _ _ ih =>
    refine List.forall_mem_cons.2 ⟨fun isOne => ?_, fun k member isOne => ?_⟩
    · dsimp only at isOne
      subst isOne
      cases spells
      exact List.mem_cons_self
    · exact List.mem_append_right _ (ih k member isOne)

end Grammar

open Grammar

/-- What is read from a text is a chain exactly if a semicolon parts its tokens. -/
theorem Expr.isChain_iff {source : Text} {e : Expr} (read : Expr.parse source = .ok e) :
    e.isChain = true ↔ Joined (tokens source) :=
  (Expr.parse_eq_ok_iff.1 read).2.isChain_iff

theorem Expr.isChain_of_not_mem {source : Text} {e : Expr} (absent : ';' ∉ source)
    (read : Expr.parse source = .ok e) : e.isChain = false := by
  rw [← Bool.not_eq_true, Expr.isChain_iff read]
  rintro ⟨us, s, vs, whole, isOne, -, -⟩
  have valid := (Expr.parse_eq_ok_iff.1 read).1
  have member : s ∈ tokens source := by simp [whole]
  exact absent ((reads_tokensFrom valid).mem_of_punctuation s member isOne)

end TemplateBinding
