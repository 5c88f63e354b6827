import TemplateBinding.Attribute.Template
import TemplateBinding.Proofs.Grammar.Acceptance
import TemplateBinding.Proofs.Grammar.Spelling

/-! The search for a closing brace reads an expression with rules of its own. They agree
with the tokens: behind every token the search has counted the braces among the tokens,
and is in no string. The grammar closes every brace that it opens. -/
namespace TemplateBinding.Grammar

/-- The number of open braces behind one more token. There is none behind a closing brace
with no open one. -/
def Lexeme.nest (depth : Nat) : Lexeme → Option Nat
  | .punctuation mark =>
    if mark = '{' then some (depth + 1)
    else if mark = '}' then if depth = 0 then none else some (depth - 1)
    else some depth
  | _ => some depth

def nested (depth : Nat) (ts : List Token) : Option Nat :=
  ts.foldlM (fun depth t => t.lexeme.nest depth) depth

def Balanced (ts : List Token) : Prop := ∀ depth, nested depth ts = some depth

theorem Balanced.nil : Balanced [] := fun _ => rfl

theorem Balanced.append {ts us : List Token} (first : Balanced ts) (second : Balanced us) :
    Balanced (ts ++ us) := by
  intro depth
  have first := first depth
  have second := second depth
  unfold nested at first second ⊢
  rw [List.foldlM_append, first]
  exact second

def Lexeme.isFlat (l : Lexeme) : Bool := l ≠ .punctuation '{' ∧ l ≠ .punctuation '}'

theorem Lexeme.nest_flat {l : Lexeme} (flat : l.isFlat = true) (depth : Nat) :
    l.nest depth = some depth := by
  cases l with
  | punctuation mark =>
    simp only [isFlat, ne_eq, punctuation.injEq, decide_eq_true_eq] at flat
    simp only [nest, if_neg flat.1, if_neg flat.2]
  | _ => rfl

theorem Balanced.cons {t : Token} {ts : List Token} (flat : t.lexeme.isFlat = true)
    (rest : Balanced ts) : Balanced (t :: ts) := by
  intro depth
  have rest := rest depth
  unfold nested at rest ⊢
  rw [List.foldlM_cons, t.lexeme.nest_flat flat]
  exact rest

theorem Balanced.braces {opened closed : Token} {ts : List Token}
    (isOpened : opened.lexeme = .punctuation '{') (inner : Balanced ts)
    (isClosed : closed.lexeme = .punctuation '}') : Balanced (opened :: (ts ++ [closed])) := by
  intro depth
  have inner := inner (depth + 1)
  have one : opened.lexeme.nest depth = some (depth + 1) := by rw [isOpened]; rfl
  have two : closed.lexeme.nest (depth + 1) = some depth := by rw [isClosed]; rfl
  unfold nested at inner ⊢
  rw [List.foldlM_cons, one, Option.bind_eq_bind, Option.bind_some, List.foldlM_append, inner]
  simp [two]

theorem IsKey.flat {l : Lexeme} {k : Key} (key : IsKey l k) : l.isFlat = true := by
  cases key <;> rfl

theorem flat_of_mem_precedence : ∀ level ∈ precedence, ∀ l ∈ level, l.isFlat = true := by decide

theorem flat_of_mem_signs : ∀ l ∈ signs, l.isFlat = true := by decide

theorem flat_of_eq {t : Token} {l : Lexeme} (isOne : t.lexeme = l) (flat : l.isFlat = true) :
    t.lexeme.isFlat = true := isOne ▸ flat

mutual

theorem Derives.balanced {p ts e} (derived : Derives p ts e) (regular : p.Regular) :
    Balanced ts := by
  match derived with
  | .unfiltered h | .unassigned h | .unprefixed h | .head h => exact h.balanced trivial
  | .operand h => exact h.balanced trivial
  | .unconditional h => exact h.balanced (List.suffix_refl _)
  | .tighter h => exact h.balanced regular.tighter
  | .filter h isBar isName given =>
    have rest := given.balanced.cons (flat_of_eq isName rfl)
    exact (h.balanced trivial).append (rest.cons (flat_of_eq isBar rfl))
  | .setProperty h isEquals value | .setKeyed h isEquals value =>
    exact (h.balanced trivial).append ((value.balanced trivial).cons (flat_of_eq isEquals rfl))
  | .conditional condition isMark yes isColon no =>
    have no := (no.balanced trivial).cons (flat_of_eq isColon rfl)
    have rest := ((yes.balanced trivial).append no).cons (flat_of_eq isMark rfl)
    exact (condition.balanced (List.suffix_refl _)).append rest
  | .binary left isOp right =>
    have flat := flat_of_mem_precedence _ regular.mem _ isOp
    exact (left.balanced regular).append ((right.balanced regular.tighter).cons flat)
  | .negation isMark h => exact (h.balanced trivial).cons (flat_of_eq isMark rfl)
  | .unary isSign h => exact (h.balanced trivial).cons (flat_of_mem_signs _ isSign)
  | .property h isPoint isName =>
    have name := Balanced.nil.cons (by rcases isName with isName | isName <;> rw [isName] <;> rfl)
    exact (h.balanced trivial).append (name.cons (flat_of_eq isPoint rfl))
  | .keyed h isOpened key isClosed =>
    have closed := Balanced.nil.cons (flat_of_eq isClosed rfl)
    have rest := ((key.balanced trivial).append closed).cons (flat_of_eq isOpened rfl)
    exact (h.balanced trivial).append rest
  | .call h isOpened args isClosed =>
    have closed := Balanced.nil.cons (flat_of_eq isClosed rfl)
    have rest := ((args.balanced trivial).append closed).cons (flat_of_eq isOpened rfl)
    exact (h.balanced trivial).append rest
  | .parenthesized isOpened inner isClosed =>
    have closed := Balanced.nil.cons (flat_of_eq isClosed rfl)
    exact ((inner.balanced trivial).append closed).cons (flat_of_eq isOpened rfl)
  | .array isOpened items isClosed =>
    have closed := Balanced.nil.cons (flat_of_eq isClosed rfl)
    exact ((items.balanced trivial).append closed).cons (flat_of_eq isOpened rfl)
  | .object isOpened inner isClosed => exact inner.balanced.braces isOpened isClosed
  | .constant isOne _ | .this isOne | .name isOne | .number isOne | .string isOne =>
    exact Balanced.nil.cons (flat_of_eq isOne rfl)

theorem Args.balanced {ts es} (derived : Args ts es) : Balanced ts := by
  match derived with
  | .none => exact .nil
  | .more isColon arg rest =>
    exact ((arg.balanced trivial).append rest.balanced).cons (flat_of_eq isColon rfl)

theorem Items.balanced {p ts es} (derived : Items p ts es) (regular : p.Regular) :
    Balanced ts := by
  match derived with
  | .none => exact .nil
  | .last h => exact h.balanced regular
  | .more h isComma rest _ =>
    exact (h.balanced regular).append ((rest.balanced regular).cons (flat_of_eq isComma rfl))

theorem Entries.balanced {ts kvs} (derived : Entries ts kvs) : Balanced ts := by
  match derived with
  | .none => exact .nil
  | .last key isColon value =>
    exact ((value.balanced trivial).cons (flat_of_eq isColon rfl)).cons key.flat
  | .more key isColon value isComma rest _ =>
    have behind := (value.balanced trivial).append (rest.balanced.cons (flat_of_eq isComma rfl))
    exact (behind.cons (flat_of_eq isColon rfl)).cons key.flat

end

theorem Semicolons.balanced {ss : List Token} (semicolons : Semicolons ss) : Balanced ss := by
  induction ss with
  | nil => exact .nil
  | cons s ss ih =>
    have rest := ih fun t member => semicolons t (List.mem_cons_of_mem _ member)
    exact rest.cons (flat_of_eq (semicolons s List.mem_cons_self) rfl)

theorem Sequence.balanced {ts es} (sequence : Sequence ts es) : Balanced ts := by
  induction sequence with
  | last derived semicolons => exact (derived.balanced trivial).append semicolons.balanced
  | more derived semicolons _ _ ih =>
    exact (derived.balanced trivial).append (semicolons.balanced.append ih)

theorem Whole.balanced {size ts e} (whole : Whole size ts e) : Balanced ts := by
  cases whole with
  | empty semicolons => exact semicolons.balanced
  | alone derived => exact derived.balanced trivial
  | single semicolons sequence _ => exact semicolons.balanced.append sequence.balanced
  | chain semicolons sequence _ _ => exact semicolons.balanced.append sequence.balanced

end TemplateBinding.Grammar

namespace TemplateBinding.Template

open Grammar

theorem closing?_append {s s' : Search} {t : Text} (ran : t.foldlM Search.step s = some s')
    (rest : Text) :
    closing? s (t ++ rest) =
      (closing? s' rest).map fun (source, after) => (t ++ source, after) := by
  induction t generalizing s with
  | nil =>
    cases ran
    simp
  | cons c cs ih =>
    rw [List.foldlM_cons, Option.bind_eq_bind, Option.bind_eq_some_iff] at ran
    obtain ⟨next, step, ran⟩ := ran
    rw [List.cons_append, closing?, step]
    simp only [ih ran, Option.map_map]
    rfl

def Search.outside (depth : Nat) : Search := ⟨depth, none, false⟩

def marks : List Char := ['\\', '\'', '"', '{', '}']

theorem step_unmarked {c : Char} (unmarked : c ∉ marks) (depth : Nat) :
    (Search.outside depth).step c = some (.outside depth) := by
  simp only [marks, List.mem_cons, List.not_mem_nil, or_false, not_or] at unmarked
  simp [Search.step, Search.outside, isQuote, unmarked]

theorem over_unmarked {t : Text} (unmarked : ∀ c ∈ t, c ∉ marks) (depth : Nat) :
    t.foldlM Search.step (.outside depth) = some (.outside depth) := by
  induction t with
  | nil => rfl
  | cons c cs ih =>
    rw [List.foldlM_cons, step_unmarked (unmarked c List.mem_cons_self), Option.bind_eq_bind,
      Option.bind_some]
    exact ih fun d member => unmarked d (List.mem_cons_of_mem _ member)

theorem unmarked_of_isNamePart {c : Char} (part : isNamePart c = true) : c ∉ marks := by
  have others : ∀ d ∈ marks, isNamePart d = false := List.all_iff_forall_prop.1 rfl
  intro member
  simp [others c member] at part

theorem unmarked_of_extendsRun {afterMark : Bool} {c : Char}
    (extends' : extendsRun afterMark c = true) : c ∉ marks := by
  have others : ∀ d ∈ marks, ∀ b, extendsRun b d = false := List.all_iff_forall_prop.1 rfl
  intro member
  simp [others c member afterMark] at extends'

theorem unmarked_of_numeralRun {afterMark : Bool} {s : Text}
    (run : numeralRun afterMark s = (s, [])) : ∀ c ∈ s, c ∉ marks := by
  induction s generalizing afterMark with
  | nil => simp
  | cons x s ih =>
    unfold numeralRun at run
    split at run
    · rename_i extends'
      simp only [Prod.mk.injEq, List.cons.injEq, true_and] at run
      exact List.forall_mem_cons.2 ⟨unmarked_of_extendsRun extends', ih (Prod.ext run.1 run.2)⟩
    · simp at run

/-- In a string the search waits for the quote that the string ends at, and skips what a
backslash hides. -/
theorem over_quotation {q : Char} {t : Text} {r : Quotation}
    (found : Quotation.read? q t = some r) (depth : Nat) :
    r.spelling.foldlM Search.step ⟨depth, some q, false⟩ = some (.outside depth) := by
  fun_induction Quotation.read? q t generalizing r with
  | case1 => cases found
  | case2 => cases found
  | case3 d ds ih =>
    obtain ⟨inner, read, rfl⟩ := Option.map_eq_some_iff.1 found
    simp [Search.step, ih read]
  | case4 cs other =>
    cases found
    simp [Search.step, other, Search.outside]
  | case5 c cs plain other ih =>
    obtain ⟨inner, read, rfl⟩ := Option.map_eq_some_iff.1 found
    simp [Search.step, plain, other, ih read]

theorem over_of_spells {l : Lexeme} {s : Text} (spells : Spells l s) (depth : Nat) :
    s.foldlM Search.step (.outside depth) = (l.nest depth).map .outside := by
  cases spells with
  | @identifier c cs start parts _ =>
    have named : isNamePart c = true := by simp [isNamePart, start]
    have parts : ∀ d ∈ c :: cs, isNamePart d = true := List.forall_mem_cons.2 ⟨named, parts⟩
    exact over_unmarked (fun d member => unmarked_of_isNamePart (parts d member)) depth
  | keyword member =>
    have unmarked : ∀ d ∈ keywords.flatten, d ∉ marks := List.all_iff_forall_prop.1 rfl
    exact over_unmarked (fun d part => unmarked d (List.mem_flatten_of_mem member part)) depth
  | number _ run _ => exact over_unmarked (unmarked_of_numeralRun run) depth
  | @punctuation c member =>
    simp only [List.foldlM_cons, List.foldlM_nil]
    by_cases isOpened : c = '{'
    · subst isOpened
      rfl
    · by_cases isClosed : c = '}'
      · subst isClosed
        cases depth <;> rfl
      · have others : ∀ d ∈ Grammar.punctuation, d ≠ '{' → d ≠ '}' → d ∉ marks :=
          List.all_iff_forall_prop.1 rfl
        rw [step_unmarked (others c member isOpened isClosed)]
        simp [Lexeme.nest, isOpened, isClosed]
  | @string q cs v quote read =>
    have plain : q ≠ '\\' := by
      rintro rfl
      cases quote
    have opened : (Search.outside depth).step q = some ⟨depth, some q, false⟩ := by
      simp [Search.step, Search.outside, plain, quote]
    rw [List.foldlM_cons, opened, Option.bind_eq_bind, Option.bind_some,
      over_quotation read]
    rfl
  | operator member =>
    have unmarked : ∀ d ∈ operators.flatten, d ∉ marks := List.all_iff_forall_prop.1 rfl
    exact over_unmarked (fun d part => unmarked d (List.mem_flatten_of_mem member part)) depth

theorem over_of_reads {start : Nat} {t : Text} {ts : List Token} (reads : Reads start t ts)
    (depth : Nat) :
    t.foldlM Search.step (.outside depth) = (nested depth ts).map .outside := by
  induction reads generalizing depth with
  | nil => rfl
  | @layout start c cs ts space _ ih =>
    have unmarked : ∀ d ∈ layout, d ∉ marks := List.all_iff_forall_prop.1 rfl
    have member : c ∈ layout := List.contains_iff_mem.1 space
    rw [List.foldlM_cons, step_unmarked (unmarked c member)]
    exact ih depth
  | @token start l s rest ts spells _ _ ih =>
    rw [List.foldlM_append, over_of_spells spells, nested, List.foldlM_cons]
    cases nest : l.nest depth with
    | none => rfl
    | some behind => exact ih behind

/-- An expression that is read ends, for the search, exactly at the brace behind it. -/
theorem closing?_of_parse {source : Text} {e : Expr} (accepted : Expr.parse source = .ok e)
    (after : Text) :
    closing? (.outside 0) (source ++ '}' :: after) = some (source, after) := by
  obtain ⟨valid, whole⟩ := Expr.parse_eq_ok_iff.1 accepted
  have ran := over_of_reads (reads_tokensFrom valid) 0
  rw [show nested 0 (tokensFrom 0 source) = some 0 from whole.balanced 0, Option.map_some] at ran
  have brace : (Search.outside 0).step '}' = none := rfl
  rw [closing?_append ran, closing?, brace]
  simp

end TemplateBinding.Template
