import TemplateBinding.Grammar.Descent

/-! The expression grammar as a relation between tokens and trees. It says what a phrase
is made of and nothing about how one is found: repetitions are left-recursive rules, and
no rule looks at the token behind its phrase. -/
namespace TemplateBinding.Grammar

def firstStart : List Token → Nat
  | [] => 0
  | t :: _ => t.start

def lastStop (passed : Nat) (ts : List Token) : Nat := ts.foldl (fun _ t => t.stop) passed

def spanOf (ts : List Token) : Span := ⟨firstStart ts, lastStop 0 ts⟩

def constants : List (Text × Literal) :=
  [("null", .null), ("undefined", .undefined), ("true", .boolean true), ("false", .boolean false)]

/-- The kinds of phrases, from loose to tight. A phrase of some levels of binary operators
has them between phrases that are prefixed. -/
inductive Phrase
  | filtered
  | expression
  | conditional
  | binary (levels : List (List Lexeme))
  | prefixed
  | member
  | primary

inductive IsKey : Lexeme → Key → Prop
  | identifier {x} : IsKey (.identifier x) ⟨x, false⟩
  | keyword {w} : IsKey (.keyword w) ⟨w, false⟩
  | string {v} : IsKey (.string v) ⟨v, true⟩

mutual

inductive Derives : Phrase → List Token → Expr → Prop
  | unfiltered {ts e} : Derives .expression ts e → Derives .filtered ts e
  | filter {ts us subject bar name x args} :
      Derives .filtered ts subject → bar.lexeme = .operator "|" → name.lexeme = .identifier x →
      Args us args →
      Derives .filtered (ts ++ bar :: name :: us)
        (.filter (spanOf (ts ++ bar :: name :: us)) subject x args)
  | unassigned {ts e} : Derives .conditional ts e → Derives .expression ts e
  | setProperty {ts us span receiver x equals value} :
      Derives .member ts (.property span receiver x) → equals.lexeme = .operator "=" →
      Derives .expression us value →
      Derives .expression (ts ++ equals :: us)
        (.setProperty (spanOf (ts ++ equals :: us)) receiver x value)
  | setKeyed {ts us span receiver key equals value} :
      Derives .member ts (.keyed span receiver key) → equals.lexeme = .operator "=" →
      Derives .expression us value →
      Derives .expression (ts ++ equals :: us)
        (.setKeyed (spanOf (ts ++ equals :: us)) receiver key value)
  | unconditional {ts e} : Derives (.binary precedence) ts e → Derives .conditional ts e
  | conditional {ts us vs condition mark yes colon no} :
      Derives (.binary precedence) ts condition → mark.lexeme = .operator "?" →
      Derives .expression us yes → colon.lexeme = .punctuation ':' →
      Derives .expression vs no →
      Derives .conditional (ts ++ mark :: (us ++ colon :: vs))
        (.conditional (spanOf (ts ++ mark :: (us ++ colon :: vs))) condition yes no)
  | operand {ts e} : Derives .prefixed ts e → Derives (.binary []) ts e
  | tighter {level levels ts e} :
      Derives (.binary levels) ts e → Derives (.binary (level :: levels)) ts e
  | binary {level levels ts us left op right} :
      Derives (.binary (level :: levels)) ts left → op.lexeme ∈ level →
      Derives (.binary levels) us right →
      Derives (.binary (level :: levels)) (ts ++ op :: us)
        (.binary (spanOf (ts ++ op :: us)) op.lexeme.text left right)
  | unprefixed {ts e} : Derives .member ts e → Derives .prefixed ts e
  | negation {ts mark e} :
      mark.lexeme = .operator "!" → Derives .prefixed ts e →
      Derives .prefixed (mark :: ts) (.negation (spanOf (mark :: ts)) e)
  | unary {ts sign e} :
      sign.lexeme ∈ signs → Derives .prefixed ts e →
      Derives .prefixed (sign :: ts) (.unary (spanOf (sign :: ts)) sign.lexeme.text e)
  | head {ts e} : Derives .primary ts e → Derives .member ts e
  | property {ts receiver point name x} :
      Derives .member ts receiver → point.lexeme = .punctuation '.' →
      name.lexeme = .identifier x ∨ name.lexeme = .keyword x →
      Derives .member (ts ++ [point, name]) (.property (spanOf (ts ++ [point, name])) receiver x)
  | keyed {ts us receiver opened key closed} :
      Derives .member ts receiver → opened.lexeme = .punctuation '[' →
      Derives .expression us key → closed.lexeme = .punctuation ']' →
      Derives .member (ts ++ opened :: (us ++ [closed]))
        (.keyed (spanOf (ts ++ opened :: (us ++ [closed]))) receiver key)
  | call {ts us callee opened args closed} :
      Derives .member ts callee → opened.lexeme = .punctuation '(' →
      Items .filtered us args → closed.lexeme = .punctuation ')' →
      Derives .member (ts ++ opened :: (us ++ [closed]))
        (.call (spanOf (ts ++ opened :: (us ++ [closed]))) callee args)
  | parenthesized {us opened e closed} :
      opened.lexeme = .punctuation '(' → Derives .filtered us e →
      closed.lexeme = .punctuation ')' →
      Derives .primary (opened :: (us ++ [closed]))
        (.parenthesized (spanOf (opened :: (us ++ [closed]))) e)
  | array {us opened es closed} :
      opened.lexeme = .punctuation '[' → Items .expression us es →
      closed.lexeme = .punctuation ']' →
      Derives .primary (opened :: (us ++ [closed]))
        (.array (spanOf (opened :: (us ++ [closed]))) es)
  | object {us opened kvs closed} :
      opened.lexeme = .punctuation '{' → Entries us kvs →
      closed.lexeme = .punctuation '}' →
      Derives .primary (opened :: (us ++ [closed]))
        (.object (spanOf (opened :: (us ++ [closed]))) (kvs.map (·.1)) (kvs.map (·.2)))
  | constant {t word value} :
      t.lexeme = .keyword word → (word, value) ∈ constants →
      Derives .primary [t] (.literal (spanOf [t]) value)
  | this {t} : t.lexeme = .keyword "this" → Derives .primary [t] (.explicitThis (spanOf [t]))
  | name {t x} :
      t.lexeme = .identifier x →
      Derives .primary [t] (.property (spanOf [t]) (.implicitThis ⟨t.start, t.start⟩) x)
  | number {t value spelling} :
      t.lexeme = .number value spelling →
      Derives .primary [t] (.literal (spanOf [t]) (.number value))
  | string {t value} :
      t.lexeme = .string value →
      Derives .primary [t] (.literal (spanOf [t]) (.string value))

inductive Args : List Token → List Expr → Prop
  | none : Args [] []
  | more {us vs colon arg args} :
      colon.lexeme = .punctuation ':' → Derives .expression us arg → Args vs args →
      Args (colon :: (us ++ vs)) (arg :: args)

inductive Items : Phrase → List Token → List Expr → Prop
  | none {p} : Items p [] []
  | last {p ts e} : Derives p ts e → Items p ts [e]
  | more {p ts us comma e es} :
      Derives p ts e → comma.lexeme = .punctuation ',' → Items p us es → es ≠ [] →
      Items p (ts ++ comma :: us) (e :: es)

inductive Entries : List Token → List (Key × Expr) → Prop
  | none : Entries [] []
  | last {key k colon us e} :
      IsKey key.lexeme k → colon.lexeme = .punctuation ':' → Derives .expression us e →
      Entries (key :: colon :: us) [(k, e)]
  | more {key k colon us e comma vs kvs} :
      IsKey key.lexeme k → colon.lexeme = .punctuation ':' → Derives .expression us e →
      comma.lexeme = .punctuation ',' → Entries vs kvs → kvs ≠ [] →
      Entries (key :: colon :: (us ++ comma :: vs)) ((k, e) :: kvs)

end

def Semicolons (ts : List Token) : Prop := ∀ t ∈ ts, t.lexeme = .punctuation ';'

/-- Items with any number of semicolons behind them, and at least one between any two. -/
inductive Sequence : List Token → List Expr → Prop
  | last {ts ss e} : Derives .filtered ts e → Semicolons ss → Sequence (ts ++ ss) [e]
  | more {ts ss us e es} :
      Derives .filtered ts e → Semicolons ss → ss ≠ [] → Sequence us es →
      Sequence (ts ++ (ss ++ us)) (e :: es)

/-- All the tokens of a text of `size` bytes. The application of a filter stands alone;
where there are semicolons, no item is one. -/
inductive Whole (size : Nat) : List Token → Expr → Prop
  | empty {ss} : Semicolons ss → Whole size ss (.empty ⟨0, size⟩)
  | alone {ts e} : Derives .filtered ts e → Whole size ts e
  | single {lead us e} :
      Semicolons lead → Sequence us [e] → e.isFilter = false → Whole size (lead ++ us) e
  | chain {lead us es} :
      Semicolons lead → Sequence us es → 1 < es.length → (∀ e ∈ es, e.isFilter = false) →
      Whole size (lead ++ us) (.chain (spanOf (lead ++ us)) es)

theorem Derives.ne_nil {p ts e} : Derives p ts e → ts ≠ []
  | .unfiltered h | .unassigned h | .unconditional h | .operand h | .tighter h | .unprefixed h
  | .head h => h.ne_nil
  | .filter .. | .setProperty .. | .setKeyed .. | .conditional .. | .binary .. | .negation ..
  | .unary .. | .property .. | .keyed .. | .call .. | .parenthesized .. | .array .. | .object ..
  | .constant .. | .this .. | .name .. | .number .. | .string .. => by simp

theorem Sequence.ne_nil {ts es} (sequence : Sequence ts es) : ts ≠ [] := by
  cases sequence with
  | last derived _ => simp [derived.ne_nil]
  | more derived _ _ _ => simp [derived.ne_nil]

theorem Sequence.items_ne_nil {ts es} (sequence : Sequence ts es) : es ≠ [] := by
  cases sequence <;> simp

theorem Derives.entries {p ts e span ks vs} (derived : Derives p ts e)
    (isObject : e = .object span ks vs) :
    ∃ opened us closed kvs, ts = opened :: (us ++ [closed]) ∧
      opened.lexeme = .punctuation '{' ∧ closed.lexeme = .punctuation '}' ∧ Entries us kvs ∧
      ks = kvs.map (·.1) ∧ vs = kvs.map (·.2) := by
  match derived with
  | .unfiltered h | .unassigned h | .unconditional h | .operand h | .tighter h | .unprefixed h
  | .head h => exact h.entries isObject
  | .object isOpened inner isClosed =>
    cases isObject
    exact ⟨_, _, _, _, rfl, isOpened, isClosed, inner, rfl, rfl⟩
  | .filter .. | .setProperty .. | .setKeyed .. | .conditional .. | .binary .. | .negation ..
  | .unary .. | .property .. | .keyed .. | .call .. | .parenthesized .. | .array ..
  | .constant .. | .this .. | .name .. | .number .. | .string .. => cases isObject

theorem Entries.keys {ts kvs} (entries : Entries ts kvs) :
    ∀ kv ∈ kvs, ∃ t ∈ ts, IsKey t.lexeme kv.1 := by
  match entries with
  | .none => exact nofun
  | .last isKey _ _ =>
    intro kv member
    rw [List.mem_singleton.1 member]
    exact ⟨_, List.mem_cons_self, isKey⟩
  | .more isKey _ _ _ rest _ =>
    refine List.forall_mem_cons.2 ⟨⟨_, List.mem_cons_self, isKey⟩, fun kv member => ?_⟩
    obtain ⟨t, inside, isKey'⟩ := rest.keys kv member
    exact ⟨t, by simp [inside], isKey'⟩

theorem Derives.member_of_assignable {p ts e} (derived : Derives p ts e)
    (assignable : e.isAssignable = true) : Derives .member ts e := by
  match derived with
  | .unfiltered h | .unassigned h | .unconditional h | .operand h | .tighter h | .unprefixed h =>
    exact h.member_of_assignable assignable
  | .head h => exact .head h
  | .name h => exact .head (.name h)
  | .property h isPoint isName => exact .property h isPoint isName
  | .keyed h isOpened inner isClosed => exact .keyed h isOpened inner isClosed
  | .filter .. | .setProperty .. | .setKeyed .. | .conditional .. | .binary .. | .negation ..
  | .unary .. | .call .. | .parenthesized .. | .array .. | .object .. | .constant .. | .this ..
  | .number .. | .string .. => cases assignable

end TemplateBinding.Grammar
