import TemplateBinding.Proofs.Expr.Printing

/-! The keys of an object literal, printed and read again. A quoted key is printed as it is, but
read with its escapes. -/
namespace TemplateBinding

inductive Expr.IsAtom : Expr → Prop
  | number {span x} : x.isFinite = true → IsAtom (.literal span (.number x))
  | name {span here x} : IsAtom (.property span (.implicitThis here) x)

namespace Grammar

theorem unescape_eq_backslash {d : Char} (same : unescape d = '\\') : d = '\\' := by
  unfold unescape at same
  split at same
  case h_4 => exact same
  all_goals cases same

namespace Quotation

/-- What is put between quotes as it is and read as itself has neither backslashes nor quotes in it.
A backslash that is read makes the value fall behind the text by one, and as the text has to go on
with what is missing, by more and more. -/
theorem plain_of_read? {y r : Text} {n : Nat} {q : Quotation}
    (found : read? '\'' (y ++ '\'' :: r) = some q)
    (value : q.value = List.replicate n '\\' ++ y) : n = 0 ∧ '\\' ∉ y ∧ '\'' ∉ y := by
  generalize whole : y ++ '\'' :: r = t at found
  fun_induction read? '\'' t generalizing y n q with
  | case1 => cases found
  | case2 => cases found
  | case3 d ds ih =>
    obtain ⟨inner, read, rfl⟩ := Option.map_eq_some_iff.1 found
    have further (y : Text) :
        List.replicate n '\\' ++ '\\' :: y = '\\' :: (List.replicate n '\\' ++ y) := by
      rw [List.append_cons, ← List.replicate_succ', List.replicate_succ, List.cons_append]
    cases y with
    | nil => cases whole
    | cons c y =>
      simp only [List.cons_append, List.cons.injEq] at whole
      obtain ⟨rfl, rest⟩ := whole
      simp only [further, List.cons.injEq] at value
      obtain rfl := unescape_eq_backslash value.1
      cases y with
      | nil => cases rest
      | cons d y =>
        simp only [List.cons_append, List.cons.injEq] at rest
        obtain ⟨rfl, rest⟩ := rest
        have later : inner.value = List.replicate (n + 1) '\\' ++ y := by
          rw [value.2, further, List.replicate_succ, List.cons_append]
        exact absurd (ih later rest read).1 (Nat.succ_ne_zero n)
  | case4 cs other =>
    cases found
    have none : y = [] := (List.append_eq_nil_iff.1 value.symm).2
    have zero : n = 0 := by simpa [none] using value
    subst none
    exact ⟨zero, List.not_mem_nil, List.not_mem_nil⟩
  | case5 c cs plain other ih =>
    obtain ⟨inner, read, rfl⟩ := Option.map_eq_some_iff.1 found
    cases y with
    | nil => exact absurd (List.cons.inj whole).1.symm other
    | cons d y =>
      simp only [List.cons_append, List.cons.injEq] at whole
      obtain ⟨rfl, rest⟩ := whole
      cases n with
      | succ n =>
        rw [List.replicate_succ, List.cons_append] at value
        exact absurd (List.cons.inj value).1 plain
      | zero =>
        have later : inner.value = List.replicate 0 '\\' ++ y := (List.cons.inj value).2
        obtain ⟨-, unescaped, unquoted⟩ := ih later rest read
        simp [Ne.symm plain, Ne.symm other, unescaped, unquoted]

end Quotation

def Lexeme.isAtom : Lexeme → Bool
  | .number x _ => x.isFinite
  | .identifier _ => true
  | _ => false

theorem number_not_mem_constants {word : Text} {x : Binary64} :
    (word, .number x) ∉ constants := by
  simp [constants]

theorem Derives.atom {p ts e} (derived : Derives p ts e) (atom : e.IsAtom) :
    ∃ t, ts = [t] ∧ t.lexeme.isAtom = true ∧ e.print = t.lexeme.printed := by
  match derived with
  | .unfiltered h | .unassigned h | .unconditional h | .operand h | .tighter h | .unprefixed h
  | .head h => exact h.atom atom
  | .property inner _ _ =>
    cases atom with
    | name => exact absurd inner.written Bool.noConfusion
  | .constant _ member =>
    cases atom with
    | number _ => exact absurd member number_not_mem_constants
  | .name isName => exact ⟨_, rfl, by rw [isName]; rfl, by rw [isName]; rfl⟩
  | .number isNumber =>
    cases atom with
    | number finite => exact ⟨_, rfl, by rw [isNumber]; exact finite, by rw [isNumber]; rfl⟩
  | .filter .. | .setProperty .. | .setKeyed .. | .conditional .. | .binary .. | .negation ..
  | .unary .. | .keyed .. | .call .. | .parenthesized .. | .array .. | .object .. | .this ..
  | .string .. => cases atom

def Continued (ts : List Token) : Prop :=
  ∀ t u us, ts = t :: u :: us → t.lexeme.isAtom = true → u.lexeme ≠ .punctuation ','

theorem Continued.append {ts us : List Token} {op : Token} (continued : Continued ts)
    (some : ts ≠ []) (other : op.lexeme ≠ .punctuation ',') : Continued (ts ++ op :: us) := by
  obtain ⟨t, ts, rfl⟩ := List.exists_cons_of_ne_nil some
  intro v w ws same atom
  cases ts with
  | nil =>
    cases same
    exact other
  | cons u ts =>
    cases same
    exact continued _ _ _ rfl atom

theorem Continued.cons {t : Token} (other : t.lexeme.isAtom = false) (ts : List Token) :
    Continued (t :: ts) := by
  intro v w ws same atom
  cases same
  rw [other] at atom
  cases atom

theorem Continued.single (t : Token) : Continued [t] := nofun

theorem Derives.continued {p ts e} (derived : Derives p ts e) (regular : p.Regular) :
    Continued ts := by
  match derived with
  | .unfiltered h | .unassigned h | .operand h | .unprefixed h | .head h =>
    exact h.continued trivial
  | .unconditional h => exact h.continued List.suffix_rfl
  | .tighter h => exact h.continued regular.tighter
  | .filter h isBar _ _ => exact (h.continued trivial).append h.ne_nil (by simp [isBar])
  | .setProperty h isEquals _ | .setKeyed h isEquals _ =>
    exact (h.continued trivial).append h.ne_nil (by simp [isEquals])
  | .conditional h isMark _ _ _ =>
    exact (h.continued List.suffix_rfl).append h.ne_nil (by simp [isMark])
  | .binary h isOp _ =>
    have other : ∀ level ∈ precedence, ∀ l ∈ level, l ≠ .punctuation ',' := by decide
    exact (h.continued regular).append h.ne_nil (other _ regular.mem _ isOp)
  | .property h isPoint _ => exact (h.continued trivial).append h.ne_nil (by simp [isPoint])
  | .keyed h isOpened _ _ | .call h isOpened _ _ =>
    exact (h.continued trivial).append h.ne_nil (by simp [isOpened])
  | .negation isMark _ => exact .cons (by rw [isMark]; rfl) _
  | .unary isSign _ =>
    have other : ∀ l ∈ signs, l.isAtom = false := by decide
    exact .cons (other _ isSign) _
  | .parenthesized isOpened _ _ | .array isOpened _ _ | .object isOpened _ _ =>
    exact .cons (by rw [isOpened]; rfl) _
  | .constant .. | .this .. | .name .. | .number .. | .string .. => exact .single _

theorem plain_of_key {k : Key} {l : Lexeme} {ls : List Lexeme} {rest : Text}
    (found : lexemes (k.print ++ rest) = l :: ls) (isKey : IsKey l k) (quoted : k.quoted = true) :
    '\\' ∉ k.text ∧ '\'' ∉ k.text := by
  cases isKey with
  | identifier | keyword => cases quoted
  | @string v =>
    have quote : isQuote '\'' = true := by decide
    have text : (Key.mk v true).print ++ rest = '\'' :: (v ++ '\'' :: rest) := by
      simp [Key.print]
    rw [text, lexemes, tokens_quotation quote, List.map_cons] at found
    have first := (List.cons.inj found).1
    unfold Piece.quotation at first
    cases read : Quotation.read? '\'' (v ++ '\'' :: rest) with
    | none =>
      rw [read] at first
      cases first
    | some q =>
      rw [read] at first
      have value : q.value = List.replicate 0 '\\' ++ v := Lexeme.string.inj first
      exact (Quotation.plain_of_read? read value).2

structure Steady (l : Lexeme) : Prop where
  unescaped : ∀ v, l = .string v → '\\' ∉ v
  finite : ∀ x spelling, l = .number x spelling → x.isFinite = true
  unpointed : l ≠ .punctuation '.'

theorem Steady.mark {l : Lexeme} {c : Char} (isMark : l = .punctuation c) (plain : c ≠ '.') :
    Steady l := by
  subst isMark
  exact ⟨nofun, nofun, fun point => plain (Lexeme.punctuation.inj point)⟩

theorem Steady.key {l : Lexeme} {k : Key} (isKey : IsKey l k)
    (plain : k.quoted = true → '\\' ∉ k.text) : Steady l := by
  cases isKey with
  | identifier | keyword => exact ⟨nofun, nofun, nofun⟩
  | string =>
    refine ⟨fun v isString => ?_, nofun, nofun⟩
    cases isString
    exact plain rfl

theorem Steady.atom {l : Lexeme} (atom : l.isAtom = true) : Steady l := by
  cases l with
  | number x spelling =>
    refine ⟨nofun, fun y spelling' isNumber => ?_, nofun⟩
    cases isNumber
    exact atom
  | identifier x => exact ⟨nofun, nofun, nofun⟩
  | _ => cases atom

theorem Steady.printable {l : Lexeme} {s : Text} (steady : Steady l) (spells : Spells l s) :
    l.Printable := spells.printable steady.unescaped steady.finite

theorem Entries.steady {ts kvs} (entries : Entries ts kvs) (atoms : ∀ kv ∈ kvs, kv.2.IsAtom)
    (plain : ∀ kv ∈ kvs, kv.1.quoted = true → '\\' ∉ kv.1.text) : ∀ t ∈ ts, Steady t.lexeme := by
  match entries with
  | .none => exact nofun
  | .last isKey isColon value =>
    obtain ⟨t, rfl, atom, -⟩ := value.atom (atoms _ List.mem_cons_self)
    simp only [List.forall_mem_cons]
    exact ⟨.key isKey (plain _ List.mem_cons_self), .mark isColon (by decide), .atom atom, nofun⟩
  | .more isKey isColon value isComma rest _ =>
    obtain ⟨first, others⟩ := List.forall_mem_cons.1 atoms
    obtain ⟨own, plain'⟩ := List.forall_mem_cons.1 plain
    obtain ⟨t, rfl, atom, -⟩ := value.atom first
    simp only [List.singleton_append, List.forall_mem_cons]
    exact ⟨.key isKey own, .mark isColon (by decide), .atom atom, .mark isComma (by decide),
      rest.steady others plain'⟩

theorem lexemes_key {l : Lexeme} {k : Key} {s rest : Text} (spells : Spells l s)
    (isKey : IsKey l k) (plain : k.quoted = true → '\\' ∉ k.text ∧ '\'' ∉ k.text) :
    lexemes (k.print ++ ':' :: ' ' :: rest) =
      l.canonical :: .punctuation ':' :: lexemes rest := by
  have printable := (Steady.key isKey fun quoted => (plain quoted).1).printable spells
  have parted : Parted l.canonical (':' :: ' ' :: rest) := by
    intro c head
    cases head
    exact extendedBy_separator (by decide) l
  rw [isKey.print fun quoted => (plain quoted).2, lexemes_spelled printable parted,
    lexemes_mark (by decide) (by decide), lexemes_blank]

theorem Entries.first {ts kvs k ks} (entries : Entries ts kvs) (keys : kvs.map (·.1) = k :: ks) :
    ∃ key us, ts = key :: us ∧ IsKey key.lexeme k := by
  cases entries with
  | none => cases keys
  | last isKey _ _ | more isKey _ _ _ _ _ =>
    cases keys
    exact ⟨_, _, rfl, isKey⟩

theorem Entries.plain {ts kvs} (entries : Entries ts kvs) (atoms : ∀ kv ∈ kvs, kv.2.IsAtom)
    (spelled : ∀ t ∈ ts, ∃ s, Spells t.lexeme s) {us kvs'} (again : Entries us kvs')
    (same : kvs'.map (·.1) = kvs.map (·.1)) {rest : Text} {ls : List Lexeme}
    (found : lexemes (entriesText kvs ++ '\x7d' :: rest) = us.map Token.lexeme ++ ls) :
    ∀ kv ∈ kvs, kv.1.quoted = true → '\\' ∉ kv.1.text ∧ '\'' ∉ kv.1.text := by
  match entries with
  | .none => exact nofun
  | @Entries.last key k colon vs e isKey isColon value =>
    have text : entriesText [(k, e)] ++ '\x7d' :: rest =
        k.print ++ (':' :: ' ' :: (e.print ++ '\x7d' :: rest)) := by
      simp [entriesText, Expr.printEntries, Text.join]
    obtain ⟨key', us, rfl, isKey'⟩ := again.first same
    rw [text] at found
    exact List.forall_mem_singleton.2 (plain_of_key found isKey')
  | @Entries.more key k colon vs e comma ws kvs isKey isColon value isComma others several =>
    obtain ⟨first, atoms'⟩ := List.forall_mem_cons.1 atoms
    obtain ⟨t, rfl, atom, printed⟩ := value.atom first
    simp only [List.singleton_append, List.forall_mem_cons] at spelled
    obtain ⟨⟨s, spells⟩, -, ⟨s', spells'⟩, -, spelled'⟩ := spelled
    rw [entriesText_cons several, List.append_assoc, List.cons_append, List.cons_append,
      List.append_assoc, List.cons_append, List.cons_append] at found
    obtain ⟨key', us, rfl, isKey'⟩ := again.first same
    have plain := plain_of_key found isKey'
    have parted :
        Parted t.lexeme.canonical (',' :: ' ' :: (entriesText kvs ++ '\x7d' :: rest)) := by
      intro c head
      cases head
      exact extendedBy_separator (by decide) t.lexeme
    rw [lexemes_key spells isKey plain, printed,
      lexemes_spelled ((Steady.atom atom).printable spells') parted,
      lexemes_mark (by decide) (by decide), lexemes_blank] at found
    refine List.forall_mem_cons.2 ⟨plain, ?_⟩
    cases again with
    | last _ _ _ =>
      simp only [List.map_cons, List.map_nil, List.cons.injEq] at same
      exact absurd (List.map_eq_nil_iff.1 same.2.symm) several
    | @more _ _ colon' vs _ comma' ws' kvs' _ _ value' isComma' again _ =>
      have same' : kvs'.map (·.1) = kvs.map (·.1) := (List.cons.inj same).2
      -- The value is over at the comma, where the next entry begins.
      obtain ⟨v, vs, rfl⟩ := List.exists_cons_of_ne_nil value'.ne_nil
      simp only [List.map_append, List.map_cons, List.cons_append, List.cons.injEq] at found
      obtain ⟨-, -, own, found⟩ := found
      cases vs with
      | nil =>
        simp only [List.map_nil, List.nil_append, List.cons_append, List.cons.injEq] at found
        exact others.plain atoms' spelled' again same' found.2
      | cons w vs =>
        simp only [List.map_cons, List.cons_append, List.cons.injEq] at found
        have atom' : v.lexeme.isAtom = true := by
          rw [← own]
          cases lexeme : t.lexeme <;> rw [lexeme] at atom <;> exact atom
        exact absurd found.1.symm (value'.continued trivial v w vs rfl atom')

theorem Whole.entries {size ts s ks vs} (whole : Whole size ts (.object s ks vs)) :
    ∃ lead opened us closed ss kvs, ts = lead ++ (opened :: (us ++ [closed]) ++ ss) ∧
      Semicolons lead ∧ Semicolons ss ∧ opened.lexeme = .punctuation '{' ∧
      closed.lexeme = .punctuation '}' ∧ Entries us kvs ∧
      ks = kvs.map (·.1) ∧ vs = kvs.map (·.2) := by
  obtain ⟨lead, phrase, ss, rfl, before, derived, behind⟩ := whole.phrase rfl nofun
  obtain ⟨opened, us, closed, kvs, rfl, isOpened, isClosed, entries, keys, values⟩ :=
    derived.entries rfl
  exact ⟨lead, opened, us, closed, ss, kvs, rfl, before, behind, isOpened, isClosed, entries,
    keys, values⟩

theorem Semicolons.steady {ss : List Token} (semicolons : Semicolons ss) :
    ∀ t ∈ ss, Steady t.lexeme := fun t member => .mark (semicolons t member) (by decide)

theorem Whole.steady {size ts s ks vs} (whole : Whole size ts (.object s ks vs))
    (atoms : ∀ v ∈ vs, v.IsAtom) (plain : ∀ k ∈ ks, k.quoted = true → '\\' ∉ k.text) :
    ∀ t ∈ ts, Steady t.lexeme := by
  obtain ⟨lead, opened, us, closed, ss, kvs, rfl, before, behind, isOpened, isClosed, entries,
    rfl, rfl⟩ := whole.entries
  have inner := entries.steady (List.forall_mem_map.1 atoms) (List.forall_mem_map.1 plain)
  simp only [List.forall_mem_append, List.forall_mem_cons]
  exact ⟨before.steady, ⟨.mark isOpened (by decide), inner, .mark isClosed (by decide), nofun⟩,
    behind.steady⟩

theorem tidy_of_steady {ts : List Token} (spelled : ∀ t ∈ ts, ∃ s, Spells t.lexeme s)
    (steady : ∀ t ∈ ts, Steady t.lexeme) : Tidy ts := by
  constructor
  · intro t member
    obtain ⟨s, spells⟩ := spelled t member
    exact (steady t member).printable spells
  · intro x y pair _
    have member : y ∈ ts := pair.subset (by simp)
    exact (steady y member).unpointed

theorem quotable_of_atoms {s : Span} {ks : List Key} {vs : List Expr}
    (atoms : ∀ v ∈ vs, v.IsAtom)
    (plain : ∀ k ∈ ks, k.quoted = true → '\\' ∉ k.text ∧ '\'' ∉ k.text) :
    Quotable (.object s ks vs) := by
  intro s' ks' vs' inside
  cases inside with
  | here => exact plain
  | under child below =>
    cases atoms _ child with
    | number _ => cases below.eq_of_leaf rfl
    | name =>
      cases below with
      | under child' below' =>
        cases List.mem_singleton.1 child'
        cases below'.eq_of_leaf rfl

theorem Whole.plain {size ts s ks vs} (whole : Whole size ts (.object s ks vs))
    (atoms : ∀ v ∈ vs, v.IsAtom) (spelled : ∀ t ∈ ts, ∃ s, Spells t.lexeme s) {size' s' vs'}
    (again : Whole size' (tokens (Expr.object s ks vs).print) (.object s' ks vs')) :
    ∀ k ∈ ks, k.quoted = true → '\\' ∉ k.text ∧ '\'' ∉ k.text := by
  obtain ⟨lead, opened, us, closed, ss, kvs, rfl, -, -, -, -, entries, rfl, rfl⟩ := whole.entries
  obtain ⟨lead', opened', us', closed', ss', kvs', split, before, -, -, -, entries', same, -⟩ :=
    again.entries
  have text : (Expr.object s (kvs.map (·.1)) (kvs.map (·.2))).print =
      '{' :: (entriesText kvs ++ '\x7d' :: []) := by
    simp [Expr.print, entriesText]
  have found := lexemes_mark (c := '{') (by decide) (by decide) (entriesText kvs ++ '\x7d' :: [])
  rw [← text, lexemes, split] at found
  cases lead' with
  | cons k lead' =>
    have semicolon := before k List.mem_cons_self
    rw [List.cons_append, List.map_cons, semicolon] at found
    cases (List.cons.inj found).1
  | nil =>
    simp only [List.nil_append, List.cons_append, List.append_assoc, List.map_cons,
      List.map_append, List.cons.injEq] at found
    have spelled' : ∀ t ∈ us, ∃ s, Spells t.lexeme s := fun t member => spelled t (by simp [member])
    exact List.forall_mem_map.2 (entries.plain (List.forall_mem_map.1 atoms) spelled' entries'
      same.symm found.2.symm)

end Grammar

namespace Expr

open Grammar

theorem parse_print_of_tidy {size : Nat} {ts : List Token} {e : Expr} (whole : Whole size ts e)
    (tidy : Tidy ts) (quotable : Quotable e) :
    ∃ f, Expr.parse e.print = .ok f ∧ f.bare = e.bare := by
  obtain ⟨us, f, whole', same, fewer, printed⟩ := whole.lexemes_print tidy quotable
  have alike : Alike (fun _ => 0) (fun _ => 0) us (tokens e.print) := by
    have seen := congrArg (List.map fun l => ((⟨0, 0⟩ : Span), l.unspelled)) printed
    simp only [lexemes, respelled, List.map_map, Function.comp_def,
      Lexeme.unspelled_canonical] at seen
    exact seen
  have printable : ∀ l ∈ respelled us, l.isInvalid = false :=
    List.forall_mem_map.2 fun u member => (tidy.printable u (fewer member)).valid
  rw [← printed] at printable
  obtain ⟨g, read, same'⟩ := whole'.along alike
  exact ⟨g, Expr.parse_eq_ok_iff.2 ⟨List.forall_mem_map.1 printable, read⟩, same'.trans same⟩

/-- An object literal of numbers and names keeps its keys, in their order, exactly if no key between
quotes has a backslash or a quote in it. -/
theorem parse_print_keys_iff {t : Text} {s : Span} {ks : List Key} {vs : List Expr}
    (accepted : Expr.parse t = .ok (.object s ks vs)) (atoms : ∀ v ∈ vs, v.IsAtom) :
    (∃ s' vs', Expr.parse (Expr.object s ks vs).print = .ok (.object s' ks vs')) ↔
      ∀ k ∈ ks, k.quoted = true → '\\' ∉ k.text ∧ '\'' ∉ k.text := by
  obtain ⟨valid, whole⟩ := Expr.parse_eq_ok_iff.1 accepted
  have spelled := (reads_tokensFrom valid).spelled
  constructor
  · rintro ⟨s', vs', again⟩
    obtain ⟨-, whole'⟩ := Expr.parse_eq_ok_iff.1 again
    exact whole.plain atoms spelled whole'
  · intro plain
    have steady := whole.steady atoms fun k member quoted => (plain k member quoted).1
    obtain ⟨b, again, bare⟩ := parse_print_of_tidy whole (tidy_of_steady spelled steady)
      (quotable_of_atoms atoms plain)
    cases b with
    | object s' ks' vs' =>
      simp only [Expr.bare, Expr.move, Expr.object.injEq] at bare
      obtain ⟨-, rfl, -⟩ := bare
      exact ⟨s', vs', again⟩
    | _ => cases bare

theorem parse_print_keys_blank :
    ∃ s vs s' vs',
      Expr.parse "\x7b'a b': 1.50, c: d\x7d" =
        .ok (.object s [⟨"a b", true⟩, ⟨"c", false⟩] vs) ∧
      Expr.parse (Expr.object s [⟨"a b", true⟩, ⟨"c", false⟩] vs).print =
        .ok (.object s' [⟨"a b", true⟩, ⟨"c", false⟩] vs') := by
  generalize value : Binary64.ofDecimal ⟨150, -2⟩ = x
  have found : tokens "\x7b'a b': 1.50, c: d\x7d" =
      [⟨0, 1, .punctuation '{'⟩, ⟨1, 6, .string "a b"⟩, ⟨6, 7, .punctuation ':'⟩,
        ⟨8, 12, .number x "1.50"⟩, ⟨12, 13, .punctuation ','⟩, ⟨14, 15, .identifier "c"⟩,
        ⟨15, 16, .punctuation ':'⟩, ⟨17, 18, .identifier "d"⟩, ⟨18, 19, .punctuation '}'⟩] := by
    rw [← value]
    decide +kernel
  have number : Derives .primary [⟨8, 12, .number x "1.50"⟩] (.literal ⟨8, 12⟩ (.number x)) :=
    .number rfl
  have name : Derives .primary [⟨17, 18, .identifier "d"⟩]
      (.property ⟨17, 18⟩ (.implicitThis ⟨17, 17⟩) "d") := .name rfl
  have last : Entries
      [⟨14, 15, .identifier "c"⟩, ⟨15, 16, .punctuation ':'⟩, ⟨17, 18, .identifier "d"⟩]
      [(⟨"c", false⟩, .property ⟨17, 18⟩ (.implicitThis ⟨17, 17⟩) "d")] :=
    .last .identifier rfl (name.expression trivial nofun)
  have entries : Entries
      (⟨1, 6, .string "a b"⟩ :: ⟨6, 7, .punctuation ':'⟩ :: ([⟨8, 12, .number x "1.50"⟩] ++
        ⟨12, 13, .punctuation ','⟩ :: [⟨14, 15, .identifier "c"⟩, ⟨15, 16, .punctuation ':'⟩,
          ⟨17, 18, .identifier "d"⟩]))
      [(⟨"a b", true⟩, .literal ⟨8, 12⟩ (.number x)),
        (⟨"c", false⟩, .property ⟨17, 18⟩ (.implicitThis ⟨17, 17⟩) "d")] :=
    .more .string rfl (number.expression trivial nofun) rfl last (List.cons_ne_nil _ _)
  have derived : Derives .primary (⟨0, 1, .punctuation '{'⟩ :: (_ ++ [⟨18, 19, .punctuation '}'⟩]))
      (.object ⟨0, 19⟩ [⟨"a b", true⟩, ⟨"c", false⟩] _) := .object rfl entries rfl
  have accepted : Expr.parse "\x7b'a b': 1.50, c: d\x7d" =
      .ok (.object ⟨0, 19⟩ [⟨"a b", true⟩, ⟨"c", false⟩]
        [.literal ⟨8, 12⟩ (.number x), .property ⟨17, 18⟩ (.implicitThis ⟨17, 17⟩) "d"]) := by
    rw [Expr.parse_eq_ok_iff, found]
    exact ⟨by simp [Lexeme.isInvalid], .alone (derived.loosen trivial)⟩
  have finite : x.isFinite = true := by
    rw [← value]
    decide +kernel
  have keeps := parse_print_keys_iff accepted
    (List.forall_mem_cons.2 ⟨.number finite, List.forall_mem_singleton.2 .name⟩)
  obtain ⟨s', vs', again⟩ := keeps.2 (by decide)
  exact ⟨_, _, s', vs', accepted, again⟩

/-- The quote in the key ends it. -/
theorem parse_print_keys_quote :
    ¬ ∀ (t : Text) (s : Span) (ks : List Key) (vs : List Expr),
      Expr.parse t = .ok (.object s ks vs) → (∀ v ∈ vs, v.IsAtom) →
        ∃ s' vs', Expr.parse (Expr.object s ks vs).print = .ok (.object s' ks vs') := by
  intro all
  have found : tokens "\x7b\"it's\": a\x7d" =
      [⟨0, 1, .punctuation '{'⟩, ⟨1, 7, .string "it's"⟩, ⟨7, 8, .punctuation ':'⟩,
        ⟨9, 10, .identifier "a"⟩, ⟨10, 11, .punctuation '}'⟩] := by
    decide +kernel
  have name : Derives .primary [⟨9, 10, .identifier "a"⟩]
      (.property ⟨9, 10⟩ (.implicitThis ⟨9, 9⟩) "a") := .name rfl
  have derived : Derives .primary
      (⟨0, 1, .punctuation '{'⟩ :: ([⟨1, 7, .string "it's"⟩, ⟨7, 8, .punctuation ':'⟩,
        ⟨9, 10, .identifier "a"⟩] ++ [⟨10, 11, .punctuation '}'⟩]))
      (.object ⟨0, 11⟩ [⟨"it's", true⟩] [.property ⟨9, 10⟩ (.implicitThis ⟨9, 9⟩) "a"]) :=
    .object rfl (.last .string rfl (name.expression trivial nofun)) rfl
  have accepted : Expr.parse "\x7b\"it's\": a\x7d" =
      .ok (.object ⟨0, 11⟩ [⟨"it's", true⟩] [.property ⟨9, 10⟩ (.implicitThis ⟨9, 9⟩) "a"]) := by
    rw [Expr.parse_eq_ok_iff, found]
    exact ⟨by simp [Lexeme.isInvalid], .alone (derived.loosen trivial)⟩
  obtain ⟨s', vs', again⟩ := all _ _ _ _ accepted (List.forall_mem_singleton.2 .name)
  have refused : (Expr.parse "\x7b'it's': a\x7d").isOk = false := by decide +kernel
  have printed : (Expr.object ⟨0, 11⟩ [⟨"it's", true⟩]
      [.property ⟨9, 10⟩ (.implicitThis ⟨9, 9⟩) "a"]).print = "\x7b'it's': a\x7d" := by decide
  rw [← printed, again] at refused
  cases refused

end Expr

end TemplateBinding
