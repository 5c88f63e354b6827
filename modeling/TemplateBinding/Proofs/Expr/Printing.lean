import TemplateBinding.Proofs.Expr.Spans
import TemplateBinding.Proofs.Grammar.Laying
import TemplateBinding.Proofs.Grammar.Semicolons

/-! Printing undoes reading. The printer adds no parentheses, and none are needed: the text
of a tree has the tokens that the tree was derived from, so it is derived from them again. -/
namespace TemplateBinding

namespace Grammar

/-- The tokens can be printed one by one, and no point would get into a number. -/
structure Tidy (ts : List Token) : Prop where
  printable : ∀ t ∈ ts, t.lexeme.Printable
  points : ∀ x y, [x, y] <:+: ts → x.lexeme.isNumber = true → y.lexeme ≠ .punctuation '.'

def respelled (ts : List Token) : List Lexeme := ts.map fun t => t.lexeme.canonical

def Lettered (ts : List Token) : Prop := ∀ t ∈ ts, t.lexeme.isLettered = true

theorem Lettered.left {ts us : List Token} (lettered : Lettered (ts ++ us)) : Lettered ts :=
  (List.forall_mem_append.1 lettered).1

theorem Lettered.right {ts us : List Token} (lettered : Lettered (ts ++ us)) : Lettered us :=
  (List.forall_mem_append.1 lettered).2

theorem Lettered.tail {t : Token} {ts : List Token} (lettered : Lettered (t :: ts)) :
    Lettered ts := (List.forall_mem_cons.1 lettered).2

def Quotable (e : Expr) : Prop :=
  ∀ s ks vs, (Expr.object s ks vs).Within e → ∀ k ∈ ks, k.quoted = true →
    '\\' ∉ k.text ∧ '\'' ∉ k.text

theorem Quotable.child {e c : Expr} (quotable : Quotable e) (member : c ∈ e.children) :
    Quotable c := fun s ks vs within => quotable s ks vs (.under member within)

theorem Derives.written {p ts e} (derived : Derives p ts e) : e.isImplicitThis = false := by
  match derived with
  | .unfiltered h | .unassigned h | .unconditional h | .operand h | .tighter h | .unprefixed h
  | .head h => exact h.written
  | .filter .. | .setProperty .. | .setKeyed .. | .conditional .. | .binary .. | .negation ..
  | .unary .. | .property .. | .keyed .. | .call .. | .parenthesized .. | .array .. | .object ..
  | .constant .. | .this .. | .name .. | .number .. | .string .. => rfl

theorem escapeQuotes_plain {v : Text} (plain : '\'' ∉ v) : escapeQuotes v = v := by
  induction v with
  | nil => rfl
  | cons c cs ih =>
    simp only [List.mem_cons, not_or] at plain
    rw [escapeQuotes_cons (Ne.symm plain.1), ih plain.2]

theorem IsKey.print {l : Lexeme} {k : Key} (key : IsKey l k)
    (plain : k.quoted = true → '\'' ∉ k.text) : k.print = l.printed := by
  cases key with
  | identifier | keyword => rfl
  | string =>
    have same := escapeQuotes_plain (plain rfl)
    simp only [Key.print, Lexeme.printed, quoteText, same, if_true]

theorem Phrase.Starts.begins {p : Phrase} {l : Lexeme} (starts : p.Starts l) :
    opens l = true ∨ l ∈ .operator "!" :: signs := by
  cases p <;> first | exact starts | exact .inl starts

theorem Derives.unpointed {p ts e} (derived : Derives p ts e) (ls : List Lexeme) :
    (ts.map Token.lexeme ++ ls).head? ≠ some (.punctuation '.') := by
  obtain ⟨t, us, rfl, starts⟩ := derived.starts
  have point : ¬ (Phrase.opens (.punctuation '.') = true ∨
      .punctuation '.' ∈ .operator "!" :: signs) := by decide
  intro first
  exact point (Option.some.inj first ▸ starts.begins)

theorem Phrase.Starts.printed_begins {p : Phrase} {l : Lexeme} (starts : p.Starts l)
    (lettered : l.isLettered = true) : ∃ c cs, l.printed = c :: cs ∧ c ≠ '=' := by
  have letter {x : Text} (letter : x.head?.any isNameStart = true) :
      ∃ c cs, x = c :: cs ∧ c ≠ '=' := by
    cases x with
    | nil => cases letter
    | cons c cs =>
      refine ⟨c, cs, rfl, ?_⟩
      rintro rfl
      exact absurd (show isNameStart '=' = true from letter) (by decide)
  rcases starts.begins with opening | prefixed
  · cases l with
    | punctuation mark =>
      have member : mark ∈ ['(', '[', '{'] := of_decide_eq_true opening
      exact ⟨mark, [], rfl, ne_of_mem_of_not_mem member (by decide)⟩
    | identifier x | keyword x => exact letter lettered
    | string value => exact ⟨'\'', _, rfl, by decide⟩
    | number value spelling =>
      obtain ⟨c, cs, whole, kind⟩ := plainText_begins value
      refine ⟨c, cs, whole, ?_⟩
      rintro rfl
      rcases kind with digit | start | sign
      · exact absurd digit (by decide)
      · exact absurd start (by decide)
      · exact absurd sign (by decide)
    | operator | invalid => cases opening
  · have others : ∀ l ∈ .operator "!" :: signs, l.printed.head?.any (· ≠ '=') = true := by decide
    have first := others l prefixed
    cases whole : l.printed with
    | nil =>
      rw [whole] at first
      cases first
    | cons c cs =>
      rw [whole] at first
      exact ⟨c, cs, rfl, by simpa using first⟩

theorem Derives.printed_begins {p ts e} (derived : Derives p ts e) (lettered : Lettered ts)
    {ls : List Lexeme} {t : Text} (laid : Laid (ts.map Token.lexeme ++ ls) t) :
    ∀ c ∈ t.head?, c ≠ '=' := by
  obtain ⟨k, us, rfl, starts⟩ := derived.starts
  obtain ⟨d, ds, printed, other⟩ := starts.printed_begins (lettered k List.mem_cons_self)
  intro c head
  rcases laid.begins with blank | ⟨rest, rfl⟩
  · rw [blank] at head
    cases head
    decide
  · rw [printed] at head
    cases head
    exact other

theorem Items.unpointed {p ts es} (items : Items p ts es) (some : es ≠ []) (ls : List Lexeme) :
    (ts.map Token.lexeme ++ ls).head? ≠ Option.some (.punctuation '.') := by
  cases items with
  | none => exact absurd rfl some
  | last derived => exact derived.unpointed ls
  | more derived _ _ _ =>
    rw [List.map_append, List.append_assoc]
    exact derived.unpointed _

theorem Entries.unpointed {ts kvs} (entries : Entries ts kvs) (some : kvs ≠ [])
    (ls : List Lexeme) : (ts.map Token.lexeme ++ ls).head? ≠ Option.some (.punctuation '.') := by
  have key {l : Lexeme} {k : Key} (key : IsKey l k) : l ≠ .punctuation '.' := by
    cases key <;> exact nofun
  cases entries with
  | none => exact absurd rfl some
  | last isKey _ _ | more isKey _ _ _ _ _ => simpa using key isKey

def argsText (es : List Expr) : Text := (Expr.printAll es).flatMap (':' :: ·)

def itemsText (es : List Expr) : Text := Text.join ", " (Expr.printAll es)

def entriesText (kvs : List (Key × Expr)) : Text :=
  Text.join ", " (Expr.printEntries (kvs.map (·.1)) (kvs.map (·.2)))

theorem itemsText_cons {e : Expr} {es : List Expr} (more : es ≠ []) :
    itemsText (e :: es) = e.print ++ (',' :: ' ' :: itemsText es) := by
  obtain ⟨f, fs, rfl⟩ := List.exists_cons_of_ne_nil more
  simp [itemsText, Expr.printAll, Text.join]

theorem entriesText_cons {k : Key} {e : Expr} {kvs : List (Key × Expr)} (more : kvs ≠ []) :
    entriesText ((k, e) :: kvs) =
      k.print ++ (':' :: ' ' :: (e.print ++ (',' :: ' ' :: entriesText kvs))) := by
  obtain ⟨⟨l, f⟩, kvs, rfl⟩ := List.exists_cons_of_ne_nil more
  simp [entriesText, Expr.printEntries, Text.join]

theorem printed_of_mem_precedence :
    ∀ level ∈ precedence, ∀ l ∈ level, l.printed = l.text ∧ l ≠ .punctuation '.' := by
  simp [precedence, Lexeme.printed]

theorem text_of_mem_constants {word : Text} {value : Literal} (member : (word, value) ∈ constants) :
    value.text = word := by
  simp only [constants, List.mem_cons, List.not_mem_nil, or_false, Prod.mk.injEq] at member
  rcases member with ⟨rfl, rfl⟩ | ⟨rfl, rfl⟩ | ⟨rfl, rfl⟩ | ⟨rfl, rfl⟩ <;> rfl

/-- The target of an assignment, which is no node of the tree, has its parts in the tree. -/
theorem Quotable.target {e f : Expr} (quotable : Quotable e) (inside : f.children ⊆ e.children)
    (other : ∀ s ks vs, Expr.object s ks vs ≠ f) : Quotable f := by
  intro s ks vs within
  cases within with
  | here => exact absurd rfl (other s ks vs)
  | under child inner => exact quotable s ks vs (.under (inside child) inner)


mutual

theorem Derives.laid {p ts e} (derived : Derives p ts e) (regular : p.Regular)
    (lettered : Lettered ts) (quotable : Quotable e) {ls : List Lexeme} {rest : Text}
    (trails : Trails ls rest) : Laid (ts.map Token.lexeme ++ ls) (e.print ++ rest) := by
  match derived with
  | .unfiltered h | .unassigned h | .operand h | .unprefixed h | .head h =>
    exact h.laid trivial lettered quotable trails
  | .unconditional h => exact h.laid List.suffix_rfl lettered quotable trails
  | .tighter h => exact h.laid regular.tighter lettered quotable trails
  | @Derives.filter ts us subject bar name x args inner isBar isName given =>
    have text : (Expr.filter (spanOf (ts ++ bar :: name :: us)) subject x args).print ++ rest =
        subject.print ++ (' ' :: '|' :: ' ' :: (x ++ (argsText args ++ rest))) := by
      simp [Expr.print, argsText]
    have behind := given.trails lettered.right.tail.tail
      (fun e member => quotable.child (List.mem_cons_of_mem _ member)) trails
    have word : Laid _ (x ++ _) := behind.lexeme isName
    have operator := Trails.operator isBar (by simp [isName]) word
    rw [text]
    simp only [List.map_append, List.map_cons, List.append_assoc, List.cons_append]
    exact inner.laid trivial lettered.left (quotable.child List.mem_cons_self) operator
  | @Derives.setProperty ts us span receiver x equals value target isEquals inner =>
    have text : (Expr.setProperty (spanOf (ts ++ equals :: us)) receiver x value).print ++ rest =
        (Expr.property span receiver x).print ++ (' ' :: '=' :: ' ' :: (value.print ++ rest)) := by
      simp [Expr.print]
    have last := inner.laid trivial lettered.right.tail
      (quotable.child (by simp [Expr.children])) trails
    have operator := Trails.operator isEquals (inner.unpointed ls) last
    rw [text]
    simp only [List.map_append, List.map_cons, List.append_assoc, List.cons_append]
    exact target.laid trivial lettered.left
      (quotable.target (by simp [Expr.children]) nofun) operator
  | @Derives.setKeyed ts us span receiver key equals value target isEquals inner =>
    have text : (Expr.setKeyed (spanOf (ts ++ equals :: us)) receiver key value).print ++ rest =
        (Expr.keyed span receiver key).print ++ (' ' :: '=' :: ' ' :: (value.print ++ rest)) := by
      simp [Expr.print]
    have last := inner.laid trivial lettered.right.tail
      (quotable.child (by simp [Expr.children])) trails
    have operator := Trails.operator isEquals (inner.unpointed ls) last
    rw [text]
    simp only [List.map_append, List.map_cons, List.append_assoc, List.cons_append]
    exact target.laid trivial lettered.left
      (quotable.target (by simp [Expr.children]) nofun) operator
  | @Derives.conditional ts us vs condition mark yes colon no first isMark second isColon third =>
    have text : (Expr.conditional (spanOf (ts ++ mark :: (us ++ colon :: vs))) condition yes
          no).print ++ rest =
        condition.print ++ (' ' :: '?' :: ' ' ::
          (yes.print ++ (' ' :: ':' :: ' ' :: (no.print ++ rest)))) := by
      simp [Expr.print]
    have last := third.laid trivial lettered.right.tail.right.tail
      (quotable.child (by simp [Expr.children])) trails
    have parted : Laid _ (':' :: ' ' :: _) :=
      .mark isColon (by decide) (.blank (third.unpointed ls) last)
    have middle := second.laid trivial lettered.right.tail.left
      (quotable.child (by simp [Expr.children])) (.blank (by simp [isColon]) parted)
    have operator := Trails.operator isMark (second.unpointed _) middle
    rw [text]
    simp only [List.map_append, List.map_cons, List.append_assoc, List.cons_append]
    exact first.laid List.suffix_rfl lettered.left (quotable.child List.mem_cons_self) operator
  | @Derives.binary level levels ts us left op right first isOp second =>
    have text : (Expr.binary (spanOf (ts ++ op :: us)) op.lexeme.text left right).print ++ rest =
        left.print ++ (' ' :: (op.lexeme.text ++ (' ' :: (right.print ++ rest)))) := by
      simp [Expr.print]
    obtain ⟨printed, other⟩ := printed_of_mem_precedence _ regular.mem _ isOp
    have last := second.laid regular.tighter lettered.right.tail
      (quotable.child (by simp [Expr.children])) trails
    have operator := Trails.between other (second.unpointed ls) last
    rw [printed] at operator
    rw [text]
    simp only [List.map_append, List.map_cons, List.append_assoc, List.cons_append]
    exact first.laid regular lettered.left (quotable.child List.mem_cons_self) operator
  | @Derives.negation ts mark e isMark inner =>
    have last := inner.laid trivial lettered.tail (quotable.child List.mem_cons_self) trails
    exact last.bang isMark (inner.printed_begins lettered.tail last)
  | @Derives.unary ts sign e isSign inner =>
    have last := inner.laid trivial lettered.tail (quotable.child List.mem_cons_self) trails
    rw [Expr.print, List.append_assoc]
    exact last.sign isSign
  | @Derives.property ts receiver point name x inner isPoint isName =>
    have text : (Expr.property (spanOf (ts ++ [point, name])) receiver x).print ++ rest =
        receiver.print ++ ('.' :: (x ++ rest)) := by
      simp [Expr.print, Expr.dotted, inner.written]
    have word := Trails.point isPoint isName (lettered name (by simp)) trails
    rw [text]
    simp only [List.map_append, List.map_cons, List.append_assoc, List.cons_append]
    exact inner.laid trivial lettered.left (quotable.child List.mem_cons_self) word
  | @Derives.keyed ts us receiver opened key closed inner isOpened index isClosed =>
    have text :
        (Expr.keyed (spanOf (ts ++ opened :: (us ++ [closed]))) receiver key).print ++ rest =
          receiver.print ++ ('[' :: (key.print ++ (']' :: rest))) := by
      simp [Expr.print]
    have last := Trails.mark isClosed (by decide) trails.laid
    have middle := index.laid trivial lettered.right.tail.left
      (quotable.child (by simp [Expr.children])) last
    rw [text]
    simp only [List.map_append, List.map_cons, List.append_assoc, List.cons_append]
    exact inner.laid trivial lettered.left (quotable.child List.mem_cons_self)
      (.mark isOpened (by decide) middle)
  | @Derives.call ts us callee opened args closed inner isOpened given isClosed =>
    have text : (Expr.call (spanOf (ts ++ opened :: (us ++ [closed]))) callee args).print ++ rest =
        callee.print ++ ('(' :: (itemsText args ++ (')' :: rest))) := by
      simp [Expr.print, itemsText]
    have last := Trails.mark isClosed (by decide) trails.laid
    have middle := given.laid trivial lettered.right.tail.left
      (fun e member => quotable.child (List.mem_cons_of_mem _ member)) last
    rw [text]
    simp only [List.map_append, List.map_cons, List.append_assoc, List.cons_append]
    exact inner.laid trivial lettered.left (quotable.child List.mem_cons_self)
      (.mark isOpened (by decide) middle)
  | @Derives.parenthesized us opened e closed isOpened inner isClosed =>
    have text : (Expr.parenthesized (spanOf (opened :: (us ++ [closed]))) e).print ++ rest =
        '(' :: (e.print ++ (')' :: rest)) := by
      simp [Expr.print]
    have last := Trails.mark isClosed (by decide) trails.laid
    have middle := inner.laid trivial lettered.tail.left (quotable.child List.mem_cons_self) last
    rw [text]
    simp only [List.map_append, List.map_cons, List.append_assoc, List.cons_append]
    exact middle.mark isOpened (by decide)
  | @Derives.array us opened es closed isOpened items isClosed =>
    have text : (Expr.array (spanOf (opened :: (us ++ [closed]))) es).print ++ rest =
        '[' :: (itemsText es ++ (']' :: rest)) := by
      simp [Expr.print, itemsText]
    have last := Trails.mark isClosed (by decide) trails.laid
    have middle := items.laid trivial lettered.tail.left
      (fun e member => quotable.child member) last
    rw [text]
    simp only [List.map_append, List.map_cons, List.append_assoc, List.cons_append]
    exact middle.mark isOpened (by decide)
  | @Derives.object us opened kvs closed isOpened entries isClosed =>
    have text : (Expr.object (spanOf (opened :: (us ++ [closed]))) (kvs.map (·.1))
          (kvs.map (·.2))).print ++ rest = '{' :: (entriesText kvs ++ ('}' :: rest)) := by
      simp [Expr.print, entriesText]
    have plain (kv : Key × Expr) (member : kv ∈ kvs) (quoted : kv.1.quoted = true) :
        '\'' ∉ kv.1.text :=
      (quotable _ _ _ .here kv.1 (List.mem_map_of_mem member) quoted).2
    have last := Trails.mark isClosed (by decide) trails.laid
    have middle := entries.laid lettered.tail.left plain
      (fun kv member => quotable.child (List.mem_map_of_mem member)) last
    rw [text]
    simp only [List.map_append, List.map_cons, List.append_assoc, List.cons_append]
    exact middle.mark isOpened (by decide)
  | @Derives.constant t word value isWord member =>
    have same : value.text = word := text_of_mem_constants member
    rw [Expr.print, same]
    exact trails.lexeme isWord
  | .this isThis => exact trails.lexeme isThis
  | .name isName => exact trails.lexeme isName
  | .number isNumber => exact trails.lexeme isNumber
  | .string isString => exact trails.lexeme isString

theorem Args.trails {ts es} (derived : Args ts es) (lettered : Lettered ts)
    (quotable : ∀ e ∈ es, Quotable e) {ls : List Lexeme} {rest : Text}
    (trails : Trails ls rest) : Trails (ts.map Token.lexeme ++ ls) (argsText es ++ rest) := by
  match derived with
  | .none => exact trails
  | @Args.more us vs colon arg args isColon inner given =>
    obtain ⟨first, others⟩ := List.forall_mem_cons.1 quotable
    have text : argsText (arg :: args) ++ rest = ':' :: (arg.print ++ (argsText args ++ rest)) := by
      simp [argsText, Expr.printAll]
    have behind := given.trails lettered.tail.right others trails
    have own := inner.laid trivial lettered.tail.left first behind
    rw [text]
    simp only [List.map_append, List.map_cons, List.append_assoc, List.cons_append]
    exact .mark isColon (by decide) own

theorem Items.laid {p ts es} (derived : Items p ts es) (regular : p.Regular)
    (lettered : Lettered ts) (quotable : ∀ e ∈ es, Quotable e) {ls : List Lexeme} {rest : Text}
    (trails : Trails ls rest) : Laid (ts.map Token.lexeme ++ ls) (itemsText es ++ rest) := by
  match derived with
  | .none => exact trails.laid
  | .last inner => exact inner.laid regular lettered (quotable _ List.mem_cons_self) trails
  | @Items.more p ts us comma e es inner isComma given more =>
    obtain ⟨first, others⟩ := List.forall_mem_cons.1 quotable
    have later := given.laid regular lettered.right.tail others trails
    have blank : Laid _ (' ' :: _) := .blank (given.unpointed more ls) later
    rw [itemsText_cons more]
    simp only [List.map_append, List.map_cons, List.append_assoc, List.cons_append]
    exact inner.laid regular lettered.left first (.mark isComma (by decide) blank)

theorem Entries.laid {ts kvs} (derived : Entries ts kvs) (lettered : Lettered ts)
    (plain : ∀ kv ∈ kvs, kv.1.quoted = true → '\'' ∉ kv.1.text)
    (quotable : ∀ kv ∈ kvs, Quotable kv.2) {ls : List Lexeme} {rest : Text}
    (trails : Trails ls rest) : Laid (ts.map Token.lexeme ++ ls) (entriesText kvs ++ rest) := by
  match derived with
  | .none => exact trails.laid
  | @Entries.last key k colon us e isKey isColon value =>
    have text : entriesText [(k, e)] ++ rest = k.print ++ (':' :: ' ' :: (e.print ++ rest)) := by
      simp [entriesText, Expr.printEntries, Text.join]
    have own := value.laid trivial lettered.tail.tail (quotable _ List.mem_cons_self) trails
    have blank : Laid _ (' ' :: _) := .blank (value.unpointed ls) own
    rw [text, isKey.print (plain _ List.mem_cons_self)]
    exact (Trails.mark isColon (by decide) blank).lexeme rfl
  | @Entries.more key k colon us e comma vs kvs isKey isColon value isComma given more =>
    obtain ⟨first, others⟩ := List.forall_mem_cons.1 quotable
    obtain ⟨first', others'⟩ := List.forall_mem_cons.1 plain
    have later := given.laid lettered.tail.tail.right.tail others' others trails
    have blank : Laid _ (' ' :: _) := .blank (given.unpointed more ls) later
    have own := value.laid trivial lettered.tail.tail.left first
      (.mark isComma (by decide) blank)
    have blank' : Laid _ (' ' :: _) := .blank (value.unpointed _) own
    rw [entriesText_cons more, isKey.print first']
    simp only [List.map_append, List.map_cons, List.append_assoc, List.cons_append]
    exact (Trails.mark isColon (by decide) blank').lexeme rfl

end

def itemsPrinted (es : List Expr) : Text := Text.join "; " (Expr.printAll es)

theorem Sequence.unpointed {ts es} (sequence : Sequence ts es) :
    (ts.map Token.lexeme).head? ≠ some (.punctuation '.') := by
  cases sequence with
  | last derived _ | more derived _ _ _ =>
    rw [List.map_append]
    exact derived.unpointed _

theorem Sequence.laid {ts es} (sequence : Sequence ts es) (lettered : Lettered ts)
    (quotable : ∀ e ∈ es, Quotable e) :
    ∃ us, Sequence us es ∧ us ⊆ ts ∧ us.map Token.lexeme = thinned (ts.map Token.lexeme) ∧
      Laid (us.map Token.lexeme) (itemsPrinted es) := by
  induction sequence with
  | @last ts ss e derived semicolons =>
    have printed := derived.laid trivial lettered.left (quotable e List.mem_cons_self) .nil
    rw [List.append_nil, List.append_nil] at printed
    have all : ∀ l ∈ ss.map Token.lexeme, l.isSemicolon = true := fun l member => by
      rw [semicolons.lexemes l member]
      rfl
    refine ⟨ts ++ [], .last derived semicolons_nil, by simp, ?_, ?_⟩
    · rw [List.append_nil, List.map_append, thinned_append (derived.unbroken trivial).lexemes,
        thinned_semicolons all, List.append_nil]
    · rw [List.append_nil]
      exact printed
  | @more ts ss us e es derived semicolons parted rest ih =>
    obtain ⟨first, others⟩ := List.forall_mem_cons.1 quotable
    obtain ⟨vs, sequence', fewer, same, later⟩ := ih lettered.right.right others
    obtain ⟨s, ss, rfl⟩ := List.exists_cons_of_ne_nil parted
    have isSemicolon := semicolons s List.mem_cons_self
    have single : Semicolons [s] := by simpa [Semicolons] using isSemicolon
    have blank : Laid _ (' ' :: itemsPrinted es) := .blank sequence'.unpointed later
    have item := derived.laid trivial lettered.left first (.mark isSemicolon (by decide) blank)
    obtain ⟨f, fs, rfl⟩ := List.exists_cons_of_ne_nil rest.items_ne_nil
    have text : itemsPrinted (e :: f :: fs) =
        e.print ++ (';' :: ' ' :: itemsPrinted (f :: fs)) := by
      simp [itemsPrinted, Expr.printAll, Text.join]
    have fewer' : ts ++ ([s] ++ vs) ⊆ ts ++ (s :: ss ++ us) := by
      intro t member
      simp only [List.mem_append, List.mem_cons, List.not_mem_nil, or_false] at member ⊢
      rcases member with item | mark | later
      · exact .inl item
      · exact .inr (.inl (.inl mark))
      · exact .inr (.inr (fewer later))
    refine ⟨ts ++ ([s] ++ vs), .more derived single (by simp) sequence', fewer', ?_, ?_⟩
    · obtain ⟨t, us, rfl, other⟩ := rest.starts
      simp only [List.map_append, List.map_cons, List.singleton_append] at same ⊢
      rw [thinned_append (derived.unbroken trivial).lexemes, isSemicolon, same]
      have run := thinned_run semicolons.lexemes (by simp) other (us.map Token.lexeme)
      rw [List.map_cons, isSemicolon] at run
      rw [run]
    · rw [text]
      simpa using item

/-- The text of a whole tree has its tokens printed in it, but for some of the semicolons, and the
tree is derived from those that are. -/
theorem Whole.laid {size ts e} (whole : Whole size ts e) (lettered : Lettered ts)
    (quotable : Quotable e) :
    ∃ us f, Whole size us f ∧ f.bare = e.bare ∧ us ⊆ ts ∧
      us.map Token.lexeme = collapsed (ts.map Token.lexeme) ∧
      Laid (us.map Token.lexeme) e.print := by
  cases whole with
  | empty semicolons =>
    have none := collapsed_append semicolons.lexemes []
    rw [List.append_nil] at none
    exact ⟨[], _, .empty semicolons_nil, rfl, by simp, none.symm, .nil⟩
  | alone derived =>
    have printed := derived.laid trivial lettered quotable .nil
    rw [List.append_nil, List.append_nil] at printed
    exact ⟨ts, e, .alone derived, rfl, List.Subset.refl ts,
      (derived.unbroken trivial).collapsed.symm, printed⟩
  | @single lead us e semicolons sequence plain =>
    obtain ⟨vs, sequence', fewer, same, printed⟩ :=
      sequence.laid lettered.right fun f member => List.mem_singleton.1 member ▸ quotable
    refine ⟨[] ++ vs, e, .single semicolons_nil sequence' plain, rfl, ?_, ?_, printed⟩
    · exact fun t member => List.mem_append_right lead (fewer member)
    · rw [List.map_append, List.map_append, collapsed_append semicolons.lexemes,
        sequence.collapsed]
      exact same
  | @chain lead us es semicolons sequence several plain =>
    obtain ⟨vs, sequence', fewer, same, printed⟩ :=
      sequence.laid lettered.right fun e member => quotable.child member
    refine ⟨[] ++ vs, _, .chain semicolons_nil sequence' several plain, ?_, ?_, ?_, printed⟩
    · simp only [Expr.bare, Expr.move, Span.move]
    · exact fun t member => List.mem_append_right lead (fewer member)
    · rw [List.map_append, List.map_append, collapsed_append semicolons.lexemes,
        sequence.collapsed]
      exact same

theorem unpointed_of_semicolon (l m : Lexeme)
    (either : l.isSemicolon = true ∨ m.isSemicolon = true) : Unpointed l m := by
  rintro number rfl
  rcases either with semicolon | semicolon
  · rw [of_decide_eq_true semicolon] at number
    cases number
  · cases semicolon

theorem Whole.lexemes_print {size ts e} (whole : Whole size ts e) (tidy : Tidy ts)
    (quotable : Quotable e) :
    ∃ us f, Whole size us f ∧ f.bare = e.bare ∧ us ⊆ ts ∧ lexemes e.print = respelled us := by
  have lettered : Lettered ts := fun t member => (tidy.printable t member).isLettered
  obtain ⟨us, f, whole', bare, fewer, same, laid⟩ := whole.laid lettered quotable
  have printable : ∀ l ∈ us.map Token.lexeme, l.Printable :=
    List.forall_mem_map.2 fun t member => tidy.printable t (fewer member)
  have points : (us.map Token.lexeme).IsChain Unpointed := by
    rw [same, isChain_collapsed unpointed_of_semicolon, isChain_unpointed_iff]
    exact tidy.points
  refine ⟨us, f, whole', bare, fewer, ?_⟩
  rw [laid.lexemes printable points, List.map_map]
  rfl

end Grammar

namespace Expr

open Grammar

theorem isImplicitThis_move (g : Nat → Nat) (e : Expr) :
    (e.move g).isImplicitThis = e.isImplicitThis := by
  cases e <;> rfl

theorem printEntries_printAll (ks : List Key) (vs : List Expr) :
    printEntries ks vs =
      List.zipWith (fun (k : Key) (v : Text) => k.print ++ ": " ++ v) ks (printAll vs) := by
  rw [printEntries_eq, printAll_eq, List.zipWith_map_right]

mutual

theorem print_move (g : Nat → Nat) (e : Expr) : (e.move g).print = e.print := by
  cases e <;>
    simp only [move, print, print_move, printAll_moveAll, printEntries_printAll, dotted,
      isImplicitThis_move]

theorem printAll_moveAll (g : Nat → Nat) (es : List Expr) :
    printAll (moveAll g es) = printAll es := by
  cases es <;> simp only [moveAll, printAll, print_move, printAll_moveAll]

end

theorem print_eq_of_bare {e f : Expr} (same : e.bare = f.bare) : e.print = f.print := by
  rw [← print_move (fun _ => 0) e, ← print_move (fun _ => 0) f]
  exact congrArg print same

/-- The text of a tree that was read is read as this tree, positions aside, and printed as
it is. -/
theorem parse_print {t : Text} {a : Expr} (accepted : Expr.parse t = .ok a)
    (strings : ∀ k ∈ tokens t, ∀ v, k.lexeme = .string v → '\\' ∉ v)
    (keys : ∀ s ks vs, (Expr.object s ks vs).Within a → ∀ k ∈ ks, k.quoted = true →
      '\\' ∉ k.text ∧ '\'' ∉ k.text)
    (finite : ∀ k ∈ tokens t, ∀ x spelling, k.lexeme = .number x spelling → x.isFinite = true)
    (points : ∀ x y, [x, y] <:+: tokens t → x.lexeme.isNumber = true →
      y.lexeme ≠ .punctuation '.') :
    ∃ b, Expr.parse a.print = .ok b ∧ b.bare = a.bare ∧ b.print = a.print := by
  obtain ⟨valid, whole⟩ := Expr.parse_eq_ok_iff.1 accepted
  have spelled := (reads_tokensFrom valid).spelled
  have tidy : Tidy (tokens t) := by
    constructor
    · intro k member
      obtain ⟨s, spells⟩ := spelled k member
      exact spells.printable (strings k member) (finite k member)
    · exact points
  obtain ⟨us, f, whole', same, fewer, printed⟩ := whole.lexemes_print tidy keys
  have valid' : ∀ k ∈ tokens a.print, k.lexeme.isInvalid = false := by
    intro k member
    have found : k.lexeme ∈ lexemes a.print := List.mem_map_of_mem member
    rw [printed] at found
    obtain ⟨u, inside, same'⟩ := List.mem_map.1 found
    rw [← same']
    exact (tidy.printable u (fewer inside)).valid
  have alike : Alike (fun _ => 0) (fun _ => 0) us (tokens a.print) := by
    have seen := congrArg (List.map fun l => ((⟨0, 0⟩ : Span), l.unspelled)) printed
    simp only [lexemes, respelled, List.map_map, Function.comp_def,
      Lexeme.unspelled_canonical] at seen
    exact seen
  obtain ⟨b, read, same'⟩ := whole'.along alike
  have bare : b.bare = a.bare := same'.trans same
  exact ⟨b, Expr.parse_eq_ok_iff.2 ⟨valid', read⟩, bare, print_eq_of_bare bare⟩

theorem parse_print_object :
    ∃ a b, Expr.parse "\x7b'a b': 1.50\x7d" = .ok a ∧
      Expr.parse a.print = .ok b ∧ b.bare = a.bare ∧ b.print = a.print := by
  generalize value : Binary64.ofDecimal ⟨150, -2⟩ = x
  have found : tokens "\x7b'a b': 1.50\x7d" =
      [⟨0, 1, .punctuation '{'⟩, ⟨1, 6, .string "a b"⟩, ⟨6, 7, .punctuation ':'⟩,
        ⟨8, 12, .number x "1.50"⟩, ⟨12, 13, .punctuation '}'⟩] := by
    rw [← value]
    decide +kernel
  have number : Derives .primary [⟨8, 12, .number x "1.50"⟩] (.literal ⟨8, 12⟩ (.number x)) :=
    .number rfl
  have derived : Derives .primary
      (⟨0, 1, .punctuation '{'⟩ :: ([⟨1, 6, .string "a b"⟩, ⟨6, 7, .punctuation ':'⟩,
        ⟨8, 12, .number x "1.50"⟩] ++ [⟨12, 13, .punctuation '}'⟩]))
      (.object ⟨0, 13⟩ [⟨"a b", true⟩] [.literal ⟨8, 12⟩ (.number x)]) :=
    .object rfl (.last .string rfl (number.expression trivial nofun)) rfl
  have accepted : Expr.parse "\x7b'a b': 1.50\x7d" =
      .ok (.object ⟨0, 13⟩ [⟨"a b", true⟩] [.literal ⟨8, 12⟩ (.number x)]) := by
    rw [Expr.parse_eq_ok_iff, found]
    exact ⟨by simp [Lexeme.isInvalid], .alone (derived.loosen trivial)⟩
  have again := parse_print accepted ?_ ?_ ?_ ?_
  · obtain ⟨b, read, same, text⟩ := again
    exact ⟨_, b, accepted, read, same, text⟩
  · rw [found]
    simp
  · intro s ks vs within k member _
    cases within with
    | here =>
      rw [List.mem_singleton.1 member]
      decide
    | under child inner =>
      rw [List.mem_singleton.1 child] at inner
      cases inner.eq_of_leaf rfl
  · have finite : x.isFinite = true := by
      rw [← value]
      decide +kernel
    rw [found]
    simp [finite]
  · have others : ∀ k ∈ tokens "\x7b'a b': 1.50\x7d", k.lexeme ≠ .punctuation '.' := by
      rw [found]
      simp
    exact fun y z pair _ => others z (pair.subset (by simp))

end Expr

end TemplateBinding
