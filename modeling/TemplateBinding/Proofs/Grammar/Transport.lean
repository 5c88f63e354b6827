import TemplateBinding.Proofs.Expr.Nodes
import TemplateBinding.Proofs.Grammar.Completeness

/-! Tokens that differ only in their positions, and in how their numbers are spelled,
derive trees that differ only in their positions. -/
namespace TemplateBinding.Grammar

/-- A lexeme without the spelling of its number. -/
def Lexeme.unspelled : Lexeme → Lexeme
  | .number value _ => .number value []
  | l => l

def Lexeme.isNumber : Lexeme → Bool
  | .number .. => true
  | _ => false

theorem Lexeme.eq_of_unspelled {l l' : Lexeme} (same : l.unspelled = l'.unspelled)
    (unnumbered : l'.isNumber = false) : l = l' := by
  cases l' with
  | number => cases unnumbered
  | _ => cases l <;> first | exact same | cases same

theorem Lexeme.exists_of_unspelled {l : Lexeme} {value : Binary64} {spelling : Text}
    (same : l.unspelled = (Lexeme.number value spelling).unspelled) :
    ∃ spelling', l = .number value spelling' := by
  cases l with
  | number value' spelling' =>
    simp only [unspelled, number.injEq, and_true] at same
    exact ⟨spelling', by rw [same]⟩
  | _ => cases same

def Token.seen (g : Nat → Nat) (t : Token) : Span × Lexeme :=
  (⟨g t.start, g t.stop⟩, t.lexeme.unspelled)

/-- The tokens `us`, with their positions read through `h`, are the tokens `ts` with
theirs read through `g`. -/
def Alike (g h : Nat → Nat) (ts us : List Token) : Prop :=
  us.map (Token.seen h) = ts.map (Token.seen g)

section Alike

variable {g h : Nat → Nat} {t u : Token} {ts ts' us : List Token}

theorem Alike.split (alike : Alike g h (ts ++ ts') us) :
    ∃ us₁ us₂, us = us₁ ++ us₂ ∧ Alike g h ts us₁ ∧ Alike g h ts' us₂ := by
  unfold Alike at alike
  rw [List.map_append] at alike
  exact List.map_eq_append_iff.1 alike

theorem Alike.uncons (alike : Alike g h (t :: ts) us) :
    ∃ u us', us = u :: us' ∧ u.seen h = t.seen g ∧ Alike g h ts us' :=
  List.map_eq_cons_iff.1 alike

theorem Alike.eq_nil (alike : Alike g h [] us) : us = [] := List.map_eq_nil_iff.1 alike

theorem Alike.singleton (alike : Alike g h [t] us) : ∃ u, us = [u] ∧ u.seen h = t.seen g := by
  obtain ⟨u, us', rfl, same, rest⟩ := alike.uncons
  exact ⟨u, by rw [rest.eq_nil], same⟩

theorem Alike.splitAt (alike : Alike g h (ts ++ t :: ts') us) :
    ∃ us₁ u us₂, us = us₁ ++ u :: us₂ ∧ Alike g h ts us₁ ∧ u.seen h = t.seen g ∧
      Alike g h ts' us₂ := by
  obtain ⟨us₁, rest, rfl, first, alike⟩ := alike.split
  obtain ⟨u, us₂, rfl, seen, second⟩ := alike.uncons
  exact ⟨us₁, u, us₂, rfl, first, seen, second⟩

theorem Alike.bracketed {opened closed : Token}
    (alike : Alike g h (opened :: (ts ++ [closed])) us) :
    ∃ opened' us' closed', us = opened' :: (us' ++ [closed']) ∧
      opened'.seen h = opened.seen g ∧ Alike g h ts us' ∧ closed'.seen h = closed.seen g := by
  obtain ⟨opened', rest, rfl, seenOpened, alike⟩ := alike.uncons
  obtain ⟨us', rest, rfl, inner, alike⟩ := alike.split
  obtain ⟨closed', rfl, seenClosed⟩ := alike.singleton
  exact ⟨opened', us', closed', rfl, seenOpened, inner, seenClosed⟩

theorem Alike.lastStop {p q : Nat} (alike : Alike g h ts us) (same : h q = g p) :
    h (lastStop q us) = g (lastStop p ts) := by
  induction ts generalizing us p q with
  | nil =>
    rw [alike.eq_nil]
    exact same
  | cons t ts ih =>
    obtain ⟨u, us', rfl, seen, rest⟩ := alike.uncons
    have later := ih rest (congrArg (·.1.stop) seen)
    exact later

theorem Alike.span (alike : Alike g h ts us) (some : ts ≠ []) :
    (spanOf us).move h = (spanOf ts).move g := by
  obtain ⟨t, ts, rfl⟩ := List.exists_cons_of_ne_nil some
  obtain ⟨u, us', rfl, seen, rest⟩ := alike.uncons
  have first : h u.start = g t.start := congrArg (·.1.start) seen
  have last := rest.lastStop (congrArg (·.1.stop) seen)
  simp only [spanOf, firstStart, Span.move, first, Span.mk.injEq, true_and]
  exact last

theorem lexeme_eq_of_seen {l : Lexeme} (seen : u.seen h = t.seen g) (isOne : t.lexeme = l)
    (unnumbered : l.isNumber = false) : u.lexeme = l := by
  subst isOne
  exact Lexeme.eq_of_unspelled (congrArg (·.2) seen) unnumbered

end Alike

theorem unnumbered_of_mem_precedence :
    ∀ level ∈ precedence, ∀ l ∈ level, l.isNumber = false := by decide

theorem unnumbered_of_mem_signs : ∀ l ∈ signs, l.isNumber = false := by decide

theorem IsKey.unnumbered {l : Lexeme} {k : Key} (key : IsKey l k) : l.isNumber = false := by
  cases key <;> rfl

mutual

theorem Derives.along {g h p ts us e} (derived : Derives p ts e) (regular : p.Regular)
    (alike : Alike g h ts us) : ∃ d, Derives p us d ∧ d.move h = e.move g := by
  match derived with
  | .unfiltered inner =>
    obtain ⟨d, derived', same⟩ := inner.along trivial alike
    exact ⟨d, .unfiltered derived', same⟩
  | .filter subject isBar isName given =>
    have span := alike.span (by simp)
    obtain ⟨us₁, bar, rest, rfl, first, seenBar, alike⟩ := alike.splitAt
    obtain ⟨name, us₂, rfl, seenName, second⟩ := alike.uncons
    obtain ⟨d, derived', same⟩ := subject.along trivial first
    obtain ⟨ds, given', sames⟩ := given.along second
    refine ⟨_, .filter derived' (lexeme_eq_of_seen seenBar isBar rfl)
      (lexeme_eq_of_seen seenName isName rfl) given', ?_⟩
    simp only [Expr.move, span, same, sames]
  | .unassigned inner =>
    obtain ⟨d, derived', same⟩ := inner.along trivial alike
    exact ⟨d, .unassigned derived', same⟩
  | .setProperty target isEquals value =>
    have span := alike.span (by simp)
    obtain ⟨us₁, equals, us₂, rfl, first, seen, second⟩ := alike.splitAt
    obtain ⟨d, target', same⟩ := target.along trivial first
    obtain ⟨f, value', same'⟩ := value.along trivial second
    cases d with
    | property s receiver x =>
      simp only [Expr.move, Expr.property.injEq] at same
      obtain ⟨-, sameReceiver, rfl⟩ := same
      refine ⟨_, .setProperty target' (lexeme_eq_of_seen seen isEquals rfl) value', ?_⟩
      simp only [Expr.move, span, sameReceiver, same']
    | _ => simp [Expr.move] at same
  | .setKeyed target isEquals value =>
    have span := alike.span (by simp)
    obtain ⟨us₁, equals, us₂, rfl, first, seen, second⟩ := alike.splitAt
    obtain ⟨d, target', same⟩ := target.along trivial first
    obtain ⟨f, value', same'⟩ := value.along trivial second
    cases d with
    | keyed s receiver key =>
      simp only [Expr.move, Expr.keyed.injEq] at same
      obtain ⟨-, sameReceiver, sameKey⟩ := same
      refine ⟨_, .setKeyed target' (lexeme_eq_of_seen seen isEquals rfl) value', ?_⟩
      simp only [Expr.move, span, sameReceiver, sameKey, same']
    | _ => simp [Expr.move] at same
  | .unconditional inner =>
    obtain ⟨d, derived', same⟩ := inner.along (List.suffix_refl _) alike
    exact ⟨d, .unconditional derived', same⟩
  | .conditional condition isMark yes isColon no =>
    have span := alike.span (by simp)
    obtain ⟨us₁, mark, rest, rfl, first, seenMark, alike⟩ := alike.splitAt
    obtain ⟨us₂, colon, us₃, rfl, second, seenColon, third⟩ := alike.splitAt
    obtain ⟨d₁, condition', same₁⟩ := condition.along (List.suffix_refl _) first
    obtain ⟨d₂, yes', same₂⟩ := yes.along trivial second
    obtain ⟨d₃, no', same₃⟩ := no.along trivial third
    refine ⟨_, .conditional condition' (lexeme_eq_of_seen seenMark isMark rfl) yes'
      (lexeme_eq_of_seen seenColon isColon rfl) no', ?_⟩
    simp only [Expr.move, span, same₁, same₂, same₃]
  | .operand inner =>
    obtain ⟨d, derived', same⟩ := inner.along trivial alike
    exact ⟨d, .operand derived', same⟩
  | .tighter inner =>
    obtain ⟨d, derived', same⟩ := inner.along regular.tighter alike
    exact ⟨d, .tighter derived', same⟩
  | .binary left isOp right =>
    have span := alike.span (by simp)
    obtain ⟨us₁, op', us₂, rfl, first, seen, second⟩ := alike.splitAt
    obtain ⟨d₁, left', same₁⟩ := left.along regular first
    obtain ⟨d₂, right', same₂⟩ := right.along regular.tighter second
    have sameOp := lexeme_eq_of_seen seen rfl (unnumbered_of_mem_precedence _ regular.mem _ isOp)
    refine ⟨_, .binary left' (sameOp ▸ isOp) right', ?_⟩
    simp only [Expr.move, span, same₁, same₂, sameOp]
  | .unprefixed inner =>
    obtain ⟨d, derived', same⟩ := inner.along trivial alike
    exact ⟨d, .unprefixed derived', same⟩
  | .negation isMark inner =>
    have span := alike.span (by simp)
    obtain ⟨mark, us', rfl, seen, rest⟩ := alike.uncons
    obtain ⟨d, derived', same⟩ := inner.along trivial rest
    refine ⟨_, .negation (lexeme_eq_of_seen seen isMark rfl) derived', ?_⟩
    simp only [Expr.move, span, same]
  | .unary isSign inner =>
    have span := alike.span (by simp)
    obtain ⟨sign', us', rfl, seen, rest⟩ := alike.uncons
    obtain ⟨d, derived', same⟩ := inner.along trivial rest
    have sameSign := lexeme_eq_of_seen seen rfl (unnumbered_of_mem_signs _ isSign)
    refine ⟨_, .unary (sameSign ▸ isSign) derived', ?_⟩
    simp only [Expr.move, span, same, sameSign]
  | .head inner =>
    obtain ⟨d, derived', same⟩ := inner.along trivial alike
    exact ⟨d, .head derived', same⟩
  | .property receiver isPoint isName =>
    have span := alike.span (by simp)
    obtain ⟨us₁, point, rest, rfl, first, seenPoint, alike⟩ := alike.splitAt
    obtain ⟨name, rfl, seenName⟩ := alike.singleton
    obtain ⟨d, receiver', same⟩ := receiver.along trivial first
    have isName' := isName.imp (lexeme_eq_of_seen seenName · rfl)
      (lexeme_eq_of_seen seenName · rfl)
    refine ⟨_, .property receiver' (lexeme_eq_of_seen seenPoint isPoint rfl) isName', ?_⟩
    simp only [Expr.move, span, same]
  | .keyed receiver isOpened key isClosed =>
    have span := alike.span (by simp)
    obtain ⟨us₁, rest, rfl, first, alike⟩ := alike.split
    obtain ⟨opened, us₂, closed, rfl, seenOpened, second, seenClosed⟩ := alike.bracketed
    obtain ⟨d, receiver', same⟩ := receiver.along trivial first
    obtain ⟨f, key', same'⟩ := key.along trivial second
    refine ⟨_, .keyed receiver' (lexeme_eq_of_seen seenOpened isOpened rfl) key'
      (lexeme_eq_of_seen seenClosed isClosed rfl), ?_⟩
    simp only [Expr.move, span, same, same']
  | .call callee isOpened args isClosed =>
    have span := alike.span (by simp)
    obtain ⟨us₁, rest, rfl, first, alike⟩ := alike.split
    obtain ⟨opened, us₂, closed, rfl, seenOpened, second, seenClosed⟩ := alike.bracketed
    obtain ⟨d, callee', same⟩ := callee.along trivial first
    obtain ⟨ds, args', sames⟩ := args.along trivial second
    refine ⟨_, .call callee' (lexeme_eq_of_seen seenOpened isOpened rfl) args'
      (lexeme_eq_of_seen seenClosed isClosed rfl), ?_⟩
    simp only [Expr.move, span, same, sames]
  | .parenthesized isOpened inner isClosed =>
    have span := alike.span (by simp)
    obtain ⟨opened, us, closed, rfl, seenOpened, first, seenClosed⟩ := alike.bracketed
    obtain ⟨d, inner', same⟩ := inner.along trivial first
    refine ⟨_, .parenthesized (lexeme_eq_of_seen seenOpened isOpened rfl) inner'
      (lexeme_eq_of_seen seenClosed isClosed rfl), ?_⟩
    simp only [Expr.move, span, same]
  | .array isOpened items isClosed =>
    have span := alike.span (by simp)
    obtain ⟨opened, us, closed, rfl, seenOpened, first, seenClosed⟩ := alike.bracketed
    obtain ⟨ds, items', sames⟩ := items.along trivial first
    refine ⟨_, .array (lexeme_eq_of_seen seenOpened isOpened rfl) items'
      (lexeme_eq_of_seen seenClosed isClosed rfl), ?_⟩
    simp only [Expr.move, span, sames]
  | .object isOpened entries isClosed =>
    have span := alike.span (by simp)
    obtain ⟨opened, us, closed, rfl, seenOpened, first, seenClosed⟩ := alike.bracketed
    obtain ⟨ds, entries', keys, sames⟩ := entries.along first
    refine ⟨_, .object (lexeme_eq_of_seen seenOpened isOpened rfl) entries'
      (lexeme_eq_of_seen seenClosed isClosed rfl), ?_⟩
    simp only [Expr.move, span, keys, sames]
  | .constant isWord member =>
    have span := alike.span (by simp)
    obtain ⟨u, rfl, seen⟩ := alike.singleton
    refine ⟨_, .constant (lexeme_eq_of_seen seen isWord rfl) member, ?_⟩
    simp only [Expr.move, span]
  | .this isThis =>
    have span := alike.span (by simp)
    obtain ⟨u, rfl, seen⟩ := alike.singleton
    refine ⟨_, .this (lexeme_eq_of_seen seen isThis rfl), ?_⟩
    simp only [Expr.move, span]
  | @Derives.name t x isName =>
    have span := alike.span (by simp)
    obtain ⟨u, rfl, seen⟩ := alike.singleton
    have first : h u.start = g t.start := congrArg (·.1.start) seen
    have receiver : Span.move h ⟨u.start, u.start⟩ = Span.move g ⟨t.start, t.start⟩ := by
      simp only [Span.move, first]
    refine ⟨_, .name (lexeme_eq_of_seen seen isName rfl), ?_⟩
    simp only [Expr.move, span, receiver]
  | .number isNumber =>
    have span := alike.span (by simp)
    obtain ⟨u, rfl, seen⟩ := alike.singleton
    obtain ⟨spelling, isNumber'⟩ :=
      Lexeme.exists_of_unspelled ((congrArg (·.2) seen).trans (congrArg Lexeme.unspelled isNumber))
    refine ⟨_, .number isNumber', ?_⟩
    simp only [Expr.move, span]
  | .string isString =>
    have span := alike.span (by simp)
    obtain ⟨u, rfl, seen⟩ := alike.singleton
    refine ⟨_, .string (lexeme_eq_of_seen seen isString rfl), ?_⟩
    simp only [Expr.move, span]

theorem Args.along {g h ts us es} (derived : Args ts es) (alike : Alike g h ts us) :
    ∃ ds, Args us ds ∧ Expr.moveAll h ds = Expr.moveAll g es := by
  match derived with
  | .none =>
    rw [alike.eq_nil]
    exact ⟨[], .none, rfl⟩
  | .more isColon arg rest =>
    obtain ⟨colon, us, rfl, seen, alike⟩ := alike.uncons
    obtain ⟨us₁, us₂, rfl, first, second⟩ := alike.split
    obtain ⟨d, arg', same⟩ := arg.along trivial first
    obtain ⟨ds, rest', sames⟩ := rest.along second
    refine ⟨d :: ds, .more (lexeme_eq_of_seen seen isColon rfl) arg' rest', ?_⟩
    simp only [Expr.moveAll, same, sames]

theorem Items.along {g h p ts us es} (derived : Items p ts es) (regular : p.Regular)
    (alike : Alike g h ts us) : ∃ ds, Items p us ds ∧ Expr.moveAll h ds = Expr.moveAll g es := by
  match derived with
  | .none =>
    rw [alike.eq_nil]
    exact ⟨[], .none, rfl⟩
  | .last inner =>
    obtain ⟨d, inner', same⟩ := inner.along regular alike
    exact ⟨[d], .last inner', by simp only [Expr.moveAll, same]⟩
  | .more inner isComma rest more =>
    obtain ⟨us₁, comma, us₂, rfl, first, seen, second⟩ := alike.splitAt
    obtain ⟨d, inner', same⟩ := inner.along regular first
    obtain ⟨ds, rest', sames⟩ := rest.along regular second
    have more' : ds ≠ [] := by
      rintro rfl
      rw [Expr.moveAll_eq g, Expr.moveAll, eq_comm, List.map_eq_nil_iff] at sames
      exact more sames
    refine ⟨d :: ds, .more inner' (lexeme_eq_of_seen seen isComma rfl) rest' more', ?_⟩
    simp only [Expr.moveAll, same, sames]

theorem Entries.along {g h ts us kvs} (derived : Entries ts kvs) (alike : Alike g h ts us) :
    ∃ kws, Entries us kws ∧ kws.map (·.1) = kvs.map (·.1) ∧
      Expr.moveAll h (kws.map (·.2)) = Expr.moveAll g (kvs.map (·.2)) := by
  match derived with
  | .none =>
    rw [alike.eq_nil]
    exact ⟨[], .none, rfl, rfl⟩
  | .last key isColon value =>
    obtain ⟨k, us, rfl, seenKey, alike⟩ := alike.uncons
    obtain ⟨colon, us, rfl, seenColon, alike⟩ := alike.uncons
    obtain ⟨d, value', same⟩ := value.along trivial alike
    have sameKey := lexeme_eq_of_seen seenKey rfl key.unnumbered
    refine ⟨_, .last (sameKey ▸ key) (lexeme_eq_of_seen seenColon isColon rfl) value', rfl, ?_⟩
    simp only [List.map_cons, List.map_nil, Expr.moveAll, same]
  | .more key isColon value isComma rest more =>
    obtain ⟨k, us, rfl, seenKey, alike⟩ := alike.uncons
    obtain ⟨colon, us, rfl, seenColon, alike⟩ := alike.uncons
    obtain ⟨us₁, comma, us₂, rfl, first, seenComma, second⟩ := alike.splitAt
    obtain ⟨d, value', same⟩ := value.along trivial first
    obtain ⟨kws, rest', keys, sames⟩ := rest.along second
    have sameKey := lexeme_eq_of_seen seenKey rfl key.unnumbered
    have more' : kws ≠ [] := by
      rintro rfl
      rw [List.map_nil, eq_comm, List.map_eq_nil_iff] at keys
      exact more keys
    refine ⟨_, .more (sameKey ▸ key) (lexeme_eq_of_seen seenColon isColon rfl) value'
      (lexeme_eq_of_seen seenComma isComma rfl) rest' more', ?_, ?_⟩
    · simp only [List.map_cons, keys]
    · simp only [List.map_cons, Expr.moveAll, same, sames]

end

theorem Semicolons.along {g h ss us} (semicolons : Semicolons ss) (alike : Alike g h ss us) :
    Semicolons us := by
  induction ss generalizing us with
  | nil =>
    rw [alike.eq_nil]
    exact semicolons
  | cons s ss ih =>
    obtain ⟨u, us, rfl, seen, rest⟩ := alike.uncons
    obtain ⟨first, others⟩ := List.forall_mem_cons.1 semicolons
    exact List.forall_mem_cons.2 ⟨lexeme_eq_of_seen seen first rfl, ih others rest⟩

theorem Sequence.along {g h ts us es} (sequence : Sequence ts es) (alike : Alike g h ts us) :
    ∃ ds, Sequence us ds ∧ Expr.moveAll h ds = Expr.moveAll g es := by
  induction sequence generalizing us with
  | last derived semicolons =>
    obtain ⟨us₁, us₂, rfl, first, second⟩ := alike.split
    obtain ⟨d, derived', same⟩ := derived.along trivial first
    exact ⟨[d], .last derived' (semicolons.along second), by simp only [Expr.moveAll, same]⟩
  | more derived semicolons parted _ ih =>
    obtain ⟨us₁, us', rfl, first, alike⟩ := alike.split
    obtain ⟨us₂, us₃, rfl, second, third⟩ := alike.split
    obtain ⟨d, derived', same⟩ := derived.along trivial first
    obtain ⟨ds, sequence', sames⟩ := ih third
    have parted' : us₂ ≠ [] := by
      rintro rfl
      exact parted (List.map_eq_nil_iff.1 second.symm)
    refine ⟨d :: ds, .more derived' (semicolons.along second) parted' sequence', ?_⟩
    simp only [Expr.moveAll, same, sames]

theorem Whole.along {size size' ts us e} (whole : Whole size ts e)
    (alike : Alike (fun _ => 0) (fun _ => 0) ts us) :
    ∃ f, Whole size' us f ∧ f.bare = e.bare := by
  cases whole with
  | empty semicolons => exact ⟨_, .empty (semicolons.along alike), rfl⟩
  | alone derived =>
    obtain ⟨f, derived', same⟩ := derived.along trivial alike
    exact ⟨f, .alone derived', same⟩
  | single semicolons sequence plain =>
    obtain ⟨us₁, us₂, rfl, first, second⟩ := alike.split
    obtain ⟨fs, sequence', same⟩ := sequence.along second
    obtain ⟨f, fs, rfl⟩ := List.exists_cons_of_ne_nil sequence'.items_ne_nil
    simp only [Expr.moveAll, List.cons.injEq, Expr.moveAll_eq, List.map_eq_nil_iff] at same
    obtain ⟨same, rfl⟩ := same
    have plain' : f.isFilter = false := by
      have filters := congrArg Expr.isFilter same
      simpa [plain] using filters
    exact ⟨f, .single (semicolons.along first) sequence' plain', same⟩
  | @chain lead vs es semicolons sequence several plain =>
    have span := alike.span (by simp [sequence.ne_nil])
    obtain ⟨us₁, us₂, rfl, first, second⟩ := alike.split
    obtain ⟨fs, sequence', same⟩ := sequence.along second
    have count : fs.length = es.length := by simpa [Expr.moveAll_eq] using congrArg List.length same
    have plain' : ∀ f ∈ fs, f.isFilter = false := by
      intro f member
      have moved := List.mem_map_of_mem (f := Expr.move fun _ => 0) member
      rw [← Expr.moveAll_eq, same, Expr.moveAll_eq, List.mem_map] at moved
      obtain ⟨e, inside, same'⟩ := moved
      have filters := congrArg Expr.isFilter same'
      simpa [plain e inside] using filters.symm
    refine ⟨_, .chain (semicolons.along first) sequence' (count ▸ several) plain', ?_⟩
    simp only [Expr.bare, Expr.move, span, same]

end TemplateBinding.Grammar
