import TemplateBinding.Proofs.Expr.Printing

/-! The tokens of the printed text of an expression. Printing takes the layout out of a text, and
where it parted a number from a point, the two become one token; and a number that is too large
for its type is printed as a word. Other tokens are found again. -/
namespace TemplateBinding

namespace Grammar

def Snug (t : Text) : Prop := t.IsChain fun c d => isLayout c = true → d ≠ '.'

/-- A lexeme that is printed without layout, and with a point in front only if it is one. -/
structure Compact (l : Lexeme) : Prop where
  unspaced : ∀ c ∈ l.printed, isLayout c = false
  point : l.printed.head? = some '.' → l = .punctuation '.'
  some : l.printed ≠ []

theorem isLayout_eq_false {p : Char → Bool} (unused : ∀ d ∈ layout, p d = false) {c : Char}
    (holds : p c = true) : isLayout c = false := by
  rw [isLayout, ← Bool.not_eq_true, List.contains_iff_mem]
  intro member
  rw [unused c member] at holds
  cases holds

theorem unspaced_plainText (x : Binary64) : ∀ c ∈ x.plainText, isLayout c = false := by
  have digits : ∀ c ∈ (Binary64.shortest .up x.rank).positional, isLayout c = false := by
    intro c member
    rcases Decimal.mem_positional member with digit | rfl
    · exact isLayout_eq_false (List.all_iff_forall_prop.1 rfl) digit
    · decide
  have sign : ∀ c ∈ x.signText, isLayout c = false := by
    intro c member
    unfold Binary64.signText at member
    split at member
    · rw [List.mem_singleton.1 member]
      decide
    · cases member
  unfold Binary64.plainText
  split
  · exact List.all_iff_forall_prop.1 rfl
  split
  · exact List.forall_mem_append.2 ⟨sign, digits⟩
  · exact List.forall_mem_append.2 ⟨sign, List.all_iff_forall_prop.1 rfl⟩

theorem Spells.compact {l : Lexeme} {s : Text} (spells : Spells l s)
    (unquoted : ∀ v, l ≠ .string v) : Compact l := by
  have unnamed : ∀ d ∈ layout, isNamePart d = false := List.all_iff_forall_prop.1 rfl
  have word {l : Lexeme} {c : Char} {cs : Text} (printed : l.printed = c :: cs)
      (start : isNameStart c = true) (parts : ∀ d ∈ cs, isNamePart d = true) : Compact l := by
    have all : ∀ d ∈ c :: cs, isNamePart d = true :=
      List.forall_mem_cons.2 ⟨by simp [isNamePart, start], parts⟩
    constructor
    · rw [printed]
      exact fun d member => isLayout_eq_false unnamed (all d member)
    · rw [printed]
      intro point
      cases point
      cases start
    · rw [printed]
      exact List.cons_ne_nil c cs
  cases spells with
  | identifier start parts _ => exact word rfl start parts
  | @keyword w member =>
    obtain ⟨c, cs, rfl⟩ := List.exists_cons_of_ne_nil (Spells.keyword member).ne_nil
    obtain ⟨start, parts⟩ := Piece.letters_of_mem_keywords member
    exact word rfl start parts
  | @number _ _ d =>
    obtain ⟨c, cs, whole, kind⟩ := plainText_begins (.ofDecimal d)
    have printed (spelling : Text) : (Lexeme.number (.ofDecimal d) spelling).printed = c :: cs :=
      whole
    refine ⟨unspaced_plainText _, fun point => ?_, printed _ ▸ List.cons_ne_nil c cs⟩
    rw [printed] at point
    cases point
    rcases kind with digit | start | sign
    · cases digit
    · cases start
    · cases sign
  | @punctuation c member =>
    have others : ∀ d ∈ Grammar.punctuation, isLayout d = false := List.all_iff_forall_prop.1 rfl
    refine ⟨List.forall_mem_singleton.2 (others c member), ?_, List.cons_ne_nil c []⟩
    intro point
    cases point
    rfl
  | string => exact absurd rfl (unquoted _)
  | operator member =>
    have others : ∀ o ∈ operators, o.all (! isLayout ·) = true ∧ o.head? ≠ some '.' := by decide
    obtain ⟨unspaced, unpointed⟩ := others _ member
    refine ⟨fun c inside => ?_, fun point => absurd point unpointed,
      (Spells.operator member).ne_nil⟩
    simpa using List.all_eq_true.1 unspaced c inside

theorem Laid.point {ls : List Lexeme} {t : Text} (laid : Laid ls t)
    (compact : ∀ l ∈ ls, Compact l) (point : t.head? = some '.') :
    ls.head? = some (.punctuation '.') := by
  cases laid with
  | nil => cases point
  | blank => cases point
  | @lexeme l ls rest _ _ =>
    obtain ⟨-, own, nonempty⟩ := compact l List.mem_cons_self
    obtain ⟨c, cs, printed⟩ := List.exists_cons_of_ne_nil nonempty
    rw [printed] at own point
    rw [List.head?_cons, own point]

theorem Laid.snug {ls : List Lexeme} {t : Text} (laid : Laid ls t)
    (compact : ∀ l ∈ ls, Compact l) : Snug t := by
  induction laid with
  | nil => exact .nil
  | @blank ls t unpointed laid ih =>
    refine List.isChain_cons.2 ⟨?_, ih compact⟩
    rintro d head - rfl
    exact unpointed (laid.point compact head)
  | @lexeme l ls rest _ _ ih =>
    obtain ⟨own, others⟩ := List.forall_mem_cons.1 compact
    have apart {c d : Char} (member : c ∈ l.printed) (space : isLayout c = true) : d ≠ '.' := by
      rw [own.unspaced c member] at space
      cases space
    refine List.isChain_append.2 ⟨?_, ih others, ?_⟩
    · exact (List.isChain_isInfix l.printed).imp fun c d pair =>
        apart (pair.subset List.mem_cons_self)
    · exact fun c last d _ => apart (List.mem_of_mem_getLast? last)

theorem Reads.first {start : Nat} {t : Text} {ts : List Token} (reads : Reads start t ts) :
    ∀ k ∈ ts.head?, ∃ gap s rest, t = gap ++ (s ++ rest) ∧
      (∀ c ∈ gap, isLayout c = true) ∧ Spells k.lexeme s := by
  induction reads with
  | nil => exact nofun
  | @layout _ c _ _ space _ ih =>
    intro k head
    obtain ⟨gap, s, rest, rfl, all, spells⟩ := ih k head
    exact ⟨c :: gap, s, rest, rfl, List.forall_mem_cons.2 ⟨space, all⟩, spells⟩
  | @token _ l s rest _ spells _ _ _ =>
    intro k head
    cases head
    exact ⟨[], s, rest, rfl, nofun, spells⟩

theorem Reads.unpointed {start : Nat} {t : Text} {ts : List Token} (reads : Reads start t ts)
    (snug : Snug t) : (ts.map Token.lexeme).IsChain Unpointed := by
  induction reads with
  | nil => exact .nil
  | layout _ _ ih => exact ih (List.isChain_cons.1 snug).2
  | @token _ l s rest ts _ parted reads ih =>
    have behind : Snug rest := (List.isChain_append.1 snug).2.1
    refine List.isChain_cons.2 ⟨?_, ih behind⟩
    rintro m head number rfl
    rw [List.head?_map, Option.mem_def, Option.map_eq_some_iff] at head
    obtain ⟨k, first, isPoint⟩ := head
    obtain ⟨gap, s, rest, rfl, all, spells⟩ := reads.first k first
    rw [isPoint] at spells
    cases spells
    cases last : gap.getLast? with
    | none =>
      rw [List.getLast?_eq_none_iff.1 last] at parted
      have apart := parted '.' rfl
      cases l with
      | number => simp [Lexeme.extendedBy, extendsRun] at apart
      | _ => cases number
    | some c =>
      have space := all c (List.mem_of_mem_getLast? last)
      exact (List.isChain_append.1 behind).2.2 c last '.' rfl space rfl

theorem lexemes_letter {c : Char} (start : isNameStart c = true) (cs : Text) :
    ∃ l ls, lexemes (c :: cs) = l :: ls ∧ l.isNumber = false := by
  have unnamed : ∀ d ∈ layout, isNameStart d = false := List.all_iff_forall_prop.1 rfl
  have space : ¬ isLayout c = true := by simp [isLayout_eq_false unnamed start]
  have first : (Piece.first c cs).lexeme.isNumber = false := by
    rw [Piece.first, if_pos start]
    unfold Piece.word
    dsimp only
    split <;> rfl
  rw [lexemes, tokens, tokensFrom, if_neg space, List.map_cons]
  exact ⟨_, _, rfl, first⟩

theorem isChain_unspelled (ls : List Lexeme) :
    (ls.map Lexeme.unspelled).IsChain Unpointed ↔ ls.IsChain Unpointed := by
  rw [List.isChain_map]
  apply List.IsChain.iff
  intro l m
  have number : l.unspelled.isNumber = l.isNumber := by cases l <;> rfl
  have point : m.unspelled = .punctuation '.' ↔ m = .punctuation '.' := by
    cases m <;> simp [Lexeme.unspelled]
  rw [Unpointed, Unpointed, number, Ne, point]

theorem plainText_letter {x : Binary64} (infinite : x.isFinite = false)
    (positive : x.negative = false) :
    ∃ c cs, x.plainText = c :: cs ∧ isNameStart c = true := by
  unfold Binary64.plainText Binary64.signText
  rw [infinite, positive]
  split
  · exact ⟨'N', _, rfl, rfl⟩
  · exact ⟨'i', _, rfl, rfl⟩

/-- Where the tokens of a text are those that stand printed in it, their numbers are finite: others
are printed as words. -/
theorem Laid.finite {ls : List Lexeme} {t : Text} (laid : Laid ls t)
    (spelled : ∀ l ∈ ls, (∃ s, Spells l s) ∧ ∀ v, l ≠ .string v) (points : ls.IsChain Unpointed)
    (same : (Grammar.lexemes t).map Lexeme.unspelled = ls.map Lexeme.unspelled) :
    ∀ l ∈ ls, ∀ x spelling, l = .number x spelling → x.isFinite = true := by
  induction laid with
  | nil => exact nofun
  | blank _ _ ih =>
    rw [lexemes_blank] at same
    exact ih spelled points same
  | @lexeme l ls rest joins _ ih =>
    obtain ⟨⟨⟨s, spells⟩, unquoted⟩, others⟩ := List.forall_mem_cons.1 spelled
    obtain ⟨next, points'⟩ := List.isChain_cons.1 points
    have finite : ∀ x spelling, l = .number x spelling → x.isFinite = true := by
      rintro x spelling rfl
      by_contra infinite
      have positive : x.negative = false := by
        cases spells
        rfl
      obtain ⟨c, cs, whole, start⟩ := plainText_letter (by simpa using infinite) positive
      have printed : (Lexeme.number x spelling).printed = c :: cs := whole
      obtain ⟨l, ls, found, other⟩ := lexemes_letter start (cs ++ rest)
      rw [printed, List.cons_append, found, List.map_cons, List.map_cons] at same
      obtain ⟨spelling', rfl⟩ := Lexeme.exists_of_unspelled (List.cons.inj same).1
      cases other
    have printable : l.Printable :=
      spells.printable (fun v isString => absurd isString (unquoted v)) finite
    rw [lexemes_spelled printable (joins.parted next), List.map_cons, List.map_cons,
      List.cons.injEq] at same
    exact List.forall_mem_cons.2 ⟨finite, ih others points' same.2⟩

theorem Laid.unspelled_iff {ls : List Lexeme} {t : Text} (laid : Laid ls t)
    (spelled : ∀ l ∈ ls, (∃ s, Spells l s) ∧ ∀ v, l ≠ .string v) :
    (Grammar.lexemes t).map Lexeme.unspelled = ls.map Lexeme.unspelled ↔
      (∀ l ∈ ls, ∀ x spelling, l = .number x spelling → x.isFinite = true) ∧
        ls.IsChain Unpointed := by
  constructor
  · intro kept
    have valid : ∀ k ∈ tokens t, k.lexeme.isInvalid = false := by
      intro k member
      have invalid (l : Lexeme) : l.unspelled.isInvalid = l.isInvalid := by cases l <;> rfl
      have found : k.lexeme.unspelled ∈ ls.map Lexeme.unspelled :=
        kept ▸ List.mem_map_of_mem (List.mem_map_of_mem member)
      obtain ⟨l, inside, alike⟩ := List.mem_map.1 found
      obtain ⟨⟨s, spells⟩, -⟩ := spelled l inside
      rw [← invalid, ← alike, invalid, spells.valid]
    have compact : ∀ l ∈ ls, Compact l := fun l member =>
      (spelled l member).1.elim fun _ spells => spells.compact (spelled l member).2
    have points : (Grammar.lexemes t).IsChain Unpointed :=
      (reads_tokensFrom valid).unpointed (laid.snug compact)
    rw [← isChain_unspelled, kept, isChain_unspelled] at points
    exact ⟨laid.finite spelled points kept, points⟩
  · rintro ⟨finite, points⟩
    have printable : ∀ l ∈ ls, l.Printable := by
      intro l member
      obtain ⟨⟨s, spells⟩, unquoted⟩ := spelled l member
      exact spells.printable (fun v isString => absurd isString (unquoted v)) (finite l member)
    rw [laid.lexemes printable points, List.map_map]
    exact List.map_congr_left fun l _ => l.unspelled_canonical

end Grammar

namespace Expr

open Grammar

theorem quotable_of_unquoted {t : Text} {a : Expr} (accepted : Expr.parse t = .ok a)
    (unquoted : ∀ k ∈ tokens t, ∀ v, k.lexeme ≠ .string v) : Quotable a := by
  obtain ⟨-, whole⟩ := Expr.parse_eq_ok_iff.1 accepted
  intro s ks vs within k member quoted
  obtain ⟨x, us, y, stretch, derived⟩ : ∃ x us y, tokens t = x ++ (us ++ y) ∧
      Derives .filtered us (.object s ks vs) := by
    rcases whole.node within with rfl | implicit | stretch
    · obtain ⟨lead, us, ss, split, -, derived, -⟩ := whole.phrase rfl nofun
      exact ⟨lead, us, ss, split, derived⟩
    · cases implicit
    · exact stretch
  obtain ⟨opened, inner, closed, kvs, rfl, -, -, entries, rfl, -⟩ := derived.entries rfl
  obtain ⟨kv, inside, rfl⟩ := List.mem_map.1 member
  obtain ⟨u, among, isKey⟩ := entries.keys kv inside
  have token : u ∈ tokens t := by simp [stretch, among]
  have unquoted' := unquoted u token
  cases key : u.lexeme with
  | string v => exact absurd key (unquoted' v)
  | _ =>
    rw [key] at isKey
    generalize kv.1 = k at isKey quoted
    cases isKey <;> cases quoted

/-- The text of a tree that was read from a text without strings has the tokens of this text, but
for semicolons that part nothing, exactly if every number is finite and none has a point directly
behind it. -/
theorem lexemes_print_iff {t : Text} {a : Expr} (accepted : Expr.parse t = .ok a)
    (unquoted : ∀ k ∈ tokens t, ∀ v, k.lexeme ≠ .string v) :
    (lexemes a.print).map Lexeme.unspelled = (collapsed (lexemes t)).map Lexeme.unspelled ↔
      (∀ k ∈ tokens t, ∀ x spelling, k.lexeme = .number x spelling → x.isFinite = true) ∧
        ∀ x y, [x, y] <:+: tokens t → x.lexeme.isNumber = true →
          y.lexeme ≠ .punctuation '.' := by
  obtain ⟨valid, whole⟩ := Expr.parse_eq_ok_iff.1 accepted
  have spelled := (reads_tokensFrom valid).spelled
  have lettered : Lettered (tokens t) := fun k member =>
    (spelled k member).elim fun _ => Spells.isLettered
  obtain ⟨us, -, -, -, fewer, same, laid⟩ :=
    whole.laid lettered (quotable_of_unquoted accepted unquoted)
  have facts : ∀ l ∈ us.map Token.lexeme, (∃ s, Spells l s) ∧ ∀ v, l ≠ .string v :=
    List.forall_mem_map.2 fun k member =>
      ⟨spelled k (fewer member), unquoted k (fewer member)⟩
  have finite_iff : (∀ l ∈ us.map Token.lexeme, ∀ x spelling,
      l = .number x spelling → x.isFinite = true) ↔
      ∀ k ∈ tokens t, ∀ x spelling, k.lexeme = .number x spelling → x.isFinite = true := by
    refine ⟨fun finite k member x spelling isNumber => ?_, fun finite =>
      List.forall_mem_map.2 fun k member => finite k (fewer member)⟩
    have inside : k.lexeme ∈ us.map Token.lexeme := by
      rw [same]
      exact mem_collapsed (by rw [isNumber]; rfl) (List.mem_map_of_mem member)
    exact finite _ inside x spelling isNumber
  have points_iff : (us.map Token.lexeme).IsChain Unpointed ↔
      ∀ x y, [x, y] <:+: tokens t → x.lexeme.isNumber = true → y.lexeme ≠ .punctuation '.' := by
    rw [same, isChain_collapsed unpointed_of_semicolon, isChain_unpointed_iff]
  rw [← finite_iff, ← points_iff, lexemes, lexemes, ← same]
  exact laid.unspelled_iff facts

theorem lexemes_print_semicolons :
    ∃ a, Expr.parse ";a + 1.50;; b.c;" = .ok a ∧
      (lexemes a.print).map Lexeme.unspelled =
        (collapsed (lexemes ";a + 1.50;; b.c;")).map Lexeme.unspelled := by
  generalize value : Binary64.ofDecimal ⟨150, -2⟩ = x
  have found : tokens ";a + 1.50;; b.c;" =
      [⟨0, 1, .punctuation ';'⟩, ⟨1, 2, .identifier "a"⟩, ⟨3, 4, .operator "+"⟩,
        ⟨5, 9, .number x "1.50"⟩, ⟨9, 10, .punctuation ';'⟩, ⟨10, 11, .punctuation ';'⟩,
        ⟨12, 13, .identifier "b"⟩, ⟨13, 14, .punctuation '.'⟩, ⟨14, 15, .identifier "c"⟩,
        ⟨15, 16, .punctuation ';'⟩] := by
    rw [← value]
    decide +kernel
  have read : (Expr.parse ";a + 1.50;; b.c;").isOk = true := by decide +kernel
  cases accepted : Expr.parse ";a + 1.50;; b.c;" with
  | error =>
    rw [accepted] at read
    cases read
  | ok a =>
    refine ⟨a, rfl, (lexemes_print_iff accepted ?_).2 ⟨?_, ?_⟩⟩
    · rw [found]
      simp
    · have finite : x.isFinite = true := by
        rw [← value]
        decide +kernel
      rw [found]
      simp [finite]
    · rw [← isChain_unpointed_iff, found]
      simp [Unpointed, Lexeme.isNumber]

/-- The blank of the source parts the number from the point, and is not printed. -/
theorem lexemes_print_point :
    ¬ ∀ (t : Text) (a : Expr), Expr.parse t = .ok a →
      (∀ k ∈ tokens t, ∀ v, k.lexeme ≠ .string v) →
        (lexemes a.print).map Lexeme.unspelled = (collapsed (lexemes t)).map Lexeme.unspelled := by
  intro all
  have found : tokens "0 .a" =
      [⟨0, 1, .number (.ofDecimal ⟨0, 0⟩) "0"⟩, ⟨2, 3, .punctuation '.'⟩,
        ⟨3, 4, .identifier "a"⟩] := by
    decide +kernel
  have read : (Expr.parse "0 .a").toOption.any (fun a => (lexemes a.print).length = 2) = true := by
    decide +kernel
  cases accepted : Expr.parse "0 .a" with
  | error =>
    rw [accepted] at read
    cases read
  | ok a =>
    rw [accepted] at read
    have fused : (lexemes a.print).length = 2 := of_decide_eq_true read
    have kept := congrArg List.length (all "0 .a" a accepted (by rw [found]; simp))
    have apart : (collapsed (lexemes "0 .a")).length = 3 := by
      rw [lexemes, found]
      rfl
    simp only [List.length_map] at kept
    omega

end Expr

end TemplateBinding
