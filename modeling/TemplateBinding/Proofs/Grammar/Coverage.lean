import TemplateBinding.Proofs.Grammar.Stretch
import TemplateBinding.Proofs.Text.Slicing

/-! The tokens of any text, valid or not. They stand in the text one after another, nothing
but layout is left outside of them, each shows what it is, and none ends too early. -/
namespace TemplateBinding.Grammar

theorem piece_of_mem_tokensFrom {start : Nat} {t : Text} {k : Token}
    (member : k ∈ tokensFrom start t) :
    ∃ before c cs, t = before ++ c :: cs ∧ isLayout c = false ∧
      k = ⟨start + Text.byteSize before,
        start + Text.byteSize before + Text.byteSize (Piece.first c cs).spelling,
        (Piece.first c cs).lexeme⟩ := by
  fun_induction tokensFrom start t with
  | case1 => cases member
  | case2 start c cs space ih =>
    obtain ⟨before, d, ds, rfl, other, same⟩ := ih member
    refine ⟨c :: before, d, ds, rfl, other, ?_⟩
    rw [same, Text.byteSize_cons, Nat.add_assoc start]
  | case3 start c cs space piece stop ih =>
    rcases List.mem_cons.1 member with rfl | later
    · exact ⟨[], c, cs, rfl, by simpa using space, rfl⟩
    · obtain ⟨before, d, ds, rest, other, same⟩ := ih later
      refine ⟨piece.spelling ++ before, d, ds, ?_, other, ?_⟩
      · rw [List.append_assoc, ← rest]
        exact (Piece.first_append c cs).symm
      · rw [same, Text.byteSize_append, ← Nat.add_assoc]

theorem Ordered.mem {low high : Nat} {ts : List Token} (ordered : Ordered low ts high)
    {k : Token} (member : k ∈ ts) : low ≤ k.start ∧ k.stop ≤ high := by
  induction ts generalizing low with
  | nil => cases member
  | cons t ts ih =>
    obtain ⟨first, own, rest⟩ := ordered
    rcases List.mem_cons.1 member with rfl | later
    · exact ⟨first, rest.le⟩
    · obtain ⟨low', high'⟩ := ih rest later
      exact ⟨Nat.le_trans (Nat.le_trans first own) low', high'⟩

theorem Ordered.pairwise {low high : Nat} {ts : List Token} (ordered : Ordered low ts high) :
    ts.Pairwise fun a b => a.stop ≤ b.start := by
  induction ts generalizing low with
  | nil => exact .nil
  | cons t ts ih =>
    obtain ⟨-, -, rest⟩ := ordered
    exact List.pairwise_cons.2 ⟨fun k member => (rest.mem member).1, ih rest⟩

theorem isLayout_of_outside (start : Nat) {t before after : Text} {c : Char}
    (whole : t = before ++ c :: after)
    (outside : ∀ k ∈ tokensFrom start t,
      start + Text.byteSize before < k.start ∨ k.stop ≤ start + Text.byteSize before) :
    isLayout c = true := by
  fun_induction tokensFrom start t generalizing before with
  | case1 => simp at whole
  | case2 start d ds space ih =>
    cases before with
    | nil =>
      cases whole
      exact space
    | cons b before =>
      cases whole
      refine ih rfl fun k member => ?_
      have side := outside k member
      rwa [Text.byteSize_cons, ← Nat.add_assoc] at side
  | case3 start d ds space piece stop =>
    rename_i ih
    have split : piece.spelling ++ piece.rest = before ++ c :: after :=
      (Piece.first_append d ds).trans whole
    -- The place is behind the first token, since it is not inside of it.
    have behind : stop ≤ start + Text.byteSize before := by
      rcases outside _ List.mem_cons_self with early | late
      · exact absurd early (by simp)
      · exact late
    have fits : Text.byteSize piece.spelling ≤ Text.byteSize before :=
      Nat.le_of_add_le_add_left behind
    obtain ⟨between, rfl⟩ : ∃ between, before = piece.spelling ++ between := by
      rcases List.append_eq_append_iff.1 split with ⟨between, same, -⟩ | ⟨rest, same, -⟩
      · exact ⟨between, same⟩
      · cases rest with
        | nil => exact ⟨[], by rw [same]; simp⟩
        | cons o rest =>
          have pos := o.utf8Size_pos
          rw [same, Text.byteSize_append, Text.byteSize_cons] at fits
          omega
    rw [List.append_assoc] at split
    refine ih (List.append_cancel_left split) fun k member => ?_
    have side := outside k (List.mem_cons_of_mem _ member)
    rwa [Text.byteSize_append, ← Nat.add_assoc] at side

def IsWord (s : Text) : Prop :=
  ∃ c cs, s = c :: cs ∧ isNameStart c = true ∧ ∀ d ∈ cs, isNamePart d = true

namespace Lexeme

/-- How a lexeme shows in a text: as its own text, and a string between two equal quotes. -/
def ShownAs (s : Text) : Lexeme → Prop
  | .string _ => ∃ q inner, isQuote q = true ∧ s = q :: (inner ++ [q])
  | .invalid _ => True
  | l => s = l.text

/-- What cannot stand directly behind a lexeme: a character that would go on with it. -/
def EndsBefore (c : Char) : Lexeme → Prop
  | .identifier _ | .keyword _ => isNamePart c = false
  | .number _ _ => isDigit c = false ∧ c ≠ '.' ∧ c ≠ 'e' ∧ c ≠ 'E'
  | .punctuation mark => mark = '.' → isDigit c = false
  | .operator symbol => symbol ++ [c] ∉ operators
  | .string _ | .invalid _ => True

theorem exists_of_isInvalid {l : Lexeme} (invalid : l.isInvalid = true) :
    ∃ fault, l = .invalid fault := by
  cases l with
  | invalid fault => exact ⟨fault, rfl⟩
  | _ => cases invalid

end Lexeme

theorem Quotation.read?_closed {q : Char} {t : Text} {r : Quotation}
    (found : Quotation.read? q t = some r) : ∃ inner, r.spelling = inner ++ [q] := by
  fun_induction Quotation.read? q t generalizing r with
  | case1 => cases found
  | case2 => cases found
  | case3 d ds ih =>
    obtain ⟨inside, read, rfl⟩ := Option.map_eq_some_iff.1 found
    obtain ⟨inner, same⟩ := ih read
    exact ⟨'\\' :: d :: inner, by simp [same]⟩
  | case4 =>
    cases found
    exact ⟨[], rfl⟩
  | case5 c cs plain other ih =>
    obtain ⟨inside, read, rfl⟩ := Option.map_eq_some_iff.1 found
    obtain ⟨inner, same⟩ := ih read
    exact ⟨c :: inner, by simp [same]⟩

theorem Spells.shown {l : Lexeme} {s : Text} (spells : Spells l s) : l.ShownAs s := by
  cases spells with
  | string quote read =>
    obtain ⟨inner, same⟩ := Quotation.read?_closed read
    exact ⟨_, inner, quote, congrArg _ same⟩
  | identifier | keyword | number | punctuation | operator => rfl

theorem Parted.endsBefore {l : Lexeme} {rest : Text} (parted : Parted l rest) {c : Char}
    (head : c ∈ rest.head?) : l.EndsBefore c := by
  have stop := parted c head
  cases l with
  | identifier | keyword => exact stop
  | number =>
    simp only [Lexeme.extendedBy, extendsRun, isExponentMark, Bool.or_eq_false_iff,
      decide_eq_false_iff_not] at stop
    exact ⟨stop.1.1.1, stop.1.1.2, stop.1.2⟩
  | punctuation mark =>
    intro point
    simpa [Lexeme.extendedBy, point] using stop
  | operator symbol => exact of_decide_eq_false stop
  | string | invalid => trivial

theorem isWord_of_mem_keywords {w : Text} (member : w ∈ keywords) : IsWord w := by
  cases w with
  | nil => exact absurd member (by decide)
  | cons c cs => exact ⟨c, cs, rfl, Piece.letters_of_mem_keywords member⟩

theorem Spells.keyword_word {w s : Text} (spells : Spells (.keyword w) s) :
    s = w ∧ IsWord w ∧ w ∈ keywords := by
  cases spells with
  | keyword member => exact ⟨rfl, isWord_of_mem_keywords member, member⟩

theorem Spells.identifier_word {x s : Text} (spells : Spells (.identifier x) s) :
    s = x ∧ IsWord x ∧ x ∉ keywords := by
  cases spells with
  | identifier start parts other => exact ⟨rfl, ⟨_, _, rfl, start, parts⟩, other⟩

theorem lexeme_of_isWord {c : Char} {cs : Text} (word : IsWord (Piece.first c cs).spelling) :
    (Piece.first c cs).lexeme =
      if (Piece.first c cs).spelling ∈ keywords then .keyword (Piece.first c cs).spelling
      else .identifier (Piece.first c cs).spelling := by
  obtain ⟨d, ds, same, start, -⟩ := word
  have whole := Piece.first_append c cs
  rw [same, List.cons_append] at whole
  obtain ⟨rfl, -⟩ := List.cons.inj whole
  unfold Piece.first
  rw [if_pos start]
  rfl

/-- What a token promises of the place where it stands. -/
structure Token.Fits (t : Text) (k : Token) : Prop where
  nonempty : k.start < k.stop
  inside : k.stop ≤ t.byteSize
  begins : Text.IsBoundary k.start t
  ends : Text.IsBoundary k.stop t
  shown : k.lexeme.ShownAs (t.slice k.start k.stop)
  keyword : ∀ w, k.lexeme = .keyword w ↔
    t.slice k.start k.stop = w ∧ IsWord w ∧ w ∈ keywords
  identifier : ∀ w, k.lexeme = .identifier w ↔
    t.slice k.start k.stop = w ∧ IsWord w ∧ w ∉ keywords
  maximal : ∀ c, Text.CharAt k.stop c t → k.lexeme.EndsBefore c

theorem fits_of_piece {before cs : Text} {c : Char} :
    Token.Fits (before ++ c :: cs)
      ⟨Text.byteSize before,
        Text.byteSize before + Text.byteSize (Piece.first c cs).spelling,
        (Piece.first c cs).lexeme⟩ := by
  have whole := Piece.first_append c cs
  have word : IsWord (Piece.first c cs).spelling → _ := lexeme_of_isWord
  have exact' : (Piece.first c cs).lexeme.isInvalid = false → (Piece.first c cs).Exact :=
    Piece.exact_first
  have some := Piece.first_spelling_ne_nil c cs
  rw [← whole]
  generalize Piece.first c cs = p at word exact' some
  have slice := Text.slice_append before p.spelling p.rest
  constructor
  case nonempty =>
    obtain ⟨d, ds, same⟩ := List.exists_cons_of_ne_nil some
    have pos := d.utf8Size_pos
    simp only [same, Text.byteSize_cons]
    omega
  case inside =>
    simp only [Text.byteSize_append]
    omega
  case begins => exact ⟨before, _, rfl, rfl⟩
  case ends =>
    exact ⟨before ++ p.spelling, p.rest, by simp, (Text.byteSize_append _ _).symm⟩
  case shown =>
    rw [slice]
    cases valid : p.lexeme.isInvalid with
    | false => exact (exact' valid).spells.shown
    | true =>
      obtain ⟨fault, same⟩ := Lexeme.exists_of_isInvalid valid
      rw [same]
      trivial
  case keyword =>
    intro w
    rw [slice]
    constructor
    · intro same
      have isOne : p.lexeme = .keyword w := same
      have spells := (exact' (by rw [isOne]; rfl)).spells
      rw [isOne] at spells
      exact spells.keyword_word
    · rintro ⟨rfl, isWord, member⟩
      rw [word isWord, if_pos member]
  case identifier =>
    intro w
    rw [slice]
    constructor
    · intro same
      have isOne : p.lexeme = .identifier w := same
      have spells := (exact' (by rw [isOne]; rfl)).spells
      rw [isOne] at spells
      exact spells.identifier_word
    · rintro ⟨rfl, isWord, other⟩
      rw [word isWord, if_neg other]
  case maximal =>
    intro d here
    simp only [← Text.byteSize_append, ← List.append_assoc] at here
    cases valid : p.lexeme.isInvalid with
    | false => exact (exact' valid).parted.endsBefore here.head?
    | true =>
      obtain ⟨fault, same⟩ := Lexeme.exists_of_isInvalid valid
      rw [same]
      trivial

theorem fits_of_mem {t : Text} {k : Token} (member : k ∈ tokens t) : k.Fits t := by
  obtain ⟨before, c, cs, rfl, -, rfl⟩ := piece_of_mem_tokensFrom member
  simp only [Nat.zero_add]
  exact fits_of_piece

structure Covers (t : Text) (ts : List Token) : Prop where
  fits : ∀ k ∈ ts, k.Fits t
  ordered : ts.Pairwise fun a b => a.stop ≤ b.start
  gaps : ∀ n c, Text.CharAt n c t → (∀ k ∈ ts, n < k.start ∨ k.stop ≤ n) → c ∈ layout

/-- The tokens of every text show all of it but layout, in order and without overlap, and
each goes on as long as it can. -/
theorem tokens_cover (t : Text) : Covers t (tokens t) := by
  constructor
  case fits => exact fun k member => fits_of_mem member
  case ordered => exact (ordered_tokensFrom 0 t).pairwise
  case gaps =>
    rintro n c ⟨before, after, whole, rfl⟩ outside
    refine List.contains_iff_mem.1 (isLayout_of_outside 0 whole fun k member => ?_)
    rw [Nat.zero_add]
    exact outside k member

end TemplateBinding.Grammar
