import TemplateBinding.Proofs.Grammar.Spelling
import TemplateBinding.Proofs.Text.Slicing

/-! Scanning with a reading head. The head knows a byte position and the one character there;
it can only be moved over that character, and a move that leaves the text has no result. The
head reads every text to its end, and finds the same tokens. -/
namespace TemplateBinding

namespace Text

/-- The rest of a text from a byte position on. There is none from behind the text or from
inside a character. -/
def rest? : Nat → Text → Option Text
  | 0, t => some t
  | _ + 1, [] => none
  | n + 1, c :: cs => if c.utf8Size ≤ n + 1 then rest? (n + 1 - c.utf8Size) cs else none

def part? (start stop : Nat) (t : Text) : Option Text :=
  if start ≤ stop ∧ (rest? start t).isSome ∧ (rest? stop t).isSome then some (t.slice start stop)
  else none

theorem rest?_append (a b : Text) : rest? (byteSize a) (a ++ b) = some b := by
  induction a with
  | nil => simp [rest?]
  | cons c cs ih =>
    have pos := c.utf8Size_pos
    obtain ⟨n, size⟩ : ∃ n, byteSize (c :: cs) = n + 1 := Nat.exists_eq_add_one.2 (by
      rw [byteSize_cons]
      omega)
    rw [List.cons_append, size, rest?, ← size, byteSize_cons, if_pos (Nat.le_add_right _ _),
      Nat.add_sub_cancel_left, ih]

theorem isBoundary_of_rest? {n : Nat} {t b : Text} (found : rest? n t = some b) :
    IsBoundary n t := by
  fun_induction rest? n t with
  | case1 t => exact ⟨[], t, rfl, rfl⟩
  | case2 => cases found
  | case3 n c cs fits ih =>
    obtain ⟨before, after, rfl, size⟩ := ih found
    refine ⟨c :: before, after, rfl, ?_⟩
    rw [byteSize_cons]
    omega
  | case4 => cases found

theorem part?_append (a b c : Text) :
    part? (byteSize a) (byteSize (a ++ b)) (a ++ (b ++ c)) = some b := by
  have first := rest?_append a (b ++ c)
  have second := rest?_append (a ++ b) c
  rw [List.append_assoc] at second
  rw [part?, first, second, byteSize_append, if_pos (by simp), slice_append]

end Text

namespace Grammar

/-- A reading head over a text. Behind the text the character is a null, which may stand in
the text as well. -/
structure Head where
  source : Text
  index : Nat
  peek : Char

namespace Head

def start (t : Text) : Head := ⟨t, 0, t.head?.getD '\x00'⟩

def atEnd (h : Head) : Bool := h.source.byteSize ≤ h.index

def advance (h : Head) : Option Head :=
  (Text.rest? (h.index + h.peek.utf8Size) h.source).map fun rest =>
    ⟨h.source, h.index + h.peek.utf8Size, rest.head?.getD '\x00'⟩

theorem advance_forward {h next : Head} (moved : h.advance = some next) :
    next.source = h.source ∧ h.index < next.index := by
  obtain ⟨rest, -, rfl⟩ := Option.map_eq_some_iff.1 moved
  exact ⟨rfl, Nat.lt_add_of_pos_right h.peek.utf8Size_pos⟩

theorem fewer_ahead {h next : Head} (inside : ¬ h.atEnd = true)
    (forward : next.source = h.source ∧ h.index < next.index) :
    next.source.byteSize - next.index < h.source.byteSize - h.index := by
  simp only [atEnd, decide_eq_true_eq, Nat.not_le] at inside
  rw [forward.1]
  omega

def skip (p : Char → Bool) (h : Head) : Option Head :=
  if _inside : h.atEnd then some h
  else if p h.peek then
    match _moved : h.advance with
    | none => none
    | some next => next.skip p
  else some h
termination_by h.source.byteSize - h.index
decreasing_by exact fewer_ahead _inside (advance_forward _moved)

def skipSign (h : Head) : Option Head :=
  if h.peek = '+' || h.peek = '-' then h.advance else some h

theorem skipSign_forward {h next : Head} (moved : h.skipSign = some next) :
    next.source = h.source ∧ h.index ≤ next.index := by
  unfold skipSign at moved
  split at moved
  · have forward := advance_forward moved
    exact ⟨forward.1, Nat.le_of_lt forward.2⟩
  · cases moved
    exact ⟨rfl, Nat.le_refl _⟩

def skipNumeral (h : Head) : Option Head :=
  if _inside : h.atEnd then some h
  else if isDigit h.peek || h.peek = '.' then
    match _moved : h.advance with
    | none => none
    | some next => next.skipNumeral
  else if isExponentMark h.peek then
    match _moved : h.advance with
    | none => none
    | some next =>
      match _signed : next.skipSign with
      | none => none
      | some last => last.skipNumeral
  else some h
termination_by h.source.byteSize - h.index
decreasing_by
  · exact fewer_ahead _inside (advance_forward _moved)
  · have first := advance_forward _moved
    have second := skipSign_forward _signed
    exact fewer_ahead _inside ⟨second.1.trans first.1, Nat.lt_of_lt_of_le first.2 second.2⟩

/-- Moves on over the quote `q` that ends a string, and gives the string, which begins with
`value`. There is no string if the text ends before. -/
def skipQuotation (q : Char) (value : Text) (h : Head) : Option (Option Text × Head) :=
  if _inside : h.atEnd then some (none, h)
  else
    match _moved : h.advance with
    | none => none
    | some next =>
      if h.peek = '\\' then
        if _inside' : next.atEnd then some (none, next)
        else
          match _again : next.advance with
          | none => none
          | some last => last.skipQuotation q (value ++ [unescape next.peek])
      else if h.peek = q then some (some value, next)
      else next.skipQuotation q (value ++ [h.peek])
termination_by h.source.byteSize - h.index
decreasing_by
  · have first := advance_forward _moved
    have second := advance_forward _again
    exact fewer_ahead _inside ⟨second.1.trans first.1, Nat.lt_trans first.2 second.2⟩
  · exact fewer_ahead _inside (advance_forward _moved)

def word (start : Nat) (h : Head) : Option (Token × Head) := do
  let behind ← h.skip isNamePart
  let spelling ← Text.part? start behind.index behind.source
  let lexeme := if spelling ∈ keywords then .keyword spelling else .identifier spelling
  some (⟨start, behind.index, lexeme⟩, behind)

def numeral (start : Nat) (h : Head) : Option (Token × Head) := do
  let behind ← h.skipNumeral
  let spelling ← Text.part? start behind.index behind.source
  let lexeme := match numeral? spelling with
    | some value => .number (.ofDecimal value) spelling
    | none => .invalid (.malformedNumeral spelling)
  some (⟨start, behind.index, lexeme⟩, behind)

def quotation (start : Nat) (q : Char) (h : Head) : Option (Token × Head) := do
  let (value?, behind) ← h.skipQuotation q []
  let lexeme := match value? with
    | some value => .string value
    | none => .invalid .unterminatedQuote
  some (⟨start, behind.index, lexeme⟩, behind)

def extend (c : Char) (symbol : Text) (h : Head) : Option (Text × Head) :=
  if h.peek = c then h.advance.map fun next => (symbol ++ [c], next) else some (symbol, h)

def symbol (c : Char) (h : Head) : Option (Text × Head) :=
  if c = '<' || c = '>' then h.extend '=' [c]
  else if c = '!' || c = '=' then do
    let (first, next) ← h.extend '=' [c]
    if first = [c] then some (first, next) else next.extend '=' first
  else if c = '&' || c = '|' then h.extend c [c]
  else some ([c], h)

def operator (start : Nat) (c : Char) (h : Head) : Option (Token × Head) := do
  let (symbol, behind) ← h.symbol c
  let lexeme := if symbol ∈ operators then .operator symbol else .invalid (.unexpected c)
  some (⟨start, behind.index, lexeme⟩, behind)

def token (h : Head) : Option (Token × Head) := do
  let next ← h.advance
  if isNameStart h.peek then next.word h.index
  else if isDigit h.peek then h.numeral h.index
  else if h.peek = '.' && isDigit next.peek then next.numeral h.index
  else if h.peek ∈ punctuation then some (⟨h.index, next.index, .punctuation h.peek⟩, next)
  else if isQuote h.peek then next.quotation h.index h.peek
  else next.operator h.index h.peek

def step (h : Head) : Option (Option (Token × Head)) := do
  let ready ← h.skip isLayout
  if ready.atEnd then some none
  else
    let read ← ready.token
    some (some read)

/-- The head reads tokens one after another until the text ends, and no move fails. -/
inductive Run : Head → List Token → Prop
  | done {h} : h.step = some none → Run h []
  | more {h k next ts} : h.step = some (some (k, next)) → Run next ts → Run h (k :: ts)

theorem skip_eq (p : Char → Bool) (h : Head) :
    h.skip p =
      if h.atEnd then some h
      else if p h.peek then h.advance.bind fun next => next.skip p else some h := by
  rw [skip]
  split
  · rfl
  · split
    · split <;>
      · rename_i moved
        rw [moved]
        rfl
    · rfl

theorem skipNumeral_eq (h : Head) :
    h.skipNumeral =
      if h.atEnd then some h
      else if isDigit h.peek || h.peek = '.' then h.advance.bind skipNumeral
      else if isExponentMark h.peek then
        h.advance.bind fun next => next.skipSign.bind skipNumeral
      else some h := by
  rw [skipNumeral]
  split
  · rfl
  split
  · split <;>
    · rename_i moved
      rw [moved]
      rfl
  split
  · split
    · rename_i moved
      rw [moved]
      rfl
    · rename_i next moved
      rw [moved, Option.bind_some]
      split <;>
      · rename_i signed
        rw [signed]
        rfl
  · rfl

theorem skipQuotation_eq (q : Char) (value : Text) (h : Head) :
    h.skipQuotation q value =
      if h.atEnd then some (none, h)
      else h.advance.bind fun next =>
        if h.peek = '\\' then
          if next.atEnd then some (none, next)
          else next.advance.bind fun last => last.skipQuotation q (value ++ [unescape next.peek])
        else if h.peek = q then some (some value, next)
        else next.skipQuotation q (value ++ [h.peek]) := by
  rw [skipQuotation]
  split
  · rfl
  split
  · rename_i moved
    rw [moved]
    rfl
  · rename_i next moved
    rw [moved, Option.bind_some]
    congr 1
    split
    · rfl
    split <;>
    · rename_i again
      rw [again]
      rfl

def behind (before ahead : Text) : Head :=
  ⟨before ++ ahead, before.byteSize, ahead.head?.getD '\x00'⟩

section Behind

variable {before ahead : Text} {c : Char}

@[simp] theorem peek_behind : (behind before (c :: ahead)).peek = c := rfl

@[simp] theorem atEnd_behind_nil : (behind before []).atEnd = true := by
  simp [atEnd, behind]

@[simp] theorem atEnd_behind_cons : (behind before (c :: ahead)).atEnd = false := by
  have pos := c.utf8Size_pos
  simp only [atEnd, behind, Text.byteSize_append, Text.byteSize_cons, decide_eq_false_iff_not]
  omega

@[simp] theorem advance_behind :
    (behind before (c :: ahead)).advance = some (behind (before ++ [c]) ahead) := by
  have rest := Text.rest?_append (before ++ [c]) ahead
  rw [List.append_assoc, Text.byteSize_append] at rest
  have index : (behind before (c :: ahead)).index + (behind before (c :: ahead)).peek.utf8Size =
      before.byteSize + Text.byteSize [c] := rfl
  have source : (behind before (c :: ahead)).source = before ++ ([c] ++ ahead) := rfl
  unfold advance
  rw [index, source, rest]
  simp only [behind, Option.map_some, List.append_assoc, Text.byteSize_append]

@[simp] theorem skip_behind (p : Char → Bool) :
    (behind before ahead).skip p =
      some (behind (before ++ ahead.takeWhile p) (ahead.dropWhile p)) := by
  induction ahead generalizing before with
  | nil =>
    rw [skip_eq]
    simp
  | cons c ahead ih =>
    rw [skip_eq]
    cases member : p c <;> simp [member, ih]

theorem not_isExponentMark {c : Char}
    (other : (isDigit c || c = '.') = true ∨ (c = '+' || c = '-') = true) :
    isExponentMark c = false := by
  simp only [isExponentMark, Bool.or_eq_false_iff, decide_eq_false_iff_not]
  constructor <;>
  · rintro rfl
    revert other
    decide

theorem numeralRun_taken {afterMark : Bool} {c : Char} (cs : Text)
    (extends' : extendsRun afterMark c = true) :
    numeralRun afterMark (c :: cs) =
      (c :: (numeralRun (isExponentMark c) cs).1, (numeralRun (isExponentMark c) cs).2) := by
  simp [numeralRun, extends']

theorem numeralRun_unsigned {c : Char} (cs : Text) (unsigned : ¬ (c = '+' || c = '-') = true) :
    numeralRun true (c :: cs) = numeralRun false (c :: cs) := by
  have same : extendsRun true c = extendsRun false c := by
    rw [extendsRun, extendsRun, Bool.eq_false_iff.2 unsigned]
    rfl
  simp only [numeralRun, same]

theorem skipNumeral_behind (ahead : Text) :
    ∀ before,
      (behind before ahead).skipNumeral =
          some (behind (before ++ (numeralRun false ahead).1) (numeralRun false ahead).2) ∧
        (behind before ahead).skipSign.bind skipNumeral =
          some (behind (before ++ (numeralRun true ahead).1) (numeralRun true ahead).2) := by
  induction ahead with
  | nil =>
    intro before
    have peek : (behind before []).peek = '\x00' := rfl
    have stay : (behind before []).skipNumeral = some (behind before []) := by
      rw [skipNumeral_eq, if_pos atEnd_behind_nil]
    simp [skipSign, peek, stay, numeralRun]
  | cons c cs ih =>
    intro before
    obtain ⟨plain, signed⟩ := ih (before ++ [c])
    have unsigned : (behind before (c :: cs)).skipNumeral =
        some (behind (before ++ (numeralRun false (c :: cs)).1)
          (numeralRun false (c :: cs)).2) := by
      rw [skipNumeral_eq, if_neg (by simp), peek_behind, advance_behind]
      by_cases digit : (isDigit c || c = '.') = true
      · have extends' : extendsRun false c = true := by
          rw [extendsRun, digit]
          rfl
        rw [if_pos digit, Option.bind_some, plain, numeralRun_taken cs extends',
          not_isExponentMark (.inl digit), List.append_assoc]
        rfl
      rw [if_neg digit]
      by_cases mark : isExponentMark c = true
      · have extends' : extendsRun false c = true := by simp [extendsRun, mark]
        rw [if_pos mark, Option.bind_some, signed, numeralRun_taken cs extends', mark,
          List.append_assoc]
        rfl
      · have stop : extendsRun false c = false := by
          rw [extendsRun, Bool.eq_false_iff.2 digit, Bool.eq_false_iff.2 mark]
          rfl
        rw [if_neg mark]
        simp [numeralRun, stop]
    refine ⟨unsigned, ?_⟩
    unfold skipSign
    rw [peek_behind, advance_behind]
    by_cases sign : (c = '+' || c = '-') = true
    · have extends' : extendsRun true c = true := by
        rw [extendsRun, sign]
        simp
      rw [if_pos sign, Option.bind_some, plain, numeralRun_taken cs extends',
        not_isExponentMark (.inr sign), List.append_assoc]
      rfl
    · rw [if_neg sign, Option.bind_some, unsigned, numeralRun_unsigned cs sign]

theorem skipQuotation_behind (q : Char) (ahead : Text) :
    ∀ before value,
      (behind before ahead).skipQuotation q value =
        match Quotation.read? q ahead with
        | some r => some (some (value ++ r.value), behind (before ++ r.spelling) r.rest)
        | none => some (none, behind (before ++ ahead) []) := by
  fun_induction Quotation.read? q ahead with
  | case1 =>
    intro before value
    rw [skipQuotation_eq, if_pos atEnd_behind_nil, List.append_nil]
  | case2 =>
    intro before value
    rw [skipQuotation_eq]
    simp
  | case3 d ds ih =>
    intro before value
    have later := ih (before ++ ['\\', d]) (value ++ [unescape d])
    rw [skipQuotation_eq]
    cases read : Quotation.read? q ds <;> simp [later, read]
  | case4 cs plain =>
    intro before value
    rw [skipQuotation_eq]
    simp [plain]
  | case5 c cs plain other ih =>
    intro before value
    have later := ih (before ++ [c]) (value ++ [c])
    rw [skipQuotation_eq]
    cases read : Quotation.read? q cs <;> simp [plain, other, later, read]

theorem part_behind (before spelling rest : Text) :
    Text.part? before.byteSize (behind (before ++ spelling) rest).index
      (behind (before ++ spelling) rest).source = some spelling := by
  have cut := Text.part?_append before spelling rest
  rwa [← List.append_assoc] at cut

def placed (before : Text) (p : Piece) : Token × Head :=
  (⟨before.byteSize, (before ++ p.spelling).byteSize, p.lexeme⟩,
    behind (before ++ p.spelling) p.rest)

theorem word_behind {c : Char} {cs : Text} (start : isNameStart c = true) :
    (behind (before ++ [c]) cs).word before.byteSize = some (placed before (.word (c :: cs))) := by
  have named : isNamePart c = true := by simp [isNamePart, start]
  have spelling : before ++ [c] ++ cs.takeWhile isNamePart =
      before ++ (c :: cs).takeWhile isNamePart := by simp [named]
  have rest : cs.dropWhile isNamePart = (c :: cs).dropWhile isNamePart := by simp [named]
  unfold word
  rw [skip_behind, spelling, rest]
  simp only [Option.bind_eq_bind, Option.bind_some, part_behind]
  rfl

theorem numeral_behind (t : Text) {h : Head}
    (skips : h.skipNumeral =
      some (behind (before ++ (numeralRun false t).1) (numeralRun false t).2)) :
    h.numeral before.byteSize = some (placed before (.numeral t)) := by
  unfold numeral
  rw [skips]
  simp only [Option.bind_eq_bind, Option.bind_some, part_behind]
  rfl

theorem quotation_behind (q : Char) (cs : Text) :
    (behind (before ++ [q]) cs).quotation before.byteSize q =
      some (placed before (.quotation q cs)) := by
  unfold quotation Piece.quotation
  rw [skipQuotation_behind]
  cases Quotation.read? q cs <;> simp [placed, behind]

end Behind

theorem parted_of_longest {s : Text} (longest : ∀ op ∈ operators, op.dropLast ≠ s) (rest : Text) :
    Parted (.operator s) rest := by
  intro c _
  simp only [Lexeme.extendedBy, decide_eq_false_iff_not]
  intro member
  exact longest _ member (List.dropLast_concat)

theorem parted_of_last {s : Text} {d : Char} {rest : Text}
    (only : ∀ op ∈ operators, op.dropLast = s → op.getLast? = some d)
    (other : rest.head? ≠ some d) : Parted (.operator s) rest := by
  intro c head
  simp only [Lexeme.extendedBy, decide_eq_false_iff_not]
  intro member
  have last := only _ member List.dropLast_concat
  rw [List.getLast?_concat] at last
  exact other (Option.mem_def.1 head ▸ last)

theorem peek_behind_eq_iff {before ahead : Text} {c : Char} (visible : c ≠ '\x00') :
    (behind before ahead).peek = c ↔ ahead.head? = some c := by
  cases ahead with
  | nil => simp [behind, visible.symm]
  | cons d ds => simp

theorem extend_behind (before ahead : Text) {c : Char} (visible : c ≠ '\x00') (s : Text) :
    (∃ rest, ahead = c :: rest ∧
        (behind before ahead).extend c s = some (s ++ [c], behind (before ++ [c]) rest)) ∨
      ahead.head? ≠ some c ∧ (behind before ahead).extend c s = some (s, behind before ahead) := by
  unfold extend
  by_cases there : ahead.head? = some c
  · obtain ⟨rest, rfl⟩ := List.head?_eq_some_iff.1 there
    exact .inl ⟨rest, rfl, by simp⟩
  · rw [if_neg (mt (peek_behind_eq_iff visible).1 there)]
    exact .inr ⟨there, rfl⟩

/-- How a symbol that begins with `c` ends: it is `c` alone or an operator, and the text behind
it makes no longer operator of it. -/
structure Symbol (c : Char) (cs s rest : Text) : Prop where
  whole : s ++ rest = c :: cs
  parted : Parted (.operator s) rest
  known : s ∈ operators ∨ s = [c]

theorem Symbol.single {c : Char} {cs : Text} (parted : Parted (.operator [c]) cs) :
    Symbol c cs [c] cs := ⟨rfl, parted, .inr rfl⟩

theorem symbol_compares (before : Text) {c : Char} (cs : Text) (compares : c = '<' ∨ c = '>') :
    ∃ s rest, (behind (before ++ [c]) cs).extend '=' [c] = some (s, behind (before ++ s) rest) ∧
      Symbol c cs s rest := by
  rcases extend_behind (before ++ [c]) cs (by decide : '=' ≠ '\x00') [c] with
    ⟨rest, rfl, passed⟩ | ⟨other, stays⟩
  · refine ⟨[c, '='], rest, by simpa using passed, rfl, ?_, .inl ?_⟩
    · rcases compares with rfl | rfl <;> exact parted_of_longest (by decide) rest
    · rcases compares with rfl | rfl <;> decide
  · refine ⟨[c], cs, stays, .single ?_⟩
    rcases compares with rfl | rfl <;> exact parted_of_last (by decide) other

theorem symbol_equates (before : Text) {c : Char} (cs : Text) (equates : c = '!' ∨ c = '=') :
    ∃ s rest,
      ((behind (before ++ [c]) cs).extend '=' [c]).bind (fun p =>
        if p.1 = [c] then some p else p.2.extend '=' p.1) =
          some (s, behind (before ++ s) rest) ∧ Symbol c cs s rest := by
  rcases extend_behind (before ++ [c]) cs (by decide : '=' ≠ '\x00') [c] with
    ⟨rest, rfl, passed⟩ | ⟨other, stays⟩
  · rw [passed, Option.bind_some, if_neg (by simp)]
    rcases extend_behind (before ++ [c] ++ ['=']) rest (by decide : '=' ≠ '\x00')
      ([c] ++ ['=']) with ⟨rest, rfl, passed⟩ | ⟨other, stays⟩
    · refine ⟨[c, '=', '='], rest, by simpa using passed, rfl, ?_, .inl ?_⟩
      · rcases equates with rfl | rfl <;> exact parted_of_longest (by decide) rest
      · rcases equates with rfl | rfl <;> decide
    · refine ⟨[c, '='], rest, by simpa using stays, rfl, ?_, .inl ?_⟩
      · rcases equates with rfl | rfl <;> exact parted_of_last (by decide) other
      · rcases equates with rfl | rfl <;> decide
  · refine ⟨[c], cs, by simp [stays], .single ?_⟩
    rcases equates with rfl | rfl <;> exact parted_of_last (by decide) other

theorem symbol_doubles (before : Text) {c : Char} (cs : Text) (doubles : c = '&' ∨ c = '|') :
    ∃ s rest, (behind (before ++ [c]) cs).extend c [c] = some (s, behind (before ++ s) rest) ∧
      Symbol c cs s rest := by
  have visible : c ≠ '\x00' := by rcases doubles with rfl | rfl <;> decide
  rcases extend_behind (before ++ [c]) cs visible [c] with
    ⟨rest, rfl, passed⟩ | ⟨other, stays⟩
  · refine ⟨[c, c], rest, by simpa using passed, rfl, ?_, .inl ?_⟩
    · rcases doubles with rfl | rfl <;> exact parted_of_longest (by decide) rest
    · rcases doubles with rfl | rfl <;> decide
  · refine ⟨[c], cs, stays, .single ?_⟩
    rcases doubles with rfl | rfl <;> exact parted_of_last (by decide) other

theorem longest_of_alone {c : Char}
    (alone : c ∉ ['<', '>', '!', '=', '&', '|']) : ∀ op ∈ operators, op.dropLast ≠ [c] := by
  have longer : ∀ d ∈ operators.filterMap fun op => op.dropLast.head?,
      d ∈ ['<', '>', '!', '=', '&', '|'] := List.all_iff_forall_prop.1 rfl
  intro op member same
  exact alone (longer c (List.mem_filterMap.2 ⟨op, member, by simp [same]⟩))

theorem symbol_behind (before : Text) (c : Char) (cs : Text) :
    ∃ s rest, (behind (before ++ [c]) cs).symbol c = some (s, behind (before ++ s) rest) ∧
      Symbol c cs s rest := by
  unfold symbol
  split
  · rename_i compares
    exact symbol_compares before cs (by simpa using compares)
  split
  · rename_i equates
    exact symbol_equates before cs (by simpa using equates)
  split
  · rename_i doubles
    exact symbol_doubles before cs (by simpa using doubles)
  · rename_i compares equates doubles
    simp only [Bool.or_eq_true, decide_eq_true_eq, not_or] at compares equates doubles
    have alone : c ∉ ['<', '>', '!', '=', '&', '|'] := by simp [compares, equates, doubles]
    exact ⟨[c], cs, rfl, .single (parted_of_longest (longest_of_alone alone) cs)⟩

theorem take_two_mem_operators : ∀ op ∈ operators, 2 ≤ op.length → op.take 2 ∈ operators := by
  decide

theorem find?_operators_none {c : Char} {cs : Text} (other : [c] ∉ operators)
    (parted : Parted (.operator [c]) cs) :
    operators.find? (·.isPrefixOf (c :: cs)) = none := by
  simp only [List.find?_eq_none, List.isPrefixOf_iff_prefix]
  intro op member begins
  match op with
  | [] => exact absurd member (by decide)
  | [d] =>
    obtain rfl : d = c := (List.cons_prefix_cons.1 begins).1
    exact other member
  | d :: e :: op =>
    obtain ⟨rfl, begins'⟩ := List.cons_prefix_cons.1 begins
    obtain ⟨rest, rfl⟩ := begins'
    have stop := parted e rfl
    simp only [Lexeme.extendedBy, decide_eq_false_iff_not] at stop
    exact stop (take_two_mem_operators _ member (by simp))

theorem piece_of_symbol {c : Char} {cs s rest : Text} (symbol : Symbol c cs s rest) :
    Piece.symbol c cs =
      ⟨if s ∈ operators then .operator s else .invalid (.unexpected c), s, rest⟩ := by
  obtain ⟨whole, parted, known⟩ := symbol
  unfold Piece.symbol
  by_cases member : s ∈ operators
  · rw [← whole, find?_operators member parted, if_pos member]
    simp
  · obtain rfl : s = [c] := known.resolve_left member
    obtain rfl : rest = cs := List.append_cancel_left whole
    rw [find?_operators_none member parted, if_neg member]

theorem operator_behind (before : Text) (c : Char) (cs : Text) :
    (behind (before ++ [c]) cs).operator before.byteSize c =
      some (placed before (.symbol c cs)) := by
  obtain ⟨s, rest, read, symbol⟩ := symbol_behind before c cs
  unfold operator
  rw [read, piece_of_symbol symbol]
  rfl

/-- The head reads the token that a text begins with, and stops behind it. -/
theorem token_behind (before : Text) (c : Char) (cs : Text) :
    (behind before (c :: cs)).token = some (placed before (.first c cs)) := by
  unfold token
  have index : (behind before (c :: cs)).index = before.byteSize := rfl
  rw [advance_behind, peek_behind, index, Option.bind_eq_bind, Option.bind_some]
  unfold Piece.first
  split
  · exact word_behind ‹_›
  split
  · rename_i digit
    rw [if_pos (by simp [digit])]
    exact numeral_behind _ (skipNumeral_behind _ before).1
  rename_i undigit
  have next : (decide (c = '.') && isDigit (behind (before ++ [c]) cs).peek) =
      (isDigit c || decide (c = '.') && cs.head?.any isDigit) := by
    rw [Bool.eq_false_iff.2 undigit, Bool.false_or]
    cases cs with
    | nil => exact congrArg (decide (c = '.') && ·) (by decide : isDigit '\x00' = false)
    | cons => rfl
  rw [next]
  split
  · rename_i begins
    rw [Bool.eq_false_iff.2 undigit, Bool.false_or, Bool.and_eq_true, decide_eq_true_eq] at begins
    obtain ⟨rfl, -⟩ := begins
    apply numeral_behind
    rw [(skipNumeral_behind cs _).1, numeralRun_taken cs rfl, List.append_assoc]
    rfl
  split
  · rfl
  split
  · exact quotation_behind c cs
  · exact operator_behind before c cs

theorem step_nil (before : Text) : (behind before []).step = some none := by
  unfold step
  rw [skip_behind]
  simp

theorem step_layout {c : Char} (space : isLayout c = true) (before cs : Text) :
    (behind before (c :: cs)).step = (behind (before ++ [c]) cs).step := by
  unfold step
  simp only [skip_behind, List.takeWhile_cons_of_pos space, List.dropWhile_cons_of_pos space,
    List.append_assoc]
  rfl

theorem step_token {c : Char} (visible : ¬ isLayout c = true) (before cs : Text) :
    (behind before (c :: cs)).step = some (some (placed before (.first c cs))) := by
  unfold step
  simp only [skip_behind, List.takeWhile_cons_of_neg visible, List.dropWhile_cons_of_neg visible,
    List.append_nil, Option.bind_eq_bind, Option.bind_some, atEnd_behind_cons, Bool.false_eq_true,
    if_false, token_behind]

theorem Run.of_step {h h' : Head} {ts : List Token} (same : h.step = h'.step) (run : Run h' ts) :
    Run h ts := by
  cases run with
  | done ended => exact .done (same.trans ended)
  | more read rest => exact .more (same.trans read) rest

/-- From every place between two characters the head runs to the end of the text, and reads
the tokens that are there. -/
theorem run_behind (before ahead : Text) :
    Run (behind before ahead) (tokensFrom before.byteSize ahead) := by
  generalize place : before.byteSize = start
  fun_induction tokensFrom start ahead generalizing before with
  | case1 => exact .done (step_nil before)
  | case2 start c cs space ih =>
    exact (ih (before ++ [c]) (by simp [place])).of_step (step_layout space before cs)
  | case3 start c cs visible piece stop ih =>
    subst place
    have whole : (before ++ piece.spelling).byteSize = stop := Text.byteSize_append _ _
    have read := step_token visible before cs
    rw [placed, whole] at read
    exact .more read (ih _ whole)

theorem run_start (t : Text) : Run (start t) (tokens t) := run_behind [] t

theorem advance_within {h next : Head} (moved : h.advance = some next) :
    next.source = h.source ∧ Text.IsBoundary next.index h.source := by
  obtain ⟨rest, found, rfl⟩ := Option.map_eq_some_iff.1 moved
  exact ⟨rfl, Text.isBoundary_of_rest? found⟩

theorem advance_atEnd {h : Head} (ended : h.atEnd = true) : h.advance = none := by
  cases moved : h.advance with
  | none => rfl
  | some next =>
    have forward := advance_forward moved
    have within := (advance_within moved).2.le
    simp only [atEnd, decide_eq_true_eq] at ended
    omega

end Head
end Grammar
end TemplateBinding
