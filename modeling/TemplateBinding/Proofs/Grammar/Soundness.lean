import TemplateBinding.Proofs.Grammar.Passage

/-! What the descent returns is derived. Every function is described by the tokens it
passes and the phrase they make up; a loop continues a phrase that is already derived. -/
namespace TemplateBinding.Grammar

/-- On success, what lies between `c` and the place reached is related to the result. -/
def Gives {α : Type} (c : Cursor) (R : List Token → α → Prop) (step : Step (α × Cursor)) : Prop :=
  ∀ a d, step = .ok (a, d) → ∃ ts, c.Passes ts d ∧ R ts a

def Closed {α : Type} (mark : Char) (R : List Token → α → Prop) (ts : List Token) (a : α) : Prop :=
  ∃ us closed, ts = us ++ [closed] ∧ closed.lexeme = .punctuation mark ∧ R us a

section Steps

variable {α β : Type} {c d : Cursor} {R : List Token → α → Prop} {S : List Token → β → Prop}

theorem gives_ok {ts : List Token} {a : α} (passes : c.Passes ts d) (related : R ts a) :
    Gives c R (.ok (a, d)) := by
  intro b e same
  cases same
  exact ⟨ts, passes, related⟩

theorem gives_fail {cause : Cause} : Gives c R (d.fail cause) := by
  intro a e same
  cases same

theorem gives_bind {step : Step (α × Cursor)} {next : α × Cursor → Step (β × Cursor)}
    (first : Gives d R step)
    (rest : ∀ ts a e, d.Passes ts e → R ts a → Gives c S (next (a, e))) :
    Gives c S (step >>= next) := by
  intro b f run
  cases reached : step with
  | error stop =>
    rw [reached] at run
    cases run
  | ok pair =>
    rw [reached] at run
    obtain ⟨ts, passes, related⟩ := first pair.1 pair.2 reached
    exact rest ts pair.1 pair.2 passes related b f run

theorem gives_expect {mark : Char} {next : Cursor → Step (β × Cursor)}
    (rest : ∀ t e, t.lexeme = .punctuation mark → d.Passes [t] e → Gives c S (next e)) :
    Gives c S (d.expect mark >>= next) := by
  intro b f run
  cases reached : d.expect mark with
  | error stop =>
    rw [reached] at run
    cases run
  | ok e =>
    rw [reached] at run
    obtain ⟨t, isMark, passes⟩ := Cursor.expect_eq_ok_iff.1 reached
    exact rest t e isMark passes b f run

theorem Gives.mono {T : List Token → α → Prop} {step : Step (α × Cursor)} (gives : Gives c R step)
    (weaker : ∀ ts a, R ts a → T ts a) : Gives c T step := by
  intro a d run
  obtain ⟨ts, passes, related⟩ := gives a d run
  exact ⟨ts, passes, weaker ts a related⟩

theorem gives_filterName (c : Cursor) :
    Gives c (fun ts x => ∃ t, ts = [t] ∧ t.lexeme = .identifier x) c.filterName := by
  intro x d run
  obtain ⟨t, isName, passes⟩ := Cursor.filterName_eq_ok_iff.1 run
  exact ⟨[t], passes, t, rfl, isName⟩

theorem gives_memberName (c : Cursor) :
    Gives c (fun ts x => ∃ t, ts = [t] ∧ (t.lexeme = .identifier x ∨ t.lexeme = .keyword x))
      c.memberName := by
  intro x d run
  obtain ⟨t, isName, passes⟩ := Cursor.memberName_eq_ok_iff.1 run
  exact ⟨[t], passes, t, rfl, isName⟩

theorem gives_entryKey (c : Cursor) :
    Gives c (fun ts k => ∃ t, ts = [t] ∧ IsKey t.lexeme k) c.entryKey := by
  intro k d run
  obtain ⟨t, isKey, passes⟩ := Cursor.entryKey_eq_ok_iff.1 run
  exact ⟨[t], passes, t, rfl, isKey⟩

theorem gives_upTo {mark : Char} {none : α} {list : Cursor → Step (α × Cursor)} (empty : R [] none)
    (items : ∀ c, Gives c R (list c)) (c : Cursor) :
    Gives c (Closed mark R) (upTo mark none list c) := by
  unfold upTo
  split
  · rename_i d accepted
    obtain ⟨t, isMark, passes⟩ := Cursor.accept?_eq_some_iff.1 accepted
    exact gives_ok passes ⟨[], t, rfl, isMark, empty⟩
  · apply gives_bind (items c)
    intro ts found d passes related
    apply gives_expect
    intro t e isMark last
    exact gives_ok (passes.trans last) ⟨ts, t, rfl, isMark, related⟩

theorem gives_separated {p : Phrase} {one : Cursor → Step (Expr × Cursor)}
    {more : Cursor → Step (List Expr × Cursor)} (first : ∀ c, Gives c (Derives p) (one c))
    (rest : ∀ c, Gives c (fun ts es => Items p ts es ∧ es ≠ []) (more c)) (c : Cursor) :
    Gives c (fun ts es => Items p ts es ∧ es ≠ []) (separated one more c) := by
  unfold separated
  apply gives_bind (first c)
  intro ts item d passes derived
  dsimp only
  split
  · exact gives_ok passes ⟨.last derived, by simp⟩
  · rename_i e accepted
    obtain ⟨comma, isComma, behind⟩ := Cursor.accept?_eq_some_iff.1 accepted
    apply gives_bind (rest e)
    intro us items f passed listed
    exact gives_ok (passes.trans (behind.cons passed))
      ⟨.more derived isComma listed.1 listed.2, by simp⟩

end Steps

/-- With an allowance of `n`, every function of the descent gives what is derived. -/
structure Sound (n : Nat) : Prop where
  filtered (c : Cursor) : Gives c (Derives .filtered) (filtered n c)
  filterTail {c d : Cursor} {ts : List Token} {e : Expr} : c.Passes ts d → Derives .filtered ts e →
    Gives c (Derives .filtered) (filterTail n c.column e d)
  filterArgs (c : Cursor) : Gives c Args (filterArgs n c)
  expression (c : Cursor) : Gives c (Derives .expression) (expression n c)
  conditional (c : Cursor) : Gives c (Derives .conditional) (conditional n c)
  binary (levels : List (List Lexeme)) (c : Cursor) :
    Gives c (Derives (.binary levels)) (binary n levels c)
  binaryTail {level : List Lexeme} {levels : List (List Lexeme)} {c d : Cursor} {ts : List Token}
    {e : Expr} : c.Passes ts d → Derives (.binary (level :: levels)) ts e →
    Gives c (Derives (.binary (level :: levels))) (binaryTail n level levels c.column e d)
  prefixed (c : Cursor) : Gives c (Derives .prefixed) (prefixed n c)
  member (c : Cursor) : Gives c (Derives .member) (member n c)
  memberTail {c d : Cursor} {ts : List Token} {e : Expr} : c.Passes ts d → Derives .member ts e →
    Gives c (Derives .member) (memberTail n c.column e d)
  callArgs (c : Cursor) : Gives c (Closed ')' (Items .filtered)) (callArgs n c)
  arrayItems (c : Cursor) : Gives c (Closed ']' (Items .expression)) (arrayItems n c)
  objectEntries (c : Cursor) : Gives c (Closed '}' Entries) (objectEntries n c)
  arguments (c : Cursor) :
    Gives c (fun ts es => Items .filtered ts es ∧ es ≠ []) (arguments n c)
  elements (c : Cursor) :
    Gives c (fun ts es => Items .expression ts es ∧ es ≠ []) (elements n c)
  entries (c : Cursor) : Gives c (fun ts kvs => Entries ts kvs ∧ kvs ≠ []) (entries n c)
  primary (c : Cursor) : Gives c (Derives .primary) (primary n c)

section Functions

variable {n : Nat} (ih : Sound n)
include ih

theorem sound_filtered (c : Cursor) : Gives c (Derives .filtered) (filtered (n + 1) c) := by
  unfold filtered
  apply gives_bind (ih.expression c)
  intro ts subject d passes derived
  exact ih.filterTail passes (.unfiltered derived)

theorem sound_filterTail {c d : Cursor} {ts : List Token} {e : Expr} (passes : c.Passes ts d)
    (derived : Derives .filtered ts e) :
    Gives c (Derives .filtered) (filterTail (n + 1) c.column e d) := by
  unfold filterTail
  split
  · exact gives_ok passes derived
  · rename_i d₁ accepted
    obtain ⟨bar, isBar, first⟩ := Cursor.accept?_eq_some_iff.1 accepted
    apply gives_bind (gives_filterName d₁)
    intro us x d₂ second named
    obtain ⟨name, rfl, isName⟩ := named
    apply gives_bind (ih.filterArgs d₂)
    intro us args d₃ third given
    have whole := passes.trans (first.cons (second.cons third))
    have span := whole.span (by simp)
    dsimp only
    rw [span]
    exact ih.filterTail whole (.filter derived isBar isName given)

theorem sound_filterArgs (c : Cursor) : Gives c Args (filterArgs (n + 1) c) := by
  unfold filterArgs
  split
  · exact gives_ok (.refl c) .none
  · rename_i d accepted
    obtain ⟨colon, isColon, first⟩ := Cursor.accept?_eq_some_iff.1 accepted
    apply gives_bind (ih.expression d)
    intro us arg d₁ second derived
    apply gives_bind (ih.filterArgs d₁)
    intro vs args d₂ third given
    exact gives_ok (first.cons (second.trans third)) (.more isColon derived given)

theorem sound_expression (c : Cursor) : Gives c (Derives .expression) (expression (n + 1) c) := by
  unfold expression
  apply gives_bind (ih.conditional c)
  intro ts target d passes derived
  dsimp only
  split
  · exact gives_ok passes (.unassigned derived)
  · rename_i d₁ accepted
    obtain ⟨equals, isEquals, first⟩ := Cursor.accept?_eq_some_iff.1 accepted
    split
    · apply gives_bind (ih.expression d₁)
      intro us value d₂ second valued
      have whole := passes.trans (first.cons second)
      have span := whole.span (by simp)
      dsimp only
      rw [span]
      exact gives_ok whole (.setProperty (derived.member_of_assignable rfl) isEquals valued)
    · apply gives_bind (ih.expression d₁)
      intro us value d₂ second valued
      have whole := passes.trans (first.cons second)
      have span := whole.span (by simp)
      dsimp only
      rw [span]
      exact gives_ok whole (.setKeyed (derived.member_of_assignable rfl) isEquals valued)
    · exact gives_fail

theorem sound_conditional (c : Cursor) :
    Gives c (Derives .conditional) (conditional (n + 1) c) := by
  unfold conditional
  apply gives_bind (ih.binary precedence c)
  intro ts condition d passes derived
  dsimp only
  split
  · exact gives_ok passes (.unconditional derived)
  · rename_i d₁ accepted
    obtain ⟨mark, isMark, first⟩ := Cursor.accept?_eq_some_iff.1 accepted
    apply gives_bind (ih.expression d₁)
    intro us yes d₂ second affirmed
    dsimp only
    split
    · exact gives_fail
    · rename_i d₃ accepted
      obtain ⟨colon, isColon, third⟩ := Cursor.accept?_eq_some_iff.1 accepted
      apply gives_bind (ih.expression d₃)
      intro vs no d₄ fourth denied
      have whole := passes.trans (first.cons (second.trans (third.cons fourth)))
      have span := whole.span (by simp)
      dsimp only
      rw [span]
      exact gives_ok whole (.conditional derived isMark affirmed isColon denied)

theorem sound_binary (levels : List (List Lexeme)) (c : Cursor) :
    Gives c (Derives (.binary levels)) (binary (n + 1) levels c) := by
  cases levels with
  | nil => exact (ih.prefixed c).mono fun ts e derived => .operand derived
  | cons level levels =>
    unfold binary
    apply gives_bind (ih.binary levels c)
    intro ts left d passes derived
    exact ih.binaryTail passes (.tighter derived)

theorem sound_binaryTail {level : List Lexeme} {levels : List (List Lexeme)} {c d : Cursor}
    {ts : List Token} {e : Expr} (passes : c.Passes ts d)
    (derived : Derives (.binary (level :: levels)) ts e) :
    Gives c (Derives (.binary (level :: levels)))
      (binaryTail (n + 1) level levels c.column e d) := by
  unfold binaryTail
  split
  · exact gives_ok passes derived
  · rename_i operation d₁ accepted
    obtain ⟨op, isOp, rfl, first⟩ := Cursor.acceptAny?_eq_some_iff.1 accepted
    apply gives_bind (ih.binary levels d₁)
    intro us right d₂ second operand
    have whole := passes.trans (first.cons second)
    have span := whole.span (by simp)
    dsimp only
    rw [span]
    exact ih.binaryTail whole (.binary derived isOp operand)

theorem sound_prefixed (c : Cursor) : Gives c (Derives .prefixed) (prefixed (n + 1) c) := by
  unfold prefixed
  split
  · rename_i d accepted
    obtain ⟨mark, isMark, first⟩ := Cursor.accept?_eq_some_iff.1 accepted
    apply gives_bind (ih.prefixed d)
    intro ts operand d₁ second derived
    have whole := first.cons second
    have span := whole.span (by simp)
    dsimp only
    rw [span]
    exact gives_ok whole (.negation isMark derived)
  · split
    · rename_i text d accepted
      obtain ⟨sign, isSign, rfl, first⟩ := Cursor.acceptAny?_eq_some_iff.1 accepted
      apply gives_bind (ih.prefixed d)
      intro ts operand d₁ second derived
      have whole := first.cons second
      have span := whole.span (by simp)
      dsimp only
      rw [span]
      exact gives_ok whole (.unary isSign derived)
    · exact (ih.member c).mono fun ts e derived => .unprefixed derived

theorem sound_member (c : Cursor) : Gives c (Derives .member) (member (n + 1) c) := by
  unfold member
  apply gives_bind (ih.primary c)
  intro ts head d passes derived
  exact ih.memberTail passes (.head derived)

theorem sound_memberTail {c d : Cursor} {ts : List Token} {e : Expr} (passes : c.Passes ts d)
    (derived : Derives .member ts e) :
    Gives c (Derives .member) (memberTail (n + 1) c.column e d) := by
  unfold memberTail
  split
  · rename_i d₁ next
    obtain ⟨point, isPoint, first⟩ := Cursor.next?_eq_some_iff.1 next
    apply gives_bind (gives_memberName d₁)
    intro us x d₂ second named
    obtain ⟨name, rfl, isName⟩ := named
    have whole := passes.trans (first.cons second)
    have span := whole.span (by simp)
    dsimp only
    rw [span]
    exact ih.memberTail whole (.property derived isPoint isName)
  · rename_i d₁ next
    obtain ⟨opened, isOpened, first⟩ := Cursor.next?_eq_some_iff.1 next
    apply gives_bind (ih.expression d₁)
    intro us key d₂ second keyed
    apply gives_expect
    intro closed d₃ isClosed third
    have whole := passes.trans (first.cons (second.trans third))
    have span := whole.span (by simp)
    rw [span]
    exact ih.memberTail whole (.keyed derived isOpened keyed isClosed)
  · rename_i d₁ next
    obtain ⟨opened, isOpened, first⟩ := Cursor.next?_eq_some_iff.1 next
    apply gives_bind (ih.callArgs d₁)
    intro us args d₂ second closing
    obtain ⟨vs, closed, rfl, isClosed, listed⟩ := closing
    have whole := passes.trans (first.cons second)
    have span := whole.span (by simp)
    dsimp only
    rw [span]
    exact ih.memberTail whole (.call derived isOpened listed isClosed)
  · exact gives_ok passes derived

theorem sound_callArgs (c : Cursor) :
    Gives c (Closed ')' (Items .filtered)) (callArgs (n + 1) c) := by
  rw [callArgs_succ]
  exact gives_upTo .none (fun c => (ih.arguments c).mono fun ts es listed => listed.1) c

theorem sound_arrayItems (c : Cursor) :
    Gives c (Closed ']' (Items .expression)) (arrayItems (n + 1) c) := by
  rw [arrayItems_succ]
  exact gives_upTo .none (fun c => (ih.elements c).mono fun ts es listed => listed.1) c

theorem sound_objectEntries (c : Cursor) :
    Gives c (Closed '}' Entries) (objectEntries (n + 1) c) := by
  rw [objectEntries_succ]
  exact gives_upTo .none (fun c => (ih.entries c).mono fun ts kvs listed => listed.1) c

theorem sound_arguments (c : Cursor) :
    Gives c (fun ts es => Items .filtered ts es ∧ es ≠ []) (arguments (n + 1) c) := by
  rw [arguments_succ]
  exact gives_separated ih.filtered ih.arguments c

theorem sound_elements (c : Cursor) :
    Gives c (fun ts es => Items .expression ts es ∧ es ≠ []) (elements (n + 1) c) := by
  rw [elements_succ]
  exact gives_separated ih.expression ih.elements c

theorem sound_entries (c : Cursor) :
    Gives c (fun ts kvs => Entries ts kvs ∧ kvs ≠ []) (entries (n + 1) c) := by
  unfold entries
  apply gives_bind (gives_entryKey c)
  intro us k d first keyed
  obtain ⟨key, rfl, isKey⟩ := keyed
  apply gives_expect
  intro colon d₁ isColon second
  apply gives_bind (ih.expression d₁)
  intro ts value d₂ third derived
  dsimp only
  split
  · exact gives_ok (first.trans (second.cons third))
      ⟨.last isKey isColon derived, by simp⟩
  · rename_i d₃ accepted
    obtain ⟨comma, isComma, fourth⟩ := Cursor.accept?_eq_some_iff.1 accepted
    apply gives_bind (ih.entries d₃)
    intro vs rest d₄ fifth listed
    exact gives_ok (first.trans (second.cons (third.trans (fourth.cons fifth))))
      ⟨.more isKey isColon derived isComma listed.1 listed.2, by simp⟩

theorem sound_primary (c : Cursor) : Gives c (Derives .primary) (primary (n + 1) c) := by
  unfold primary
  split
  · exact gives_fail
  · rename_i d next
    obtain ⟨opened, isOpened, first⟩ := Cursor.next?_eq_some_iff.1 next
    apply gives_bind (ih.filtered d)
    intro us inner d₁ second derived
    apply gives_expect
    intro closed d₂ isClosed third
    have whole := first.cons (second.trans third)
    rw [whole.span (by simp)]
    exact gives_ok whole (.parenthesized isOpened derived isClosed)
  · rename_i d next
    obtain ⟨opened, isOpened, first⟩ := Cursor.next?_eq_some_iff.1 next
    apply gives_bind (ih.arrayItems d)
    intro us items d₁ second closing
    obtain ⟨vs, closed, rfl, isClosed, listed⟩ := closing
    have whole := first.cons second
    have span := whole.span (by simp)
    dsimp only
    rw [span]
    exact gives_ok whole (.array isOpened listed isClosed)
  · rename_i d next
    obtain ⟨opened, isOpened, first⟩ := Cursor.next?_eq_some_iff.1 next
    apply gives_bind (ih.objectEntries d)
    intro us items d₁ second closing
    obtain ⟨vs, closed, rfl, isClosed, listed⟩ := closing
    have whole := first.cons second
    have span := whole.span (by simp)
    dsimp only
    rw [span]
    exact gives_ok whole (.object isOpened listed isClosed)
  · rename_i word d next
    obtain ⟨t, isKeyword, passes⟩ := Cursor.next?_eq_some_iff.1 next
    rw [passes.span (by simp)]
    split
    · rename_i e found
      rcases ofKeyword?_eq_some_iff.1 found with ⟨value, member, rfl⟩ | ⟨rfl, rfl⟩
      · exact gives_ok passes (.constant isKeyword member)
      · exact gives_ok passes (.this isKeyword)
    · exact gives_fail
  · rename_i x d next
    obtain ⟨t, isName, passes⟩ := Cursor.next?_eq_some_iff.1 next
    rw [passes.span (by simp), passes.column]
    exact gives_ok passes (.name isName)
  · rename_i value spelling d next
    obtain ⟨t, isNumber, passes⟩ := Cursor.next?_eq_some_iff.1 next
    rw [passes.span (by simp)]
    exact gives_ok passes (.number isNumber)
  · rename_i value d next
    obtain ⟨t, isString, passes⟩ := Cursor.next?_eq_some_iff.1 next
    rw [passes.span (by simp)]
    exact gives_ok passes (.string isString)
  · exact gives_fail

end Functions

theorem sound (n : Nat) : Sound n := by
  induction n with
  | zero => constructor <;> intros <;> intro a d run <;> cases run
  | succ n ih =>
    exact ⟨sound_filtered ih, sound_filterTail ih, sound_filterArgs ih, sound_expression ih,
      sound_conditional ih, sound_binary ih, sound_binaryTail ih, sound_prefixed ih,
      sound_member ih, sound_memberTail ih, sound_callArgs ih, sound_arrayItems ih,
      sound_objectEntries ih, sound_arguments ih, sound_elements ih, sound_entries ih,
      sound_primary ih⟩

end TemplateBinding.Grammar
