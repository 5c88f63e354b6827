import TemplateBinding.Attribute.Evaluation
import TemplateBinding.Proofs.Expr.Nodes
import TemplateBinding.Proofs.Grammar.Acceptance
import TemplateBinding.Proofs.Grammar.Coverage
import TemplateBinding.Proofs.Grammar.Head

/-! Every position that reading a text looks at is in the text. The descent stands at a token of
the text or behind the last one, the spans that it takes go from one token to another, and a
complaint names a place in the text and quotes a part of it. -/
namespace TemplateBinding

namespace Text

/-- The positions are in order, in the text and between characters, so that the part between
them can be cut out. -/
structure Cut (s : Span) (t : Text) : Prop where
  ordered : s.start ≤ s.stop
  begins : IsBoundary s.start t
  ends : IsBoundary s.stop t

end Text

namespace Grammar

def Cause.quoted? : Cause → Option Span
  | .notAssignable span | .incompleteConditional span => some span
  | _ => none

theorem Cause.message_of_quoted {cause : Cause} {t u : Text}
    (same : ∀ s ∈ cause.quoted?, t.slice s.start s.stop = u.slice s.start s.stop) :
    cause.message t = cause.message u := by
  cases cause with
  | notAssignable span =>
    have quoted := same span (Option.mem_some_self span)
    exact congrArg (fun part : Text => "Expression " ++ part ++ " is not assignable") quoted
  | incompleteConditional span =>
    have quoted := same span (Option.mem_some_self span)
    exact congrArg (fun part : Text =>
      "Conditional expression " ++ part.trimEnd ++ " requires all 3 expressions") quoted
  | memberNameExpected found => cases found <;> rfl
  | _ => rfl

def InText (t : Text) (column : Nat) : Prop :=
  column = t.byteSize ∨ ∃ k ∈ tokens t, k.start = column

structure Fault.InRange (t : Text) (f : Fault) : Prop where
  column : InText t f.column
  quoted : ∀ s ∈ f.cause.quoted?, Text.Cut s t

/-- The cursor stands before the token `i` of a text, or behind the last token. The last token
passed is the one before. -/
structure Cursor.Stands (t : Text) (i : Nat) (c : Cursor) : Prop where
  inside : i ≤ (tokens t).length
  size : c.size = t.byteSize
  ahead : c.ahead = (tokens t).drop i
  passed : ∀ j, i = j + 1 → ∃ k, (tokens t)[j]? = some k ∧ c.passed = k.stop

def Opens (t : Text) (i start : Nat) : Prop := ∃ k, (tokens t)[i]? = some k ∧ k.start = start

/-- The spans of nodes: from the beginning of a token to the end of it or of a later one, nothing
before a token, or all of the text. -/
inductive Taken (t : Text) : Span → Prop
  | stretch {i j : Nat} {k l : Token} :
      (tokens t)[i]? = some k → (tokens t)[j]? = some l → i ≤ j → Taken t ⟨k.start, l.stop⟩
  | nothing {k : Token} : k ∈ tokens t → Taken t ⟨k.start, k.start⟩
  | all : Taken t ⟨0, t.byteSize⟩

end Grammar

open Grammar in
def Expr.TakenFrom (t : Text) (e : Expr) : Prop := ∀ n : Expr, n.Within e → Taken t n.span

open Grammar in
theorem Expr.takenFrom_of {t : Text} {e : Expr} (own : Taken t e.span)
    (children : ∀ c ∈ e.children, c.TakenFrom t) : e.TakenFrom t := by
  intro n within
  cases within with
  | here => exact own
  | under member within => exact children _ member n within

theorem Expr.TakenFrom.child {t : Text} {c e : Expr} (taken : e.TakenFrom t)
    (member : c ∈ e.children) : c.TakenFrom t := fun n within => taken n (.under member within)

namespace Grammar

section Positions

variable {t : Text} {i j : Nat} {c d : Cursor}

theorem stop_le_start {k l : Token} (first : (tokens t)[i]? = some k)
    (second : (tokens t)[j]? = some l) (before : i < j) : k.stop ≤ l.start := by
  have pairwise := (ordered_tokensFrom 0 t).pairwise
  obtain ⟨low, rfl⟩ := List.getElem?_eq_some_iff.1 first
  obtain ⟨high, rfl⟩ := List.getElem?_eq_some_iff.1 second
  exact List.pairwise_iff_getElem.1 pairwise i j low high before

theorem Taken.cut {s : Span} (taken : Taken t s) : Text.Cut s t := by
  cases taken with
  | @stretch i j k l first second le =>
    have fits := fits_of_mem (List.mem_of_getElem? first)
    have fits' := fits_of_mem (List.mem_of_getElem? second)
    refine ⟨?_, fits.begins, fits'.ends⟩
    have own := fits.nonempty
    have own' := fits'.nonempty
    rcases Nat.lt_or_eq_of_le le with lt | rfl
    · have apart := stop_le_start first second lt
      change k.start ≤ l.stop
      omega
    · cases first.symm.trans second
      exact Nat.le_of_lt own
  | nothing member =>
    have fits := fits_of_mem member
    exact ⟨Nat.le_refl _, fits.begins, fits.begins⟩
  | all => exact ⟨Nat.zero_le _, ⟨[], t, rfl, rfl⟩, ⟨t, [], by simp, rfl⟩⟩

theorem Cursor.Stands.next? {l : Lexeme} (stands : c.Stands t i) (found : c.next? = some (l, d)) :
    d.Stands t (i + 1) := by
  obtain ⟨inside, size, ahead, -⟩ := stands
  unfold Cursor.next? at found
  split at found
  · cases found
  · rename_i k ts whole
    cases found
    rw [ahead] at whole
    have here : (tokens t)[i]? = some k := by
      rw [← List.head?_drop, whole]
      rfl
    obtain ⟨lt, -⟩ := List.getElem?_eq_some_iff.1 here
    constructor
    case inside => exact lt
    case size => exact size
    case ahead =>
      rw [← List.tail_drop, whole]
      rfl
    case passed =>
      rintro j same
      cases same
      exact ⟨k, here, rfl⟩

theorem Cursor.Stands.accept? {l : Lexeme} (stands : c.Stands t i)
    (found : c.accept? l = some d) : d.Stands t (i + 1) := by
  unfold Cursor.accept? at found
  split at found
  · rename_i next
    split at found
    · cases found
      exact stands.next? next
    · cases found
  · cases found

theorem Cursor.Stands.acceptAny? {ls : List Lexeme} {text : Text} (stands : c.Stands t i)
    (found : c.acceptAny? ls = some (text, d)) : d.Stands t (i + 1) := by
  unfold Cursor.acceptAny? at found
  split at found
  · rename_i next
    split at found
    · cases found
      exact stands.next? next
    · cases found
  · cases found

theorem Cursor.Stands.skipSemicolons (stands : c.Stands t i) :
    ∃ j, i ≤ j ∧ c.skipSemicolons.Stands t j := by
  obtain ⟨size, passed, ahead⟩ := c
  unfold Cursor.skipSemicolons
  induction ahead generalizing passed i with
  | nil => exact ⟨i, Nat.le_refl i, stands⟩
  | cons k ks ih =>
    dsimp only
    unfold Cursor.behindSemicolons
    split
    · have next : Cursor.Stands t (i + 1) ⟨size, k.stop, ks⟩ := stands.next? rfl
      obtain ⟨j, le, stands'⟩ := ih k.stop next
      exact ⟨j, Nat.le_of_succ_le le, stands'⟩
    · exact ⟨i, Nat.le_refl i, stands⟩

theorem Cursor.Stands.inText (stands : c.Stands t i) : InText t c.column := by
  unfold Cursor.column
  split
  · exact .inl stands.size
  · rename_i k ks whole
    have member : k ∈ (tokens t).drop i := by
      rw [← stands.ahead, whole]
      exact List.mem_cons_self
    exact .inr ⟨k, List.mem_of_mem_drop member, rfl⟩

theorem Cursor.Stands.opens (stands : c.Stands t i) (before : i < (tokens t).length) :
    Opens t i c.column := by
  refine ⟨(tokens t)[i], List.getElem?_eq_getElem before, ?_⟩
  unfold Cursor.column
  rw [stands.ahead, List.drop_eq_getElem_cons before]

theorem Opens.taken {start : Nat} (opens : Opens t i start) (stands : d.Stands t j)
    (before : i < j) : Taken t ⟨start, d.passed⟩ := by
  obtain ⟨k, first, rfl⟩ := opens
  obtain ⟨j, rfl⟩ := Nat.exists_eq_add_one.2 (Nat.zero_lt_of_lt before)
  obtain ⟨l, second, passed⟩ := stands.passed j rfl
  rw [passed]
  exact .stretch first second (Nat.le_of_lt_succ before)

theorem Cursor.Stands.opened (stands : c.Stands t i) (later : d.Stands t j) (before : i < j) :
    Opens t i c.column := stands.opens (Nat.lt_of_lt_of_le before later.inside)

theorem Opens.cut {start : Nat} (opens : Opens t i start) (stands : d.Stands t j)
    (before : i < j) : Text.Cut ⟨start, d.column⟩ t := by
  obtain ⟨k, first, rfl⟩ := opens
  have fits := fits_of_mem (List.mem_of_getElem? first)
  rcases Nat.lt_or_eq_of_le stands.inside with inside | ended
  · obtain ⟨l, second, same⟩ := stands.opens inside
    have fits' := fits_of_mem (List.mem_of_getElem? second)
    have apart := stop_le_start first second before
    have own := fits.nonempty
    rw [← same]
    refine ⟨?_, fits.begins, fits'.begins⟩
    change k.start ≤ l.start
    omega
  · have whole : d.column = t.byteSize := by
      unfold Cursor.column
      rw [stands.ahead, List.drop_eq_nil_of_le (Nat.le_of_eq ended.symm)]
      exact stands.size
    rw [whole]
    exact ⟨fits.begins.le, fits.begins, ⟨t, [], by simp, rfl⟩⟩

end Positions

/-- What a step of the descent leaves of a text: a result with `P`, which also knows the number
of the token that the cursor stands before, or a fault in range. -/
def Kept {α : Type} (t : Text) (P : Nat → α → Prop) : Step (α × Cursor) → Prop
  | .ok (a, d) => ∃ j, d.Stands t j ∧ P j a
  | .error (.fault f) => f.InRange t
  | .error .exhausted => True

def Grown (t : Text) (i j : Nat) (e : Expr) : Prop := i < j ∧ e.TakenFrom t

def GrownAll (t : Text) (i j : Nat) (es : List Expr) : Prop := i < j ∧ ∀ e ∈ es, e.TakenFrom t

theorem Opens.grown {t : Text} {i j start : Nat} {d : Cursor} {e : Expr} (opens : Opens t i start)
    (stands : d.Stands t j) (before : i < j) (span : e.span = ⟨start, d.passed⟩)
    (children : ∀ c ∈ e.children, c.TakenFrom t) : Grown t i j e :=
  ⟨before, Expr.takenFrom_of (span ▸ opens.taken stands before) children⟩

theorem Cursor.Stands.grown {t : Text} {i j : Nat} {c d : Cursor} {e : Expr} (stands : c.Stands t i)
    (later : d.Stands t j) (before : i < j) (span : e.span = ⟨c.column, d.passed⟩)
    (children : ∀ c ∈ e.children, c.TakenFrom t) : Grown t i j e :=
  (stands.opened later before).grown later before span children

theorem GrownAll.later {t : Text} {i j : Nat} {es : List Expr} (all : GrownAll t i j es) :
    GrownAll t i (j + 1) es := ⟨Nat.lt_succ_of_lt all.1, all.2⟩

section Steps

variable {α β : Type} {t : Text} {i : Nat} {c : Cursor} {P : Nat → α → Prop} {Q : Nat → β → Prop}

theorem kept_fail {cause : Cause} (stands : c.Stands t i) (plain : cause.quoted? = none) :
    Kept t P (c.fail cause) := ⟨stands.inText, by simp [plain]⟩

theorem kept_fail_quoting {cause : Cause} {s : Span} (stands : c.Stands t i)
    (quotes : cause.quoted? = some s) (cut : Text.Cut s t) : Kept t P (c.fail cause) :=
  ⟨stands.inText, by simpa [quotes] using cut⟩

theorem kept_bind {step : Step (α × Cursor)} {next : α × Cursor → Step (β × Cursor)}
    (first : Kept t P step) (rest : ∀ j a d, d.Stands t j → P j a → Kept t Q (next (a, d))) :
    Kept t Q (step >>= next) := by
  match step, first with
  | .ok (a, d), ⟨j, stands, holds⟩ => exact rest j a d stands holds
  | .error (.fault _), inRange => exact inRange
  | .error .exhausted, _ => trivial

theorem kept_expect {mark : Char} {next : Cursor → Step (β × Cursor)} (stands : c.Stands t i)
    (rest : ∀ d, d.Stands t (i + 1) → Kept t Q (next d)) :
    Kept t Q (c.expect mark >>= next) := by
  unfold Cursor.expect
  split
  · exact rest _ (stands.accept? ‹_›)
  · exact kept_fail stands rfl

theorem kept_memberName (stands : c.Stands t i) :
    Kept t (fun j _ => j = i + 1) c.memberName := by
  unfold Cursor.memberName
  split
  · exact ⟨i + 1, stands.next? ‹_›, rfl⟩
  · exact ⟨i + 1, stands.next? ‹_›, rfl⟩
  · exact kept_fail stands rfl
  · exact kept_fail stands rfl

theorem kept_filterName (stands : c.Stands t i) :
    Kept t (fun j _ => j = i + 1) c.filterName := by
  unfold Cursor.filterName
  split
  · exact ⟨i + 1, stands.next? ‹_›, rfl⟩
  · exact kept_fail stands rfl

theorem kept_entryKey (stands : c.Stands t i) :
    Kept t (fun j _ => j = i + 1) c.entryKey := by
  unfold Cursor.entryKey
  split
  · exact ⟨i + 1, stands.next? ‹_›, rfl⟩
  · exact ⟨i + 1, stands.next? ‹_›, rfl⟩
  · exact ⟨i + 1, stands.next? ‹_›, rfl⟩
  · exact kept_fail stands rfl

theorem kept_upTo {mark : Char} {none : α} {list : Cursor → Step (α × Cursor)}
    (stands : c.Stands t i) (empty : P (i + 1) none) (items : Kept t P (list c))
    (closed : ∀ j a, P j a → P (j + 1) a) : Kept t P (upTo mark none list c) := by
  unfold upTo
  split
  · exact ⟨i + 1, stands.accept? ‹_›, empty⟩
  · apply kept_bind items
    intro j found d stands holds
    apply kept_expect stands
    intro d stands
    exact ⟨j + 1, stands, closed j found holds⟩

theorem kept_separated {one : Cursor → Step (Expr × Cursor)}
    {more : Cursor → Step (List Expr × Cursor)} (first : Kept t (Grown t i) (one c))
    (rest : ∀ j d, d.Stands t j → Kept t (GrownAll t j) (more d)) :
    Kept t (GrownAll t i) (separated one more c) := by
  unfold separated
  apply kept_bind first
  intro j item d stands grown
  dsimp only
  split
  · exact ⟨j, stands, grown.1, by simpa using grown.2⟩
  · have stands' := stands.accept? ‹_›
    apply kept_bind (rest (j + 1) _ stands')
    intro k items d stands all
    exact ⟨k, stands, Nat.lt_trans grown.1 (Nat.lt_of_succ_lt all.1),
      List.forall_mem_cons.2 ⟨grown.2, all.2⟩⟩

end Steps

/-- With an allowance of `n`, every function of the descent keeps to the text. Where a tree that
was begun at token `i` goes on, its cursor has passed that token. -/
structure Guarded (t : Text) (n : Nat) : Prop where
  filtered {i c} : c.Stands t i → Kept t (Grown t i) (filtered n c)
  filterTail {i j start e c} : Opens t i start → Grown t i j e → c.Stands t j →
    Kept t (Grown t i) (filterTail n start e c)
  filterArgs {i c} : c.Stands t i → Kept t (fun j es => i ≤ j ∧ ∀ e ∈ es, e.TakenFrom t)
    (filterArgs n c)
  expression {i c} : c.Stands t i → Kept t (Grown t i) (expression n c)
  conditional {i c} : c.Stands t i → Kept t (Grown t i) (conditional n c)
  binary {levels i c} : c.Stands t i → Kept t (Grown t i) (binary n levels c)
  binaryTail {level tighter i j start e c} : Opens t i start → Grown t i j e → c.Stands t j →
    Kept t (Grown t i) (binaryTail n level tighter start e c)
  prefixed {i c} : c.Stands t i → Kept t (Grown t i) (prefixed n c)
  member {i c} : c.Stands t i → Kept t (Grown t i) (member n c)
  memberTail {i j start e c} : Opens t i start → Grown t i j e → c.Stands t j →
    Kept t (Grown t i) (memberTail n start e c)
  callArgs {i c} : c.Stands t i → Kept t (GrownAll t i) (callArgs n c)
  arrayItems {i c} : c.Stands t i → Kept t (GrownAll t i) (arrayItems n c)
  objectEntries {i c} : c.Stands t i →
    Kept t (fun j es => GrownAll t i j (es.map (·.2))) (objectEntries n c)
  arguments {i c} : c.Stands t i → Kept t (GrownAll t i) (arguments n c)
  elements {i c} : c.Stands t i → Kept t (GrownAll t i) (elements n c)
  entries {i c} : c.Stands t i →
    Kept t (fun j es => GrownAll t i j (es.map (·.2))) (entries n c)
  primary {i c} : c.Stands t i → Kept t (Grown t i) (primary n c)

theorem Cursor.Stands.leaf {t : Text} {i : Nat} {c d : Cursor} {e : Expr} (stands : c.Stands t i)
    (later : d.Stands t (i + 1)) (span : e.span = ⟨c.column, d.passed⟩) (leaf : e.children = []) :
    Grown t i (i + 1) e := stands.grown later (Nat.lt_succ_self i) span (by simp [leaf])

theorem ofKeyword?_leaf {span : Span} {word : Text} {e : Expr}
    (found : ofKeyword? span word = some e) : e.span = span ∧ e.children = [] := by
  rcases ofKeyword?_eq_some_iff.1 found with ⟨value, -, rfl⟩ | ⟨-, rfl⟩ <;> exact ⟨rfl, rfl⟩

section Functions

variable {t : Text} {n i j start : Nat} {c : Cursor} {e : Expr} (ih : Guarded t n)
include ih

theorem kept_filtered (stands : c.Stands t i) : Kept t (Grown t i) (filtered (n + 1) c) := by
  unfold filtered
  apply kept_bind (ih.expression stands)
  intro j e d stands₁ grown
  exact ih.filterTail (stands.opened stands₁ grown.1) grown stands₁

theorem kept_filterTail (opens : Opens t i start) (grown : Grown t i j e) (stands : c.Stands t j) :
    Kept t (Grown t i) (filterTail (n + 1) start e c) := by
  obtain ⟨begun, subject⟩ := grown
  unfold filterTail
  split
  · exact ⟨j, stands, begun, subject⟩
  · apply kept_bind (kept_filterName (stands.accept? ‹_›))
    rintro _ name d stands₁ rfl
    apply kept_bind (ih.filterArgs stands₁)
    rintro k args d₁ stands₂ ⟨passed, taken⟩
    exact ih.filterTail opens (opens.grown stands₂ (by omega) rfl
      (List.forall_mem_cons.2 ⟨subject, taken⟩)) stands₂

theorem kept_filterArgs (stands : c.Stands t i) :
    Kept t (fun j es => i ≤ j ∧ ∀ e ∈ es, e.TakenFrom t) (filterArgs (n + 1) c) := by
  unfold filterArgs
  split
  · exact ⟨i, stands, Nat.le_refl i, by simp⟩
  · apply kept_bind (ih.expression (stands.accept? ‹_›))
    rintro j arg d stands₁ ⟨passed, taken⟩
    apply kept_bind (ih.filterArgs stands₁)
    rintro k args d₁ stands₂ ⟨passed₁, taken₁⟩
    exact ⟨k, stands₂, by omega, List.forall_mem_cons.2 ⟨taken, taken₁⟩⟩

theorem kept_expression (stands : c.Stands t i) : Kept t (Grown t i) (expression (n + 1) c) := by
  unfold expression
  apply kept_bind (ih.conditional stands)
  rintro j target d stands₁ ⟨begun, taken⟩
  have opens := stands.opened stands₁ begun
  dsimp only
  split
  · exact ⟨j, stands₁, begun, taken⟩
  · have stands₂ := stands₁.accept? ‹_›
    split
    · apply kept_bind (ih.expression stands₂)
      rintro k value f stands₃ ⟨passed, taken₁⟩
      refine ⟨k, stands₃, opens.grown stands₃ (by omega) rfl ?_⟩
      simp only [Expr.children, List.forall_mem_cons]
      exact ⟨taken.child (by simp [Expr.children]), taken₁, by simp⟩
    · apply kept_bind (ih.expression stands₂)
      rintro k value f stands₃ ⟨passed, taken₁⟩
      refine ⟨k, stands₃, opens.grown stands₃ (by omega) rfl ?_⟩
      simp only [Expr.children, List.forall_mem_cons]
      exact ⟨taken.child (by simp [Expr.children]), taken.child (by simp [Expr.children]), taken₁,
        by simp⟩
    · exact kept_fail_quoting stands₁ rfl (taken _ .here).cut

theorem kept_conditional (stands : c.Stands t i) :
    Kept t (Grown t i) (conditional (n + 1) c) := by
  unfold conditional
  apply kept_bind (ih.binary stands)
  rintro j condition d stands₁ ⟨begun, taken⟩
  have opens := stands.opened stands₁ begun
  dsimp only
  split
  · exact ⟨j, stands₁, begun, taken⟩
  · apply kept_bind (ih.expression (stands₁.accept? ‹_›))
    rintro k yes d₁ stands₂ ⟨passed, taken₁⟩
    dsimp only
    split
    · exact kept_fail_quoting stands₂ rfl (opens.cut stands₂ (by omega))
    · apply kept_bind (ih.expression (stands₂.accept? ‹_›))
      rintro l no d₂ stands₃ ⟨passed₁, taken₂⟩
      refine ⟨l, stands₃, opens.grown stands₃ (by omega) rfl ?_⟩
      simp only [Expr.children, List.forall_mem_cons]
      exact ⟨taken, taken₁, taken₂, by simp⟩

theorem kept_binary {levels : List (List Lexeme)} (stands : c.Stands t i) :
    Kept t (Grown t i) (binary (n + 1) levels c) := by
  cases levels with
  | nil => exact ih.prefixed stands
  | cons level tighter =>
    unfold binary
    apply kept_bind (ih.binary stands)
    intro j left d stands₁ grown
    exact ih.binaryTail (stands.opened stands₁ grown.1) grown stands₁

theorem kept_binaryTail {level : List Lexeme} {tighter : List (List Lexeme)}
    (opens : Opens t i start) (grown : Grown t i j e) (stands : c.Stands t j) :
    Kept t (Grown t i) (binaryTail (n + 1) level tighter start e c) := by
  obtain ⟨begun, taken⟩ := grown
  unfold binaryTail
  split
  · exact ⟨j, stands, begun, taken⟩
  · apply kept_bind (ih.binary (stands.acceptAny? ‹_›))
    rintro k right d stands₁ ⟨passed, taken₁⟩
    refine ih.binaryTail opens (opens.grown stands₁ (by omega) rfl ?_) stands₁
    simp only [Expr.children, List.forall_mem_cons]
    exact ⟨taken, taken₁, by simp⟩

theorem kept_prefixed (stands : c.Stands t i) : Kept t (Grown t i) (prefixed (n + 1) c) := by
  unfold prefixed
  split
  · apply kept_bind (ih.prefixed (stands.accept? ‹_›))
    rintro j operand d stands₁ ⟨passed, taken⟩
    have before : i < j := by omega
    exact ⟨j, stands₁, stands.grown stands₁ before rfl
      (by simpa [Expr.children] using taken)⟩
  · split
    · apply kept_bind (ih.prefixed (stands.acceptAny? ‹_›))
      rintro j operand d stands₁ ⟨passed, taken⟩
      have before : i < j := by omega
      exact ⟨j, stands₁, stands.grown stands₁ before rfl
        (by simpa [Expr.children] using taken)⟩
    · exact ih.member stands

theorem kept_member (stands : c.Stands t i) : Kept t (Grown t i) (member (n + 1) c) := by
  unfold member
  apply kept_bind (ih.primary stands)
  intro j head d stands₁ grown
  exact ih.memberTail (stands.opened stands₁ grown.1) grown stands₁

theorem kept_memberTail (opens : Opens t i start) (grown : Grown t i j e) (stands : c.Stands t j) :
    Kept t (Grown t i) (memberTail (n + 1) start e c) := by
  obtain ⟨begun, taken⟩ := grown
  unfold memberTail
  split
  · apply kept_bind (kept_memberName (stands.next? ‹_›))
    rintro _ name d stands₁ rfl
    exact ih.memberTail opens (opens.grown stands₁ (by omega) rfl
      (by simpa [Expr.children] using taken)) stands₁
  · apply kept_bind (ih.expression (stands.next? ‹_›))
    rintro k key d stands₁ ⟨passed, taken₁⟩
    apply kept_expect stands₁
    intro d₁ stands₂
    refine ih.memberTail opens (opens.grown stands₂ (by omega) rfl ?_) stands₂
    simp only [Expr.children, List.forall_mem_cons]
    exact ⟨taken, taken₁, by simp⟩
  · apply kept_bind (ih.callArgs (stands.next? ‹_›))
    rintro k args d stands₁ ⟨passed, taken₁⟩
    exact ih.memberTail opens (opens.grown stands₁ (by omega) rfl
      (List.forall_mem_cons.2 ⟨taken, taken₁⟩)) stands₁
  · exact ⟨j, stands, begun, taken⟩

theorem kept_callArgs (stands : c.Stands t i) : Kept t (GrownAll t i) (callArgs (n + 1) c) := by
  rw [callArgs_succ]
  exact kept_upTo stands ⟨Nat.lt_succ_self i, by simp⟩ (ih.arguments stands)
    fun j es all => all.later

theorem kept_arrayItems (stands : c.Stands t i) :
    Kept t (GrownAll t i) (arrayItems (n + 1) c) := by
  rw [arrayItems_succ]
  exact kept_upTo stands ⟨Nat.lt_succ_self i, by simp⟩ (ih.elements stands)
    fun j es all => all.later

theorem kept_objectEntries (stands : c.Stands t i) :
    Kept t (fun j es => GrownAll t i j (es.map (·.2))) (objectEntries (n + 1) c) := by
  rw [objectEntries_succ]
  exact kept_upTo stands ⟨Nat.lt_succ_self i, by simp⟩ (ih.entries stands)
    fun j es all => all.later

theorem kept_arguments (stands : c.Stands t i) :
    Kept t (GrownAll t i) (arguments (n + 1) c) := by
  rw [arguments_succ]
  exact kept_separated (ih.filtered stands) fun j d stands' => ih.arguments stands'

theorem kept_elements (stands : c.Stands t i) :
    Kept t (GrownAll t i) (elements (n + 1) c) := by
  rw [elements_succ]
  exact kept_separated (ih.expression stands) fun j d stands' => ih.elements stands'

theorem kept_entries (stands : c.Stands t i) :
    Kept t (fun j es => GrownAll t i j (es.map (·.2))) (entries (n + 1) c) := by
  unfold entries
  apply kept_bind (kept_entryKey stands)
  rintro _ key d stands₁ rfl
  apply kept_expect stands₁
  intro d₁ stands₂
  apply kept_bind (ih.expression stands₂)
  rintro j value d₂ stands₃ ⟨passed, taken⟩
  dsimp only
  split
  · exact ⟨j, stands₃, by omega, by simpa using taken⟩
  · apply kept_bind (ih.entries (stands₃.accept? ‹_›))
    rintro k items d₃ stands₄ ⟨passed₁, taken₁⟩
    exact ⟨k, stands₄, by omega, List.forall_mem_cons.2 ⟨taken, taken₁⟩⟩

theorem kept_primary (stands : c.Stands t i) : Kept t (Grown t i) (primary (n + 1) c) := by
  unfold primary
  split
  · exact kept_fail stands rfl
  · apply kept_bind (ih.filtered (stands.next? ‹_›))
    rintro j inner d stands₁ ⟨passed, taken⟩
    apply kept_expect stands₁
    intro d₁ stands₂
    have before : i < j + 1 := by omega
    exact ⟨j + 1, stands₂, stands.grown stands₂ before rfl
      (by simpa [Expr.children] using taken)⟩
  · apply kept_bind (ih.arrayItems (stands.next? ‹_›))
    rintro j items d stands₁ ⟨passed, taken⟩
    have before : i < j := by omega
    exact ⟨j, stands₁, stands.grown stands₁ before rfl taken⟩
  · apply kept_bind (ih.objectEntries (stands.next? ‹_›))
    rintro j items d stands₁ ⟨passed, taken⟩
    have before : i < j := by omega
    exact ⟨j, stands₁, stands.grown stands₁ before rfl taken⟩
  · have stands₁ := stands.next? ‹_›
    split
    · obtain ⟨span, leaf⟩ := ofKeyword?_leaf ‹_›
      exact ⟨i + 1, stands₁, stands.leaf stands₁ span leaf⟩
    · exact kept_fail stands rfl
  · have stands₁ := stands.next? ‹_›
    have opens := stands.opened stands₁ (Nat.lt_succ_self i)
    refine ⟨i + 1, stands₁, opens.grown stands₁ (Nat.lt_succ_self i) rfl ?_⟩
    simp only [Expr.children, List.forall_mem_cons]
    refine ⟨Expr.takenFrom_of ?_ (by simp [Expr.children]), by simp⟩
    obtain ⟨k, here, same⟩ := opens
    rw [← same]
    exact .nothing (List.mem_of_getElem? here)
  · have stands₁ := stands.next? ‹_›
    exact ⟨i + 1, stands₁, stands.leaf stands₁ rfl rfl⟩
  · have stands₁ := stands.next? ‹_›
    exact ⟨i + 1, stands₁, stands.leaf stands₁ rfl rfl⟩
  · exact kept_fail stands rfl

end Functions

theorem guarded (t : Text) (n : Nat) : Guarded t n := by
  induction n with
  | zero => constructor <;> intros <;> trivial
  | succ n ih =>
    constructor
    case filtered => exact kept_filtered ih
    case filterTail => exact kept_filterTail ih
    case filterArgs => exact kept_filterArgs ih
    case expression => exact kept_expression ih
    case conditional => exact kept_conditional ih
    case binary => exact kept_binary ih
    case binaryTail => exact kept_binaryTail ih
    case prefixed => exact kept_prefixed ih
    case member => exact kept_member ih
    case memberTail => exact kept_memberTail ih
    case callArgs => exact kept_callArgs ih
    case arrayItems => exact kept_arrayItems ih
    case objectEntries => exact kept_objectEntries ih
    case arguments => exact kept_arguments ih
    case elements => exact kept_elements ih
    case entries => exact kept_entries ih
    case primary => exact kept_primary ih

theorem kept_chainItems {t : Text} (n : Nat) {chained : Bool} {i : Nat} {c : Cursor}
    (stands : c.Stands t i) :
    Kept t (fun j es => i ≤ j ∧ (es ≠ [] → i < j) ∧ ∀ e ∈ es, e.TakenFrom t)
      (chainItems n chained c) := by
  induction n generalizing chained i c with
  | zero => trivial
  | succ n ih =>
    unfold chainItems
    split
    · exact ⟨i, stands, Nat.le_refl i, by simp, by simp⟩
    · split
      · exact kept_fail stands rfl
      · apply kept_bind ((guarded t n).filtered stands)
        rintro j item d stands₁ ⟨passed, taken⟩
        obtain ⟨k, later, stands₂⟩ := stands₁.skipSemicolons
        dsimp only
        split
        · exact kept_fail stands₂ rfl
        · split
          · exact ⟨k, stands₂, by omega, fun _ => by omega, by simpa using taken⟩
          · split
            · apply kept_bind (ih stands₂)
              rintro l items f stands₃ ⟨passed₁, -, taken₁⟩
              exact ⟨l, stands₃, by omega, fun _ => by omega,
                List.forall_mem_cons.2 ⟨taken, taken₁⟩⟩
            · exact kept_fail stands₂ rfl

theorem kept_chain {t : Text} (n : Nat) {i : Nat} {c : Cursor} (stands : c.Stands t i) :
    Kept t (fun _ e => e.TakenFrom t) (chain n c) := by
  obtain ⟨j, later, stands₁⟩ := stands.skipSemicolons
  unfold chain
  apply kept_bind (kept_chainItems n stands₁)
  rintro k items e stands₂ ⟨-, passed, taken⟩
  dsimp only
  split
  · rw [stands.size]
    exact ⟨k, stands₂, Expr.takenFrom_of .all (by simp [Expr.children])⟩
  · exact ⟨k, stands₂, by simpa using taken⟩
  · rename_i some _
    have before : i < k := Nat.lt_of_le_of_lt later (passed some)
    have grown : Grown t i k (.chain ⟨c.column, e.passed⟩ items) :=
      stands.grown stands₂ before rfl taken
    exact ⟨k, stands₂, grown.2⟩

theorem takenFrom_of_wholeText {t : Text} {i : Nat} {c : Cursor} {e : Expr}
    (stands : c.Stands t i) (run : wholeText c = .ok e) : e.TakenFrom t := by
  obtain ⟨d, run⟩ := wholeText_eq_ok_iff.1 run
  have kept := kept_chain (allowance c) stands
  rw [run] at kept
  obtain ⟨-, -, taken⟩ := kept
  exact taken

theorem inRange_of_wholeText {t : Text} {i : Nat} {c : Cursor} {f : Fault}
    (stands : c.Stands t i) (run : wholeText c = .error f) : f.InRange t := by
  have kept := kept_chain (allowance c) stands
  rw [wholeText_eq_error_iff.1 run] at kept
  exact kept

theorem stands_start (t : Text) : (Cursor.start t.byteSize (tokens t)).Stands t 0 where
  inside := Nat.zero_le _
  size := rfl
  ahead := rfl
  passed := nofun

theorem lexicalError?_of_find? {t : Text} {ts : List Token} {k : Token}
    (found : ts.find? (·.lexeme.isInvalid) = some k) :
    ∃ error, lexicalError? ts = some error ∧ error.message t = k.text t := by
  fun_induction lexicalError? ts with
  | case1 => cases found
  | case2 start stop fault ts =>
    cases found
    exact ⟨_, rfl, rfl⟩
  | case3 k' ts other ih =>
    rw [List.find?_cons_of_neg (by simp [isInvalid_eq_false other])] at found
    exact ih found

end Grammar

open Grammar

/-- What reading a text keeps to, whatever the text is. -/
structure InBounds (t : Text) : Prop where
  /-- The head comes to the end, and no move on the way has been without a result. -/
  scanned : Head.Run (Head.start t) (tokens t)
  moved : ∀ h next : Head, h.advance = some next →
    next.source = h.source ∧ Text.IsBoundary next.index h.source
  stopped : ∀ h : Head, h.atEnd = true → h.advance = none
  begun : (Cursor.start t.byteSize (tokens t)).Stands t 0
  stepped : ∀ (i : Nat) (c d : Cursor) (l : Lexeme), c.Stands t i → c.next? = some (l, d) →
    d.Stands t (i + 1)
  guarded : ∀ n, Guarded t n
  spans : ∀ s, Taken t s → Text.Cut s t
  quotes : ∀ (cause : Cause) (u : Text),
    (∀ s ∈ cause.quoted?, t.slice s.start s.stop = u.slice s.start s.stop) →
      cause.message t = cause.message u
  invalid : ∀ k, (tokens t).find? (·.lexeme.isInvalid) = some k →
    ∃ error, (parsed t).result = .error (.expression t error) ∧ error.message t = k.text t
  valid : (tokens t).find? (·.lexeme.isInvalid) = none →
    (∃ e, (parsed t).result = .ok e ∧ e.TakenFrom t) ∨
      ∃ f : Fault, (parsed t).result = .error (.expression t (.grammatical f)) ∧ f.InRange t ∧
        ∃ stem, (Error.grammatical f).message t = stem ++ " at column " ++ naturalText f.column

theorem parse_inBounds (t : Text) : InBounds t := by
  constructor
  case scanned => exact Head.run_start t
  case moved => exact fun h next => Head.advance_within
  case stopped => exact fun h => Head.advance_atEnd
  case begun => exact stands_start t
  case stepped => exact fun i c d l stands => stands.next?
  case guarded => exact guarded t
  case spans => exact fun s => Taken.cut
  case quotes => exact fun cause u => Cause.message_of_quoted
  case invalid =>
    intro k found
    obtain ⟨error, first, message⟩ := lexicalError?_of_find? found
    refine ⟨error, ?_, message⟩
    simp only [parsed, Run.ofExcept, Expr.parse, first]
    rfl
  case valid =>
    intro none
    have first : lexicalError? (tokens t) = Option.none := by
      refine lexicalError?_eq_none_iff.2 fun k member => ?_
      simpa using List.find?_eq_none.1 none k member
    simp only [parsed, Run.ofExcept, Expr.parse, first]
    cases run : wholeText (Cursor.start t.byteSize (tokens t)) with
    | ok e => exact .inl ⟨e, rfl, takenFrom_of_wholeText (stands_start t) run⟩
    | error f => exact .inr ⟨f, rfl, inRange_of_wholeText (stands_start t) run, _, rfl⟩

end TemplateBinding
