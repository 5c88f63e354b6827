import TemplateBinding.Grammar.Progress
import TemplateBinding.Proofs.Grammar.Passage

/-! The descent comes to an end by itself. More allowance changes nothing about what it comes to,
once it is not cut short. It never leaves the tokens ahead: it ends behind tokens that it has
passed, with a result or with a complaint. -/
namespace TemplateBinding.Grammar

section Steps

variable {α β : Type} {c d : Cursor}

/-- The second step, with more allowance, is the same as the first one unless that was cut short.
It ends at a place ahead. -/
inductive Persists (c : Cursor) : Step (α × Cursor) → Step (α × Cursor) → Prop
  | cut {later} : Persists c (.error .exhausted) later
  | ok {a ts d} : c.Passes ts d → Persists c (.ok (a, d)) (.ok (a, d))
  | fail {cause ts d} : c.Passes ts d → Persists c (d.fail cause) (d.fail cause)

theorem Persists.behind {ts : List Token} {step step' : Step (α × Cursor)} (passes : c.Passes ts d)
    (persists : Persists d step step') : Persists c step step' := by
  cases persists with
  | cut => exact .cut
  | ok later => exact .ok (passes.trans later)
  | fail later => exact .fail (passes.trans later)

theorem Persists.bind {step step' : Step (α × Cursor)} {next next' : α × Cursor → Step (β × Cursor)}
    (first : Persists c step step') (rest : ∀ a d, Persists d (next (a, d)) (next' (a, d))) :
    Persists c (step >>= next) (step' >>= next') := by
  cases first with
  | cut => exact .cut
  | ok passes => exact (rest _ _).behind passes
  | fail passes => exact .fail passes

theorem persists_here (a : α) (c : Cursor) : Persists c (.ok (a, c)) (.ok (a, c)) := .ok (.refl c)

theorem persists_fail (cause : Cause) (c : Cursor) :
    Persists c (c.fail cause : Step (α × Cursor)) (c.fail cause) := .fail (.refl c)

theorem Persists.next {l : Lexeme} {step step' : Step (α × Cursor)} (found : c.next? = some (l, d))
    (persists : Persists d step step') : Persists c step step' := by
  obtain ⟨t, -, passes⟩ := Cursor.next?_eq_some_iff.1 found
  exact persists.behind passes

theorem Persists.accepted {l : Lexeme} {step step' : Step (α × Cursor)}
    (found : c.accept? l = some d) (persists : Persists d step step') : Persists c step step' := by
  obtain ⟨t, -, passes⟩ := Cursor.accept?_eq_some_iff.1 found
  exact persists.behind passes

theorem Persists.acceptedAny {ls : List Lexeme} {text : Text} {step step' : Step (α × Cursor)}
    (found : c.acceptAny? ls = some (text, d)) (persists : Persists d step step') :
    Persists c step step' := by
  obtain ⟨t, -, -, passes⟩ := Cursor.acceptAny?_eq_some_iff.1 found
  exact persists.behind passes

theorem persists_expect (c : Cursor) (mark : Char) {next next' : Cursor → Step (α × Cursor)}
    (rest : ∀ d, Persists d (next d) (next' d)) :
    Persists c (c.expect mark >>= next) (c.expect mark >>= next') := by
  unfold Cursor.expect
  split
  · exact .accepted ‹_› (rest _)
  · exact .fail (.refl c)

theorem persists_memberName (c : Cursor) : Persists c c.memberName c.memberName := by
  unfold Cursor.memberName
  split
  · exact .next ‹_› (persists_here ..)
  · exact .next ‹_› (persists_here ..)
  · exact persists_fail ..
  · exact persists_fail ..

theorem persists_filterName (c : Cursor) : Persists c c.filterName c.filterName := by
  unfold Cursor.filterName
  split
  · exact .next ‹_› (persists_here ..)
  · exact persists_fail ..

theorem persists_entryKey (c : Cursor) : Persists c c.entryKey c.entryKey := by
  unfold Cursor.entryKey
  split
  · exact .next ‹_› (persists_here ..)
  · exact .next ‹_› (persists_here ..)
  · exact .next ‹_› (persists_here ..)
  · exact persists_fail ..

theorem persists_upTo {mark : Char} {none : α} {list list' : Cursor → Step (α × Cursor)}
    (items : ∀ c, Persists c (list c) (list' c)) (c : Cursor) :
    Persists c (upTo mark none list c) (upTo mark none list' c) := by
  unfold upTo
  split
  · exact .accepted ‹_› (persists_here ..)
  · exact (items c).bind fun found d => persists_expect d mark fun e => persists_here ..

theorem persists_separated {one one' : Cursor → Step (Expr × Cursor)}
    {more more' : Cursor → Step (List Expr × Cursor)} (first : ∀ c, Persists c (one c) (one' c))
    (rest : ∀ c, Persists c (more c) (more' c)) (c : Cursor) :
    Persists c (separated one more c) (separated one' more' c) := by
  unfold separated
  refine (first c).bind fun item d => ?_
  dsimp only
  split
  · exact persists_here ..
  · rename_i e found
    exact .accepted found ((rest e).bind fun items f => persists_here ..)

end Steps

/-- An allowance of one more changes nothing, unless there was too little. -/
structure Persisting (n : Nat) : Prop where
  filtered (c : Cursor) : Persists c (filtered n c) (filtered (n + 1) c)
  filterTail (start : Nat) (e : Expr) (c : Cursor) :
    Persists c (filterTail n start e c) (filterTail (n + 1) start e c)
  filterArgs (c : Cursor) : Persists c (filterArgs n c) (filterArgs (n + 1) c)
  expression (c : Cursor) : Persists c (expression n c) (expression (n + 1) c)
  conditional (c : Cursor) : Persists c (conditional n c) (conditional (n + 1) c)
  binary (levels : List (List Lexeme)) (c : Cursor) :
    Persists c (binary n levels c) (binary (n + 1) levels c)
  binaryTail (level : List Lexeme) (tighter : List (List Lexeme)) (start : Nat) (e : Expr)
    (c : Cursor) : Persists c (binaryTail n level tighter start e c)
      (binaryTail (n + 1) level tighter start e c)
  prefixed (c : Cursor) : Persists c (prefixed n c) (prefixed (n + 1) c)
  member (c : Cursor) : Persists c (member n c) (member (n + 1) c)
  memberTail (start : Nat) (e : Expr) (c : Cursor) :
    Persists c (memberTail n start e c) (memberTail (n + 1) start e c)
  callArgs (c : Cursor) : Persists c (callArgs n c) (callArgs (n + 1) c)
  arrayItems (c : Cursor) : Persists c (arrayItems n c) (arrayItems (n + 1) c)
  objectEntries (c : Cursor) : Persists c (objectEntries n c) (objectEntries (n + 1) c)
  arguments (c : Cursor) : Persists c (arguments n c) (arguments (n + 1) c)
  elements (c : Cursor) : Persists c (elements n c) (elements (n + 1) c)
  entries (c : Cursor) : Persists c (entries n c) (entries (n + 1) c)
  primary (c : Cursor) : Persists c (primary n c) (primary (n + 1) c)

section Functions

variable {n : Nat} (ih : Persisting n)
include ih

theorem persists_filtered (c : Cursor) : Persists c (filtered (n + 1) c) (filtered (n + 2) c) := by
  unfold filtered
  exact (ih.expression c).bind fun e d => ih.filterTail c.column e d

theorem persists_filterTail (start : Nat) (e : Expr) (c : Cursor) :
    Persists c (filterTail (n + 1) start e c) (filterTail (n + 2) start e c) := by
  unfold filterTail
  split
  · exact persists_here ..
  · rename_i d found
    refine .accepted found ((persists_filterName d).bind fun name d₁ => ?_)
    exact (ih.filterArgs d₁).bind fun args d₂ => ih.filterTail ..

theorem persists_filterArgs (c : Cursor) :
    Persists c (filterArgs (n + 1) c) (filterArgs (n + 2) c) := by
  unfold filterArgs
  split
  · exact persists_here ..
  · rename_i d found
    refine .accepted found ((ih.expression d).bind fun arg d₁ => ?_)
    exact (ih.filterArgs d₁).bind fun args d₂ => persists_here ..

theorem persists_expression (c : Cursor) :
    Persists c (expression (n + 1) c) (expression (n + 2) c) := by
  unfold expression
  refine (ih.conditional c).bind fun target d => ?_
  dsimp only
  split
  · exact persists_here ..
  · rename_i e found
    split
    · exact .accepted found ((ih.expression e).bind fun value f => persists_here ..)
    · exact .accepted found ((ih.expression e).bind fun value f => persists_here ..)
    · exact persists_fail ..

theorem persists_conditional (c : Cursor) :
    Persists c (conditional (n + 1) c) (conditional (n + 2) c) := by
  unfold conditional
  refine (ih.binary precedence c).bind fun condition d => ?_
  dsimp only
  split
  · exact persists_here ..
  · rename_i d₁ found
    refine .accepted found ((ih.expression d₁).bind fun yes d₂ => ?_)
    dsimp only
    split
    · exact persists_fail ..
    · rename_i d₃ found
      exact .accepted found ((ih.expression d₃).bind fun no d₄ => persists_here ..)

theorem persists_binary (levels : List (List Lexeme)) (c : Cursor) :
    Persists c (binary (n + 1) levels c) (binary (n + 2) levels c) := by
  cases levels with
  | nil => exact ih.prefixed c
  | cons level tighter =>
    unfold binary
    exact (ih.binary tighter c).bind fun left d => ih.binaryTail level tighter c.column left d

theorem persists_binaryTail (level : List Lexeme) (tighter : List (List Lexeme)) (start : Nat)
    (e : Expr) (c : Cursor) :
    Persists c (binaryTail (n + 1) level tighter start e c)
      (binaryTail (n + 2) level tighter start e c) := by
  unfold binaryTail
  split
  · exact persists_here ..
  · rename_i operation d found
    refine .acceptedAny found ((ih.binary tighter d).bind fun right d₁ => ?_)
    exact ih.binaryTail ..

theorem persists_prefixed (c : Cursor) : Persists c (prefixed (n + 1) c) (prefixed (n + 2) c) := by
  unfold prefixed
  split
  · rename_i d found
    exact .accepted found ((ih.prefixed d).bind fun operand d₁ => persists_here ..)
  · split
    · rename_i sign d found
      exact .acceptedAny found ((ih.prefixed d).bind fun operand d₁ => persists_here ..)
    · exact ih.member c

theorem persists_member (c : Cursor) : Persists c (member (n + 1) c) (member (n + 2) c) := by
  unfold member
  exact (ih.primary c).bind fun head d => ih.memberTail c.column head d

theorem persists_memberTail (start : Nat) (e : Expr) (c : Cursor) :
    Persists c (memberTail (n + 1) start e c) (memberTail (n + 2) start e c) := by
  unfold memberTail
  split
  · rename_i d found
    exact .next found ((persists_memberName d).bind fun name d₁ => ih.memberTail ..)
  · rename_i d found
    refine .next found ((ih.expression d).bind fun key d₁ => ?_)
    exact persists_expect d₁ ']' fun d₂ => ih.memberTail ..
  · rename_i d found
    exact .next found ((ih.callArgs d).bind fun args d₁ => ih.memberTail ..)
  · exact persists_here ..

theorem persists_callArgs (c : Cursor) : Persists c (callArgs (n + 1) c) (callArgs (n + 2) c) := by
  rw [callArgs_succ, callArgs_succ]
  exact persists_upTo ih.arguments c

theorem persists_arrayItems (c : Cursor) :
    Persists c (arrayItems (n + 1) c) (arrayItems (n + 2) c) := by
  rw [arrayItems_succ, arrayItems_succ]
  exact persists_upTo ih.elements c

theorem persists_objectEntries (c : Cursor) :
    Persists c (objectEntries (n + 1) c) (objectEntries (n + 2) c) := by
  rw [objectEntries_succ, objectEntries_succ]
  exact persists_upTo ih.entries c

theorem persists_arguments (c : Cursor) :
    Persists c (arguments (n + 1) c) (arguments (n + 2) c) := by
  rw [arguments_succ, arguments_succ]
  exact persists_separated ih.filtered ih.arguments c

theorem persists_elements (c : Cursor) : Persists c (elements (n + 1) c) (elements (n + 2) c) := by
  rw [elements_succ, elements_succ]
  exact persists_separated ih.expression ih.elements c

theorem persists_entries (c : Cursor) : Persists c (entries (n + 1) c) (entries (n + 2) c) := by
  unfold entries
  refine (persists_entryKey c).bind fun key d => persists_expect d ':' fun d₁ => ?_
  refine (ih.expression d₁).bind fun value d₂ => ?_
  dsimp only
  split
  · exact persists_here ..
  · rename_i d₃ found
    exact .accepted found ((ih.entries d₃).bind fun rest d₄ => persists_here ..)

theorem persists_primary (c : Cursor) : Persists c (primary (n + 1) c) (primary (n + 2) c) := by
  unfold primary
  split
  · exact persists_fail ..
  · rename_i d found
    refine .next found ((ih.filtered d).bind fun inner d₁ => ?_)
    exact persists_expect d₁ ')' fun d₂ => persists_here ..
  · rename_i d found
    exact .next found ((ih.arrayItems d).bind fun items d₁ => persists_here ..)
  · rename_i d found
    exact .next found ((ih.objectEntries d).bind fun items d₁ => persists_here ..)
  · split
    · exact .next ‹_› (persists_here ..)
    · exact persists_fail ..
  · exact .next ‹_› (persists_here ..)
  · exact .next ‹_› (persists_here ..)
  · exact .next ‹_› (persists_here ..)
  · exact persists_fail ..

end Functions

theorem persisting (n : Nat) : Persisting n := by
  induction n with
  | zero => constructor <;> intros <;> exact .cut
  | succ n ih =>
    constructor
    case filtered => exact persists_filtered ih
    case filterTail => exact persists_filterTail ih
    case filterArgs => exact persists_filterArgs ih
    case expression => exact persists_expression ih
    case conditional => exact persists_conditional ih
    case binary => exact persists_binary ih
    case binaryTail => exact persists_binaryTail ih
    case prefixed => exact persists_prefixed ih
    case member => exact persists_member ih
    case memberTail => exact persists_memberTail ih
    case callArgs => exact persists_callArgs ih
    case arrayItems => exact persists_arrayItems ih
    case objectEntries => exact persists_objectEntries ih
    case arguments => exact persists_arguments ih
    case elements => exact persists_elements ih
    case entries => exact persists_entries ih
    case primary => exact persists_primary ih

def Cursor.room (c : Cursor) : Nat := 16 * c.left + 15

/-- What a function comes to at a place. One step more than enough is allowed, so that enough is
left for what is called in the first one. -/
def outcome {α : Type} (f : Nat → Cursor → Step (α × Cursor)) (c : Cursor) : Step (α × Cursor) :=
  f (c.room + 1) c

section Ends

variable {α : Type} {c : Cursor}

theorem Persists.eq_of_settled {bound : Nat} {step step' : Step (α × Cursor)}
    (persists : Persists c step step') (settled : Settled bound step) : step' = step := by
  cases persists with
  | cut => exact settled.elim
  | ok => rfl
  | fail => rfl

/-- The step ends behind the place where it began: with a result, for which so many tokens were
passed at least, or with a complaint about a place there. -/
inductive Ends (used : Nat) (c : Cursor) : Step (α × Cursor) → Prop
  | ok {a ts d} : c.Passes ts d → used ≤ ts.length → Ends used c (.ok (a, d))
  | fail {cause ts d} : c.Passes ts d → Ends used c (d.fail cause)

theorem Persists.ends {bound used : Nat} {step step' : Step (α × Cursor)}
    (persists : Persists c step step') (settled : Settled bound step)
    (fits : bound + used ≤ c.left + 1) : Ends used c step := by
  cases persists with
  | cut => exact settled.elim
  | fail passes => exact .fail passes
  | ok passes =>
    have here := passes.left
    have fewer : _ < bound := settled
    exact .ok passes (by omega)

theorem Ends.settled {step : Step (α × Cursor)} (ends : Ends 1 c step) : Settled c.left step := by
  cases ends with
  | ok passes used => exact passes.lt (List.ne_nil_of_length_pos used)
  | fail passes => trivial

variable {f : Nat → Cursor → Step (α × Cursor)}
  (persists : ∀ n c, Persists c (f n c) (f (n + 1) c))
include persists

theorem eq_outcome (slack : Nat)
    (settled : ∀ n c, 16 * c.left + 15 ≤ n → Settled (c.left + slack) (f n c)) {c : Cursor}
    {n : Nat} (room : c.room ≤ n) : f n c = outcome f c := by
  have enough (n : Nat) (room : c.room ≤ n) : f n c = f c.room c := by
    induction room with
    | refl => rfl
    | @step n room ih => exact ((persists n c).eq_of_settled (settled n c room)).trans ih
  exact (enough n room).trans (enough (c.room + 1) (Nat.le_succ _)).symm

end Ends

structure Proceeds {α : Type} (f : Nat → Cursor → Step (α × Cursor)) : Prop where
  settled : ∀ {c n}, Cursor.room c ≤ n → f n c = outcome f c
  ends : ∀ c, Ends 1 c (outcome f c)

theorem proceeds_of_persists {α : Type} {f : Nat → Cursor → Step (α × Cursor)}
    (persists : ∀ n c, Persists c (f n c) (f (n + 1) c))
    (settled : ∀ n c, 16 * c.left + 15 ≤ n → Settled c.left (f n c)) : Proceeds f where
  settled := eq_outcome persists 0 settled
  ends c := (persists (c.room + 1) c).ends (settled (c.room + 1) c (Nat.le_succ _)) (Nat.le_refl _)

theorem proceeds_filtered : Proceeds filtered :=
  proceeds_of_persists (fun n => (persisting n).filtered) fun n c room =>
    (enough n).filtered c (by omega)

theorem proceeds_expression : Proceeds expression :=
  proceeds_of_persists (fun n => (persisting n).expression) fun n c room =>
    (enough n).expression c (by omega)

theorem proceeds_conditional : Proceeds conditional :=
  proceeds_of_persists (fun n => (persisting n).conditional) fun n c room =>
    (enough n).conditional c (by omega)

theorem proceeds_binary {levels : List (List Lexeme)} (few : levels.length ≤ precedence.length) :
    Proceeds fun n => binary n levels := by
  have six : precedence.length = 6 := rfl
  refine proceeds_of_persists (fun n => (persisting n).binary levels) fun n c room => ?_
  exact (enough n).binary levels c (by omega) (by omega)

theorem proceeds_prefixed : Proceeds prefixed :=
  proceeds_of_persists (fun n => (persisting n).prefixed) fun n c room =>
    (enough n).prefixed c (by omega)

theorem proceeds_member : Proceeds member :=
  proceeds_of_persists (fun n => (persisting n).member) fun n c room =>
    (enough n).member c (by omega)

theorem proceeds_callArgs : Proceeds callArgs :=
  proceeds_of_persists (fun n => (persisting n).callArgs) fun n c room => (enough n).callArgs c room

theorem proceeds_arguments : Proceeds arguments :=
  proceeds_of_persists (fun n => (persisting n).arguments) fun n c room =>
    (enough n).arguments c (by omega)

theorem proceeds_elements : Proceeds elements :=
  proceeds_of_persists (fun n => (persisting n).elements) fun n c room =>
    (enough n).elements c (by omega)

theorem proceeds_entries : Proceeds entries :=
  proceeds_of_persists (fun n => (persisting n).entries) fun n c room =>
    (enough n).entries c (by omega)

theorem proceeds_primary : Proceeds primary :=
  proceeds_of_persists (fun n => (persisting n).primary) fun n c room =>
    (enough n).primary c (by omega)

/-! What follows an operand may be nothing at all. -/

section Tails

variable {n : Nat} {c : Cursor} (room : c.room ≤ n)
include room

theorem filterTail_eq_outcome (start : Nat) (e : Expr) :
    filterTail n start e c = outcome (fun n => filterTail n start e) c :=
  eq_outcome (fun n => (persisting n).filterTail start e) 1
    (fun n c room => (enough n).filterTail start e c (by omega)) room

theorem filterArgs_eq_outcome : filterArgs n c = outcome filterArgs c :=
  eq_outcome (fun n => (persisting n).filterArgs) 1
    (fun n c room => (enough n).filterArgs c (by omega)) room

theorem binaryTail_eq_outcome {tighter : List (List Lexeme)}
    (few : tighter.length ≤ precedence.length) (level : List Lexeme) (start : Nat) (e : Expr) :
    binaryTail n level tighter start e c =
      outcome (fun n => binaryTail n level tighter start e) c :=
  eq_outcome (fun n => (persisting n).binaryTail level tighter start e) 1
    (fun n c room => (enough n).binaryTail level tighter start e c few (by omega)) room

theorem memberTail_eq_outcome (start : Nat) (e : Expr) :
    memberTail n start e c = outcome (fun n => memberTail n start e) c :=
  eq_outcome (fun n => (persisting n).memberTail start e) 1
    (fun n c room => (enough n).memberTail start e c (by omega)) room

end Tails

theorem settled_outcome_filterArgs (c : Cursor) : Settled (c.left + 1) (outcome filterArgs c) := by
  refine (enough (c.room + 1)).filterArgs c ?_
  unfold Cursor.room
  omega

end TemplateBinding.Grammar
