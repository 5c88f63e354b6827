import TemplateBinding.Grammar.Descent

/-!
The descent always makes progress. Sixteen steps for every token ahead, and one for each
function still to be entered at the same place, are enough, and every expression uses at
least one token.
-/
namespace TemplateBinding.Grammar

/-- The step was not cut short, and on success fewer than `bound` tokens are left. -/
def Settled {α : Type} (bound : Nat) : Step (α × Cursor) → Prop
  | .ok (_, d) => d.left < bound
  | .error (.fault _) => True
  | .error .exhausted => False

theorem Settled.mono {α : Type} {small large : Nat} {step : Step (α × Cursor)}
    (settled : Settled small step) (le : small ≤ large) : Settled large step := by
  match step, settled with
  | .ok (_, _), fewer => exact Nat.lt_of_lt_of_le fewer le
  | .error (.fault _), _ => trivial

theorem settled_bind {α β : Type} {inner outer : Nat} {step : Step (α × Cursor)}
    {next : α × Cursor → Step (β × Cursor)} (first : Settled inner step)
    (rest : ∀ a d, d.left < inner → Settled outer (next (a, d))) :
    Settled outer (step >>= next) := by
  match step, first with
  | .ok (a, d), fewer => exact rest a d fewer
  | .error (.fault _), _ => trivial

theorem settled_expect {α : Type} {outer : Nat} (c : Cursor) (mark : Char)
    {next : Cursor → Step (α × Cursor)}
    (rest : ∀ d, d.left < c.left → Settled outer (next d)) :
    Settled outer (c.expect mark >>= next) := by
  unfold Cursor.expect
  split
  · rename_i d found
    exact rest d (Cursor.accept?_left found)
  · trivial

theorem settled_memberName (c : Cursor) : Settled c.left c.memberName := by
  unfold Cursor.memberName
  split
  · exact Cursor.next?_left ‹_›
  · exact Cursor.next?_left ‹_›
  · trivial
  · trivial

theorem settled_filterName (c : Cursor) : Settled c.left c.filterName := by
  unfold Cursor.filterName
  split
  · exact Cursor.next?_left ‹_›
  · trivial

theorem settled_entryKey (c : Cursor) : Settled c.left c.entryKey := by
  unfold Cursor.entryKey
  split
  · exact Cursor.next?_left ‹_›
  · exact Cursor.next?_left ‹_›
  · exact Cursor.next?_left ‹_›
  · trivial

theorem settled_upTo {α : Type} {mark : Char} {none : α} {list : Cursor → Step (α × Cursor)}
    {c : Cursor} (items : Settled c.left (list c)) :
    Settled c.left (upTo mark none list c) := by
  unfold upTo
  split
  · exact Cursor.accept?_left ‹_›
  · apply settled_bind items
    intro found d fewer
    apply settled_expect d mark
    intro d₁ fewer₁
    exact Nat.lt_trans fewer₁ fewer

theorem settled_separated {one : Cursor → Step (Expr × Cursor)}
    {more : Cursor → Step (List Expr × Cursor)} {c : Cursor} (first : Settled c.left (one c))
    (rest : ∀ d : Cursor, d.left < c.left → Settled d.left (more d)) :
    Settled c.left (separated one more c) := by
  unfold separated
  apply settled_bind first
  intro item d fewer
  dsimp only
  split
  · exact fewer
  · rename_i d₁ found
    have fewer₁ := Cursor.accept?_left found
    apply settled_bind (rest d₁ (by omega))
    intro items d₂ fewer₂
    change d₂.left < c.left
    omega

/-- With an allowance of `n`, every function of the descent settles wherever `n` covers
the tokens ahead. -/
structure Enough (n : Nat) : Prop where
  filtered (c : Cursor) : 16 * c.left + 13 ≤ n → Settled c.left (filtered n c)
  filterTail (start : Nat) (e : Expr) (c : Cursor) :
    16 * c.left + 1 ≤ n → Settled (c.left + 1) (filterTail n start e c)
  filterArgs (c : Cursor) : 16 * c.left + 1 ≤ n → Settled (c.left + 1) (filterArgs n c)
  expression (c : Cursor) : 16 * c.left + 12 ≤ n → Settled c.left (expression n c)
  conditional (c : Cursor) : 16 * c.left + 11 ≤ n → Settled c.left (conditional n c)
  binary (levels : List (List Lexeme)) (c : Cursor) : levels.length ≤ 6 →
    16 * c.left + 4 + levels.length ≤ n → Settled c.left (binary n levels c)
  binaryTail (level : List Lexeme) (tighter : List (List Lexeme)) (start : Nat) (e : Expr)
    (c : Cursor) : tighter.length ≤ 6 →
    16 * c.left + 1 ≤ n → Settled (c.left + 1) (binaryTail n level tighter start e c)
  prefixed (c : Cursor) : 16 * c.left + 3 ≤ n → Settled c.left (prefixed n c)
  member (c : Cursor) : 16 * c.left + 2 ≤ n → Settled c.left (member n c)
  memberTail (start : Nat) (e : Expr) (c : Cursor) :
    16 * c.left + 1 ≤ n → Settled (c.left + 1) (memberTail n start e c)
  callArgs (c : Cursor) : 16 * c.left + 15 ≤ n → Settled c.left (callArgs n c)
  arrayItems (c : Cursor) : 16 * c.left + 15 ≤ n → Settled c.left (arrayItems n c)
  objectEntries (c : Cursor) : 16 * c.left + 15 ≤ n → Settled c.left (objectEntries n c)
  arguments (c : Cursor) : 16 * c.left + 14 ≤ n → Settled c.left (arguments n c)
  elements (c : Cursor) : 16 * c.left + 14 ≤ n → Settled c.left (elements n c)
  entries (c : Cursor) : 16 * c.left + 14 ≤ n → Settled c.left (entries n c)
  primary (c : Cursor) : 16 * c.left + 1 ≤ n → Settled c.left (primary n c)

section Functions

variable {n : Nat} (ih : Enough n)
include ih

theorem settled_filtered (c : Cursor) (room : 16 * c.left + 13 ≤ n + 1) :
    Settled c.left (filtered (n + 1) c) := by
  unfold filtered
  apply settled_bind (ih.expression c (by omega))
  intro e d fewer
  exact (ih.filterTail c.column e d (by omega)).mono (by omega)

theorem settled_filterTail (start : Nat) (e : Expr) (c : Cursor) (room : 16 * c.left + 1 ≤ n + 1) :
    Settled (c.left + 1) (filterTail (n + 1) start e c) := by
  unfold filterTail
  split
  · exact Nat.lt_succ_self _
  · rename_i d found
    have fewer := Cursor.accept?_left found
    apply settled_bind (settled_filterName d)
    intro name d₁ fewer₁
    apply settled_bind (ih.filterArgs d₁ (by omega))
    intro args d₂ fewer₂
    exact (ih.filterTail start _ d₂ (by omega)).mono (by omega)

theorem settled_filterArgs (c : Cursor) (room : 16 * c.left + 1 ≤ n + 1) :
    Settled (c.left + 1) (filterArgs (n + 1) c) := by
  unfold filterArgs
  split
  · exact Nat.lt_succ_self _
  · rename_i d found
    have fewer := Cursor.accept?_left found
    apply settled_bind (ih.expression d (by omega))
    intro arg d₁ fewer₁
    apply settled_bind (ih.filterArgs d₁ (by omega))
    intro args d₂ fewer₂
    change d₂.left < c.left + 1
    omega

theorem settled_expression (c : Cursor) (room : 16 * c.left + 12 ≤ n + 1) :
    Settled c.left (expression (n + 1) c) := by
  unfold expression
  apply settled_bind (ih.conditional c (by omega))
  intro target d fewer
  dsimp only
  split
  · exact fewer
  · rename_i e found
    have fewer₁ := Cursor.accept?_left found
    split
    · apply settled_bind (ih.expression e (by omega))
      intro value f fewer₂
      change f.left < c.left
      omega
    · apply settled_bind (ih.expression e (by omega))
      intro value f fewer₂
      change f.left < c.left
      omega
    · trivial

theorem settled_conditional (c : Cursor) (room : 16 * c.left + 11 ≤ n + 1) :
    Settled c.left (conditional (n + 1) c) := by
  unfold conditional
  have enough : 16 * c.left + 4 + precedence.length ≤ n := by
    simp only [precedence, List.length_cons, List.length_nil]
    omega
  apply settled_bind (ih.binary precedence c (by decide) enough)
  intro condition d fewer
  dsimp only
  split
  · exact fewer
  · rename_i d₁ found
    have fewer₁ := Cursor.accept?_left found
    apply settled_bind (ih.expression d₁ (by omega))
    intro yes d₂ fewer₂
    dsimp only
    split
    · trivial
    · rename_i d₃ found
      have fewer₃ := Cursor.accept?_left found
      apply settled_bind (ih.expression d₃ (by omega))
      intro no d₄ fewer₄
      change d₄.left < c.left
      omega

theorem settled_binary (levels : List (List Lexeme)) (c : Cursor)
    (few : levels.length ≤ 6) (room : 16 * c.left + 4 + levels.length ≤ n + 1) :
    Settled c.left (binary (n + 1) levels c) := by
  cases levels with
  | nil => exact ih.prefixed c (by simp at room; omega)
  | cons level tighter =>
    simp only [List.length_cons] at few room
    unfold binary
    apply settled_bind (ih.binary tighter c (by omega) (by omega))
    intro left d fewer
    exact (ih.binaryTail level tighter c.column left d (by omega) (by omega)).mono (by omega)

theorem settled_binaryTail (level : List Lexeme) (tighter : List (List Lexeme)) (start : Nat)
    (e : Expr) (c : Cursor) (few : tighter.length ≤ 6) (room : 16 * c.left + 1 ≤ n + 1) :
    Settled (c.left + 1) (binaryTail (n + 1) level tighter start e c) := by
  unfold binaryTail
  split
  · exact Nat.lt_succ_self _
  · rename_i operation d found
    have fewer := Cursor.acceptAny?_left found
    apply settled_bind (ih.binary tighter d few (by omega))
    intro right d₁ fewer₁
    exact (ih.binaryTail level tighter start _ d₁ few (by omega)).mono (by omega)

theorem settled_prefixed (c : Cursor) (room : 16 * c.left + 3 ≤ n + 1) :
    Settled c.left (prefixed (n + 1) c) := by
  unfold prefixed
  split
  · rename_i d found
    have fewer := Cursor.accept?_left found
    apply settled_bind (ih.prefixed d (by omega))
    intro operand d₁ fewer₁
    change d₁.left < c.left
    omega
  · split
    · rename_i sign d found
      have fewer := Cursor.acceptAny?_left found
      apply settled_bind (ih.prefixed d (by omega))
      intro operand d₁ fewer₁
      change d₁.left < c.left
      omega
    · exact ih.member c (by omega)

theorem settled_member (c : Cursor) (room : 16 * c.left + 2 ≤ n + 1) :
    Settled c.left (member (n + 1) c) := by
  unfold member
  apply settled_bind (ih.primary c (by omega))
  intro head d fewer
  exact (ih.memberTail c.column head d (by omega)).mono (by omega)

theorem settled_memberTail (start : Nat) (e : Expr) (c : Cursor) (room : 16 * c.left + 1 ≤ n + 1) :
    Settled (c.left + 1) (memberTail (n + 1) start e c) := by
  unfold memberTail
  split
  · rename_i d found
    have fewer := Cursor.next?_left found
    apply settled_bind (settled_memberName d)
    intro name d₁ fewer₁
    exact (ih.memberTail start _ d₁ (by omega)).mono (by omega)
  · rename_i d found
    have fewer := Cursor.next?_left found
    apply settled_bind (ih.expression d (by omega))
    intro key d₁ fewer₁
    apply settled_expect d₁ ']'
    intro d₂ fewer₂
    exact (ih.memberTail start _ d₂ (by omega)).mono (by omega)
  · rename_i d found
    have fewer := Cursor.next?_left found
    apply settled_bind (ih.callArgs d (by omega))
    intro args d₁ fewer₁
    exact (ih.memberTail start _ d₁ (by omega)).mono (by omega)
  · exact Nat.lt_succ_self _

theorem settled_callArgs (c : Cursor) (room : 16 * c.left + 15 ≤ n + 1) :
    Settled c.left (callArgs (n + 1) c) := by
  rw [callArgs_succ]
  exact settled_upTo (ih.arguments c (by omega))

theorem settled_arrayItems (c : Cursor) (room : 16 * c.left + 15 ≤ n + 1) :
    Settled c.left (arrayItems (n + 1) c) := by
  rw [arrayItems_succ]
  exact settled_upTo (ih.elements c (by omega))

theorem settled_objectEntries (c : Cursor) (room : 16 * c.left + 15 ≤ n + 1) :
    Settled c.left (objectEntries (n + 1) c) := by
  rw [objectEntries_succ]
  exact settled_upTo (ih.entries c (by omega))

theorem settled_arguments (c : Cursor) (room : 16 * c.left + 14 ≤ n + 1) :
    Settled c.left (arguments (n + 1) c) := by
  rw [arguments_succ]
  exact settled_separated (ih.filtered c (by omega)) fun d fewer => ih.arguments d (by omega)

theorem settled_elements (c : Cursor) (room : 16 * c.left + 14 ≤ n + 1) :
    Settled c.left (elements (n + 1) c) := by
  rw [elements_succ]
  exact settled_separated (ih.expression c (by omega)) fun d fewer => ih.elements d (by omega)

theorem settled_entries (c : Cursor) (room : 16 * c.left + 14 ≤ n + 1) :
    Settled c.left (entries (n + 1) c) := by
  unfold entries
  apply settled_bind (settled_entryKey c)
  intro key d fewer
  apply settled_expect d ':'
  intro d₁ fewer₁
  apply settled_bind (ih.expression d₁ (by omega))
  intro value d₂ fewer₂
  dsimp only
  split
  · change d₂.left < c.left
    omega
  · rename_i d₃ found
    have fewer₃ := Cursor.accept?_left found
    apply settled_bind (ih.entries d₃ (by omega))
    intro items d₄ fewer₄
    change d₄.left < c.left
    omega

theorem settled_primary (c : Cursor) (room : 16 * c.left + 1 ≤ n + 1) :
    Settled c.left (primary (n + 1) c) := by
  unfold primary
  split
  · trivial
  · rename_i d found
    have fewer := Cursor.next?_left found
    apply settled_bind (ih.filtered d (by omega))
    intro inner d₁ fewer₁
    apply settled_expect d₁ ')'
    intro d₂ fewer₂
    change d₂.left < c.left
    omega
  · rename_i d found
    have fewer := Cursor.next?_left found
    apply settled_bind (ih.arrayItems d (by omega))
    intro items d₁ fewer₁
    change d₁.left < c.left
    omega
  · rename_i d found
    have fewer := Cursor.next?_left found
    apply settled_bind (ih.objectEntries d (by omega))
    intro items d₁ fewer₁
    change d₁.left < c.left
    omega
  · split
    · exact Cursor.next?_left ‹_›
    · trivial
  · exact Cursor.next?_left ‹_›
  · exact Cursor.next?_left ‹_›
  · exact Cursor.next?_left ‹_›
  · trivial

end Functions

theorem enough (n : Nat) : Enough n := by
  induction n with
  | zero => constructor <;> intros <;> omega
  | succ n ih =>
    constructor
    case filtered => exact settled_filtered ih
    case filterTail => exact settled_filterTail ih
    case filterArgs => exact settled_filterArgs ih
    case expression => exact settled_expression ih
    case conditional => exact settled_conditional ih
    case binary => exact settled_binary ih
    case binaryTail => exact settled_binaryTail ih
    case prefixed => exact settled_prefixed ih
    case member => exact settled_member ih
    case memberTail => exact settled_memberTail ih
    case callArgs => exact settled_callArgs ih
    case arrayItems => exact settled_arrayItems ih
    case objectEntries => exact settled_objectEntries ih
    case arguments => exact settled_arguments ih
    case elements => exact settled_elements ih
    case entries => exact settled_entries ih
    case primary => exact settled_primary ih

theorem settled_chainItems (n : Nat) (chained : Bool) (c : Cursor)
    (room : 16 * c.left + 14 ≤ n) : Settled (c.left + 1) (chainItems n chained c) := by
  induction n generalizing chained c with
  | zero => omega
  | succ n ih =>
    unfold chainItems
    split
    · exact Nat.lt_succ_self _
    · split
      · trivial
      · apply settled_bind ((enough n).filtered c (by omega))
        intro item d fewer
        have skipped := d.skipSemicolons_left
        dsimp only
        split
        · trivial
        · split
          · change d.skipSemicolons.left < c.left + 1
            omega
          · split
            · apply settled_bind (ih true d.skipSemicolons (by omega))
              intro items f fewer₁
              change f.left < c.left + 1
              omega
            · trivial

def allowance (c : Cursor) : Nat := 16 * c.left + 14

theorem settled_chain (c : Cursor) : Settled (c.left + 1) (chain (allowance c) c) := by
  have skipped := c.skipSemicolons_left
  unfold chain
  have items := (settled_chainItems (allowance c) (decide (c.skipSemicolons.left < c.left))
    c.skipSemicolons (by unfold allowance; omega)).mono (Nat.succ_le_succ skipped)
  apply settled_bind items
  intro items d fewer
  dsimp only
  split <;> exact fewer

theorem chain_ne_exhausted (c : Cursor) : chain (allowance c) c ≠ .error .exhausted := by
  intro cut
  have settled := settled_chain c
  rw [cut] at settled
  exact settled

end TemplateBinding.Grammar
