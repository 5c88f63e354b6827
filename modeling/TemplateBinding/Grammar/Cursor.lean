import TemplateBinding.Grammar.Fault

/-!
A place in a token list: the tokens ahead, where the last one before it ends, and the byte
size of the whole text, which is the column of its end.
-/
namespace TemplateBinding.Grammar

structure Cursor where
  size : Nat
  passed : Nat
  ahead : List Token

namespace Cursor

def start (size : Nat) (tokens : List Token) : Cursor := ⟨size, 0, tokens⟩

def left (c : Cursor) : Nat := c.ahead.length

def column (c : Cursor) : Nat :=
  match c.ahead with
  | [] => c.size
  | t :: _ => t.start

def next? (c : Cursor) : Option (Lexeme × Cursor) :=
  match c.ahead with
  | [] => none
  | t :: ts => some (t.lexeme, { c with passed := t.stop, ahead := ts })

def accept? (c : Cursor) (lexeme : Lexeme) : Option Cursor :=
  match c.next? with
  | some (found, d) => if found = lexeme then some d else none
  | none => none

def acceptAny? (c : Cursor) (lexemes : List Lexeme) : Option (Text × Cursor) :=
  match c.next? with
  | some (found, d) => if found ∈ lexemes then some (found.text, d) else none
  | none => none

def behindSemicolons (size passed : Nat) : List Token → Cursor
  | [] => ⟨size, passed, []⟩
  | t :: ts =>
    if t.lexeme = .punctuation ';' then behindSemicolons size t.stop ts
    else ⟨size, passed, t :: ts⟩

def skipSemicolons (c : Cursor) : Cursor := behindSemicolons c.size c.passed c.ahead

theorem next?_left {c d : Cursor} {l : Lexeme} (found : c.next? = some (l, d)) :
    d.left < c.left := by
  unfold next? at found
  split at found
  · simp at found
  · rename_i whole
    cases found
    simp [left, whole]

theorem accept?_left {c d : Cursor} {l : Lexeme} (found : c.accept? l = some d) :
    d.left < c.left := by
  unfold accept? at found
  split at found
  · rename_i next
    split at found
    · cases found
      exact next?_left next
    · simp at found
  · simp at found

theorem acceptAny?_left {c d : Cursor} {ls : List Lexeme} {text : Text}
    (found : c.acceptAny? ls = some (text, d)) : d.left < c.left := by
  unfold acceptAny? at found
  split at found
  · rename_i next
    split at found
    · cases found
      exact next?_left next
    · simp at found
  · simp at found

theorem behindSemicolons_left (size passed : Nat) (ahead : List Token) :
    (behindSemicolons size passed ahead).left ≤ ahead.length := by
  induction ahead generalizing passed with
  | nil => exact Nat.le_refl _
  | cons t ts ih =>
    unfold behindSemicolons
    split
    · exact Nat.le_succ_of_le (ih t.stop)
    · exact Nat.le_refl _

theorem skipSemicolons_left (c : Cursor) : c.skipSemicolons.left ≤ c.left :=
  behindSemicolons_left ..

end Cursor
end TemplateBinding.Grammar
