import TemplateBinding.Expr.Parser
import TemplateBinding.Attribute.Error
import TemplateBinding.Attribute.Instruction

/-!
Texts with expressions in them, such as `Hello ${name}!`. An expression ends at the brace
that closes its opening one. Braces in quoted strings do not count, and a backslash hides
the character after it. An opening that is never closed is literal text.
-/
namespace TemplateBinding.Template

inductive Piece
  | literal (text : Text)
  | expression (source : Text)
deriving DecidableEq

/-- How far a search for the closing brace has come: the braces open inside, the quote of
the string it is in, and whether the next character is hidden. -/
structure Search where
  depth : Nat
  quote : Option Char
  hidden : Bool

def Search.step (s : Search) (c : Char) : Option Search :=
  if s.hidden then some { s with hidden := false }
  else if c = '\\' then some { s with hidden := true }
  else
    match s.quote with
    | some q => some { s with quote := if c = q then none else some q }
    | none =>
      if Grammar.isQuote c then some { s with quote := some c }
      else if c = '{' then some { s with depth := s.depth + 1 }
      else if c = '}' then
        if s.depth = 0 then none else some { s with depth := s.depth - 1 }
      else some s

def closing? (s : Search) : Text → Option (Text × Text)
  | [] => none
  | c :: cs =>
    match s.step c with
    | none => some ([], cs)
    | some next => (closing? next cs).map fun (source, after) => (c :: source, after)

def opening : Text := ['$', '{']

def firstHole? (t : Text) : Option (Text × Text × Text) := do
  let (before, rest) ← Text.cut? opening t
  let (source, after) ← closing? ⟨0, none, false⟩ rest
  some (before, source, after)

theorem eq_of_closing? {s : Search} {t source after : Text}
    (found : closing? s t = some (source, after)) : t = source ++ '}' :: after := by
  induction t generalizing s source with
  | nil => simp [closing?] at found
  | cons c cs ih =>
    unfold closing? at found
    split at found
    · rename_i ended
      simp only [Option.some.injEq, Prod.mk.injEq] at found
      obtain ⟨rfl, rfl⟩ := found
      have brace : c = '}' := by
        unfold Search.step at ended
        repeat' split at ended
        all_goals first | assumption | simp at ended
      simp [brace]
    · rename_i next more
      obtain ⟨⟨inner, rest⟩, later, same⟩ := Option.map_eq_some_iff.1 found
      simp only [Prod.mk.injEq] at same
      obtain ⟨rfl, rfl⟩ := same
      simp [← ih later]

theorem eq_of_firstHole? {t before source after : Text}
    (found : firstHole? t = some (before, source, after)) :
    t = before ++ opening ++ source ++ '}' :: after := by
  unfold firstHole? at found
  simp only [Option.bind_eq_bind, Option.bind_eq_some_iff, Prod.exists, Option.some.injEq,
    Prod.mk.injEq] at found
  obtain ⟨a, rest, cut, b, c, closed, rfl, rfl, rfl⟩ := found
  rw [Text.eq_of_cut? cut, eq_of_closing? closed]
  simp

/-- The pieces of a text. They alternate and begin with a literal, which may be empty. A
literal at the end is left out when it is empty, unless it is the only piece. -/
def pieces (t : Text) : List Piece :=
  match hole : firstHole? t with
  | none => [.literal t]
  | some (before, source, after) =>
    have : after.length < t.length := by
      simp [eq_of_firstHole? hole]
      omega
    .literal before :: .expression source :: (if after.isEmpty then [] else pieces after)
termination_by t.length

def Piece.isExpression : Piece → Bool
  | .expression _ => true
  | .literal _ => false

def Piece.parse : Piece → Except BindingError Part
  | .literal text => .ok (.literal text)
  | .expression source =>
    match Expr.parse source with
    | .ok e => .ok (.expression e)
    | .error error => .error (.expression source error)

end TemplateBinding.Template
