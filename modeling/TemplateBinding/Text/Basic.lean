/-!
Text is a list of characters. Positions in a text are counted in UTF-8 bytes, so the
byte size of a text, and the slice between two byte positions, are defined here once.
-/
namespace TemplateBinding

abbrev Text := List Char

instance : Coe String Text := ⟨String.toList⟩

namespace Text

def byteSize : Text → Nat
  | [] => 0
  | c :: cs => c.utf8Size + byteSize cs

/-- What is left after the characters that begin in the first `n` bytes. -/
def dropBytes : Nat → Text → Text
  | _, [] => []
  | n, c :: cs => if n = 0 then c :: cs else dropBytes (n - c.utf8Size) cs

def takeBytes : Nat → Text → Text
  | _, [] => []
  | n, c :: cs => if n = 0 then [] else c :: takeBytes (n - c.utf8Size) cs

def slice (start stop : Nat) (t : Text) : Text :=
  takeBytes (stop - start) (dropBytes start t)

def cut? (mark : Text) : Text → Option (Text × Text)
  | [] => if mark = [] then some ([], []) else none
  | c :: cs =>
    if mark.isPrefixOf (c :: cs) then some ([], (c :: cs).drop mark.length)
    else (cut? mark cs).map fun (before, after) => (c :: before, after)

def join (separator : Text) : List Text → Text
  | [] => []
  | [t] => t
  | t :: ts => t ++ separator ++ join separator ts

/-- Membership in a list of texts is decided in one way everywhere. -/
instance decidableMem (t : Text) (ts : List Text) : Decidable (t ∈ ts) := inferInstance

@[simp] theorem byteSize_nil : byteSize [] = 0 := rfl

@[simp] theorem byteSize_cons (c : Char) (cs : Text) :
    byteSize (c :: cs) = c.utf8Size + byteSize cs := rfl

@[simp] theorem byteSize_append (a b : Text) : byteSize (a ++ b) = byteSize a + byteSize b := by
  induction a with
  | nil => simp
  | cons c cs ih => simp [ih, Nat.add_assoc]

theorem eq_of_cut? {mark t before after : Text} (found : cut? mark t = some (before, after)) :
    t = before ++ mark ++ after := by
  induction t generalizing before after with
  | nil =>
    unfold cut? at found
    split at found
    · simp_all
    · simp at found
  | cons c cs ih =>
    unfold cut? at found
    split at found
    · rename_i here
      obtain ⟨rest, whole⟩ := List.isPrefixOf_iff_prefix.1 here
      rw [← whole] at found ⊢
      simp at found
      simp [← found.1, ← found.2]
    · cases later : cut? mark cs with
      | none => simp [later] at found
      | some pair =>
        obtain ⟨a, b⟩ := pair
        simp only [later, Option.map_some, Option.some.injEq, Prod.mk.injEq] at found
        rw [ih later, ← found.1, ← found.2]
        simp

end Text
end TemplateBinding
