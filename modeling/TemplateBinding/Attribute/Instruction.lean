import TemplateBinding.Attribute.Filters
import TemplateBinding.Attribute.Mode
import TemplateBinding.Expr.Basic

/-!
What attributes are turned into. An instruction collects entries under keys. A key keeps
the place of its first entry, and the last entry written under it.
-/
namespace TemplateBinding

/-- A property kept in step with an expression, whose filters are looked up among `filters`. -/
structure Binding where
  target : Text
  expression : Expr
  mode : Mode
  filters : Filters

/-- An expression evaluated when an event fires. A delegated listener is not attached to
the element itself. -/
structure Listener where
  event : Text
  expression : Expr
  delegated : Bool

/-- A named reference comes from a `ref` command, or names the element itself. -/
inductive NameMode
  | default
  | element
deriving DecidableEq

def NameMode.name : NameMode → Text
  | .default => "default"
  | .element => "element"

structure NameReference where
  property : Text
  mode : NameMode
deriving DecidableEq

inductive Part
  | literal (text : Text)
  | expression (e : Expr)

/-- A text with expressions in it. Data flows one way only. -/
structure Interpolation where
  target : Text
  parts : List Part
  filters : Filters

def Interpolation.mode (_ : Interpolation) : Mode := .oneWay

def Interpolation.expressions (i : Interpolation) : List Expr :=
  i.parts.filterMap fun
    | .literal _ => none
    | .expression e => some e

inductive Entry
  | literal (text : Text)
  | binding (b : Binding)
  | name (n : NameReference)
  | interpolation (i : Interpolation)

def Entry.binding? : Entry → Option Binding
  | .binding b => some b
  | _ => none

/-- An association list with one entry more. The entry of a present key is replaced. -/
def put {α : Type} (key : Text) (value : α) : List (Text × α) → List (Text × α)
  | [] => [(key, value)]
  | (k, v) :: rest => if k = key then (key, value) :: rest else (k, v) :: put key value rest

theorem keys_put {α : Type} (key : Text) (value : α) (entries : List (Text × α)) :
    (put key value entries).map (·.1) =
      if key ∈ entries.map (·.1) then entries.map (·.1) else entries.map (·.1) ++ [key] := by
  induction entries with
  | nil => simp [put]
  | cons head rest ih =>
    obtain ⟨k, v⟩ := head
    by_cases same : k = key
    · simp [put, same]
    · have other : key ≠ k := fun eq => same eq.symm
      simp only [put, same, if_false, List.map_cons, ih, List.mem_cons, other, false_or]
      split <;> simp

theorem nodup_keys_put {α : Type} (key : Text) (value : α) (entries : List (Text × α))
    (distinct : (entries.map (·.1)).Nodup) : ((put key value entries).map (·.1)).Nodup := by
  rw [keys_put]
  split
  · exact distinct
  · rename_i absent
    rw [List.nodup_append]
    refine ⟨distinct, by simp, ?_⟩
    intro a member b single same
    simp only [List.mem_singleton] at single
    subst single same
    exact absent member

structure Instruction where
  name : Text
  entries : List (Text × Entry)
  distinct : (entries.map (·.1)).Nodup

namespace Instruction

def empty (name : Text) : Instruction := ⟨name, [], List.nodup_nil⟩

def keys (i : Instruction) : List Text := i.entries.map (·.1)

def get? (i : Instruction) (key : Text) : Option Entry := i.entries.lookup key

def binding? (i : Instruction) (key : Text) : Option Binding := (i.get? key).bind Entry.binding?

def insert (i : Instruction) (key : Text) (entry : Entry) : Instruction :=
  ⟨i.name, put key entry i.entries, nodup_keys_put key entry i.entries i.distinct⟩

def insertAll (i : Instruction) (writes : List (Text × Entry)) : Instruction :=
  writes.foldl (fun i w => i.insert w.1 w.2) i

@[simp] theorem insert_name (i : Instruction) (key : Text) (entry : Entry) :
    (i.insert key entry).name = i.name := rfl

@[simp] theorem insertAll_nil (i : Instruction) : i.insertAll [] = i := rfl

@[simp] theorem insertAll_cons (i : Instruction) (w : Text × Entry) (ws : List (Text × Entry)) :
    i.insertAll (w :: ws) = (i.insert w.1 w.2).insertAll ws := rfl

theorem insertAll_append (i : Instruction) (as bs : List (Text × Entry)) :
    i.insertAll (as ++ bs) = (i.insertAll as).insertAll bs := List.foldl_append ..

end Instruction

inductive Interpretation
  | instruction (i : Instruction)
  | listener (l : Listener)
  | name (n : NameReference)

end TemplateBinding
