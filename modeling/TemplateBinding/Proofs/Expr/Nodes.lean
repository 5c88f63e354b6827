import TemplateBinding.Expr.Basic

/-! The nodes below a node, and trees that differ only in where they were read. -/
namespace TemplateBinding

def Span.move (g : Nat → Nat) (s : Span) : Span := ⟨g s.start, g s.stop⟩

namespace Expr

mutual

def move (g : Nat → Nat) : Expr → Expr
  | .empty s => .empty (s.move g)
  | .implicitThis s => .implicitThis (s.move g)
  | .explicitThis s => .explicitThis (s.move g)
  | .chain s items => .chain (s.move g) (moveAll g items)
  | .conditional s condition yes no =>
    .conditional (s.move g) (condition.move g) (yes.move g) (no.move g)
  | .property s receiver name => .property (s.move g) (receiver.move g) name
  | .keyed s receiver key => .keyed (s.move g) (receiver.move g) (key.move g)
  | .setProperty s receiver name value =>
    .setProperty (s.move g) (receiver.move g) name (value.move g)
  | .setKeyed s receiver key value =>
    .setKeyed (s.move g) (receiver.move g) (key.move g) (value.move g)
  | .filter s subject name args => .filter (s.move g) (subject.move g) name (moveAll g args)
  | .literal s value => .literal (s.move g) value
  | .array s items => .array (s.move g) (moveAll g items)
  | .object s keys values => .object (s.move g) keys (moveAll g values)
  | .binary s operation left right => .binary (s.move g) operation (left.move g) (right.move g)
  | .negation s operand => .negation (s.move g) (operand.move g)
  | .unary s sign operand => .unary (s.move g) sign (operand.move g)
  | .call s callee args => .call (s.move g) (callee.move g) (moveAll g args)
  | .parenthesized s inner => .parenthesized (s.move g) (inner.move g)

def moveAll (g : Nat → Nat) : List Expr → List Expr
  | [] => []
  | e :: es => e.move g :: moveAll g es

end

theorem moveAll_eq (g : Nat → Nat) (es : List Expr) : moveAll g es = es.map (move g) := by
  induction es with
  | nil => rfl
  | cons e es ih => simp [moveAll, ih]

@[simp] theorem isFilter_move (g : Nat → Nat) (e : Expr) : (e.move g).isFilter = e.isFilter := by
  cases e <;> rfl

mutual

theorem move_id (e : Expr) : e.move id = e := by
  cases e <;> simp only [move, Span.move, id, move_id, moveAll_id]

theorem moveAll_id (es : List Expr) : moveAll id es = es := by
  cases es <;> simp only [moveAll, move_id, moveAll_id]

end

def bare (e : Expr) : Expr := e.move fun _ => 0

/-- `n.Within e`: the node `n` is `e` or lies somewhere below it. -/
inductive Within (n : Expr) : Expr → Prop
  | here : Within n n
  | under {c e} : c ∈ e.children → Within n c → Within n e

theorem Within.eq_of_leaf {n e : Expr} (within : n.Within e) (leaf : e.children = []) : n = e := by
  cases within with
  | here => rfl
  | under member _ =>
    rw [leaf] at member
    cases member

end Expr

end TemplateBinding
