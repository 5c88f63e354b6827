import TemplateBinding.Expr.Basic
import TemplateBinding.Json.Basic

/-!
The tree of an expression as a document: the kind of each node, its span, and its parts.
-/
namespace TemplateBinding

def Span.toJson (s : Span) : Json :=
  .object [("start", .natural s.start), ("end", .natural s.stop)]

/-- Numbers that are not finite have no place in a document and become `null` there. -/
def Literal.toJson : Literal → Json
  | .string value => .object [("kind", .string "String"), ("value", .string value)]
  | .number value => .object [("kind", .string "Number"), ("value", .number value)]
  | .boolean value => .object [("kind", .string "Boolean"), ("value", .boolean value)]
  | .null => .object [("kind", .string "Null")]
  | .undefined => .object [("kind", .string "Undefined")]

def Key.toJson (k : Key) : Json :=
  .object [("key", .string k.text), ("quoted", .boolean k.quoted)]

namespace Expr

def node (kind : Text) (span : Span) (parts : List (Text × Json)) : Json :=
  .object [("type", .string kind), ("data", .object (("span", span.toJson) :: parts))]

mutual

def toJson : Expr → Json
  | .empty s => node "EmptyExpr" s []
  | .implicitThis s => node "ImplicitReceiver" s []
  | .explicitThis s => node "ThisReceiver" s []
  | .chain s items => node "Chain" s [("expressions", .array (allToJson items))]
  | .conditional s condition yes no =>
    node "Conditional" s
      [("condition", toJson condition), ("true_exp", toJson yes), ("false_exp", toJson no)]
  | .property s receiver name =>
    node "PropertyRead" s [("receiver", toJson receiver), ("name", .string name)]
  | .keyed s receiver key =>
    node "KeyedRead" s [("receiver", toJson receiver), ("key", toJson key)]
  | .setProperty s receiver name value =>
    node "PropertyWrite" s
      [("receiver", toJson receiver), ("name", .string name), ("value", toJson value)]
  | .setKeyed s receiver key value =>
    node "KeyedWrite" s
      [("receiver", toJson receiver), ("key", toJson key), ("value", toJson value)]
  | .filter s subject name args =>
    node "Filter" s
      [("exp", toJson subject), ("name", .string name), ("args", .array (allToJson args))]
  | .literal s value => node "LiteralPrimitive" s [("value", value.toJson)]
  | .array s items => node "LiteralArray" s [("expressions", .array (allToJson items))]
  | .object s keys values =>
    node "LiteralMap" s
      [("keys", .array (keys.map Key.toJson)), ("values", .array (allToJson values))]
  | .binary s operation left right =>
    node "Binary" s
      [("operation", .string operation), ("left", toJson left), ("right", toJson right)]
  | .negation s operand => node "PrefixNot" s [("expression", toJson operand)]
  | .unary s sign operand =>
    node "Unary" s [("operator", .string sign), ("expr", toJson operand)]
  | .call s callee args =>
    node "Call" s [("receiver", toJson callee), ("args", .array (allToJson args))]
  | .parenthesized s inner => node "ParenthesizedExpression" s [("expression", toJson inner)]

def allToJson : List Expr → List Json
  | [] => []
  | e :: es => toJson e :: allToJson es

end

end Expr
end TemplateBinding
