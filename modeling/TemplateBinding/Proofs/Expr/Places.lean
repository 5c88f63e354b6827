import Mathlib.Data.List.Forall2
import TemplateBinding.Expr.Basic

/-! Places in a tree, as paths from its root. The names of the filters in a tree are the names at
the places of its filters, and a filter comes before all that are applied within it. -/
namespace TemplateBinding.Expr

theorem sizeOf_lt_of_mem_children {c e : Expr} (child : c ∈ e.children) : sizeOf c < sizeOf e := by
  have within {es : List Expr} (member : c ∈ es) : sizeOf c < sizeOf es :=
    List.sizeOf_lt_of_mem member
  cases e with
  | empty | implicitThis | explicitThis | literal => cases child
  | chain _ items | array _ items | object _ _ items =>
    have smaller := within (show c ∈ items from child)
    simp only [chain.sizeOf_spec, array.sizeOf_spec, object.sizeOf_spec]
    omega
  | filter _ first _ others | call _ first others =>
    simp only [filter.sizeOf_spec, call.sizeOf_spec]
    rcases List.mem_cons.1 (show c ∈ first :: others from child) with rfl | member
    · omega
    · have smaller := within member
      omega
  | property | negation | unary | parenthesized =>
    simp only [children, List.mem_cons, List.not_mem_nil, or_false] at child
    subst child
    simp only [property.sizeOf_spec, negation.sizeOf_spec, unary.sizeOf_spec,
      parenthesized.sizeOf_spec]
    omega
  | keyed | setProperty | setKeyed | conditional | binary =>
    simp only [children, List.mem_cons, List.not_mem_nil, or_false] at child
    simp only [keyed.sizeOf_spec, setProperty.sizeOf_spec, setKeyed.sizeOf_spec,
      conditional.sizeOf_spec, binary.sizeOf_spec]
    rcases child with rfl | rfl | rfl <;> omega

theorem induction_children {motive : Expr → Prop}
    (step : ∀ e, (∀ c ∈ e.children, motive c) → motive e) (e : Expr) : motive e :=
  step e fun c child =>
    have _smaller := sizeOf_lt_of_mem_children child
    induction_children step c
termination_by sizeOf e

/-- The node that a path leads to. Each step of a path is the number of a child. -/
def at? : Expr → List Nat → Option Expr
  | e, [] => some e
  | e, i :: path => e.children[i]?.bind fun c => c.at? path

def inRow? (es : List Expr) : List Nat → Option Expr
  | [] => none
  | i :: path => es[i]?.bind fun e => e.at? path

def FilterAt (find? : List Nat → Option Expr) (path : List Nat) (name : Text) : Prop :=
  ∃ span subject args, find? path = some (.filter span subject name args)

/-- The places of all filters that can be found, in the order of their names. No filter comes
before another one that it is applied within. -/
structure FilterPlaces (find? : List Nat → Option Expr) (names : List Text)
    (places : List (List Nat)) : Prop where
  named : List.Forall₂ (FilterAt find?) places names
  complete : ∀ path name, FilterAt find? path name → path ∈ places
  outermost : places.Pairwise fun first second => ¬ second <+: first

def shifted : List Nat → List Nat
  | [] => []
  | i :: path => (i + 1) :: path

theorem shifted_prefix_iff {p q : List Nat} : shifted q <+: shifted p ↔ q <+: p := by
  cases p <;> cases q <;> simp [shifted, List.cons_prefix_cons]

theorem filterAt_shifted (e : Expr) {es : List Expr} {path : List Nat} {name : Text}
    (found : FilterAt (inRow? es) path name) :
    FilterAt (inRow? (e :: es)) (shifted path) name := by
  cases path <;> exact found

theorem FilterAt.ne_nil {es : List Expr} {path : List Nat} {name : Text}
    (found : FilterAt (inRow? es) path name) : path ≠ [] := by
  rintro rfl
  obtain ⟨_, _, _, found⟩ := found
  cases found

theorem FilterAt.below {e : Expr} {path : List Nat} {name : Text}
    (found : FilterAt (inRow? e.children) path name) : FilterAt e.at? path name := by
  cases path with
  | nil => exact absurd rfl found.ne_nil
  | cons i path => exact found

theorem FilterPlaces.ne_nil {es : List Expr} {names : List Text} {places : List (List Nat)}
    (filters : FilterPlaces (inRow? es) names places) : ∀ path ∈ places, path ≠ [] := by
  have each : List.Forall₂ (fun path (_ : Text) => path ≠ [] ∧ True) places names :=
    filters.named.imp fun _ _ found => ⟨found.ne_nil, trivial⟩
  exact ((List.forall₂_and_left places names).1 each).1

theorem exists_inRow {es : List Expr}
    (each : ∀ e ∈ es, ∃ places, FilterPlaces e.at? e.filterNames places) :
    ∃ places, FilterPlaces (inRow? es) (es.flatMap filterNames) places := by
  induction es with
  | nil =>
    refine ⟨[], .nil, ?_, .nil⟩
    rintro path name ⟨_, _, _, found⟩
    cases path <;> cases found
  | cons e es ih =>
    obtain ⟨first, others⟩ := List.forall_mem_cons.1 each
    obtain ⟨here, first⟩ := first
    obtain ⟨behind, rest⟩ := ih others
    refine ⟨here.map (0 :: ·) ++ behind.map shifted, ?named, ?complete, ?outermost⟩
    case named =>
      have before : List.Forall₂ (FilterAt (inRow? (e :: es))) (here.map (0 :: ·)) e.filterNames :=
        List.forall₂_map_left_iff.2 first.named
      have after := List.forall₂_map_left_iff.2
        (rest.named.imp fun _ _ => filterAt_shifted e)
      rw [List.flatMap_cons]
      exact List.rel_append before after
    case complete =>
      intro path name found
      match path with
      | [] => exact absurd rfl found.ne_nil
      | 0 :: path =>
        exact List.mem_append_left _ (List.mem_map_of_mem (first.complete path name found))
      | (i + 1) :: path =>
        have member : i :: path ∈ behind := rest.complete (i :: path) name found
        exact List.mem_append_right _ (List.mem_map_of_mem member)
    case outermost =>
      rw [List.pairwise_append, List.pairwise_map, List.pairwise_map]
      refine ⟨?_, ?_, ?_⟩
      · exact first.outermost.imp fun apart before => apart (List.cons_prefix_cons.1 before).2
      · exact rest.outermost.imp fun apart before => apart (shifted_prefix_iff.1 before)
      · intro p inside q outside before
        obtain ⟨p, -, rfl⟩ := List.mem_map.1 inside
        obtain ⟨q, member, rfl⟩ := List.mem_map.1 outside
        cases q with
        | nil => exact rest.ne_nil [] member rfl
        | cons i q => cases (List.cons_prefix_cons.1 before).1

theorem exists_filterPlaces (e : Expr) : ∃ places, FilterPlaces e.at? e.filterNames places := by
  induction e using induction_children with
  | step e below =>
    obtain ⟨places, row⟩ := exists_inRow below
    have named := row.named.imp fun _ _ => FilterAt.below
    rw [filterNames_eq_children]
    split
    · rename_i span subject name args
      refine ⟨[] :: places, .cons ⟨span, subject, args, rfl⟩ named, ?complete, ?outermost⟩
      case complete =>
        intro path name' found
        cases path with
        | nil => exact List.mem_cons_self
        | cons i path => exact List.mem_cons_of_mem _ (row.complete (i :: path) name' found)
      case outermost =>
        refine List.pairwise_cons.2 ⟨fun path member before => ?_, row.outermost⟩
        exact row.ne_nil path member (List.prefix_nil.1 before)
    · rename_i other
      refine ⟨places, named, fun path name found => ?_, row.outermost⟩
      cases path with
      | nil =>
        obtain ⟨span, subject, args, here⟩ := found
        exact absurd (Option.some.inj here) (other span subject name args)
      | cons i path => exact row.complete (i :: path) name found

end TemplateBinding.Expr
