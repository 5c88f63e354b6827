import TemplateBinding.Text.Basic

/-!
The filters known to a template: a set of names that remembers the order of registration.
-/
namespace TemplateBinding

structure Filters where
  names : List Text
  distinct : names.Nodup

namespace Filters

def empty : Filters := ⟨[], List.nodup_nil⟩

def has (filters : Filters) (name : Text) : Bool := filters.names.contains name

def register (filters : Filters) (name : Text) : Filters :=
  if known : name ∈ filters.names then filters
  else
    ⟨filters.names ++ [name], by
      rw [List.nodup_append]
      refine ⟨filters.distinct, by simp, ?_⟩
      intro a member b single same
      simp only [List.mem_singleton] at single
      subst single same
      exact known member⟩

def ofList (names : List Text) : Filters := names.foldl register empty

end Filters
end TemplateBinding
