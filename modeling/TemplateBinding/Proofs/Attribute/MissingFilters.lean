import Mathlib.Data.List.Basic
import TemplateBinding.Attribute.Warnings
import TemplateBinding.Proofs.Attribute.Lookups

/-! What is said about filters that are not registered. All that an attribute contains is looked
through, entry by entry and part by part, and there is one line for each use. A binding that is
asked itself has its own filters to look them up, and still says the same. -/
namespace TemplateBinding

/-- A filter in an expression, and the property or the event that the expression is for. -/
structure FilterUse where
  target : Text
  filter : Text
  deriving DecidableEq

namespace FilterUse

def warning (use : FilterUse) : Text := missingFilterWarning use.target use.filter

def missing (filters : Filters) (uses : List FilterUse) : List FilterUse :=
  uses.filter fun use => !filters.has use.filter

end FilterUse

/-! The uses in all that an attribute can mean, in the order in which they are met. -/

def Expr.uses (e : Expr) (target : Text) : List FilterUse :=
  e.filterNames.map fun name => ⟨target, name⟩

def Part.uses (target : Text) : Part → List FilterUse
  | .literal _ => []
  | .expression e => e.uses target

def Interpolation.uses (i : Interpolation) : List FilterUse := i.parts.flatMap (Part.uses i.target)

def Entry.uses : Entry → List FilterUse
  | .literal _ | .name _ => []
  | .binding b => b.expression.uses b.target
  | .interpolation i => i.uses

def Meaning.uses : Meaning → List FilterUse
  | .interpreted (.instruction i) => i.entries.flatMap fun (_, entry) => entry.uses
  | .interpreted (.listener l) => l.expression.uses l.event
  | .interpreted (.name _) => []
  | .interpolated i => i.uses

inductive Entry.Contains (e : Expr) : Entry → Prop
  | binding {target mode filters} : Contains e (.binding ⟨target, e, mode, filters⟩)
  | part {i} : .expression e ∈ i.parts → Contains e (.interpolation i)

inductive Meaning.Contains (e : Expr) : Meaning → Prop
  | entry {i key entry} :
      (key, entry) ∈ i.entries → entry.Contains e → Contains e (.interpreted (.instruction i))
  | listener {event delegated} : Contains e (.interpreted (.listener ⟨event, e, delegated⟩))
  | part {i} : .expression e ∈ i.parts → Contains e (.interpolated i)

def AttributeInfo.uses (info : AttributeInfo) : List FilterUse :=
  (info.meaning.map Meaning.uses).getD []

def Entry.warnings (entry : Entry) (filters : Filters) : List Text :=
  (FilterUse.missing filters entry.uses).map FilterUse.warning

theorem Filters.has_register (filters : Filters) (f name : Text) :
    (filters.register f).has name = (filters.has name || name == f) := by
  unfold register has
  split
  · rename_i known
    by_cases same : name = f <;> simp [same, known]
  · rw [List.contains_append, List.contains_cons, List.contains_nil, Bool.or_false]

namespace FilterUse

theorem missing_flatMap {α : Type} (filters : Filters) (as : List α) (f : α → List FilterUse) :
    missing filters (as.flatMap f) = as.flatMap fun a => missing filters (f a) :=
  List.filter_flatMap ..

theorem missing_uses (filters : Filters) (e : Expr) (target : Text) :
    missing filters (e.uses target) = (filters.missing e).map fun name => ⟨target, name⟩ := by
  unfold missing Expr.uses Filters.missing
  rw [List.filter_map]
  rfl

theorem missing_eq_nil_iff {filters : Filters} {uses : List FilterUse} :
    missing filters uses = [] ↔ ∀ use ∈ uses, filters.has use.filter = true := by
  simp [missing]

theorem missing_register (filters : Filters) (f : Text) (uses : List FilterUse) :
    missing (filters.register f) uses = (missing filters uses).filter (·.filter ≠ f) := by
  unfold missing
  rw [List.filter_filter]
  refine List.filter_congr fun use _ => ?_
  rw [filters.has_register]
  by_cases same : use.filter = f <;> simp [same]

end FilterUse

theorem Interpolation.uses_eq (i : Interpolation) :
    i.uses = i.expressions.flatMap fun e => e.uses i.target := by
  unfold uses expressions
  induction i.parts with
  | nil => rfl
  | cons part parts ih =>
    rw [List.flatMap_cons, ih]
    cases part <;> rfl

theorem Entry.uses_eq (entry : Entry) :
    entry.uses = entry.sources.flatMap fun (target, e) => e.uses target := by
  cases entry with
  | literal | name => rfl
  | binding b => exact (List.flatMap_singleton ..).symm
  | interpolation i => rw [uses, i.uses_eq, sources, List.flatMap_map]

theorem AttributeInfo.uses_eq (info : AttributeInfo) :
    info.uses = info.sources.flatMap fun (target, e) => e.uses target := by
  obtain ⟨_, _, _, meaning⟩ := info
  cases meaning with
  | none => rfl
  | some m =>
    cases m with
    | interpreted i =>
      cases i with
      | instruction i =>
        have each (kv : Text × Entry) : kv.2.uses = _ := kv.2.uses_eq
        simp only [uses, sources, Interpretation.sources, Meaning.uses, Option.map_some,
          Option.getD_some, List.flatMap_assoc, each]
      | listener l => exact (List.flatMap_singleton ..).symm
      | name => rfl
    | interpolated i =>
      simp only [uses, sources, Meaning.uses, Option.map_some, Option.getD_some, i.uses_eq,
        List.flatMap_map]

theorem AttributeInfo.warnings_eq (info : AttributeInfo) (filters : Filters) :
    info.warnings filters = (FilterUse.missing filters info.uses).map FilterUse.warning := by
  rw [info.uses_eq, FilterUse.missing_flatMap, List.map_flatMap]
  refine List.flatMap_congr fun source _ => ?_
  rw [FilterUse.missing_uses, List.map_map]
  rfl

theorem Entry.binding_warnings (b : Binding) :
    (Entry.binding b).warnings b.filters =
      b.missingFilters.map (missingFilterWarning b.target) := by
  unfold warnings uses Binding.missingFilters
  rw [FilterUse.missing_uses, List.map_map]
  rfl

theorem Expr.names_uses (e : Expr) (target : Text) :
    (e.uses target).map FilterUse.filter = e.filterNames := by
  rw [uses, List.map_map]
  exact List.map_id _

theorem Interpolation.mem_names_iff {i : Interpolation} {name : Text} :
    name ∈ i.uses.map FilterUse.filter ↔ ∃ e, .expression e ∈ i.parts ∧ name ∈ e.filterNames := by
  have inside (e : Expr) : e ∈ i.expressions ↔ .expression e ∈ i.parts := by
    unfold expressions
    rw [List.mem_filterMap]
    constructor
    · rintro ⟨part, member, same⟩
      cases part <;> cases same
      exact member
    · exact fun member => ⟨.expression e, member, rfl⟩
  simp only [i.uses_eq, List.map_flatMap, List.mem_flatMap, Expr.names_uses, inside]

theorem Entry.mem_names_iff {entry : Entry} {name : Text} :
    name ∈ entry.uses.map FilterUse.filter ↔ ∃ e, entry.Contains e ∧ name ∈ e.filterNames := by
  cases entry with
  | literal | name =>
    refine iff_of_false nofun ?_
    rintro ⟨e, contains, -⟩
    cases contains
  | binding b =>
    rw [uses, Expr.names_uses]
    constructor
    · exact fun member => ⟨b.expression, .binding, member⟩
    · rintro ⟨e, contains, member⟩
      cases contains
      exact member
  | interpolation i =>
    refine i.mem_names_iff.trans (exists_congr fun e => and_congr_left fun _ => ?_)
    constructor
    · exact .part
    · intro contains
      cases contains
      assumption

theorem Meaning.mem_names_iff {m : Meaning} {name : Text} :
    name ∈ m.uses.map FilterUse.filter ↔ ∃ e, m.Contains e ∧ name ∈ e.filterNames := by
  match m with
  | .interpreted (.instruction i) =>
    simp only [uses, List.map_flatMap, List.mem_flatMap, Entry.mem_names_iff]
    constructor
    · rintro ⟨⟨key, entry⟩, among, e, contains, member⟩
      exact ⟨e, .entry among contains, member⟩
    · rintro ⟨e, contains, member⟩
      cases contains with
      | entry among contains => exact ⟨_, among, e, contains, member⟩
  | .interpreted (.listener l) =>
    rw [uses, Expr.names_uses]
    constructor
    · exact fun member => ⟨l.expression, .listener, member⟩
    · rintro ⟨e, contains, member⟩
      cases contains
      exact member
  | .interpreted (.name n) =>
    refine iff_of_false nofun ?_
    rintro ⟨e, contains, -⟩
    cases contains
  | .interpolated i =>
    refine i.mem_names_iff.trans (exists_congr fun e => and_congr_left fun _ => ?_)
    constructor
    · exact .part
    · intro contains
      cases contains
      assumption

/-- What the lines about filters that are not registered say of an attribute. -/
structure Diagnosed (info : AttributeInfo) (filters : Filters) : Prop where
  lines : info.warnings filters = (FilterUse.missing filters info.uses).map FilterUse.warning
  entries : ∀ i, info.meaning = some (.interpreted (.instruction i)) →
    info.warnings filters = i.entries.flatMap fun (_, entry) => entry.warnings filters
  /-- A binding names the same filters when it is asked itself. -/
  bindings : ∀ i, info.meaning = some (.interpreted (.instruction i)) →
    ∀ key b, (key, .binding b) ∈ i.entries →
      (Entry.binding b).warnings filters = b.missingFilters.map (missingFilterWarning b.target)
  silent : info.warnings filters = [] ↔
    ∀ m ∈ info.meaning, ∀ e, m.Contains e → ∀ name ∈ e.filterNames, filters.has name = true
  /-- When another filter is registered, the lines about it are gone, and no others. -/
  registered : ∀ f, info.warnings (filters.register f) =
    ((FilterUse.missing filters info.uses).filter (·.filter ≠ f)).map FilterUse.warning

theorem AttributeInfo.warnings_eq_nil_iff (info : AttributeInfo) (filters : Filters) :
    info.warnings filters = [] ↔
      ∀ m ∈ info.meaning, ∀ e, m.Contains e → ∀ name ∈ e.filterNames, filters.has name = true := by
  rw [info.warnings_eq, List.map_eq_nil_iff, FilterUse.missing_eq_nil_iff, uses]
  cases info.meaning with
  | none => simp
  | some m =>
    have named : (∀ use ∈ m.uses, filters.has use.filter = true) ↔
        ∀ name ∈ m.uses.map FilterUse.filter, filters.has name = true := by
      rw [List.forall_mem_map]
    simp only [Option.map_some, Option.getD_some, named, Meaning.mem_names_iff,
      Option.mem_some_iff, forall_eq']
    constructor
    · exact fun known e contains name member => known name ⟨e, contains, member⟩
    · rintro known name ⟨e, contains, member⟩
      exact known e contains name member

/-- An attribute is described with filters, perhaps as an extension of an instruction that was built
with them. Then of its filters those that are not registered are told, each as often as it is used,
and no others; and each binding tells the same of itself. -/
theorem AttributeInfo.warnings_diagnosed {ctx : Context} {name value : Text}
    {existing : Option Instruction} {info : AttributeInfo}
    (built : ∀ i ∈ existing, i.Built ctx.filters)
    (given : (attributeInfo ctx name value existing).result = .ok info) :
    Diagnosed info ctx.filters := by
  constructor
  case lines => exact info.warnings_eq ctx.filters
  case entries =>
    intro i same
    rw [info.warnings_eq, uses, same]
    exact (congrArg _ (FilterUse.missing_flatMap ..)).trans (List.map_flatMap ..)
  case bindings =>
    intro i same key b member
    have looksUp : b.filters = ctx.filters := attributeInfo_looksUp built given i same _ member
    rw [← looksUp]
    exact Entry.binding_warnings b
  case silent => exact info.warnings_eq_nil_iff ctx.filters
  case registered => exact fun f => by rw [info.warnings_eq, FilterUse.missing_register]

/-- Options are built first, and extended by a binding. In each of the bindings and in the
interpolation a filter is missing. With one more filter, the line about another one is all that
stays. -/
theorem AttributeInfo.warnings_diagnosed_options :
    let filters := Filters.empty.register "upper"
    let ctx : Context := { tag := "div", filters := filters }
    let call : Call := ⟨{ tag := "p", filters := filters },
      .ofAttribute "o.options" "a.bind: x | gone | upper | gone; b: $\x7by | gone\x7d", .apart⟩
    let existing := (call.reply (Instruction.empty "o")).instruction
    existing.Built filters ∧ existing.keys = ["a".toList, "b".toList] ∧
      ∃ info, (attributeInfo ctx "c.bind" "z | lost" (some existing)).result = .ok info ∧
        info.warnings filters =
          ["a: filter 'gone' is not registered", "a: filter 'gone' is not registered",
            "b: filter 'gone' is not registered", "c: filter 'lost' is not registered"] ∧
        info.warnings (filters.register "gone") = ["c: filter 'lost' is not registered"] ∧
        ∀ i, info.meaning = some (.interpreted (.instruction i)) →
          ∀ key b, (key, .binding b) ∈ i.entries →
            (Entry.binding b).warnings filters =
              b.missingFilters.map (missingFilterWarning b.target) := by
  intro filters ctx call existing
  have built : existing.Built filters := .call (.empty "o") rfl
  have keys : existing.keys = ["a".toList, "b".toList] := by decide +kernel
  let missing (info : AttributeInfo) := FilterUse.missing filters info.uses
  have found : ((attributeInfo ctx "c.bind" "z | lost" (some existing)).result.map
      missing).toOption =
        some [⟨"a", "gone"⟩, ⟨"a", "gone"⟩, ⟨"b", "gone"⟩, ⟨"c", "lost"⟩] := by decide +kernel
  cases read : (attributeInfo ctx "c.bind" "z | lost" (some existing)).result with
  | error e =>
    rw [read] at found
    cases found
  | ok info =>
    rw [read] at found
    have uses : FilterUse.missing filters info.uses = _ := Option.some.inj found
    have before : ∀ i ∈ some existing, i.Built ctx.filters := fun i member => by
      cases member
      exact built
    have diagnosed := AttributeInfo.warnings_diagnosed before read
    refine ⟨built, keys, info, rfl, ?_, ?_, diagnosed.bindings⟩
    · rw [diagnosed.lines, uses]
      rfl
    · rw [diagnosed.registered, uses]
      rfl

end TemplateBinding
