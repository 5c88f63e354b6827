import TemplateBinding.Proofs.Attribute.Sessions
import TemplateBinding.Proofs.Template.Parts

/-! Bindings and interpolations look filters up among those that were known when they were made.
Whatever calls build with the same filters, from one entry to options inside of options, looks them
up nowhere else. -/
namespace TemplateBinding

def Entry.LooksUp (filters : Filters) : Entry → Prop
  | .binding b => b.filters = filters
  | .interpolation i => i.filters = filters
  | .literal _ | .name _ => True

def Instruction.LooksUp (filters : Filters) (i : Instruction) : Prop :=
  i.Holds fun _ entry => entry.LooksUp filters

/-- An instruction that is built with these filters: by hand, and by calls that may differ in
everything else. -/
inductive Instruction.Built (filters : Filters) : Instruction → Prop
  | empty (name) : Built filters (.empty name)
  | insert {i key entry} :
      Built filters i → entry.LooksUp filters → Built filters (i.insert key entry)
  | call {i} {c : Call} :
      Built filters i → c.context.filters = filters → Built filters (c.reply i).instruction

theorem Entry.Made.looksUp {ctx : Context} {key : Text} {entry : Entry}
    (made : entry.Made ctx key) : entry.LooksUp ctx.filters := by
  cases made with
  | literal | element => trivial
  | bound => rfl
  | interpolation read => exact (interpolated_done read).2.1

theorem Call.reply_looksUp (c : Call) {i : Instruction} (looksUp : i.LooksUp c.context.filters) :
    (c.reply i).instruction.LooksUp c.context.filters :=
  (c.reply_kept (fun _ _ writes => (made_of_writes writes).looksUp) looksUp).1

theorem Instruction.Built.looksUp {filters : Filters} {i : Instruction} (built : i.Built filters) :
    i.LooksUp filters := by
  induction built with
  | empty name => exact holds_empty name
  | @insert i key entry _ fit ih =>
    have fits : ∀ w ∈ [(key, entry)], w.2.LooksUp filters := List.forall_mem_singleton.2 fit
    exact Holds.insertAll ih fits
  | @call i c _ same ih =>
    subst same
    exact c.reply_looksUp ih

/-- An attribute that extends an instruction is described with the filters of both. -/
theorem attributeInfo_looksUp {ctx : Context} {name value : Text} {existing : Option Instruction}
    {info : AttributeInfo} (built : ∀ i ∈ existing, i.Built ctx.filters)
    (given : (attributeInfo ctx name value existing).result = .ok info) :
    ∀ i, info.meaning = some (.interpreted (.instruction i)) → i.LooksUp ctx.filters := by
  intro i same
  have described : ((Request.ofAttribute name value).meaning ctx existing).result =
      .ok info.meaning := Run.bind_eq_ok_iff.2 ⟨info, given, rfl⟩
  have before : ∀ j ∈ existing, j.LooksUp ctx.filters := fun j member => (built j member).looksUp
  obtain ⟨looksUp, -⟩ := (means_of_ok described).kept
    (fun _ _ writes => (made_of_writes writes).looksUp) before same
  exact looksUp

end TemplateBinding
