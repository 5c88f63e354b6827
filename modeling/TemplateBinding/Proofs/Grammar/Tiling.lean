import TemplateBinding.Proofs.Expr.Nodes
import TemplateBinding.Proofs.Grammar.Completeness
import TemplateBinding.Proofs.Grammar.Stretch

/-! The nodes below a node come from stretches of its tokens that follow one another, and
every one of them would be the whole tree of its own stretch. -/
namespace TemplateBinding.Grammar

theorem Derives.span {p ts e} (derived : Derives p ts e) : e.span = spanOf ts := by
  match derived with
  | .unfiltered h | .unassigned h | .unconditional h | .operand h | .tighter h | .unprefixed h
  | .head h => exact h.span
  | .filter .. | .setProperty .. | .setKeyed .. | .conditional .. | .binary .. | .negation ..
  | .unary .. | .property .. | .keyed .. | .call .. | .parenthesized .. | .array .. | .object ..
  | .constant .. | .this .. | .name .. | .number .. | .string .. => rfl

/-- The trees come from stretches of the tokens, in this order. A receiver that is not
written stands at the beginning of a token and covers nothing. -/
inductive Tiled : List Token → List Expr → Prop
  | nil : Tiled [] []
  | skip {t ts es} : Tiled ts es → Tiled (t :: ts) es
  | implicit {t ts es} :
      Tiled ts es → Tiled (t :: ts) (.implicitThis ⟨t.start, t.start⟩ :: es)
  | stretch {ts us e es} :
      Derives .filtered ts e → Tiled us es → Tiled (ts ++ us) (e :: es)

theorem Tiled.append {ts us es fs} (first : Tiled ts es) (second : Tiled us fs) :
    Tiled (ts ++ us) (es ++ fs) := by
  induction first with
  | nil => exact second
  | skip _ ih => exact .skip ih
  | implicit _ ih => exact .implicit ih
  | stretch derived _ ih =>
    rw [List.append_assoc]
    exact .stretch derived ih

theorem Tiled.skipAll (ts : List Token) : Tiled ts [] := by
  induction ts with
  | nil => exact .nil
  | cons t ts ih => exact .skip ih

theorem Tiled.padded {ts us es} (tiled : Tiled ts es) : Tiled (ts ++ us) es := by
  rw [← List.append_nil es]
  exact tiled.append (.skipAll us)

theorem Tiled.single {p ts e} (derived : Derives p ts e) (regular : p.Regular) :
    Tiled ts [e] := by
  rw [← List.append_nil ts]
  exact .stretch (derived.loosen regular) .nil

theorem Tiled.child {ts us e es} (derived : Derives .expression ts e) (rest : Tiled us es) :
    Tiled (ts ++ us) (e :: es) := .stretch (.unfiltered derived) rest

theorem Args.tiled {ts es} (derived : Args ts es) : Tiled ts es := by
  match derived with
  | .none => exact .nil
  | .more _ arg rest => exact .skip (.child arg rest.tiled)

theorem Items.tiled {p ts es} (derived : Items p ts es) (regular : p.Regular) : Tiled ts es := by
  match derived with
  | .none => exact .nil
  | .last h => exact .single h regular
  | .more h _ rest _ => exact .stretch (h.loosen regular) (.skip (rest.tiled regular))

theorem Entries.tiled {ts kvs} (derived : Entries ts kvs) : Tiled ts (kvs.map (·.2)) := by
  match derived with
  | .none => exact .nil
  | .last _ _ value => exact .skip (.skip (.single value trivial))
  | .more _ _ value _ rest _ => exact .skip (.skip (.child value (.skip rest.tiled)))

theorem Derives.tiled {p ts e} (derived : Derives p ts e) (regular : p.Regular) :
    Tiled ts e.children := by
  match derived with
  | .unfiltered h | .unassigned h | .operand h | .unprefixed h | .head h => exact h.tiled trivial
  | .unconditional h => exact h.tiled List.suffix_rfl
  | .tighter h => exact h.tiled regular.tighter
  | .filter subject _ _ given => exact .stretch subject (.skip (.skip given.tiled))
  -- The property that is set is no node, but its receiver is one.
  | .setProperty target _ value =>
    exact (target.tiled trivial).append (.skip (.single value trivial))
  | .setKeyed target _ value =>
    exact (target.tiled trivial).append (.skip (.single value trivial))
  | .conditional condition _ yes _ no =>
    exact .stretch (condition.loosen List.suffix_rfl)
      (.skip (.child yes (.skip (.single no trivial))))
  | .binary left _ right =>
    exact .stretch (left.loosen regular) (.skip (.single right regular.tighter))
  | .negation _ h | .unary _ h => exact .skip (.single h trivial)
  | .property receiver _ _ => exact .stretch (receiver.loosen trivial) (Tiled.skipAll _)
  | .keyed receiver _ key _ =>
    exact .stretch (receiver.loosen trivial) (.skip (.child key (Tiled.skipAll _)))
  | .call callee _ args _ =>
    exact .stretch (callee.loosen trivial) (.skip (args.tiled trivial).padded)
  | .parenthesized _ inner _ => exact .skip (.stretch inner (Tiled.skipAll _))
  | .array _ items _ => exact .skip (items.tiled trivial).padded
  | .object _ entries _ => exact .skip entries.tiled.padded
  | .name _ => exact .implicit .nil
  | .constant _ _ | .this _ | .number _ | .string _ => exact Tiled.skipAll _

theorem Sequence.tiled {ts es} (sequence : Sequence ts es) : Tiled ts es := by
  induction sequence with
  | last derived _ => exact .stretch derived (Tiled.skipAll _)
  | more derived _ _ _ ih => exact .stretch derived ((Tiled.skipAll _).append ih)

theorem Whole.tiled {size ts e} (whole : Whole size ts e) : Tiled ts e.children := by
  cases whole with
  | empty _ => exact Tiled.skipAll _
  | alone derived => exact derived.tiled trivial
  | @single lead us e _ sequence _ =>
    cases sequence with
    | last derived _ => exact (Tiled.skipAll lead).append (derived.tiled trivial).padded
    | more _ _ _ rest => cases rest
  | @chain lead us es _ sequence _ _ => exact (Tiled.skipAll lead).append sequence.tiled

theorem Tiled.mem {ts es e} (tiled : Tiled ts es) (member : e ∈ es) :
    e.isImplicitThis = true ∨ ∃ x us y, ts = x ++ (us ++ y) ∧ Derives .filtered us e := by
  induction tiled with
  | nil => cases member
  | @skip t ts es _ ih =>
    apply (ih member).imp_right
    rintro ⟨x, us, y, rfl, derived⟩
    exact ⟨t :: x, us, y, rfl, derived⟩
  | @implicit t ts es _ ih =>
    rcases List.mem_cons.1 member with rfl | member
    · exact .inl rfl
    · apply (ih member).imp_right
      rintro ⟨x, us, y, rfl, derived⟩
      exact ⟨t :: x, us, y, rfl, derived⟩
  | @stretch ts us e' es derived _ ih =>
    rcases List.mem_cons.1 member with rfl | member
    · exact .inr ⟨[], ts, us, rfl, derived⟩
    · apply (ih member).imp_right
      rintro ⟨x, us, y, rfl, derived⟩
      exact ⟨ts ++ x, us, y, by simp, derived⟩

theorem Tiled.spans {ts es low high} (tiled : Tiled ts es) (ordered : Ordered low ts high) :
    (es.Pairwise fun a b => a.span.stop ≤ b.span.start) ∧
      ∀ e ∈ es, low ≤ e.span.start ∧ e.span.start ≤ e.span.stop ∧ e.span.stop ≤ high := by
  induction tiled generalizing low with
  | nil => simp
  | skip _ ih =>
    obtain ⟨first, own, rest⟩ := ordered
    exact ih (rest.mono (Nat.le_trans first own))
  | @implicit t ts es _ ih =>
    obtain ⟨first, own, rest⟩ := ordered
    obtain ⟨pairwise, inside⟩ := ih (rest.mono own)
    have le := (rest.mono own).le
    refine ⟨List.pairwise_cons.2 ⟨fun e member => (inside e member).1, pairwise⟩, ?_⟩
    refine List.forall_mem_cons.2 ⟨⟨first, Nat.le_refl _, le⟩, fun e member => ?_⟩
    exact ⟨Nat.le_trans first (inside e member).1, (inside e member).2⟩
  | @stretch ts us e es derived _ ih =>
    obtain ⟨before, behind⟩ := ordered.split
    obtain ⟨first, own, last⟩ := before.spanOf derived.ne_nil
    obtain ⟨pairwise, inside⟩ := ih behind
    have low' := before.le
    have high' := behind.le
    have own := own.le
    rw [← derived.span] at first own last
    refine ⟨List.pairwise_cons.2 ⟨fun e member => ?_, pairwise⟩, ?_⟩
    · exact Nat.le_trans last (inside e member).1
    · refine List.forall_mem_cons.2 ⟨⟨first, own, Nat.le_trans last high'⟩, fun e member => ?_⟩
      exact ⟨Nat.le_trans low' (inside e member).1, (inside e member).2⟩

end TemplateBinding.Grammar
