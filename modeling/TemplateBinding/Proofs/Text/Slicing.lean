import TemplateBinding.Text.Basic

/-! Slices of a text, when the text is known as the pieces that it consists of, and the place
where it is cut at a mark. -/
namespace TemplateBinding.Text

/-- A byte position between two characters of a text, or at one of its ends. -/
def IsBoundary (n : Nat) (t : Text) : Prop :=
  ∃ before after, t = before ++ after ∧ n = byteSize before

theorem IsBoundary.le {n : Nat} {t : Text} (boundary : IsBoundary n t) : n ≤ byteSize t := by
  obtain ⟨before, after, rfl, rfl⟩ := boundary
  rw [byteSize_append]
  exact Nat.le_add_right _ _

theorem dropBytes_append (a b : Text) : dropBytes (byteSize a) (a ++ b) = b := by
  induction a with
  | nil => cases b <;> simp [dropBytes]
  | cons c cs ih =>
    have pos := c.utf8Size_pos
    have some : byteSize (c :: cs) ≠ 0 := by
      rw [byteSize_cons]
      omega
    rw [List.cons_append, dropBytes, if_neg some, byteSize_cons, Nat.add_sub_cancel_left, ih]

theorem takeBytes_append (a b : Text) : takeBytes (byteSize a) (a ++ b) = a := by
  induction a with
  | nil => cases b <;> simp [takeBytes]
  | cons c cs ih =>
    have pos := c.utf8Size_pos
    have some : byteSize (c :: cs) ≠ 0 := by
      rw [byteSize_cons]
      omega
    rw [List.cons_append, takeBytes, if_neg some, byteSize_cons, Nat.add_sub_cancel_left, ih]

theorem slice_append (a b c : Text) :
    slice (byteSize a) (byteSize a + byteSize b) (a ++ (b ++ c)) = b := by
  rw [slice, Nat.add_sub_cancel_left, dropBytes_append, takeBytes_append]

theorem append_inj_of_byteSize {a b c d : Text} (whole : a ++ b = c ++ d)
    (same : byteSize a = byteSize c) : a = c ∧ b = d := by
  have first : a = c := by
    rw [← takeBytes_append a b, whole, same, takeBytes_append]
  subst first
  exact ⟨rfl, List.append_cancel_left whole⟩

def CharAt (n : Nat) (c : Char) (t : Text) : Prop :=
  ∃ before after, t = before ++ c :: after ∧ n = byteSize before

theorem CharAt.head? {a b : Text} {c : Char} (here : CharAt (byteSize a) c (a ++ b)) :
    c ∈ b.head? := by
  obtain ⟨before, after, whole, same⟩ := here
  obtain ⟨-, rest⟩ := append_inj_of_byteSize whole same
  rw [rest]
  rfl

theorem length_le_of_cut? {mark t before after a b : Text}
    (found : cut? mark t = some (before, after)) (other : t = a ++ mark ++ b) :
    before.length ≤ a.length := by
  induction t generalizing before a with
  | nil =>
    obtain ⟨first, -⟩ := List.append_eq_nil_iff.1 (eq_of_cut? found).symm
    obtain ⟨rfl, -⟩ := List.append_eq_nil_iff.1 first
    exact Nat.zero_le _
  | cons c cs ih =>
    unfold cut? at found
    split at found
    · cases found
      exact Nat.zero_le _
    · rename_i absent
      obtain ⟨⟨inner, rest⟩, later, same⟩ := Option.map_eq_some_iff.1 found
      cases same
      cases a with
      | nil => exact absurd (List.isPrefixOf_iff_prefix.2 ⟨b, other.symm⟩) absent
      | cons d ds => exact Nat.succ_le_succ (ih later (List.cons.inj other).2)

/-- The mark stands between two texts, and begins nowhere earlier. -/
structure FirstCut (mark t before after : Text) : Prop where
  whole : t = before ++ mark ++ after
  first : ∀ a b, t = a ++ mark ++ b → before.length ≤ a.length

theorem firstCut_of_cut? {mark t before after : Text}
    (found : cut? mark t = some (before, after)) : FirstCut mark t before after :=
  ⟨eq_of_cut? found, fun _ _ other => length_le_of_cut? found other⟩

theorem FirstCut.unique {mark t before after before' after' : Text}
    (cut : FirstCut mark t before after) (cut' : FirstCut mark t before' after') :
    before = before' ∧ after = after' := by
  have same : before ++ mark ++ after = before' ++ mark ++ after' :=
    cut.whole.symm.trans cut'.whole
  have length : before.length = before'.length :=
    Nat.le_antisymm (cut.first _ _ cut'.whole) (cut'.first _ _ cut.whole)
  rw [List.append_assoc, List.append_assoc] at same
  obtain ⟨first, rest⟩ := List.append_inj same length
  exact ⟨first, List.append_cancel_left rest⟩

theorem cut?_eq_none_iff {mark t : Text} : cut? mark t = none ↔ ¬ mark <:+: t := by
  induction t with
  | nil => by_cases empty : mark = [] <;> simp [cut?, empty]
  | cons c cs ih =>
    rw [List.infix_cons_iff, not_or, ← ih, ← List.isPrefixOf_iff_prefix, cut?]
    split <;> simp [*]

theorem cut?_eq_some_iff {mark t before after : Text} :
    cut? mark t = some (before, after) ↔ FirstCut mark t before after := by
  constructor
  · exact firstCut_of_cut?
  · intro cut
    cases found : cut? mark t with
    | none => exact absurd ⟨before, after, cut.whole.symm⟩ (cut?_eq_none_iff.1 found)
    | some pair =>
      obtain ⟨rfl, rfl⟩ := cut.unique (firstCut_of_cut? found)
      rfl

theorem infix_concat_iff_of_ne {mark t : Text} {d c : Char} (other : d ≠ c) :
    mark ++ [d] <:+: t ++ [c] ↔ mark ++ [d] <:+: t := by
  rw [List.infix_concat_iff, List.suffix_concat_iff]
  simp [other]

/-- A text is cut at a mark unless the mark begins in front of it, be it that it ends in the mark
that is cut out. -/
theorem firstCut_iff {mark t before after : Text} (marked : mark ≠ []) :
    FirstCut mark t before after ↔
      t = before ++ mark ++ after ∧ ¬ mark <:+: before ++ mark.dropLast := by
  have some := List.length_pos_iff.2 marked
  constructor
  · intro cut
    refine ⟨cut.whole, ?_⟩
    rintro ⟨a, b, inside⟩
    have other : t = a ++ mark ++ (b ++ [mark.getLast marked] ++ after) := by
      calc
        t = before ++ (mark.dropLast ++ [mark.getLast marked]) ++ after := by
          rw [List.dropLast_concat_getLast, cut.whole]
        _ = a ++ mark ++ (b ++ [mark.getLast marked] ++ after) := by
          simp only [← List.append_assoc, inside]
    have earlier := cut.first a _ other
    have lengths := congrArg List.length inside
    simp only [List.length_append, List.length_dropLast] at lengths
    omega
  · rintro ⟨rfl, absent⟩
    refine ⟨rfl, fun a b other => Nat.le_of_not_lt fun earlier => absent ?_⟩
    have front : a ++ mark <+: before ++ mark ++ after := ⟨b, other.symm⟩
    have front' : before ++ mark.dropLast <+: before ++ mark ++ after := by
      refine List.IsPrefix.trans ?_ (List.prefix_append _ _)
      exact (List.prefix_append_right_inj before).2 (List.dropLast_prefix mark)
    have shorter : (a ++ mark).length ≤ (before ++ mark.dropLast).length := by
      simp only [List.length_append, List.length_dropLast]
      omega
    have inside := List.prefix_of_prefix_length_le front front' shorter
    exact (List.suffix_append a mark).isInfix.trans inside.isInfix

end TemplateBinding.Text
