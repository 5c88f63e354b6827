import Mathlib.Data.List.Chain
import TemplateBinding.Proofs.Grammar.Unbroken

/-! What is left of the semicolons where an expression is printed: one between two items,
however many the source has there, and none before the first item or behind the last. -/
namespace TemplateBinding.Grammar

/-- A semicolon stays where another lexeme is directly behind it. -/
def thinned : List Lexeme → List Lexeme
  | [] => []
  | l :: ls =>
    if l.isSemicolon && ls.head?.all Lexeme.isSemicolon then thinned ls else l :: thinned ls

/-- The lexemes with their runs of semicolons reduced to one, and without the semicolons at
the beginning and at the end. -/
def collapsed (ls : List Lexeme) : List Lexeme := thinned (ls.dropWhile Lexeme.isSemicolon)

theorem thinned_cons {l : Lexeme} (other : l.isSemicolon = false) (ls : List Lexeme) :
    thinned (l :: ls) = l :: thinned ls := by
  simp [thinned, other]

theorem thinned_append {ls : List Lexeme} (unbroken : ∀ l ∈ ls, l.isSemicolon = false)
    (ms : List Lexeme) : thinned (ls ++ ms) = ls ++ thinned ms := by
  induction ls with
  | nil => rfl
  | cons l ls ih =>
    obtain ⟨first, rest⟩ := List.forall_mem_cons.1 unbroken
    rw [List.cons_append, thinned_cons first, ih rest, List.cons_append]

theorem thinned_semicolons {ss : List Lexeme} (semicolons : ∀ l ∈ ss, l.isSemicolon = true) :
    thinned ss = [] := by
  induction ss with
  | nil => rfl
  | cons s ss ih =>
    obtain ⟨first, rest⟩ := List.forall_mem_cons.1 semicolons
    have next : ss.head?.all Lexeme.isSemicolon = true := by
      cases ss with
      | nil => rfl
      | cons s' ss => exact rest s' List.mem_cons_self
    simp [thinned, first, next, ih rest]

theorem thinned_run {ss : List Lexeme} (semicolons : ∀ l ∈ ss, l = .punctuation ';')
    (some : ss ≠ []) {m : Lexeme} (other : m.isSemicolon = false) (ms : List Lexeme) :
    thinned (ss ++ m :: ms) = .punctuation ';' :: thinned (m :: ms) := by
  induction ss with
  | nil => exact absurd rfl some
  | cons s ss ih =>
    obtain ⟨rfl, rest⟩ := List.forall_mem_cons.1 semicolons
    cases ss with
    | nil =>
      have kept : ¬ (Lexeme.isSemicolon (.punctuation ';') &&
          (m :: ms).head?.all Lexeme.isSemicolon) = true := by simp [other]
      rw [List.singleton_append, thinned, if_neg kept]
    | cons s' ss =>
      have same : s' = .punctuation ';' := rest s' List.mem_cons_self
      have dropped : (Lexeme.isSemicolon (.punctuation ';') &&
          (s' :: ss ++ m :: ms).head?.all Lexeme.isSemicolon) = true := by
        rw [same]
        rfl
      rw [List.cons_append, thinned, if_pos dropped]
      exact ih rest (List.cons_ne_nil s' ss)

theorem mem_thinned {l : Lexeme} (other : l.isSemicolon = false) {ls : List Lexeme}
    (member : l ∈ ls) : l ∈ thinned ls := by
  induction ls with
  | nil => cases member
  | cons m ls ih =>
    unfold thinned
    split
    · rename_i dropped
      rcases List.mem_cons.1 member with rfl | later
      · simp [other] at dropped
      · exact ih later
    · rcases List.mem_cons.1 member with rfl | later
      · exact List.mem_cons_self
      · exact List.mem_cons_of_mem m (ih later)

theorem mem_collapsed {l : Lexeme} (other : l.isSemicolon = false) {ls : List Lexeme}
    (member : l ∈ ls) : l ∈ collapsed ls := by
  apply mem_thinned other
  induction ls with
  | nil => cases member
  | cons m ls ih =>
    rw [List.dropWhile_cons]
    split
    · rename_i dropped
      rcases List.mem_cons.1 member with rfl | later
      · simp [other] at dropped
      · exact ih later
    · exact member

theorem collapsed_append {ss : List Lexeme} (semicolons : ∀ l ∈ ss, l = .punctuation ';')
    (ls : List Lexeme) : collapsed (ss ++ ls) = collapsed ls := by
  have all : ∀ l ∈ ss, l.isSemicolon = true := by
    intro l member
    rw [semicolons l member]
    rfl
  rw [collapsed, collapsed, List.dropWhile_append_of_pos all]

theorem collapsed_cons {l : Lexeme} (other : l.isSemicolon = false) (ls : List Lexeme) :
    collapsed (l :: ls) = thinned (l :: ls) := by
  rw [collapsed, List.dropWhile_cons_of_neg (by simp [other])]

theorem Semicolons.lexemes {ss : List Token} (semicolons : Semicolons ss) :
    ∀ l ∈ ss.map Token.lexeme, l = .punctuation ';' := List.forall_mem_map.2 semicolons

theorem Unbroken.lexemes {ts : List Token} (unbroken : Unbroken ts) :
    ∀ l ∈ ts.map Token.lexeme, l.isSemicolon = false := List.forall_mem_map.2 unbroken

theorem Sequence.starts {ts es} (sequence : Sequence ts es) :
    ∃ t us, ts = t :: us ∧ t.lexeme.isSemicolon = false := by
  have first {ts us e} (derived : Derives .filtered ts e) :
      ∃ t vs, ts ++ us = t :: vs ∧ t.lexeme.isSemicolon = false := by
    obtain ⟨t, vs, rfl⟩ := List.exists_cons_of_ne_nil derived.ne_nil
    exact ⟨t, vs ++ us, rfl, derived.unbroken trivial t List.mem_cons_self⟩
  cases sequence with
  | last derived _ | more derived _ _ _ => exact first derived

theorem Unbroken.collapsed {ts : List Token} (unbroken : Unbroken ts) :
    collapsed (ts.map Token.lexeme) = ts.map Token.lexeme := by
  cases ts with
  | nil => rfl
  | cons t ts =>
    have all := unbroken.lexemes
    rw [List.map_cons] at all ⊢
    rw [collapsed_cons (all _ List.mem_cons_self), ← List.append_nil (_ :: _), thinned_append all]
    rfl

theorem Sequence.collapsed {ts es} (sequence : Sequence ts es) :
    collapsed (ts.map Token.lexeme) = thinned (ts.map Token.lexeme) := by
  obtain ⟨t, us, rfl, other⟩ := sequence.starts
  exact collapsed_cons other _

theorem head?_thinned (ls : List Lexeme) :
    (thinned ls).head? = ls.head? ∨
      ls.head?.all Lexeme.isSemicolon = true ∧
        (thinned ls).head?.all Lexeme.isSemicolon = true := by
  induction ls with
  | nil => exact .inl rfl
  | cons l ls ih =>
    by_cases dropped : (l.isSemicolon && ls.head?.all Lexeme.isSemicolon) = true
    · obtain ⟨first, next⟩ := Bool.and_eq_true_iff.1 dropped
      refine .inr ⟨first, ?_⟩
      rw [thinned, if_pos dropped]
      rcases ih with same | ⟨-, later⟩
      · exact same ▸ next
      · exact later
    · rw [thinned, if_neg dropped]
      exact .inl rfl

section Chain

variable {r : Lexeme → Lexeme → Prop}
  (free : ∀ l m, l.isSemicolon = true ∨ m.isSemicolon = true → r l m)
include free

theorem isChain_cons_semicolon {l : Lexeme} (first : l.isSemicolon = true) {ls : List Lexeme} :
    (l :: ls).IsChain r ↔ ls.IsChain r := by
  rw [List.isChain_cons]
  exact and_iff_right fun m _ => free l m (.inl first)

theorem isChain_thinned (ls : List Lexeme) : (thinned ls).IsChain r ↔ ls.IsChain r := by
  induction ls with
  | nil => exact Iff.rfl
  | cons l ls ih =>
    by_cases dropped : (l.isSemicolon && ls.head?.all Lexeme.isSemicolon) = true
    · rw [thinned, if_pos dropped, ih,
        isChain_cons_semicolon free (Bool.and_eq_true_iff.1 dropped).1]
    · have next : (∀ m ∈ (thinned ls).head?, r l m) ↔ ∀ m ∈ ls.head?, r l m := by
        rcases head?_thinned ls with same | ⟨before, behind⟩
        · rw [same]
        · have all {o : Option Lexeme} (semicolon : o.all Lexeme.isSemicolon = true) :
              ∀ m ∈ o, r l m := by
            rintro m rfl
            exact free l m (.inr semicolon)
          exact iff_of_true (all behind) (all before)
      rw [thinned, if_neg dropped, List.isChain_cons, List.isChain_cons, ih, next]

theorem isChain_collapsed (ls : List Lexeme) : (collapsed ls).IsChain r ↔ ls.IsChain r := by
  rw [collapsed, isChain_thinned free]
  induction ls with
  | nil => exact Iff.rfl
  | cons l ls ih =>
    cases first : l.isSemicolon with
    | true => rw [List.dropWhile_cons_of_pos first, ih, isChain_cons_semicolon free first]
    | false => rw [List.dropWhile_cons_of_neg (by simp [first])]

end Chain

end TemplateBinding.Grammar
