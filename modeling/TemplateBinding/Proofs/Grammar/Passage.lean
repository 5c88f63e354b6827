import TemplateBinding.Proofs.Grammar.Derivation

/-! Moving a cursor over tokens. Every primitive step of the descent passes exactly the
tokens that its result is made of, and the span it reports is theirs. -/
namespace TemplateBinding.Grammar

theorem lastStop_append (passed : Nat) (ts us : List Token) :
    lastStop passed (ts ++ us) = lastStop (lastStop passed ts) us := List.foldl_append

namespace Cursor

/-- The cursor `d` is the cursor `c` behind the next tokens `ts`. -/
structure Passes (c : Cursor) (ts : List Token) (d : Cursor) : Prop where
  ahead : c.ahead = ts ++ d.ahead
  size : d.size = c.size
  passed : d.passed = lastStop c.passed ts

theorem Passes.refl (c : Cursor) : c.Passes [] c := ⟨rfl, rfl, rfl⟩

theorem Passes.trans {c d e : Cursor} {ts us : List Token} (first : c.Passes ts d)
    (second : d.Passes us e) : c.Passes (ts ++ us) e := by
  constructor
  · rw [first.ahead, second.ahead, List.append_assoc]
  · exact second.size.trans first.size
  · rw [second.passed, first.passed, lastStop_append]

theorem Passes.cons {c d e : Cursor} {t : Token} {us : List Token} (first : c.Passes [t] d)
    (second : d.Passes us e) : c.Passes (t :: us) e := first.trans second

theorem Passes.split {c e : Cursor} {ts us : List Token} (whole : c.Passes (ts ++ us) e) :
    ∃ d, c.Passes ts d ∧ d.Passes us e := by
  refine ⟨⟨c.size, lastStop c.passed ts, us ++ e.ahead⟩, ⟨?_, rfl, rfl⟩, rfl, whole.size, ?_⟩
  · rw [whole.ahead, List.append_assoc]
  · rw [whole.passed, lastStop_append]

theorem Passes.uncons {c e : Cursor} {t : Token} {us : List Token}
    (whole : c.Passes (t :: us) e) : ∃ d, c.Passes [t] d ∧ d.Passes us e := by
  rw [← List.singleton_append] at whole
  exact whole.split

theorem Passes.left {c d : Cursor} {ts : List Token} (passes : c.Passes ts d) :
    c.left = ts.length + d.left := by
  simp only [Cursor.left, passes.ahead, List.length_append]

theorem Passes.le {c d : Cursor} {ts : List Token} (passes : c.Passes ts d) : d.left ≤ c.left := by
  rw [passes.left]
  exact Nat.le_add_left _ _

theorem Passes.lt {c d : Cursor} {ts : List Token} (passes : c.Passes ts d) (some : ts ≠ []) :
    d.left < c.left := by
  have pos := List.length_pos_iff.2 some
  rw [passes.left]
  omega

theorem Passes.left_succ {c d : Cursor} {t : Token} (passes : c.Passes [t] d) :
    c.left = d.left + 1 := by
  rw [passes.left, List.length_singleton, Nat.add_comm]

theorem Passes.unique {c d e : Cursor} {ts : List Token} (one : c.Passes ts d)
    (two : c.Passes ts e) : d = e := by
  have ahead : d.ahead = e.ahead := List.append_cancel_left (one.ahead.symm.trans two.ahead)
  have size := one.size.trans two.size.symm
  have passed := one.passed.trans two.passed.symm
  cases d
  cases e
  simp only at ahead size passed
  rw [ahead, size, passed]

theorem Passes.column {c d : Cursor} {t : Token} {ts : List Token} (passes : c.Passes (t :: ts) d) :
    c.column = t.start := by
  simp only [Cursor.column, passes.ahead, List.cons_append]

/-- What a node reports as its span is the span of the tokens that were passed for it. -/
theorem Passes.span {c d : Cursor} {ts : List Token} (passes : c.Passes ts d) (some : ts ≠ []) :
    (⟨c.column, d.passed⟩ : Span) = spanOf ts := by
  cases ts with
  | nil => exact absurd rfl some
  | cons t ts => rw [passes.column, passes.passed]; rfl

theorem next?_eq_some_iff {c d : Cursor} {l : Lexeme} :
    c.next? = some (l, d) ↔ ∃ t, t.lexeme = l ∧ c.Passes [t] d := by
  constructor
  · intro next
    unfold next? at next
    split at next
    · contradiction
    · rename_i t ts ahead
      cases next
      exact ⟨t, rfl, ahead, rfl, rfl⟩
  · rintro ⟨t, rfl, passes⟩
    obtain ⟨size, passed, ahead⟩ := d
    have same := passes.ahead
    have sized := passes.size
    have stop := passes.passed
    simp only [List.cons_append, List.nil_append] at same sized stop
    simp only [next?, same, sized, stop]
    rfl

theorem accept?_eq_some_iff {c d : Cursor} {l : Lexeme} :
    c.accept? l = some d ↔ ∃ t, t.lexeme = l ∧ c.Passes [t] d := by
  rw [← next?_eq_some_iff]
  unfold accept?
  cases next : c.next? with
  | none => simp
  | some pair =>
    obtain ⟨found, behind⟩ := pair
    by_cases same : found = l <;> simp [same]

theorem acceptAny?_eq_some_iff {c d : Cursor} {ls : List Lexeme} {text : Text} :
    c.acceptAny? ls = some (text, d) ↔
      ∃ t, t.lexeme ∈ ls ∧ t.lexeme.text = text ∧ c.Passes [t] d := by
  constructor
  · intro found
    unfold acceptAny? at found
    split at found
    · rename_i l behind next
      obtain ⟨t, rfl, passes⟩ := next?_eq_some_iff.1 next
      split at found
      · rename_i member
        cases found
        exact ⟨t, member, rfl, passes⟩
      · contradiction
    · contradiction
  · rintro ⟨t, member, rfl, passes⟩
    have next := next?_eq_some_iff.2 ⟨t, rfl, passes⟩
    simp only [acceptAny?, next, if_pos member]

theorem expect_eq_ok_iff {c d : Cursor} {mark : Char} :
    c.expect mark = .ok d ↔ ∃ t, t.lexeme = .punctuation mark ∧ c.Passes [t] d := by
  rw [← accept?_eq_some_iff]
  unfold expect
  cases c.accept? (.punctuation mark) <;> simp [fail]

theorem memberName_eq_ok_iff {c d : Cursor} {name : Text} :
    c.memberName = .ok (name, d) ↔
      ∃ t, (t.lexeme = .identifier name ∨ t.lexeme = .keyword name) ∧ c.Passes [t] d := by
  constructor
  · intro found
    unfold memberName at found
    split at found
    · rename_i next
      cases found
      obtain ⟨t, same, passes⟩ := next?_eq_some_iff.1 next
      exact ⟨t, .inl same, passes⟩
    · rename_i next
      cases found
      obtain ⟨t, same, passes⟩ := next?_eq_some_iff.1 next
      exact ⟨t, .inr same, passes⟩
    · cases found
    · cases found
  · rintro ⟨t, same | same, passes⟩ <;>
      simp only [memberName, next?_eq_some_iff.2 ⟨t, same, passes⟩]

theorem filterName_eq_ok_iff {c d : Cursor} {name : Text} :
    c.filterName = .ok (name, d) ↔ ∃ t, t.lexeme = .identifier name ∧ c.Passes [t] d := by
  constructor
  · intro found
    unfold filterName at found
    split at found
    · rename_i next
      cases found
      exact next?_eq_some_iff.1 next
    · cases found
  · rintro ⟨t, same, passes⟩
    simp only [filterName, next?_eq_some_iff.2 ⟨t, same, passes⟩]

theorem entryKey_eq_ok_iff {c d : Cursor} {key : Key} :
    c.entryKey = .ok (key, d) ↔ ∃ t, IsKey t.lexeme key ∧ c.Passes [t] d := by
  constructor
  · intro found
    unfold entryKey at found
    split at found
    · rename_i next
      cases found
      obtain ⟨t, same, passes⟩ := next?_eq_some_iff.1 next
      exact ⟨t, same ▸ .identifier, passes⟩
    · rename_i next
      cases found
      obtain ⟨t, same, passes⟩ := next?_eq_some_iff.1 next
      exact ⟨t, same ▸ .keyword, passes⟩
    · rename_i next
      cases found
      obtain ⟨t, same, passes⟩ := next?_eq_some_iff.1 next
      exact ⟨t, same ▸ .string, passes⟩
    · cases found
  · rintro ⟨t, isKey, passes⟩
    have next := next?_eq_some_iff.2 ⟨t, rfl, passes⟩
    unfold entryKey
    generalize t.lexeme = l at isKey next
    cases isKey <;> simp only [next]

end Cursor

theorem ofKeyword?_eq_some_iff {span : Span} {word : Text} {e : Expr} :
    ofKeyword? span word = some e ↔
      (∃ value, (word, value) ∈ constants ∧ e = .literal span value) ∨
        (word = "this" ∧ e = .explicitThis span) := by
  constructor
  · intro found
    unfold ofKeyword? at found
    repeat' split at found
    case mp.isFalse.isFalse.isFalse.isFalse.isFalse => cases found
    all_goals
      rename_i same
      subst same
      cases found
    · exact .inl ⟨.null, by decide, rfl⟩
    · exact .inl ⟨.undefined, by decide, rfl⟩
    · exact .inl ⟨.boolean true, by decide, rfl⟩
    · exact .inl ⟨.boolean false, by decide, rfl⟩
    · exact .inr ⟨rfl, rfl⟩
  · rintro (⟨value, member, rfl⟩ | ⟨rfl, rfl⟩)
    · simp only [constants, List.mem_cons, Prod.mk.injEq, List.not_mem_nil, or_false] at member
      rcases member with ⟨rfl, rfl⟩ | ⟨rfl, rfl⟩ | ⟨rfl, rfl⟩ | ⟨rfl, rfl⟩ <;> rfl
    · rfl

end TemplateBinding.Grammar
