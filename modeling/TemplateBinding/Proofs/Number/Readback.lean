import TemplateBinding.Proofs.Grammar.Spelling
import TemplateBinding.Proofs.Number.Rounding

/-! The text of a finite number is a numeral without an exponent, and it is read as the
same number. -/
namespace TemplateBinding

open Grammar

theorem isDigit_digitChar : ∀ d < 10, isDigit (digitChar d) = true := by decide

theorem digitValue_digitChar : ∀ d < 10, digitValue (digitChar d) = d := by decide

theorem digitsValue_append (as bs : Text) :
    digitsValue (as ++ bs) = digitsValue as * tenTo bs.length + digitsValue bs := by
  suffices general : ∀ n, bs.foldl (fun n c => 10 * n + digitValue c) n =
      n * tenTo bs.length + digitsValue bs by
    rw [← general, digitsValue, List.foldl_append]
    rfl
  induction bs with
  | nil => intro n; simp [digitsValue, tenTo]
  | cons c cs ih =>
    intro n
    have first := ih (10 * n + digitValue c)
    have alone := ih (10 * 0 + digitValue c)
    rw [digitsValue, List.foldl_cons, List.foldl_cons, first, alone, List.length_cons, tenTo_succ,
      ← Nat.add_assoc, Nat.mul_zero, Nat.zero_add, Nat.add_mul, Nat.mul_comm 10 n, Nat.mul_assoc,
      Nat.mul_comm 10]

theorem isDigit_naturalText (n : Nat) : ∀ c ∈ naturalText n, isDigit c = true := by
  fun_induction naturalText n with
  | case1 n small => simpa using isDigit_digitChar n small
  | case2 n large ih =>
    intro c member
    rcases List.mem_append.1 member with before | last
    · exact ih c before
    · rw [List.mem_singleton.1 last]
      exact isDigit_digitChar _ (Nat.mod_lt n (by decide))

theorem naturalText_ne_nil (n : Nat) : naturalText n ≠ [] := by
  unfold naturalText
  split <;> simp

theorem digitsValue_naturalText (n : Nat) : digitsValue (naturalText n) = n := by
  fun_induction naturalText n with
  | case1 n small => simpa [digitsValue] using digitValue_digitChar n small
  | case2 n large ih =>
    have last := digitValue_digitChar (n % 10) (Nat.mod_lt n (by decide))
    have single : digitsValue [digitChar (n % 10)] = n % 10 := by simpa [digitsValue] using last
    rw [digitsValue_append, ih, single]
    exact Nat.div_add_mod' n 10

theorem digitsValue_zeros (n : Nat) : digitsValue (Decimal.zeros n) = 0 := by
  induction n with
  | zero => rfl
  | succ n ih =>
    have split : Decimal.zeros (n + 1) = ['0'] ++ Decimal.zeros n := rfl
    have zero : digitsValue ['0'] = 0 := by decide
    rw [split, digitsValue_append, ih, zero, Nat.zero_mul]

theorem isDigit_zeros (n : Nat) : ∀ c ∈ Decimal.zeros n, isDigit c = true := by
  intro c member
  rw [List.eq_of_mem_replicate member]
  decide

namespace Grammar

theorem numeral?_whole {ds : Text} (some : ds ≠ []) (digits : ∀ c ∈ ds, isDigit c = true) :
    numeral? ds = .some ⟨digitsValue ds, 0⟩ := by
  have ended : ∀ c ∈ ([] : Text).head?, isDigit c = false := by simp
  have taken := takeWhile_spelled digits ended
  have rest := dropWhile_spelled digits ended
  rw [List.append_nil] at taken rest
  simp [numeral?, taken, rest, some]

theorem numeral?_point {whole places : Text} (some : whole ≠ [])
    (digits : ∀ c ∈ whole, isDigit c = true) (digits' : ∀ c ∈ places, isDigit c = true) :
    numeral? (whole ++ '.' :: places) =
      .some ⟨digitsValue (whole ++ places), -places.length⟩ := by
  have stop : ∀ c ∈ ('.' :: places).head?, isDigit c = false := by
    intro c head
    cases head
    decide
  have taken := takeWhile_spelled digits stop
  have rest := dropWhile_spelled digits stop
  have ended : ∀ c ∈ ([] : Text).head?, isDigit c = false := by simp
  have taken' := takeWhile_spelled digits' ended
  have rest' := dropWhile_spelled digits' ended
  rw [List.append_nil] at taken' rest'
  simp [numeral?, taken, rest, taken', rest', some]

end Grammar

namespace Decimal

theorem numeral?_positional (d : Decimal) :
    ∃ d', numeral? d.positional = some d' ∧
      Binary64.decimalRank d' = Binary64.decimalRank d := by
  obtain ⟨m, e⟩ := d
  have digits := isDigit_naturalText m
  have some := naturalText_ne_nil m
  have value := digitsValue_naturalText m
  unfold positional
  dsimp only
  by_cases whole : 0 ≤ e
  · have all : ∀ c ∈ naturalText m ++ zeros e.toNat, isDigit c = true :=
      List.forall_mem_append.2 ⟨digits, isDigit_zeros _⟩
    rw [if_pos whole]
    refine ⟨_, numeral?_whole (by simp [some]) all, ?_⟩
    have length : (zeros e.toNat).length = e.toNat := List.length_replicate
    rw [digitsValue_append, value, digitsValue_zeros, length, Nat.add_zero,
      Binary64.decimalRank_shiftAll]
    congr 2
    omega
  rw [if_neg whole]
  by_cases mixed : (-e).toNat < (naturalText m).length
  · rw [if_pos mixed]
    have before : ∀ c ∈ (naturalText m).take ((naturalText m).length - (-e).toNat),
        isDigit c = true := fun c member => digits c (List.mem_of_mem_take member)
    have behind : ∀ c ∈ (naturalText m).drop ((naturalText m).length - (-e).toNat),
        isDigit c = true := fun c member => digits c (List.mem_of_mem_drop member)
    refine ⟨_, numeral?_point ?_ before behind, ?_⟩
    · simp only [ne_eq, List.take_eq_nil_iff, not_or]
      exact ⟨by omega, some⟩
    · rw [List.take_append_drop, value, List.length_drop]
      congr 2
      omega
  · rw [if_neg mixed]
    generalize padding : zeros ((-e).toNat - (naturalText m).length) = padding'
    have all : ∀ c ∈ padding' ++ naturalText m, isDigit c = true :=
      List.forall_mem_append.2 ⟨padding ▸ isDigit_zeros _, digits⟩
    have length : padding'.length = (-e).toNat - (naturalText m).length :=
      padding ▸ List.length_replicate
    have none : digitsValue padding' = 0 := padding ▸ digitsValue_zeros _
    have zero : digitsValue ['0'] = 0 := by decide
    have point : numeral? ('0' :: '.' :: (padding' ++ naturalText m)) =
        .some ⟨digitsValue (['0'] ++ (padding' ++ naturalText m)),
          -((padding' ++ naturalText m).length : Nat)⟩ :=
      numeral?_point (List.cons_ne_nil '0' []) (List.forall_mem_singleton.2 rfl) all
    refine ⟨_, point, ?_⟩
    rw [digitsValue_append, digitsValue_append, value, none, zero, List.length_append, length]
    simp only [Nat.zero_mul, Nat.zero_add]
    congr 2
    omega

theorem mem_positional {d : Decimal} {c : Char} (member : c ∈ d.positional) :
    isDigit c = true ∨ c = '.' := by
  have digits := isDigit_naturalText d.digits
  unfold positional at member
  dsimp only at member
  split at member
  · rcases List.mem_append.1 member with natural | zero
    · exact .inl (digits c natural)
    · exact .inl (isDigit_zeros _ c zero)
  · split at member
    · rcases List.mem_append.1 member with before | behind
      · exact .inl (digits c (List.mem_of_mem_take before))
      · rcases List.mem_cons.1 behind with point | behind
        · exact .inr point
        · exact .inl (digits c (List.mem_of_mem_drop behind))
    · rcases List.mem_append.1 member with before | natural
      · rcases List.mem_cons.1 before with rfl | before
        · exact .inl (by decide)
        · rcases List.mem_cons.1 before with point | zero
          · exact .inr point
          · exact .inl (isDigit_zeros _ c zero)
      · exact .inl (digits c natural)

theorem positional_begins (d : Decimal) :
    ∃ c cs, d.positional = c :: cs ∧ isDigit c = true := by
  obtain ⟨c, cs, natural⟩ := List.exists_cons_of_ne_nil (naturalText_ne_nil d.digits)
  have digit := isDigit_naturalText d.digits c (by simp [natural])
  unfold positional
  dsimp only
  rw [natural]
  split
  · exact ⟨c, _, rfl, digit⟩
  · split
    · rename_i mixed
      obtain ⟨n, before⟩ : ∃ n, (c :: cs).length - (-d.exponent).toNat = n + 1 :=
        ⟨(c :: cs).length - (-d.exponent).toNat - 1, by omega⟩
      rw [before]
      exact ⟨c, _, rfl, digit⟩
    · exact ⟨'0', _, rfl, by decide⟩

end Decimal

namespace Grammar

theorem numeralRun_plain {s : Text} (plain : ∀ c ∈ s, isDigit c = true ∨ c = '.')
    (afterMark : Bool) : numeralRun afterMark s = (s, []) := by
  induction s generalizing afterMark with
  | nil => rfl
  | cons c cs ih =>
    obtain ⟨first, rest⟩ := List.forall_mem_cons.1 plain
    have extends' : extendsRun afterMark c = true := by
      rcases first with digit | point
      · simp [extendsRun, digit]
      · simp [extendsRun, point]
    simp [numeralRun, extends', ih rest]

theorem spells_plainText {x : Binary64} (finite : x.isFinite = true)
    (positive : x.negative = false) : Spells (.number x x.plainText) x.plainText := by
  have small : x.rank < Binary64.infinityRank := of_decide_eq_true finite
  have number : x.isNaN = false := decide_eq_false (by omega)
  have written : x.plainText = (Binary64.shortest .up x.rank).positional := by
    simp [Binary64.plainText, number, finite, Binary64.signText, positive]
  obtain ⟨c, cs, begins, digit⟩ := (Binary64.shortest .up x.rank).positional_begins
  obtain ⟨d, value, same⟩ := (Binary64.shortest .up x.rank).numeral?_positional
  have run := numeralRun_plain (fun c member => Decimal.mem_positional member)
    false (s := (Binary64.shortest .up x.rank).positional)
  rw [Binary64.decimalRank_shortest .up small] at same
  have read : Binary64.ofDecimal d = x := by
    obtain ⟨negative, rank, bound⟩ := x
    simp only at same positive
    simp [Binary64.ofDecimal, same, positive]
  rw [written, begins] at *
  rw [← read]
  exact .number (by simp [digit]) run value

end Grammar

end TemplateBinding
