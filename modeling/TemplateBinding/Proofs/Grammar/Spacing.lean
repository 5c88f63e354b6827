import TemplateBinding.Proofs.Grammar.Acceptance
import TemplateBinding.Proofs.Grammar.Spelling
import TemplateBinding.Proofs.Grammar.Transport

/-! Layout between tokens says nothing. A text may be spaced out wherever no token is cut in
two; its tokens stay what they are, and so does the tree that they are read as. -/
namespace TemplateBinding.Grammar

/-- `Spaced free n t u`: the text `u` is `t`, which begins at byte `n`, with layout put in at
positions that are free. -/
inductive Spaced (free : Nat → Prop) : Nat → Text → Text → Prop
  | nil {n} : Spaced free n [] []
  | keep {n c t u} : Spaced free (n + c.utf8Size) t u → Spaced free n (c :: t) (c :: u)
  | insert {n c t u} :
      free n → isLayout c = true → Spaced free n t u → Spaced free n t (c :: u)

/-- A position in a text with the tokens `ts` that is inside none of them: before the first,
between two of them, or behind the last. -/
def Between (ts : List Token) (n : Nat) : Prop := ∀ k ∈ ts, n ≤ k.start ∨ k.stop ≤ n

instance (ts : List Token) (n : Nat) : Decidable (Between ts n) :=
  inferInstanceAs (Decidable (∀ k ∈ ts, n ≤ k.start ∨ k.stop ≤ n))

section Spaced

variable {free : Nat → Prop} {n : Nat} {t u : Text}

theorem Spaced.nil_inv (spaced : Spaced free n [] u) : ∀ c ∈ u, isLayout c = true := by
  generalize empty : ([] : Text) = t at spaced
  induction spaced with
  | nil => simp
  | keep => cases empty
  | insert _ space _ ih => exact List.forall_mem_cons.2 ⟨space, ih empty⟩

theorem Spaced.cons_inv {c : Char} (spaced : Spaced free n (c :: t) u) :
    ∃ gap v, u = gap ++ c :: v ∧ (∀ d ∈ gap, isLayout d = true) ∧ (gap ≠ [] → free n) ∧
      Spaced free (n + c.utf8Size) t v := by
  generalize whole : c :: t = s at spaced
  induction spaced with
  | nil => cases whole
  | @keep n d s v rest =>
    cases whole
    exact ⟨[], v, rfl, by simp, by simp, rest⟩
  | @insert n d s v isFree space _ ih =>
    obtain ⟨gap, w, rfl, all, -, rest⟩ := ih whole
    exact ⟨d :: gap, w, rfl, List.forall_mem_cons.2 ⟨space, all⟩, fun _ => isFree, rest⟩

theorem Spaced.unbroken {s : Text} (spaced : Spaced free n (s ++ t) u)
    (closed : ∀ m, n ≤ m → m < n + Text.byteSize s → ¬ free m) :
    ∃ v, u = s ++ v ∧ Spaced free (n + Text.byteSize s) t v := by
  induction s generalizing n u with
  | nil => exact ⟨u, rfl, spaced⟩
  | cons c s ih =>
    have pos := c.utf8Size_pos
    obtain ⟨gap, v, rfl, -, isFree, rest⟩ := spaced.cons_inv
    have shut : ¬ free n := closed n (Nat.le_refl n) (by rw [Text.byteSize_cons]; omega)
    have none : gap = [] := Decidable.not_not.1 fun some => shut (isFree some)
    obtain ⟨w, rfl, rest⟩ := ih rest fun m low high =>
      closed m (by omega) (by rw [Text.byteSize_cons]; omega)
    refine ⟨w, by simp [none], ?_⟩
    rwa [Text.byteSize_cons, ← Nat.add_assoc]

/-- A token is kept as a whole: what is put in stands before it or behind it. -/
theorem Spaced.token {s : Text} (spaced : Spaced free n (s ++ t) u) (some : s ≠ [])
    (closed : ∀ m, n < m → m < n + Text.byteSize s → ¬ free m) :
    ∃ gap v, u = gap ++ (s ++ v) ∧ (∀ d ∈ gap, isLayout d = true) ∧
      Spaced free (n + Text.byteSize s) t v := by
  obtain ⟨c, s, rfl⟩ := List.exists_cons_of_ne_nil some
  have pos := c.utf8Size_pos
  obtain ⟨gap, v, rfl, all, -, rest⟩ := spaced.cons_inv
  obtain ⟨w, rfl, rest⟩ := rest.unbroken fun m low high =>
    closed m (by omega) (by rw [Text.byteSize_cons]; omega)
  refine ⟨gap, w, rfl, all, ?_⟩
  rwa [Text.byteSize_cons, ← Nat.add_assoc]

theorem Spaced.head? (spaced : Spaced free n t u) :
    ∀ c ∈ u.head?, isLayout c = true ∨ c ∈ t.head? := by
  intro c head
  cases spaced with
  | nil => cases head
  | keep => exact .inr head
  | insert _ space _ =>
    cases head
    exact .inl space

end Spaced

theorem Lexeme.extendedBy_layout {c : Char} (space : isLayout c = true) (l : Lexeme) :
    l.extendedBy c = false := by
  have member : c ∈ layout := List.contains_iff_mem.1 space
  have unnamed : ∀ d ∈ layout, isNamePart d = false := List.all_iff_forall_prop.1 rfl
  have undigit : ∀ d ∈ layout, isDigit d = false := List.all_iff_forall_prop.1 rfl
  have stop : ∀ d ∈ layout, ∀ b, extendsRun b d = false := List.all_iff_forall_prop.1 rfl
  have unused : ∀ d ∈ layout, ∀ o ∈ operators, d ∉ o := List.all_iff_forall_prop.1 rfl
  cases l with
  | identifier | keyword => exact unnamed c member
  | number => exact stop c member _
  | punctuation => simp [extendedBy, undigit c member]
  | operator symbol =>
    have other : symbol ++ [c] ∉ operators := fun longer => unused c member _ longer (by simp)
    exact decide_eq_false other
  | string | invalid => rfl

theorem Parted.spaced {l : Lexeme} {t u : Text} {free : Nat → Prop} {n : Nat}
    (parted : Parted l t) (spaced : Spaced free n t u) : Parted l u := by
  intro c head
  rcases spaced.head? c head with space | old
  · exact l.extendedBy_layout space
  · exact parted c old

theorem Reads.gap {start : Nat} {gap t : Text} {ts : List Token}
    (all : ∀ c ∈ gap, isLayout c = true) (reads : Reads (start + Text.byteSize gap) t ts) :
    Reads start (gap ++ t) ts := by
  induction gap generalizing start with
  | nil => exact reads
  | cons c gap ih =>
    obtain ⟨space, others⟩ := List.forall_mem_cons.1 all
    rw [Text.byteSize_cons, ← Nat.add_assoc] at reads
    exact .layout space (ih others reads)

theorem Reads.spaced {free : Nat → Prop} {start : Nat} {t : Text} {ts : List Token}
    (reads : Reads start t ts)
    (closed : ∀ k ∈ ts, ∀ m, k.start < m → m < k.stop → ¬ free m) (start' : Nat) {u : Text}
    (spaced : Spaced free start t u) :
    ∃ us, Reads start' u us ∧ us.map Token.lexeme = ts.map Token.lexeme := by
  induction reads generalizing start' u with
  | nil =>
    have reads : Reads start' (u ++ []) [] := .gap spaced.nil_inv .nil
    rw [List.append_nil] at reads
    exact ⟨[], reads, rfl⟩
  | layout space _ ih =>
    obtain ⟨gap, v, rfl, all, -, rest⟩ := spaced.cons_inv
    obtain ⟨us, reads, same⟩ := ih closed _ rest
    exact ⟨us, .gap all (.layout space reads), same⟩
  | token spells parted _ ih =>
    obtain ⟨own, others⟩ := List.forall_mem_cons.1 closed
    obtain ⟨gap, v, rfl, all, rest⟩ := spaced.token spells.ne_nil own
    obtain ⟨us, reads, same⟩ := ih others _ rest
    refine ⟨_, .gap all (.token spells (parted.spaced rest) reads), ?_⟩
    simp only [List.map_cons, same]

theorem alike_of_lexemes {ts us : List Token}
    (same : us.map Token.lexeme = ts.map Token.lexeme) :
    Alike (fun _ => 0) (fun _ => 0) ts us := by
  have seen := congrArg (List.map fun l => ((⟨0, 0⟩ : Span), l.unspelled)) same
  simp only [List.map_map, Function.comp_def] at seen
  exact seen

end Grammar

open Grammar

theorem Expr.parse_alike {t u : Text} {e : Expr}
    (same : (tokens u).map Token.lexeme = (tokens t).map Token.lexeme)
    (accepted : Expr.parse t = .ok e) : ∃ f, Expr.parse u = .ok f ∧ f.bare = e.bare := by
  obtain ⟨valid, whole⟩ := Expr.parse_eq_ok_iff.1 accepted
  obtain ⟨f, whole', bare⟩ : ∃ f, Whole u.byteSize (tokens u) f ∧ f.bare = e.bare :=
    whole.along (alike_of_lexemes same)
  have valid' : ∀ k ∈ tokens u, k.lexeme.isInvalid = false := by
    intro k member
    have found : k.lexeme ∈ (tokens u).map Token.lexeme := List.mem_map_of_mem member
    rw [same] at found
    obtain ⟨k', inside, same'⟩ := List.mem_map.1 found
    rw [← same']
    exact valid k' inside
  exact ⟨f, Expr.parse_eq_ok_iff.2 ⟨valid', whole'⟩, bare⟩

/-- A text without invalid tokens may be spaced out at will. Its tokens stay the same but for
their positions, it is read exactly if it was read before, and as the same tree but for the
positions in it. -/
theorem Expr.parse_spaced {t u : Text} (valid : ∀ k ∈ tokens t, k.lexeme.isInvalid = false)
    (spaced : Spaced (Between (tokens t)) 0 t u) :
    (tokens u).map Token.lexeme = (tokens t).map Token.lexeme ∧
      ((∃ f, Expr.parse u = .ok f) ↔ ∃ e, Expr.parse t = .ok e) ∧
      ∀ e f, Expr.parse t = .ok e → Expr.parse u = .ok f → f.bare = e.bare := by
  have reads : Reads 0 t (tokens t) := reads_tokensFrom valid
  have closed : ∀ k ∈ tokens t, ∀ m, k.start < m → m < k.stop → ¬ Between (tokens t) m := by
    intro k member m low high between
    have side := between k member
    omega
  obtain ⟨us, reads', same⟩ := reads.spaced closed 0 spaced
  have found : tokens u = us := reads'.tokensFrom_eq
  rw [← found] at same
  refine ⟨same, ⟨?_, ?_⟩, ?_⟩
  · rintro ⟨f, read⟩
    obtain ⟨e, accepted, -⟩ := Expr.parse_alike same.symm read
    exact ⟨e, accepted⟩
  · rintro ⟨e, accepted⟩
    obtain ⟨f, read, -⟩ := Expr.parse_alike same accepted
    exact ⟨f, read⟩
  · intro e f accepted read
    obtain ⟨f', read', bare⟩ := Expr.parse_alike same accepted
    cases read.symm.trans read'
    exact bare

theorem Expr.parse_spaced_comparison :
    (∀ k ∈ tokens "a!=.5", k.lexeme.isInvalid = false) ∧
      Spaced (Between (tokens "a!=.5")) 0 "a!=.5" " a !=\u00a0.5\n" ∧
      (tokens " a !=\u00a0.5\n").map Token.lexeme = (tokens "a!=.5").map Token.lexeme ∧
      ∃ e f, Expr.parse "a!=.5" = .ok e ∧ Expr.parse " a !=\u00a0.5\n" = .ok f ∧
        f.bare = e.bare := by
  have valid : ∀ k ∈ tokens "a!=.5", k.lexeme.isInvalid = false := by decide +kernel
  have spaced : Spaced (Between (tokens "a!=.5")) 0 "a!=.5" " a !=\u00a0.5\n" :=
    .insert (by decide +kernel) rfl <| .keep <| .insert (by decide +kernel) rfl <| .keep <| .keep <|
      .insert (by decide +kernel) rfl <| .keep <| .keep <| .insert (by decide +kernel) rfl .nil
  have accepted : (Expr.parse "a!=.5").isOk = true := by decide +kernel
  obtain ⟨same, reads, bare⟩ := Expr.parse_spaced valid spaced
  obtain ⟨e, read⟩ : ∃ e, Expr.parse "a!=.5" = .ok e := by
    cases read : Expr.parse "a!=.5" with
    | ok e => exact ⟨e, rfl⟩
    | error =>
      rw [read] at accepted
      cases accepted
  obtain ⟨f, read'⟩ := reads.2 ⟨e, read⟩
  exact ⟨valid, spaced, same, e, f, read, read', bare e f read read'⟩

end TemplateBinding
