import TemplateBinding.Expr.Parser
import TemplateBinding.Proofs.Grammar.Completeness
import TemplateBinding.Proofs.Grammar.Soundness

/-! A text is accepted exactly if all of its tokens derive from the grammar, and then the
tree is the one they derive. -/
namespace TemplateBinding

namespace Grammar

theorem ahead_of_next?_eq_none {c : Cursor} (ended : c.next? = none) : c.ahead = [] := by
  unfold Cursor.next? at ended
  split at ended
  · assumption
  · contradiction

theorem Cursor.passes_skipSemicolons (c : Cursor) :
    ∃ ss, Semicolons ss ∧ c.Passes ss c.skipSemicolons := by
  obtain ⟨size, passed, ahead⟩ := c
  simp only [skipSemicolons]
  induction ahead generalizing passed with
  | nil => exact ⟨[], by simp [Semicolons], .refl _⟩
  | cons t ts ih =>
    unfold behindSemicolons
    split
    · rename_i isSemicolon
      obtain ⟨ss, semicolons, passes⟩ := ih t.stop
      have first : Passes ⟨size, passed, t :: ts⟩ [t] ⟨size, t.stop, ts⟩ := ⟨rfl, rfl, rfl⟩
      refine ⟨t :: ss, ?_, first.cons passes⟩
      intro s member
      rcases List.mem_cons.1 member with rfl | member
      · exact isSemicolon
      · exact semicolons s member
    · exact ⟨[], by simp [Semicolons], .refl _⟩

theorem Cursor.Passes.skipSemicolons {c d : Cursor} {ss : List Token} (passes : c.Passes ss d)
    (semicolons : Semicolons ss) (ends : d.Avoids [.punctuation ';']) : c.skipSemicolons = d := by
  obtain ⟨size, passed, ahead⟩ := c
  simp only [Cursor.skipSemicolons]
  induction ss generalizing passed ahead with
  | nil =>
    have same := passes.unique (.refl _)
    subst same
    cases ahead with
    | nil => rfl
    | cons t ts =>
      have other := ends t.lexeme ⟨size, t.stop, ts⟩ rfl
      simp only [List.mem_singleton] at other
      simp only [behindSemicolons, if_neg other]
  | cons s ss ih =>
    obtain ⟨e, first, rest⟩ := passes.uncons
    obtain ⟨size', passed', ahead'⟩ := e
    have whole := first.ahead
    have sized := first.size
    have stop := first.passed
    simp only [List.cons_append, List.nil_append] at whole sized stop
    subst whole sized stop
    have isSemicolon := semicolons s List.mem_cons_self
    simp only [behindSemicolons, isSemicolon, if_true]
    exact ih (fun t member => semicolons t (List.mem_cons_of_mem _ member)) _ _ rest

/-- The items from some place on. `chained` says whether a semicolon came before. -/
inductive Chained : Bool → List Token → List Expr → Prop
  | nothing {chained} : Chained chained [] []
  | alone {ts e} : Derives .filtered ts e → Chained false ts [e]
  | plain {chained ts es} :
      Sequence ts es → (∀ e ∈ es, e.isFilter = false) → Chained chained ts es

theorem Chained.last {chained : Bool} {ts ss : List Token} {e : Expr}
    (derived : Derives .filtered ts e) (semicolons : Semicolons ss)
    (unmixed : chained = true ∨ ss ≠ [] → e.isFilter = false) :
    Chained chained (ts ++ ss) [e] := by
  cases plain : e.isFilter with
  | false => exact .plain (.last derived semicolons) (by simp [plain])
  | true =>
    simp only [plain, Bool.true_eq_false, imp_false, not_or, Bool.not_eq_true,
      Decidable.not_not] at unmixed
    obtain ⟨unchained, none⟩ := unmixed
    rw [unchained, none, List.append_nil]
    exact .alone derived

theorem Chained.more {chained : Bool} {ts ss us : List Token} {e : Expr} {es : List Expr}
    (derived : Derives .filtered ts e) (semicolons : Semicolons ss) (parted : ss ≠ [])
    (plain : e.isFilter = false) (rest : Chained true us es) (some : us ≠ []) :
    Chained chained (ts ++ (ss ++ us)) (e :: es) := by
  cases rest with
  | nothing => exact absurd rfl some
  | plain sequence unfiltered =>
    exact .plain (.more derived semicolons parted sequence)
      (List.forall_mem_cons.2 ⟨plain, unfiltered⟩)

theorem bind_eq_ok {α β : Type} {step : Step α} {next : α → Step β} {b : β}
    (run : step >>= next = .ok b) : ∃ a, step = .ok a ∧ next a = .ok b := by
  cases step with
  | error stop => cases run
  | ok a => exact ⟨a, rfl, run⟩

theorem sound_chainItems (n : Nat) (chained : Bool) (c : Cursor) (items : List Expr) (d : Cursor)
    (run : chainItems n chained c = .ok (items, d)) :
    d.ahead = [] ∧ ∃ ts, c.Passes ts d ∧ Chained chained ts items := by
  induction n generalizing chained c items d with
  | zero => cases run
  | succ n ih =>
    unfold chainItems at run
    split at run
    · rename_i ended
      cases run
      exact ⟨ahead_of_next?_eq_none ended, [], .refl c, .nothing⟩
    · split at run
      · cases run
      · obtain ⟨⟨item, d₁⟩, found, run⟩ := bind_eq_ok run
        obtain ⟨ts, first, derived⟩ := (sound n).filtered c item d₁ found
        obtain ⟨ss, semicolons, second⟩ := d₁.passes_skipSemicolons
        have whole := first.trans second
        have count := second.left
        dsimp only at run
        generalize d₁.skipSemicolons = d₂ at second whole count run
        split at run
        · cases run
        · rename_i mixed
          have unmixed : chained = true ∨ d₂.left < d₁.left → item.isFilter = false := by
            simpa using mixed
          have shorter (some : ss ≠ []) : d₂.left < d₁.left := by
            have length := List.length_pos_iff.2 some
            omega
          split at run
          · rename_i ended
            cases run
            exact ⟨ahead_of_next?_eq_none ended, ts ++ ss, whole,
              .last derived semicolons fun either => unmixed (either.imp_right shorter)⟩
          · rename_i other d₃ next
            split at run
            · rename_i separated
              have separated : d₂.left < d₁.left := of_decide_eq_true separated
              have plain : item.isFilter = false := unmixed (.inr separated)
              have some : ss ≠ [] := by
                rintro rfl
                simp at count
                omega
              obtain ⟨⟨others, d₄⟩, found, run⟩ := bind_eq_ok run
              cases run
              obtain ⟨ended, us, third, chain⟩ := ih true d₂ others d₄ found
              have later : us ≠ [] := by
                rintro rfl
                have ahead := third.ahead
                rw [ended] at ahead
                simp [Cursor.next?, ahead] at next
              exact ⟨ended, ts ++ (ss ++ us), first.trans (second.trans third),
                .more derived semicolons some plain chain later⟩
            · cases run

theorem sound_chain {n : Nat} {c d : Cursor} {e : Expr} (run : chain n c = .ok (e, d)) :
    Whole c.size c.ahead e := by
  obtain ⟨lead, semicolons, first⟩ := c.passes_skipSemicolons
  obtain ⟨⟨items, d₁⟩, found, run⟩ := bind_eq_ok run
  obtain ⟨ended, us, second, chained⟩ := sound_chainItems _ _ _ _ _ found
  have whole := first.trans second
  have all : c.ahead = lead ++ us := by rw [whole.ahead, ended, List.append_nil]
  have count := first.left
  have unled (same : decide (c.skipSemicolons.left < c.left) = false) : lead = [] :=
    List.eq_nil_of_length_eq_zero (by have := of_decide_eq_false same; omega)
  generalize decide (c.skipSemicolons.left < c.left) = led at chained unled
  rw [all]
  match items, chained with
  | [], .nothing =>
    cases run
    rw [List.append_nil]
    exact .empty semicolons
  | [item], .alone derived =>
    cases run
    rw [unled rfl]
    exact .alone derived
  | [item], .plain sequence plain =>
    cases run
    exact .single semicolons sequence (plain _ (by simp))
  | first :: second :: rest, .plain sequence plain =>
    cases run
    rw [whole.span (by simp [sequence.ne_nil])]
    exact .chain semicolons sequence (by simp) plain
  | [], .plain sequence _ => cases sequence

theorem Cursor.avoids_of_ended {c : Cursor} (ended : c.ahead = []) (ls : List Lexeme) :
    c.Avoids ls := by
  intro l d next
  simp [next?, ended] at next

theorem Derives.next {p ts e us} {c d : Cursor} (derived : Derives p ts e)
    (passes : c.Passes (ts ++ us) d) :
    ∃ first e, c.next? = some (first, e) ∧ first ∉ .punctuation ';' :: closers := by
  obtain ⟨t, ts, rfl, opening⟩ := derived.starts
  obtain ⟨e, first, _⟩ := Cursor.Passes.uncons passes
  exact ⟨t.lexeme, e, Cursor.next?_eq_some_iff.2 ⟨t, rfl, first⟩, opening.not_mem_closers⟩

theorem Semicolons.avoids {ss : List Token} {c d : Cursor} {ls : List Lexeme}
    (semicolons : Semicolons ss) (passes : c.Passes ss d) (ends : d.Avoids ls)
    (other : .punctuation ';' ∉ ls) : c.Avoids ls := by
  cases ss with
  | nil => rwa [passes.unique (.refl c)] at ends
  | cons s ss => exact passes.avoids (by rw [semicolons s List.mem_cons_self]; exact other)

theorem chainItems_last {ts ss e chained} {c d : Cursor} (derived : Derives .filtered ts e)
    (semicolons : Semicolons ss) (unmixed : chained = true ∨ ss ≠ [] → e.isFilter = false)
    (passes : c.Passes (ts ++ ss) d) (ended : d.ahead = []) :
    Finds (fun n => chainItems n chained) 14 c [e] d := by
  apply finds_of_succ
  intro n room
  obtain ⟨d₁, before, behind⟩ := passes.split
  obtain ⟨first, c', next, opening⟩ := derived.next passes
  have open' : first ∉ closers := fun member => opening (List.mem_cons_of_mem _ member)
  have ends := Cursor.avoids_of_ended ended
  have found := derived.finds trivial before (semicolons.avoids behind (ends _) (by decide)) n
    (by simp only [Phrase.room]; omega)
  have found : filtered n c = .ok (e, d₁) := found
  have skipped := behind.skipSemicolons semicolons (ends _)
  have stop : d.next? = none := by simp only [Cursor.next?, ended]
  have plain : ((chained || decide (d.left < d₁.left)) && e.isFilter) = false := by
    have count := behind.left
    cases filter : e.isFilter with
    | false => simp
    | true =>
      rw [filter] at unmixed
      simp only [Bool.true_eq_false, imp_false, not_or, Decidable.not_not] at unmixed
      rw [unmixed.2, List.length_nil] at count
      simp [unmixed.1, count]
  simp only [chainItems, next, if_neg open', found, bind, Except.bind, skipped, plain,
    Bool.false_eq_true, if_false, stop]

theorem chainItems_more {ts ss e es chained} {c d₁ d : Cursor} (derived : Derives .filtered ts e)
    (semicolons : Semicolons ss) (parted : ss ≠ []) (plain : e.isFilter = false)
    (passes : c.Passes (ts ++ ss) d₁) (ends : d₁.Avoids [.punctuation ';'])
    (more : d₁.next? ≠ none) (rest : Finds (fun n => chainItems n true) 14 d₁ es d) :
    Finds (fun n => chainItems n chained) 14 c (e :: es) d := by
  apply finds_of_succ
  intro n room
  obtain ⟨d₂, before, behind⟩ := passes.split
  obtain ⟨first, c', next, opening⟩ := derived.next passes
  have open' : first ∉ closers := fun member => opening (List.mem_cons_of_mem _ member)
  obtain ⟨s, ss, rfl⟩ := List.exists_cons_of_ne_nil parted
  have isSemicolon := semicolons s List.mem_cons_self
  have found : filtered n c = .ok (e, d₂) :=
    derived.finds trivial before (behind.avoids (by rw [isSemicolon]; decide)) n
      (by simp only [Phrase.room]; omega)
  have skipped := behind.skipSemicolons semicolons ends
  have separated := behind.lt parted
  have fewer := passes.lt (by simp)
  have others : chainItems n true d₁ = .ok (es, d) := rest n (by omega)
  obtain ⟨other, behindOther⟩ := Option.ne_none_iff_exists'.1 more
  simp only [chainItems, next, if_neg open', found, bind, Except.bind, skipped, plain,
    Bool.and_false, Bool.false_eq_true, if_false, behindOther, separated, decide_true, if_true,
    others]

theorem Sequence.next {ts es us} {c d : Cursor} (sequence : Sequence ts es)
    (passes : c.Passes (ts ++ us) d) :
    ∃ first e, c.next? = some (first, e) ∧ first ∉ .punctuation ';' :: closers := by
  cases sequence with
  | last derived _ =>
    rw [List.append_assoc] at passes
    exact derived.next passes
  | more derived _ _ _ =>
    rw [List.append_assoc] at passes
    exact derived.next passes

theorem Sequence.avoids {ts es} {c d : Cursor} (sequence : Sequence ts es)
    (passes : c.Passes ts d) : c.Avoids [.punctuation ';'] := by
  rw [← List.append_nil ts] at passes
  obtain ⟨first, e, next, opening⟩ := sequence.next passes
  intro l f next' member
  rw [next] at next'
  cases next'
  exact opening (List.mem_singleton.1 member ▸ List.mem_cons_self)

theorem Sequence.finds {ts es chained} {c d : Cursor} (sequence : Sequence ts es)
    (plain : ∀ e ∈ es, e.isFilter = false) (passes : c.Passes ts d) (ended : d.ahead = []) :
    Finds (fun n => chainItems n chained) 14 c es d := by
  induction sequence generalizing chained c with
  | last derived semicolons =>
    exact chainItems_last derived semicolons (fun _ => plain _ (by simp)) passes ended
  | @more ts ss us e es derived semicolons parted sequence ih =>
    rw [← List.append_assoc] at passes
    obtain ⟨d₁, before, behind⟩ := passes.split
    have behind' : d₁.Passes (us ++ []) d := by rwa [List.append_nil]
    obtain ⟨first, e₁, next, _⟩ := sequence.next behind'
    have more : d₁.next? ≠ none := by simp [next]
    exact chainItems_more derived semicolons parted (plain _ (by simp)) before
      (sequence.avoids behind) more
      (ih (fun e member => plain e (List.mem_cons_of_mem _ member)) behind)

theorem chain_eq_of_passes {lead us es} {c d : Cursor} (semicolons : Semicolons lead)
    (sequence : Sequence us es) (plain : ∀ e ∈ es, e.isFilter = false)
    (passes : c.Passes (lead ++ us) d) (ended : d.ahead = []) :
    chain (allowance c) c = .ok (match es with
      | [e] => (e, d)
      | _ => (.chain (spanOf (lead ++ us)) es, d)) := by
  obtain ⟨e, before, behind⟩ := passes.split
  have skipped := before.skipSemicolons semicolons (sequence.avoids behind)
  have fewer := before.le
  have finds : Finds (fun n => chainItems n (decide (e.left < c.left))) 14 e es d :=
    sequence.finds plain behind ended
  have found := finds (allowance c) (by simp only [allowance]; omega)
  have some : lead ++ us ≠ [] := by simp [sequence.ne_nil]
  unfold chain
  simp only [skipped, found, bind, Except.bind, passes.span some]
  match es with
  | [] => cases sequence
  | [_] => rfl
  | _ :: _ :: _ => rfl

theorem chain_eq_of_whole {size ts e} {c d : Cursor} (whole : Whole size ts e)
    (sized : c.size = size) (passes : c.Passes ts d) (ended : d.ahead = []) :
    chain (allowance c) c = .ok (e, d) := by
  cases whole with
  | empty semicolons =>
    have skipped := passes.skipSemicolons semicolons (d.avoids_of_ended ended _)
    have next : d.next? = none := by simp only [Cursor.next?, ended]
    obtain ⟨n, fuel⟩ : ∃ n, allowance c = n + 1 := ⟨_, rfl⟩
    simp only [chain, skipped, fuel, chainItems, next, bind, Except.bind, sized]
  | alone derived =>
    rw [← List.append_nil ts] at passes
    obtain ⟨first, e₁, next, opening⟩ := derived.next passes
    have unled : c.Avoids [.punctuation ';'] := by
      intro l f next' member
      rw [next] at next'
      cases next'
      exact opening (List.mem_singleton.1 member ▸ List.mem_cons_self)
    have skipped := (Cursor.Passes.refl c).skipSemicolons (by simp [Semicolons]) unled
    have none : Semicolons [] := by simp [Semicolons]
    have finds : Finds (fun n => chainItems n false) 14 c [e] d :=
      chainItems_last derived none (by simp) passes ended
    have found := finds (allowance c) (by simp only [allowance]; omega)
    simp only [chain, skipped, Nat.lt_irrefl, decide_false, found, bind, Except.bind]
  | single semicolons sequence plain =>
    exact chain_eq_of_passes semicolons sequence (by simpa using plain) passes ended
  | @chain lead us es semicolons sequence several plain =>
    rw [chain_eq_of_passes semicolons sequence plain passes ended]
    cases es with
    | nil => cases several
    | cons first others =>
      cases others with
      | nil => exact absurd several (Nat.lt_irrefl 1)
      | cons => rfl

theorem wholeText_eq_ok_iff {c : Cursor} {e : Expr} :
    wholeText c = .ok e ↔ ∃ d, chain (allowance c) c = .ok (e, d) := by
  unfold wholeText
  split
  · rename_i found d run
    simp [run]
  · rename_i fault run
    simp [run]
  · rename_i run
    exact absurd run (chain_ne_exhausted c)

theorem wholeText_eq_error_iff {c : Cursor} {f : Fault} :
    wholeText c = .error f ↔ chain (allowance c) c = .error (.fault f) := by
  unfold wholeText
  split
  · rename_i run
    simp [run]
  · rename_i run
    simp [run]
  · rename_i run
    exact absurd run (chain_ne_exhausted c)

theorem wholeText_eq_ok_iff_whole {size : Nat} {ts : List Token} {e : Expr} :
    wholeText (.start size ts) = .ok e ↔ Whole size ts e := by
  rw [wholeText_eq_ok_iff]
  constructor
  · rintro ⟨d, run⟩
    exact sound_chain run
  · intro whole
    have passes : (Cursor.start size ts).Passes ts ⟨size, lastStop 0 ts, []⟩ := by
      refine ⟨?_, rfl, rfl⟩
      rw [List.append_nil]
      rfl
    exact ⟨_, chain_eq_of_whole whole rfl passes rfl⟩

theorem isInvalid_eq_false {k : Token}
    (other : ∀ start stop fault, k = ⟨start, stop, .invalid fault⟩ → False) :
    k.lexeme.isInvalid = false := by
  obtain ⟨start, stop, lexeme⟩ := k
  cases lexeme with
  | invalid fault => exact absurd rfl (other start stop fault)
  | _ => rfl

theorem lexicalError?_eq_none_iff {ts : List Token} :
    lexicalError? ts = none ↔ ∀ t ∈ ts, t.lexeme.isInvalid = false := by
  fun_induction lexicalError? ts with
  | case1 => simp
  | case2 start stop fault ts =>
    constructor
    · intro none
      cases none
    · intro valid
      cases valid _ List.mem_cons_self
  | case3 t ts other ih =>
    rw [ih, List.forall_mem_cons]
    exact ⟨fun rest => ⟨isInvalid_eq_false other, rest⟩, fun both => both.2⟩

end Grammar

open Grammar

theorem Expr.parse_eq_ok_iff {t : Text} {e : Expr} :
    Expr.parse t = .ok e ↔
      (∀ k ∈ tokens t, k.lexeme.isInvalid = false) ∧ Whole t.byteSize (tokens t) e := by
  rw [← lexicalError?_eq_none_iff, ← wholeText_eq_ok_iff_whole]
  unfold Expr.parse
  cases lexical : lexicalError? (tokens t) with
  | some error => simp [lexical]
  | none => cases run : wholeText (.start t.byteSize (tokens t)) <;> simp [lexical, run]

/-- Of the texts whose tokens are all valid, exactly those are read that derive from the
grammar, and the tree that is read is the only one they derive. -/
theorem Expr.parse_accepts_grammar (t : Text)
    (valid : ∀ k ∈ tokens t, k.lexeme.isInvalid = false) :
    ((∃ e, Expr.parse t = .ok e) ↔ ∃ tree, Whole t.byteSize (tokens t) tree) ∧
      ∀ e, Expr.parse t = .ok e →
        Whole t.byteSize (tokens t) e ∧ ∀ tree, Whole t.byteSize (tokens t) tree → tree = e := by
  have accepts (e : Expr) : Expr.parse t = .ok e ↔ Whole t.byteSize (tokens t) e := by
    rw [Expr.parse_eq_ok_iff]
    exact ⟨fun both => both.2, fun whole => ⟨valid, whole⟩⟩
  constructor
  · exact exists_congr accepts
  · intro e run
    constructor
    · exact (accepts e).1 run
    · intro tree derived
      have same := ((accepts tree).2 derived).symm.trans run
      cases same
      rfl

/-- The last colon belongs to the condition. With a semicolon the filter derives nothing. -/
theorem Expr.parse_accepts_filter_argument :
    (∀ k ∈ tokens "a|f:b?c:d", k.lexeme.isInvalid = false) ∧
      (∃ tree, Expr.parse "a|f:b?c:d" = .ok tree ∧ Whole 9 (tokens "a|f:b?c:d") tree) ∧
      (∀ k ∈ tokens "a|f;b", k.lexeme.isInvalid = false) ∧
      ¬ ∃ tree, Whole 5 (tokens "a|f;b") tree := by
  have valid : ∀ k ∈ tokens "a|f:b?c:d", k.lexeme.isInvalid = false := by decide +kernel
  have valid' : ∀ k ∈ tokens "a|f;b", k.lexeme.isInvalid = false := by decide +kernel
  obtain ⟨-, derived⟩ := Expr.parse_accepts_grammar "a|f:b?c:d" valid
  obtain ⟨derivable, -⟩ := Expr.parse_accepts_grammar "a|f;b" valid'
  refine ⟨valid, ?_, valid', fun some => ?_⟩
  · have read : (Expr.parse "a|f:b?c:d").isOk = true := by decide +kernel
    cases run : Expr.parse "a|f:b?c:d" with
    | error error =>
      rw [run] at read
      cases read
    | ok tree => exact ⟨tree, rfl, (derived tree run).1⟩
  · have refused : (Expr.parse "a|f;b").isOk = false := by decide +kernel
    obtain ⟨tree, run⟩ := derivable.2 some
    rw [run] at refused
    cases refused

end TemplateBinding
