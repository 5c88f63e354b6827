import TemplateBinding.Proofs.Grammar.Acceptance
import TemplateBinding.Proofs.Grammar.Persistence

/-! The loops of the descent. A loop goes around as long as it finds what it looks for, and passes a
token at least each time. So it does not go around more often than there are tokens ahead. -/
namespace TemplateBinding.Grammar

/-- A loop that carries something along. It ends where there is no more round to begin, and gives
what was gathered until there. -/
structure Loop (σ τ : Type) where
  round : σ → Cursor → Option (Step (σ × Cursor))
  result : σ → τ

namespace Loop

variable {σ τ : Type} {loop : Loop σ τ}

/-- The rounds that are begun one after another, and what they come to. A round that is stopped is
the last one. -/
inductive Runs (loop : Loop σ τ) : σ → Cursor → Nat → Step (τ × Cursor) → Prop
  | finished {s c} : loop.round s c = none → Runs loop s c 0 (.ok (loop.result s, c))
  | stopped {s c stop} : loop.round s c = some (.error stop) → Runs loop s c 1 (.error stop)
  | again {s c s' d rounds step} :
      loop.round s c = some (.ok (s', d)) → Runs loop s' d rounds step →
      Runs loop s c (rounds + 1) step

def Repeats (loop : Loop σ τ) (f : σ → Cursor → Step (τ × Cursor)) : Prop :=
  ∀ s c, f s c =
    match loop.round s c with
    | none => .ok (loop.result s, c)
    | some body => body >>= fun next => f next.1 next.2

theorem Repeats.runs {f : σ → Cursor → Step (τ × Cursor)} (repeats : loop.Repeats f)
    (measure : σ → Cursor → Nat)
    (less : ∀ s c body, loop.round s c = some body →
      0 < measure s c ∧ ∀ s' d, body = .ok (s', d) → measure s' d < measure s c)
    (s : σ) (c : Cursor) : ∃ rounds ≤ measure s c, loop.Runs s c rounds (f s c) := by
  induction size : measure s c using Nat.strongRecOn generalizing s c with
  | ind size' ih =>
    subst size
    rw [repeats s c]
    cases begun : loop.round s c with
    | none => exact ⟨0, Nat.zero_le _, .finished begun⟩
    | some body =>
      obtain ⟨some, later⟩ := less s c body begun
      cases body with
      | error stop => exact ⟨1, some, .stopped begun⟩
      | ok next =>
        have fewer := later next.1 next.2 rfl
        obtain ⟨rounds, bound, runs⟩ := ih _ fewer next.1 next.2 rfl
        exact ⟨rounds + 1, Nat.succ_le_of_lt (Nat.lt_of_le_of_lt bound fewer), .again begun runs⟩

/-- A loop that looks at a token before each round. -/
def Advances (loop : Loop σ τ) : Prop :=
  ∀ s c body, loop.round s c = some body → 0 < c.left ∧ Settled c.left body

theorem Repeats.runs_left {f : σ → Cursor → Step (τ × Cursor)} (repeats : loop.Repeats f)
    (advances : loop.Advances) (s : σ) (c : Cursor) :
    ∃ rounds ≤ c.left, loop.Runs s c rounds (f s c) := by
  refine repeats.runs (fun _ => Cursor.left) ?_ s c
  intro s c body begun
  obtain ⟨some, settled⟩ := advances s c body begun
  refine ⟨some, ?_⟩
  rintro s' d rfl
  exact settled

end Loop

/-! The loops, as they are written. What a round calls has as much allowance as it needs. -/

section Loops

def semicolonLoop : Loop Unit Unit where
  round _ c := (c.accept? (.punctuation ';')).map fun d => .ok ((), d)
  result := id

/-- `'|' name (':' expression)*` -/
def filterLoop (start : Nat) : Loop Expr Expr where
  round subject c := (c.accept? (.operator "|")).map fun d => do
    let (name, d) ← d.filterName
    let (args, d) ← outcome filterArgs d
    .ok (.filter ⟨start, d.passed⟩ subject name args, d)
  result := id

def filterArgLoop : Loop (List Expr) (List Expr) where
  round args c := (c.accept? (.punctuation ':')).map fun d => do
    let (arg, d) ← outcome expression d
    .ok (args ++ [arg], d)
  result := id

def binaryLoop (level : List Lexeme) (tighter : List (List Lexeme)) (start : Nat) :
    Loop Expr Expr where
  round left c := (c.acceptAny? level).map fun (operation, d) => do
    let (right, d) ← outcome (fun n => binary n tighter) d
    .ok (.binary ⟨start, d.passed⟩ operation left right, d)
  result := id

def memberLoop (start : Nat) : Loop Expr Expr where
  round head c :=
    match c.next? with
    | some (.punctuation '.', d) => some do
      let (name, d) ← d.memberName
      .ok (.property ⟨start, d.passed⟩ head name, d)
    | some (.punctuation '[', d) => some do
      let (key, d) ← outcome expression d
      let d ← d.expect ']'
      .ok (.keyed ⟨start, d.passed⟩ head key, d)
    | some (.punctuation '(', d) => some do
      let (args, d) ← outcome callArgs d
      .ok (.call ⟨start, d.passed⟩ head args, d)
    | _ => none
  result := id

/-- Items up to the first one that no comma follows. Whether there is another one to come is carried
along with the items. -/
def listLoop {α : Type} (one : Cursor → Step (α × Cursor)) : Loop (Bool × List α) (List α) where
  round s c :=
    if s.1 then some do
      let (item, d) ← one c
      match d.accept? (.punctuation ',') with
      | none => .ok ((false, s.2 ++ [item]), d)
      | some e => .ok ((true, s.2 ++ [item]), e)
    else none
  result := Prod.snd

def entry (c : Cursor) : Step ((Key × Expr) × Cursor) := do
  let (key, d) ← c.entryKey
  let d ← d.expect ':'
  let (value, d) ← outcome expression d
  .ok ((key, value), d)

def chainLoop : Loop (Bool × List Expr) (List Expr) where
  round s c := c.next?.map fun (first, _) =>
    if first ∈ closers then c.fail (.unconsumed first.text)
    else do
      let (item, d) ← outcome filtered c
      let e := d.skipSemicolons
      let separated := decide (e.left < d.left)
      if (s.1 || separated) && item.isFilter then e.fail .filterInChain
      else
        match e.next? with
        | none => .ok ((s.1 || separated, s.2 ++ [item]), e)
        | some (other, _) =>
          if separated then .ok ((true, s.2 ++ [item]), e) else e.fail (.trailing other.text)
  result := Prod.snd

end Loops

/-! Each loop advances. -/

section Advances

theorem advances_semicolonLoop : semicolonLoop.Advances := by
  intro s c body begun
  obtain ⟨d, found, rfl⟩ := Option.map_eq_some_iff.1 begun
  have fewer := Cursor.accept?_left found
  exact ⟨Nat.zero_lt_of_lt fewer, fewer⟩

theorem advances_filterLoop (start : Nat) : (filterLoop start).Advances := by
  intro subject c body begun
  obtain ⟨d, found, rfl⟩ := Option.map_eq_some_iff.1 begun
  have fewer := Cursor.accept?_left found
  refine ⟨Nat.zero_lt_of_lt fewer, settled_bind (settled_filterName d) fun name d₁ fewer₁ => ?_⟩
  refine settled_bind (settled_outcome_filterArgs d₁) fun args d₂ fewer₂ => ?_
  change d₂.left < c.left
  omega

theorem advances_filterArgLoop : filterArgLoop.Advances := by
  intro args c body begun
  obtain ⟨d, found, rfl⟩ := Option.map_eq_some_iff.1 begun
  have fewer := Cursor.accept?_left found
  refine ⟨Nat.zero_lt_of_lt fewer, ?_⟩
  refine settled_bind (proceeds_expression.ends d).settled fun arg d₁ fewer₁ => ?_
  exact Nat.lt_trans fewer₁ fewer

theorem advances_binaryLoop (level : List Lexeme) {tighter : List (List Lexeme)}
    (few : tighter.length ≤ precedence.length) (start : Nat) :
    (binaryLoop level tighter start).Advances := by
  intro left c body begun
  obtain ⟨⟨operation, d⟩, found, rfl⟩ := Option.map_eq_some_iff.1 begun
  have fewer := Cursor.acceptAny?_left found
  refine ⟨Nat.zero_lt_of_lt fewer, ?_⟩
  refine settled_bind ((proceeds_binary few).ends d).settled fun right d₁ fewer₁ => ?_
  exact Nat.lt_trans fewer₁ fewer

theorem advances_memberLoop (start : Nat) : (memberLoop start).Advances := by
  intro head c body begun
  unfold memberLoop at begun
  dsimp only at begun
  split at begun
  · rename_i d found
    have fewer := Cursor.next?_left found
    cases begun
    refine ⟨Nat.zero_lt_of_lt fewer, settled_bind (settled_memberName d) fun name d₁ fewer₁ => ?_⟩
    exact Nat.lt_trans fewer₁ fewer
  · rename_i d found
    have fewer := Cursor.next?_left found
    cases begun
    refine ⟨Nat.zero_lt_of_lt fewer, ?_⟩
    refine settled_bind (proceeds_expression.ends d).settled fun key d₁ fewer₁ => ?_
    refine settled_expect d₁ ']' fun d₂ fewer₂ => ?_
    change d₂.left < c.left
    omega
  · rename_i d found
    have fewer := Cursor.next?_left found
    cases begun
    refine ⟨Nat.zero_lt_of_lt fewer, ?_⟩
    refine settled_bind (proceeds_callArgs.ends d).settled fun args d₁ fewer₁ => ?_
    exact Nat.lt_trans fewer₁ fewer
  · cases begun

theorem advances_chainLoop : chainLoop.Advances := by
  intro s c body begun
  obtain ⟨⟨first, d⟩, found, rfl⟩ := Option.map_eq_some_iff.1 begun
  refine ⟨Nat.zero_lt_of_lt (Cursor.next?_left found), ?_⟩
  dsimp only
  split
  · trivial
  · refine settled_bind (proceeds_filtered.ends c).settled fun item d₁ fewer => ?_
    have skipped := d₁.skipSemicolons_left
    dsimp only
    repeat' split
    · trivial
    · exact Nat.lt_of_le_of_lt skipped fewer
    · exact Nat.lt_of_le_of_lt skipped fewer
    · trivial

/-- As long as there is another item to come, one token is left to begin it with. -/
def itemsLeft {α : Type} (s : Bool × List α) (c : Cursor) : Nat := if s.1 then max 1 c.left else 0

theorem listLoop_less {α : Type} {one : Cursor → Step (α × Cursor)}
    (each : ∀ c, Settled c.left (one c)) (s : Bool × List α) (c : Cursor)
    (body : Step ((Bool × List α) × Cursor)) (begun : (listLoop one).round s c = some body) :
    0 < itemsLeft s c ∧ ∀ s' d, body = .ok (s', d) → itemsLeft s' d < itemsLeft s c := by
  obtain ⟨more, items⟩ := s
  unfold listLoop at begun
  cases more with
  | false => cases begun
  | true =>
    cases begun
    have positive : 0 < max 1 c.left := Nat.lt_of_lt_of_le Nat.zero_lt_one (Nat.le_max_left ..)
    refine ⟨positive, fun s' d ends => ?_⟩
    obtain ⟨⟨item, d₁⟩, done, ends⟩ := bind_eq_ok ends
    have fewer : d₁.left < c.left := by
      have settled := each c
      rwa [done] at settled
    dsimp only at ends
    split at ends
    · cases ends
      exact positive
    · rename_i e found
      have fewer₁ := Cursor.accept?_left found
      cases ends
      simp only [itemsLeft, if_true]
      omega

end Advances

theorem settled_entry (c : Cursor) : Settled c.left (entry c) := by
  refine settled_bind (settled_entryKey c) fun key d fewer => ?_
  refine settled_expect d ':' fun d₁ fewer₁ => ?_
  refine settled_bind (proceeds_expression.ends d₁).settled fun value d₂ fewer₂ => ?_
  change d₂.left < c.left
  omega

/-! Each loop repeats what its function does. -/

section Repeats

variable {α β : Type}

theorem bind_congr_settled {bound : Nat} {step : Step (α × Cursor)}
    {next next' : α × Cursor → Step β} (settled : Settled bound step)
    (same : ∀ a d, d.left < bound → next (a, d) = next' (a, d)) :
    step >>= next = step >>= next' := by
  match step, settled with
  | .ok (a, d), fewer => exact same a d fewer
  | .error (.fault _), _ => rfl

theorem expect_congr {c : Cursor} {mark : Char} {next next' : Cursor → Step β}
    (same : ∀ d, d.left < c.left → next d = next' d) :
    c.expect mark >>= next = c.expect mark >>= next' := by
  cases reached : c.expect mark with
  | error stop => rfl
  | ok d =>
    obtain ⟨t, -, passes⟩ := Cursor.expect_eq_ok_iff.1 reached
    exact same d (passes.lt (List.cons_ne_nil _ _))

theorem room_le {c d : Cursor} (fewer : d.left ≤ c.left) : d.room ≤ c.room := by
  unfold Cursor.room
  omega

theorem skipSemicolons_eq (c : Cursor) :
    c.skipSemicolons = ((c.accept? (.punctuation ';')).map Cursor.skipSemicolons).getD c := by
  obtain ⟨size, passed, ahead⟩ := c
  cases ahead with
  | nil => rfl
  | cons t ts =>
    have unfolded : Cursor.skipSemicolons ⟨size, passed, t :: ts⟩ =
        if t.lexeme = .punctuation ';' then Cursor.skipSemicolons ⟨size, t.stop, ts⟩
        else ⟨size, passed, t :: ts⟩ := rfl
    rw [unfolded]
    unfold Cursor.accept? Cursor.next?
    dsimp only
    split <;> rfl

theorem repeats_semicolonLoop :
    semicolonLoop.Repeats fun _ c => .ok ((), c.skipSemicolons) := by
  intro s c
  dsimp only [semicolonLoop]
  rw [skipSemicolons_eq c]
  cases c.accept? (.punctuation ';') <;> rfl

theorem repeats_filterLoop (start : Nat) :
    (filterLoop start).Repeats fun e => outcome fun n => filterTail n start e := by
  intro e c
  have unfolded : outcome (fun n => filterTail n start e) c =
      filterTail (c.room + 1) start e c := rfl
  dsimp only [filterLoop]
  rw [unfolded, filterTail]
  cases found : c.accept? (.operator "|") with
  | none => rfl
  | some d =>
    have fewer := Cursor.accept?_left found
    simp only [Option.map_some, bind_assoc]
    refine bind_congr_settled (settled_filterName d) fun name d₁ fewer₁ => ?_
    dsimp only
    rw [filterArgs_eq_outcome (room_le (by omega))]
    refine bind_congr_settled (settled_outcome_filterArgs d₁) fun args d₂ fewer₂ => ?_
    dsimp only
    exact filterTail_eq_outcome (room_le (by omega)) start _

def prepend (items : List α) (step : Step (List α × Cursor)) : Step (List α × Cursor) :=
  step.map fun found => (items ++ found.1, found.2)

theorem prepend_nil (step : Step (List α × Cursor)) : prepend [] step = step := by
  cases step <;> rfl

theorem prepend_bind (items : List α) (step : Step (β × Cursor))
    (next : β × Cursor → Step (List α × Cursor)) :
    prepend items (step >>= next) = step >>= fun found => prepend items (next found) := by
  cases step <;> rfl

theorem prepend_prepend (items later : List α) (step : Step (List α × Cursor)) :
    prepend items (prepend later step) = prepend (items ++ later) step := by
  cases step with
  | error stop => rfl
  | ok found => simp [prepend, Except.map]

theorem repeats_filterArgs :
    filterArgLoop.Repeats fun args c => prepend args (outcome filterArgs c) := by
  intro args c
  have unfolded : outcome filterArgs c = filterArgs (c.room + 1) c := rfl
  dsimp only [filterArgLoop]
  rw [unfolded, filterArgs]
  cases found : c.accept? (.punctuation ':') with
  | none =>
    dsimp only [prepend, Except.map, Option.map_none]
    rw [List.append_nil]
    rfl
  | some d =>
    have fewer := Cursor.accept?_left found
    simp only [Option.map_some, bind_assoc]
    rw [prepend_bind, proceeds_expression.settled (room_le (Nat.le_of_lt fewer))]
    refine bind_congr_settled (proceeds_expression.ends d).settled fun arg d₁ fewer₁ => ?_
    dsimp only
    rw [filterArgs_eq_outcome (room_le (by omega))]
    exact (prepend_prepend args [arg] (outcome filterArgs d₁)).symm ▸ rfl

theorem repeats_binaryTail (level : List Lexeme) {tighter : List (List Lexeme)}
    (few : tighter.length ≤ precedence.length) (start : Nat) :
    (binaryLoop level tighter start).Repeats fun e =>
      outcome fun n => binaryTail n level tighter start e := by
  intro e c
  have unfolded : outcome (fun n => binaryTail n level tighter start e) c =
      binaryTail (c.room + 1) level tighter start e c := rfl
  dsimp only [binaryLoop]
  rw [unfolded, binaryTail]
  cases found : c.acceptAny? level with
  | none => rfl
  | some accepted =>
    obtain ⟨operation, d⟩ := accepted
    have fewer := Cursor.acceptAny?_left found
    simp only [Option.map_some, bind_assoc]
    rw [(proceeds_binary few).settled (room_le (Nat.le_of_lt fewer))]
    refine bind_congr_settled ((proceeds_binary few).ends d).settled fun right d₁ fewer₁ => ?_
    dsimp only
    exact binaryTail_eq_outcome (room_le (by omega)) few level start _

theorem memberLoop_finished {start : Nat} {e : Expr} {c : Cursor}
    (other : ∀ mark d, mark ∈ ['.', '[', '('] → c.next? ≠ some (.punctuation mark, d)) :
    (memberLoop start).round e c = none := by
  unfold memberLoop
  dsimp only
  split
  · exact absurd ‹_› (other _ _ (by decide))
  · exact absurd ‹_› (other _ _ (by decide))
  · exact absurd ‹_› (other _ _ (by decide))
  · rfl

theorem repeats_memberTail (start : Nat) :
    (memberLoop start).Repeats fun e => outcome fun n => memberTail n start e := by
  intro e c
  have unfolded : outcome (fun n => memberTail n start e) c =
      memberTail (c.room + 1) start e c := rfl
  dsimp only
  rw [unfolded, memberTail]
  split
  · rename_i d found
    have fewer := Cursor.next?_left found
    simp only [memberLoop, found, bind_assoc]
    refine bind_congr_settled (settled_memberName d) fun name d₁ fewer₁ => ?_
    dsimp only
    exact memberTail_eq_outcome (room_le (by omega)) start _
  · rename_i d found
    have fewer := Cursor.next?_left found
    simp only [memberLoop, found, bind_assoc]
    rw [proceeds_expression.settled (room_le (Nat.le_of_lt fewer))]
    refine bind_congr_settled (proceeds_expression.ends d).settled fun key d₁ fewer₁ => ?_
    refine expect_congr fun d₂ fewer₂ => ?_
    dsimp only at fewer₂ ⊢
    exact memberTail_eq_outcome (room_le (by omega)) start _
  · rename_i d found
    have fewer := Cursor.next?_left found
    simp only [memberLoop, found, bind_assoc]
    rw [proceeds_callArgs.settled (room_le (Nat.le_of_lt fewer))]
    refine bind_congr_settled (proceeds_callArgs.ends d).settled fun args d₁ fewer₁ => ?_
    dsimp only
    exact memberTail_eq_outcome (room_le (by omega)) start _
  · rename_i unpointed unopened uncalled
    rw [memberLoop_finished]
    · rfl
    · intro mark d among found
      simp only [List.mem_cons, List.not_mem_nil, or_false] at among
      rcases among with rfl | rfl | rfl
      · exact unpointed d found
      · exact unopened d found
      · exact uncalled d found

theorem repeats_list {one : Cursor → Step (α × Cursor)} {all : Cursor → Step (List α × Cursor)}
    (unfolds : ∀ c, all c = one c >>= fun found =>
      match found.2.accept? (.punctuation ',') with
      | none => .ok ([found.1], found.2)
      | some e => all e >>= fun more => .ok (found.1 :: more.1, more.2)) :
    (listLoop one).Repeats fun s c => if s.1 then prepend s.2 (all c) else .ok (s.2, c) := by
  rintro ⟨more, items⟩ c
  cases more with
  | false => rfl
  | true =>
    simp only [listLoop, if_true, bind_assoc]
    rw [unfolds c, prepend_bind]
    refine bind_congr fun found => ?_
    split
    · rfl
    · rename_i e behind
      exact prepend_prepend items [found.1] (all e) ▸ rfl

theorem separated_congr {one one' : Cursor → Step (Expr × Cursor)}
    {more more' : Cursor → Step (List Expr × Cursor)} {c : Cursor} (first : one c = one' c)
    (settled : Settled c.left (one' c)) (rest : ∀ d, d.left < c.left → more d = more' d) :
    separated one more c = separated one' more' c := by
  unfold separated
  rw [first]
  refine bind_congr_settled settled fun item d fewer => ?_
  dsimp only
  cases found : d.accept? (.punctuation ',') with
  | none => rfl
  | some e =>
    have fewer₁ := Cursor.accept?_left found
    dsimp only
    rw [rest e (by omega)]

theorem repeats_arguments : (listLoop (outcome filtered)).Repeats fun s c =>
    if s.1 then prepend s.2 (outcome arguments c) else .ok (s.2, c) := by
  refine repeats_list fun c => ?_
  have unfolded : outcome arguments c = arguments (c.room + 1) c := rfl
  rw [unfolded, arguments_succ]
  exact separated_congr (proceeds_filtered.settled (Nat.le_refl _))
    (proceeds_filtered.ends c).settled fun d fewer =>
      proceeds_arguments.settled (room_le (Nat.le_of_lt fewer))

theorem repeats_elements : (listLoop (outcome expression)).Repeats fun s c =>
    if s.1 then prepend s.2 (outcome elements c) else .ok (s.2, c) := by
  refine repeats_list fun c => ?_
  have unfolded : outcome elements c = elements (c.room + 1) c := rfl
  rw [unfolded, elements_succ]
  exact separated_congr (proceeds_expression.settled (Nat.le_refl _))
    (proceeds_expression.ends c).settled fun d fewer =>
      proceeds_elements.settled (room_le (Nat.le_of_lt fewer))

theorem repeats_entries : (listLoop entry).Repeats fun s c =>
    if s.1 then prepend s.2 (outcome entries c) else .ok (s.2, c) := by
  refine repeats_list fun c => ?_
  have unfolded : outcome entries c = entries (c.room + 1) c := rfl
  rw [unfolded, entries]
  unfold entry
  simp only [bind_assoc]
  refine bind_congr_settled (settled_entryKey c) fun key d fewer => ?_
  refine expect_congr fun d₁ fewer₁ => ?_
  dsimp only at fewer₁ ⊢
  rw [proceeds_expression.settled (room_le (by omega))]
  refine bind_congr_settled (proceeds_expression.ends d₁).settled fun value d₂ fewer₂ => ?_
  change _ = match d₂.accept? (.punctuation ',') with
    | none => Except.ok ([(key, value)], d₂)
    | some e => outcome entries e >>= fun more => .ok ((key, value) :: more.1, more.2)
  cases found : d₂.accept? (.punctuation ',') with
  | none => rfl
  | some e =>
    have fewer₃ := Cursor.accept?_left found
    dsimp only
    rw [proceeds_entries.settled (room_le (by omega))]

end Repeats

section Chains

theorem persists_chainItems (n : Nat) (chained : Bool) (c : Cursor) :
    Persists c (chainItems n chained c) (chainItems (n + 1) chained c) := by
  induction n generalizing chained c with
  | zero => exact .cut
  | succ n ih =>
    unfold chainItems
    split
    · exact persists_here ..
    · split
      · exact persists_fail ..
      · refine ((persisting n).filtered c).bind fun item d => ?_
        obtain ⟨ss, -, passes⟩ := d.passes_skipSemicolons
        refine .behind passes ?_
        dsimp only
        repeat' split
        · exact persists_fail ..
        · exact persists_here ..
        · exact (ih true d.skipSemicolons).bind fun items f => persists_here ..
        · exact persists_fail ..

theorem chainItems_eq_outcome {n : Nat} {c : Cursor} (room : c.room ≤ n) (chained : Bool) :
    chainItems n chained c = outcome (fun n => chainItems n chained) c :=
  eq_outcome (fun n => persists_chainItems n chained) 1
    (fun n c room => settled_chainItems n chained c (by omega)) room

theorem prepend_ended (items : List Expr) (chained : Bool) {c : Cursor} (ended : c.next? = none) :
    prepend items (outcome (fun n => chainItems n chained) c) = .ok (items, c) := by
  have unfolded : outcome (fun n => chainItems n chained) c =
      chainItems (c.room + 1) chained c := rfl
  rw [unfolded, chainItems, ended]
  dsimp only [prepend, Except.map]
  rw [List.append_nil]

theorem repeats_chainItems :
    chainLoop.Repeats fun s c => prepend s.2 (outcome (fun n => chainItems n s.1) c) := by
  rintro ⟨chained, items⟩ c
  have unfolded : outcome (fun n => chainItems n chained) c =
      chainItems (c.room + 1) chained c := rfl
  dsimp only [chainLoop]
  cases next : c.next? with
  | none => exact prepend_ended items chained next
  | some found =>
    rw [unfolded, chainItems, next]
    simp only [Option.map_some]
    split
    · rfl
    · simp only [prepend_bind, bind_assoc]
      rw [proceeds_filtered.settled (Nat.le_refl _)]
      refine bind_congr_settled (proceeds_filtered.ends c).settled fun item d₁ fewer => ?_
      have skipped := d₁.skipSemicolons_left
      dsimp only
      split
      · rfl
      · cases ended : d₁.skipSemicolons.next? with
        | none => exact (prepend_ended (items ++ [item]) _ ended).symm
        | some other =>
          dsimp only
          split
          · rw [chainItems_eq_outcome (room_le (by omega))]
            exact prepend_prepend items [item] _ ▸ rfl
          · rfl

theorem persists_chain (n : Nat) (c : Cursor) : Persists c (chain n c) (chain (n + 1) c) := by
  unfold chain
  obtain ⟨ss, -, passes⟩ := c.passes_skipSemicolons
  refine .behind passes ((persists_chainItems n _ c.skipSemicolons).bind fun items d => ?_)
  dsimp only
  split <;> exact persists_here ..

theorem chain_eq {n : Nat} {c : Cursor} (room : allowance c ≤ n) :
    chain n c = chain (allowance c) c := by
  induction room with
  | refl => rfl
  | @step n room ih => exact ((persists_chain n c).eq_of_settled (ih ▸ settled_chain c)).trans ih

end Chains

theorem runs_list {α : Type} {one : Cursor → Step (α × Cursor)}
    {all : Cursor → Step (List α × Cursor)} (each : ∀ c, Settled c.left (one c))
    (repeats : (listLoop one).Repeats fun s c =>
      if s.1 then prepend s.2 (all c) else .ok (s.2, c)) (c : Cursor) :
    ∃ rounds ≤ max 1 c.left, (listLoop one).Runs (true, []) c rounds (all c) := by
  have runs := repeats.runs itemsLeft (listLoop_less each) (true, []) c
  simp only [if_true, prepend_nil] at runs
  exact runs

/-- The descent over any tokens ahead: what its functions do, and how often its loops go around
wherever the allowance is enough. -/
structure Descends : Prop where
  filtered : Proceeds filtered
  expression : Proceeds expression
  conditional : Proceeds conditional
  binary : ∀ levels, levels <:+ precedence → Proceeds fun n => binary n levels
  prefixed : Proceeds prefixed
  member : Proceeds member
  primary : Proceeds primary
  semicolons : ∀ c, ∃ rounds ≤ c.left, semicolonLoop.Runs () c rounds (.ok ((), c.skipSemicolons))
  chain : ∀ n c, c.room ≤ n → ∀ chained, ∃ rounds ≤ c.left,
    chainLoop.Runs (chained, []) c rounds (chainItems n chained c)
  filters : ∀ n c, c.room ≤ n → ∀ start e, ∃ rounds ≤ c.left,
    (filterLoop start).Runs e c rounds (filterTail n start e c)
  filterArgs : ∀ n c, c.room ≤ n → ∃ rounds ≤ c.left,
    filterArgLoop.Runs [] c rounds (filterArgs n c)
  operators : ∀ n c, c.room ≤ n → ∀ level tighter, level :: tighter <:+ precedence →
    ∀ start e, ∃ rounds ≤ c.left,
      (binaryLoop level tighter start).Runs e c rounds (binaryTail n level tighter start e c)
  members : ∀ n c, c.room ≤ n → ∀ start e, ∃ rounds ≤ c.left,
    (memberLoop start).Runs e c rounds (memberTail n start e c)
  /-- The lists begin behind their opening mark. At the end of the text the first item is tried all
  the same, and that is where it fails. -/
  arguments : ∀ n c, c.room ≤ n → ∃ rounds ≤ max 1 c.left,
    (listLoop (outcome Grammar.filtered)).Runs (true, []) c rounds (arguments n c)
  elements : ∀ n c, c.room ≤ n → ∃ rounds ≤ max 1 c.left,
    (listLoop (outcome Grammar.expression)).Runs (true, []) c rounds (elements n c)
  entries : ∀ n c, c.room ≤ n → ∃ rounds ≤ max 1 c.left,
    (listLoop entry).Runs (true, []) c rounds (entries n c)
  opened : ∀ (c d : Cursor) mark, c.accept? (.punctuation mark) = some d → max 1 d.left ≤ c.left
  whole : ∀ n c, allowance c ≤ n → Grammar.chain n c = Grammar.chain (allowance c) c
  ends : ∀ c, Ends 0 c (Grammar.chain (allowance c) c)
  parse : ∀ source n, let c := Cursor.start (Text.byteSize source) (tokens source)
    allowance c ≤ n → lexicalError? (tokens source) = none →
      (∃ e d, Grammar.chain n c = .ok (e, d) ∧ Expr.parse source = .ok e) ∨
        ∃ fault, Grammar.chain n c = .error (.fault fault) ∧
          Expr.parse source = .error (.grammatical fault)

theorem parse_cases {source : Text} {n : Nat}
    (room : allowance (Cursor.start (Text.byteSize source) (tokens source)) ≤ n)
    (valid : lexicalError? (tokens source) = none) :
    let c := Cursor.start (Text.byteSize source) (tokens source)
    (∃ e d, chain n c = .ok (e, d) ∧ Expr.parse source = .ok e) ∨
      ∃ fault, chain n c = .error (.fault fault) ∧
        Expr.parse source = .error (.grammatical fault) := by
  intro c
  rw [chain_eq room]
  unfold Expr.parse
  dsimp only
  rw [valid]
  dsimp only
  cases run : wholeText c with
  | ok e =>
    obtain ⟨d, found⟩ := wholeText_eq_ok_iff.1 run
    exact .inl ⟨e, d, found, rfl⟩
  | error fault => exact .inr ⟨fault, wholeText_eq_error_iff.1 run, rfl⟩

/-- The descent comes to an end on any tokens, and each of its loops is begun at most once for every
token that is left. -/
theorem descent_descends : Descends where
  filtered := proceeds_filtered
  expression := proceeds_expression
  conditional := proceeds_conditional
  binary _ suffix := proceeds_binary suffix.length_le
  prefixed := proceeds_prefixed
  member := proceeds_member
  primary := proceeds_primary
  semicolons c := repeats_semicolonLoop.runs_left advances_semicolonLoop () c
  chain n c room chained := by
    have runs := repeats_chainItems.runs_left advances_chainLoop (chained, []) c
    rwa [prepend_nil, ← chainItems_eq_outcome room] at runs
  filters n c room start e := by
    rw [filterTail_eq_outcome room]
    exact (repeats_filterLoop start).runs_left (advances_filterLoop start) e c
  filterArgs n c room := by
    have runs := repeats_filterArgs.runs_left advances_filterArgLoop [] c
    rwa [prepend_nil, ← filterArgs_eq_outcome room] at runs
  operators n c room level tighter suffix start e := by
    have few : tighter.length ≤ precedence.length :=
      Nat.le_of_succ_le suffix.length_le
    rw [binaryTail_eq_outcome room few]
    exact (repeats_binaryTail level few start).runs_left (advances_binaryLoop level few start) e c
  members n c room start e := by
    rw [memberTail_eq_outcome room]
    exact (repeats_memberTail start).runs_left (advances_memberLoop start) e c
  arguments n c room := by
    rw [proceeds_arguments.settled room]
    exact runs_list (fun c => (proceeds_filtered.ends c).settled) repeats_arguments c
  elements n c room := by
    rw [proceeds_elements.settled room]
    exact runs_list (fun c => (proceeds_expression.ends c).settled) repeats_elements c
  entries n c room := by
    rw [proceeds_entries.settled room]
    exact runs_list settled_entry repeats_entries c
  opened c d mark found := by
    have fewer := Cursor.accept?_left found
    omega
  whole n c room := chain_eq room
  ends c := (persists_chain (allowance c) c).ends (settled_chain c) (Nat.le_refl _)
  parse source n room valid := parse_cases room valid

end TemplateBinding.Grammar
