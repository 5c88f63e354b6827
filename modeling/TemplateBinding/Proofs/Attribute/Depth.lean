import TemplateBinding.Proofs.Attribute.Commits
import TemplateBinding.Proofs.Attribute.Scanning

/-! Options inside of options come to an end. Each segment has a colon of its own in front of its
value, which is why there is a bound on how deep they go: the colons of the outermost value. -/
namespace TemplateBinding

namespace Segments

theorem split_fewer {value : Text} {segment : Text × Text} (member : segment ∈ split value) :
    segment.2.count ':' < value.count ':' := by
  have fewer {part : Text} (unbroken : ';' ∉ part) (member : segment ∈ split part) :
      segment.2.count ':' < part.count ':' := by
    rw [split_part unbroken, Option.mem_toList] at member
    by_cases coloned : ':' ∈ part
    · obtain ⟨key, inner, rfl, uncoloned⟩ := List.eq_append_cons_of_mem coloned
      rw [keyed?_append uncoloned] at member
      cases member
      have whole : (key ++ ':' :: inner).count ':' = key.count ':' + (inner.count ':' + 1) := by
        rw [List.count_append, List.count_cons_self]
      exact whole ▸ Nat.lt_add_left _ (Nat.lt_succ_self _)
    · rw [keyed?, if_neg coloned] at member
      cases member
  induction value using induction_parts with
  | last part unbroken => exact fewer unbroken member
  | more part rest unbroken ih =>
    rw [split, splitFrom_append] at member
    have whole : (part ++ ';' :: rest).count ':' = part.count ':' + rest.count ':' := by
      rw [List.count_append, List.count_cons_of_ne (by decide)]
    rw [whole]
    rcases List.mem_append.1 member with here | later
    · exact Nat.lt_add_right _ (fewer unbroken here)
    · exact Nat.lt_add_left _ (ih later)

theorem scan_congr {σ ε : Type} {deliver deliver' : σ → Text × Text → Except ε σ} {value : Text}
    (same : ∀ state segment, segment.2.length < value.length →
      segment.2.count ':' < value.count ':' → deliver state segment = deliver' state segment)
    (start : σ) : scan deliver start value = scan deliver' start value := by
  have folded {segments : List (Text × Text)} (inside : ∀ s ∈ segments, s ∈ split value)
      (state : σ) : segments.foldlM deliver state = segments.foldlM deliver' state := by
    induction segments generalizing state with
    | nil => rfl
    | cons segment segments ih =>
      obtain ⟨first, others⟩ := List.forall_mem_cons.1 inside
      rw [List.foldlM_cons, List.foldlM_cons, same state segment (split_shorter first)
        (split_fewer first)]
      exact bind_congr fun next => ih others next
  rw [scan, scan, scanFrom_eq, scanFrom_eq]
  exact folded (fun _ member => member) start

end Segments

/-! Options as a scan. What is handed to it writes a segment and says whether to go on. -/

def handing (write : Text × Text → Writing Unit) (state : Instruction × List Record)
    (segment : Text × Text) : Except (List Record × BindingError) (Instruction × List Record) :=
  let written := write segment state.1
  match written.2.result with
  | .ok () => .ok (written.1, state.2 ++ written.2.log)
  | .error e => .error (state.2 ++ written.2.log, e)

def gathered : Except (List Record × BindingError) (Instruction × List Record) →
    Interpreting Instruction
  | .ok (i, log) => ⟨log, .ok i⟩
  | .error (log, e) => ⟨log, .error e⟩

theorem foldlM_handing (write : Text × Text → Writing Unit) (segments : List (Text × Text))
    (i : Instruction) (log : List Record) :
    segments.foldlM (handing write) (i, log) =
      let written := segments.forM write i
      match written.2.result with
      | .ok () => .ok (written.1, log ++ written.2.log)
      | .error e => .error (log ++ written.2.log, e) := by
  induction segments generalizing i log with
  | nil => exact congrArg (fun log => Except.ok (i, log)) (List.append_nil log).symm
  | cons segment segments ih =>
    have unfolded : (segment :: segments).forM write =
        (write segment).andThen fun _ => segments.forM write := rfl
    rw [List.foldlM_cons, unfolded]
    cases outcome : (write segment i).2.result with
    | error e =>
      have refused : handing write (i, log) segment =
          .error (log ++ (write segment i).2.log, e) := by
        simp only [handing, outcome]
      rw [refused]
      simp only [Writing.andThen, outcome]
      rfl
    | ok done =>
      have accepted : handing write (i, log) segment =
          .ok ((write segment i).1, log ++ (write segment i).2.log) := by
        simp only [handing, outcome]
      rw [accepted]
      simp only [Writing.andThen, outcome, ← List.append_assoc]
      exact ih ..

theorem collect_eq_scan (name value : Text) (write : Text × Text → Writing Unit) :
    collect name value (fun s _ => write s) =
      gathered (Segments.scan (handing write) (Instruction.empty name, []) value) := by
  have all : ((Segments.split value).attach.forM fun s => write s.1) =
      (Segments.split value).forM write := by
    have mapped (members : List { s // s ∈ Segments.split value }) :
        (members.forM fun s => write s.1) = (members.map Subtype.val).forM write := by
      induction members with
      | nil => rfl
      | cons s members ih => exact congrArg (fun later => (write s.1).andThen fun _ => later) ih
    rw [mapped, List.attach_map_subtype_val]
  have unfolded : collect name value (fun s _ => write s) =
      Writing.extend ((Segments.split value).attach.forM fun s => write s.1) (.empty name) := rfl
  rw [Segments.scan, Segments.scanFrom_eq, foldlM_handing, unfolded, all, Segments.split]
  unfold Writing.extend
  generalize (Segments.splitFrom none [] value).forM write (.empty name) = written
  obtain ⟨i, log, result⟩ := written
  cases result <;> simp [Run.bind_eq, Run.andThen, Run.pure_eq, gathered]

/-! How deep it goes. -/

def Calls (caller callee : Text × Text) : Prop :=
  ∃ inner, splitCommand? caller.1 = some (inner, Command.options.keyword) ∧
    callee ∈ Segments.split caller.2

theorem Calls.shorter {caller callee : Text × Text} (calls : Calls caller callee) :
    callee.2.length < caller.2.length := by
  obtain ⟨inner, -, member⟩ := calls
  exact Segments.split_shorter member

theorem calls_wellFounded : WellFounded fun callee caller => Calls caller callee :=
  Subrelation.wf Calls.shorter (measure fun caller : Text × Text => caller.2.length).wf

theorem calls_length_le {first : Text × Text} {calls : List (Text × Text)}
    (chain : List.IsChain Calls (first :: calls)) : calls.length ≤ first.2.count ':' := by
  induction calls generalizing first with
  | nil => exact Nat.zero_le _
  | cons call calls ih =>
    obtain ⟨⟨inner, -, member⟩, later⟩ := List.isChain_cons_cons.1 chain
    exact Nat.succ_le_of_lt (Nat.lt_of_le_of_lt (ih later) (Segments.split_fewer member))

/-- Writes an attribute as long as no more than some attributes lie inside of one another. What
lies deeper is left to `beyond`. -/
def writeWithin (ctx : Context) (beyond : Text → Text → Writing Unit) :
    Nat → Text → Text → Writing Unit
  | 0, name, value => beyond name value
  | depth + 1, name, value =>
    match splitCommand? name with
    | some (inner, command) =>
      interpretIntoWith ctx command inner value fun segment _ =>
        writeWithin ctx beyond depth segment.1 segment.2
    | none => writePlain ctx name value

theorem writeWithin_eq (ctx : Context) (beyond : Text → Text → Writing Unit) {depth : Nat}
    {name value : Text} (enough : value.count ':' < depth) :
    writeWithin ctx beyond depth name value = writeAttribute ctx name value := by
  induction depth generalizing name value with
  | zero => exact absurd enough (Nat.not_lt_zero _)
  | succ depth ih =>
    rw [writeWithin, writeAttribute]
    have segments : (fun segment (_ : segment ∈ Segments.split value) =>
        writeWithin ctx beyond depth segment.1 segment.2) =
          fun segment _ => writeAttribute ctx segment.1 segment.2 := by
      funext segment member
      have fewer := Segments.split_fewer member
      exact ih (by omega)
    cases splitCommand? name with
    | none => rfl
    | some part => exact congrArg (interpretIntoWith ctx part.2 part.1 value) segments

theorem writeSegment_within (ctx : Context) (beyond : Text → Text → Writing Unit) (value : Text) :
    (fun s (_ : s ∈ Segments.split value) =>
      writeWithin ctx beyond (value.count ':') s.1 s.2) = writeSegment ctx value := by
  funext s member
  exact writeWithin_eq ctx beyond (Segments.split_fewer member)

theorem Run.bind_congr_ok {ε α β : Type} {r : Run ε α} {next next' : α → Run ε β}
    (same : ∀ a, r.result = .ok a → next a = next' a) : r >>= next = r >>= next' := by
  obtain ⟨log, result⟩ := r
  cases result with
  | error e => rfl
  | ok a => simp only [Run.bind_eq, Run.andThen, same a rfl]

theorem Writing.bind_congr_ok {α β : Type} {r : Interpreting α} {next next' : α → Writing β}
    (same : ∀ a, r.result = .ok a → next a = next' a) :
    Writing.ofRun r >>= next = Writing.ofRun r >>= next' := by
  funext i
  obtain ⟨log, result⟩ := r
  cases result with
  | error e => rfl
  | ok a => simp only [Writing.bind_ofRun, same a rfl]

section Commands

variable (ctx : Context) {keyword : Text} (name value : Text)
  (other : keyword ≠ Command.options.keyword) (write write' : SegmentWriter value)
include other

theorem interpretIntoWith_unsegmented :
    interpretIntoWith ctx keyword name value write =
      interpretIntoWith ctx keyword name value write' := by
  refine Writing.bind_congr_ok fun found known => ?_
  cases found with
  | none => rfl
  | some command =>
    have known := (Command.ofKeyword?_eq_some_iff keyword _).1 (resolve_result.1 known)
    cases command with
    | property | trigger | delegate | ref => rfl
    | options => exact absurd known.symm other

theorem interpretWith_unsegmented (existing : Option Instruction) :
    interpretWith ctx keyword name value write existing =
      interpretWith ctx keyword name value write' existing := by
  refine Run.bind_congr_ok fun found known => ?_
  cases found with
  | none => rfl
  | some command =>
    have known := (Command.ofKeyword?_eq_some_iff keyword _).1 (resolve_result.1 known)
    cases command with
    | property | trigger | delegate | ref => rfl
    | options => exact absurd known.symm other

end Commands

/-- Why the interpretation of an attribute comes to an end, and after how many steps down. -/
structure Terminates (ctx : Context) : Prop where
  scanned : ∀ name value, collect name value (writeSegment ctx value) =
    gathered (Segments.scan (handing fun s => writeAttribute ctx s.1 s.2)
      (Instruction.empty name, []) value)
  /-- It does not matter what a scan is told about values that are not shorter, or that have as
  many colons. -/
  handed : ∀ {σ ε : Type} (deliver deliver' : σ → Text × Text → Except ε σ) (value : Text),
    (∀ state s, s.2.length < value.length → s.2.count ':' < value.count ':' →
      deliver state s = deliver' state s) →
    ∀ start, Segments.scan deliver start value = Segments.scan deliver' start value
  others : ∀ keyword name value (write write' : SegmentWriter value),
    keyword ≠ Command.options.keyword →
      interpretIntoWith ctx keyword name value write =
          interpretIntoWith ctx keyword name value write' ∧
        ∀ existing, interpretWith ctx keyword name value write existing =
          interpretWith ctx keyword name value write' existing
  shorter : ∀ caller callee, Calls caller callee → callee.2.length < caller.2.length
  founded : WellFounded fun callee caller => Calls caller callee
  chained : ∀ first calls, List.IsChain Calls (first :: calls) →
    (first :: calls).length ≤ first.2.count ':' + 1
  /-- What would be done below that depth does not matter. -/
  written : ∀ beyond name value,
    writeWithin ctx beyond (value.count ':' + 1) name value = writeAttribute ctx name value
  interpreted : ∀ beyond keyword name value existing,
    interpretWith ctx keyword name value
        (fun s _ => writeWithin ctx beyond (value.count ':') s.1 s.2) existing =
      interpret ctx keyword name value existing
  interpretedInto : ∀ beyond keyword name value target,
    (interpretIntoWith ctx keyword name value
        fun s _ => writeWithin ctx beyond (value.count ':') s.1 s.2).update target =
      interpretInto ctx keyword name value target

/-- Attributes inside of attributes come to an end, at most as many steps down as there are colons
in the value. -/
theorem interpret_terminates (ctx : Context) : Terminates ctx where
  scanned name value := collect_eq_scan name value fun s => writeAttribute ctx s.1 s.2
  handed _ _ _ same start := Segments.scan_congr same start
  others _ name value write write' other :=
    ⟨interpretIntoWith_unsegmented ctx name value other write write',
      interpretWith_unsegmented ctx name value other write write'⟩
  shorter _ _ := Calls.shorter
  founded := calls_wellFounded
  chained _ _ chain := Nat.succ_le_succ (calls_length_le chain)
  written beyond _ _ := writeWithin_eq ctx beyond (Nat.lt_succ_self _)
  interpreted beyond keyword name value existing := by
    rw [writeSegment_within, interpret]
  interpretedInto beyond keyword name value target := by
    rw [writeSegment_within, interpretInto]

def optionsName : Text := "a.options"

def nestedOptions : Nat → Text
  | 0 => []
  | n + 1 => optionsName ++ ':' :: nestedOptions n

theorem split_nestedOptions (n : Nat) :
    Segments.split (nestedOptions (n + 1)) = [(optionsName, nestedOptions n)] := by
  have name : ';' ∉ optionsName ∧ ':' ∉ optionsName ∧ Text.trim optionsName = optionsName := by
    decide +kernel
  have unbroken (n : Nat) : ';' ∉ nestedOptions n := by
    induction n with
    | zero => exact List.not_mem_nil
    | succ n ih =>
      rw [nestedOptions, List.mem_append, List.mem_cons, not_or, not_or]
      exact ⟨name.1, by decide, ih⟩
  rw [Segments.split_part (unbroken (n + 1)), nestedOptions, Segments.keyed?_append name.2.1,
    name.2.2]
  rfl

/-- For every number of colons there is a value that is as deep as it can be. -/
theorem exists_calls (n : Nat) :
    ∃ value calls, value.count ':' = n ∧ calls.length = n ∧
      List.IsChain Calls ((optionsName, value) :: calls) := by
  have isOptions : splitCommand? optionsName = some (['a'], Command.options.keyword) := by
    decide +kernel
  suffices ∃ calls, (nestedOptions n).count ':' = n ∧ calls.length = n ∧
      List.IsChain Calls ((optionsName, nestedOptions n) :: calls) from ⟨nestedOptions n, this⟩
  induction n with
  | zero => exact ⟨[], rfl, rfl, .singleton _⟩
  | succ n ih =>
    obtain ⟨calls, colons, length, chain⟩ := ih
    have inside : (optionsName, nestedOptions n) ∈ Segments.split (nestedOptions (n + 1)) := by
      rw [split_nestedOptions]
      exact List.mem_singleton_self _
    refine ⟨(optionsName, nestedOptions n) :: calls, ?_, congrArg Nat.succ length, ?_⟩
    · have uncoloned : optionsName.count ':' = 0 := by decide +kernel
      rw [nestedOptions, List.count_append, List.count_cons_self, colons, uncoloned, Nat.zero_add]
    · exact List.isChain_cons_cons.2 ⟨⟨['a'], isOptions, inside⟩, chain⟩

end TemplateBinding
