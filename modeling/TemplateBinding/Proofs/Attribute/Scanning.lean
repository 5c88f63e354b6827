import Mathlib.Data.List.Basic
import TemplateBinding.Attribute.Segments

/-! What one pass over a compound value comes to. The value falls apart at its semicolons, and each
part with a colon in it falls apart at the first one. What is found is handed on in order, until
something is refused. -/
namespace TemplateBinding.Segments

def keyed? (part : Text) : Option (Text × Text) :=
  if ':' ∈ part then
    some (Text.trim (part.takeWhile (· ≠ ':')), (part.dropWhile (· ≠ ':')).tail)
  else none

def reading (value : Text) : List (Text × Text) := (value.splitOn ';').filterMap keyed?

section Delivery

variable {σ ε : Type} (deliver : σ → Text × Text → Except ε σ)

/-- `Delivers deliver s calls r`: the calls are made one after another from the state `s` on, each
in the state that the one before it leaves. A call that is refused is the last one, and its error
is the outcome. The state in which it leaves things is a part of its error. -/
inductive Delivers : σ → List (Text × Text) → Except ε σ → Prop
  | done {s} : Delivers s [] (.ok s)
  | accepted {s s' call calls r} :
      deliver s call = .ok s' → Delivers s' calls r → Delivers s (call :: calls) r
  | refused {s call calls e} : deliver s call = .error e → Delivers s (call :: calls) (.error e)

theorem delivers_foldlM (s : σ) (calls : List (Text × Text)) :
    Delivers deliver s calls (calls.foldlM deliver s) := by
  induction calls generalizing s with
  | nil => exact .done
  | cons call calls ih =>
    rw [List.foldlM_cons]
    cases outcome : deliver s call with
    | error e => exact .refused outcome
    | ok s' => exact .accepted outcome (ih s')

theorem scanFrom_eq (s : σ) (key : Option Text) (read value : Text) :
    scanFrom deliver s key read value = (splitFrom key read value).foldlM deliver s := by
  have handed (s : σ) (key : Option Text) (read : Text) :
      handOn deliver s key read = (flush key read).foldlM deliver s := by
    cases key with
    | none => rfl
    | some key =>
      rw [flush, List.foldlM_cons, handOn]
      cases deliver s (key, read.reverse) <;> rfl
  induction value generalizing s key read with
  | nil => exact handed s key read
  | cons c cs ih =>
    unfold scanFrom splitFrom
    split
    · rw [List.foldlM_append, ← handed]
      exact bind_congr fun next => ih next none []
    · split
      · exact ih s _ []
      · exact ih s key _

end Delivery

theorem splitFrom_kept {key : Option Text} {read t : Text}
    (plain : ∀ c ∈ t, c ≠ ';' ∧ (c = ':' → key ≠ none)) (rest : Text) :
    splitFrom key read (t ++ rest) = splitFrom key (t.reverse ++ read) rest := by
  induction t generalizing read with
  | nil => rfl
  | cons c cs ih =>
    obtain ⟨first, others⟩ := List.forall_mem_cons.1 plain
    have closed : ¬ (c = ':' ∧ key = none) := fun both => first.2 both.1 both.2
    rw [List.cons_append, splitFrom, if_neg first.1, if_neg closed, ih others]
    simp

theorem splitFrom_key {part : Text} (uncoloned : ':' ∉ part) (unbroken : ';' ∉ part)
    (rest : Text) : splitFrom none [] (part ++ rest) = splitFrom none part.reverse rest := by
  rw [splitFrom_kept, List.append_nil]
  intro c member
  constructor
  · rintro rfl
    exact unbroken member
  · rintro rfl
    exact absurd member uncoloned

theorem splitFrom_value (key : Text) {value : Text} (unbroken : ';' ∉ value) :
    splitFrom (some key) [] value = [(key, value)] := by
  have kept : ∀ c ∈ value, c ≠ ';' ∧ (c = ':' → some key ≠ none) := fun c member =>
    ⟨fun same => unbroken (same ▸ member), fun _ => Option.some_ne_none key⟩
  calc
    splitFrom (some key) [] value = splitFrom (some key) [] (value ++ []) := by
      rw [List.append_nil]
    _ = splitFrom (some key) (value.reverse ++ []) [] := splitFrom_kept kept []
    _ = [(key, value)] := by rw [splitFrom, flush, List.append_nil, List.reverse_reverse]

theorem keyed?_append {key : Text} (uncoloned : ':' ∉ key) (value : Text) :
    keyed? (key ++ ':' :: value) = some (Text.trim key, value) := by
  have before : ∀ c ∈ key, decide (c ≠ ':') = true := fun c member =>
    decide_eq_true fun same => uncoloned (same ▸ member)
  unfold keyed?
  rw [if_pos (List.mem_append_right key List.mem_cons_self),
    List.takeWhile_append_of_pos before, List.dropWhile_append_of_pos before]
  simp

theorem split_part {part : Text} (unbroken : ';' ∉ part) : split part = (keyed? part).toList := by
  by_cases coloned : ':' ∈ part
  · obtain ⟨key, value, rfl, uncoloned⟩ := List.eq_append_cons_of_mem coloned
    rw [List.mem_append, List.mem_cons, not_or, not_or] at unbroken
    have opened : (':' : Char) ≠ ';' := by decide
    rw [split, splitFrom_key uncoloned unbroken.1, splitFrom, if_neg opened, if_pos ⟨rfl, rfl⟩,
      List.reverse_reverse, splitFrom_value _ unbroken.2.2, keyed?_append uncoloned]
    rfl
  · have kept := splitFrom_key coloned unbroken []
    rw [List.append_nil] at kept
    rw [split, kept, keyed?, if_neg coloned]
    rfl

theorem splitFrom_append (key : Option Text) (read a b : Text) :
    splitFrom key read (a ++ ';' :: b) = splitFrom key read a ++ split b := by
  fun_induction splitFrom key read a with
  | case1 key read => rw [List.nil_append, splitFrom, if_pos rfl, split]
  | case2 key read cs ih => rw [List.cons_append, splitFrom, if_pos rfl, ih, List.append_assoc]
  | case3 key read c cs other opened ih =>
    rw [List.cons_append, splitFrom, if_neg other, if_pos opened, ih]
  | case4 key read c cs other unopened ih =>
    rw [List.cons_append, splitFrom, if_neg other, if_neg unopened, ih]

theorem reading_part {part : Text} (unbroken : ';' ∉ part) :
    reading part = (keyed? part).toList := by
  rw [reading, List.splitOn_eq_singleton unbroken]
  cases found : keyed? part <;> simp [found]

theorem reading_append (a b : Text) : reading (a ++ ';' :: b) = reading a ++ reading b := by
  rw [reading, List.splitOn_append_cons_self, List.filterMap_append]
  rfl

theorem induction_parts {motive : Text → Prop} (last : ∀ part, ';' ∉ part → motive part)
    (more : ∀ part rest, ';' ∉ part → motive rest → motive (part ++ ';' :: rest))
    (value : Text) : motive value := by
  by_cases broken : ';' ∈ value
  · obtain ⟨part, rest, rfl, unbroken⟩ := List.eq_append_cons_of_mem broken
    have shorter : rest.length < (part ++ ';' :: rest).length := by simp; omega
    exact more part rest unbroken (induction_parts last more rest)
  · exact last value broken
termination_by value.length

theorem split_eq_reading (value : Text) : split value = reading value := by
  induction value using induction_parts with
  | last part unbroken => rw [split_part unbroken, reading_part unbroken]
  | more part rest unbroken ih =>
    rw [split, splitFrom_append, ← split, split_part unbroken, ih, reading_append,
      reading_part unbroken]

theorem split_free {value : Text} {segment : Text × Text} (member : segment ∈ split value) :
    ';' ∉ segment.2 := by
  have free {part : Text} (unbroken : ';' ∉ part) (member : segment ∈ split part) :
      ';' ∉ segment.2 := by
    rw [split_part unbroken, Option.mem_toList] at member
    unfold keyed? at member
    split at member
    · cases member
      exact fun inside => unbroken ((List.dropWhile_sublist _).subset (List.mem_of_mem_tail inside))
    · cases member
  induction value using induction_parts with
  | last part unbroken => exact free unbroken member
  | more part rest unbroken ih =>
    rw [split, splitFrom_append] at member
    exact (List.mem_append.1 member).elim (free unbroken) ih

structure Writable (pair : Text × Text) : Prop where
  trimmed : Text.trim pair.1 = pair.1
  uncoloned : ':' ∉ pair.1
  unbroken : ';' ∉ pair.1 ∧ ';' ∉ pair.2

def written (pair : Text × Text) : Text := pair.1 ++ ':' :: pair.2

theorem Writable.keyed? {pair : Text × Text} (writable : Writable pair) :
    keyed? (written pair) = some pair := by
  rw [written, keyed?_append writable.uncoloned, writable.trimmed]

theorem Writable.written_unbroken {pair : Text × Text} (writable : Writable pair) :
    ';' ∉ written pair := by
  obtain ⟨key, value⟩ := writable.unbroken
  simp [written, key, value]

theorem reading_written {pairs : List (Text × Text)} (writable : ∀ pair ∈ pairs, Writable pair) :
    reading ([';'].intercalate (pairs.map written)) = pairs := by
  by_cases empty : pairs = []
  · rw [empty]
    rfl
  · have unbroken : ∀ part ∈ pairs.map written, ';' ∉ part :=
      List.forall_mem_map.2 fun pair member => (writable pair member).written_unbroken
    rw [reading, List.splitOn_intercalate ';' unbroken (by simpa using empty), List.filterMap_map]
    calc
      pairs.filterMap (Segments.keyed? ∘ written) = pairs.filterMap some :=
        List.filterMap_congr fun pair member => (writable pair member).keyed?
      _ = pairs := List.filterMap_some

/-- One pass hands on what the value reads as, part by part, and stops where a segment is refused.
A semicolon parts the calls of two values, and pairs that are written into a value are handed on
as they are. -/
theorem scan_delivers {σ ε : Type} (deliver : σ → Text × Text → Except ε σ) (start : σ) :
    (∀ value, Delivers deliver start (reading value) (scan deliver start value)) ∧
      (∀ v w, Delivers deliver start (reading v ++ reading w) (scan deliver start (v ++ ';' :: w)))
      ∧ ∀ pairs, (∀ pair ∈ pairs, Writable pair) →
        Delivers deliver start pairs
          (scan deliver start ([';'].intercalate (pairs.map written))) := by
  have scanned (value : Text) :
      Delivers deliver start (reading value) (scan deliver start value) := by
    rw [scan, scanFrom_eq, ← split, split_eq_reading]
    exact delivers_foldlM deliver start (reading value)
  refine ⟨scanned, fun v w => ?_, fun pairs writable => ?_⟩
  · rw [← reading_append]
    exact scanned (v ++ ';' :: w)
  · have handed := scanned ([';'].intercalate (pairs.map written))
    rw [reading_written writable] at handed
    exact handed

/-- The second pair is refused, and the third one is not handed on. -/
theorem scan_delivers_refused :
    let pairs : List (Text × Text) := [("a", " 1"), ("b.bind", "c ? d : e"), ("", "")]
    let record (calls : List Text) (call : Text × Text) : Except (List Text) (List Text) :=
      if call.2.length < 5 then .ok (call.1 :: calls) else .error (call.1 :: calls)
    (∀ pair ∈ pairs, Writable pair) ∧
      Delivers record [] pairs (scan record [] "a: 1;b.bind:c ? d : e;:") ∧
      scan record [] "a: 1;b.bind:c ? d : e;:" = .error ["b.bind".toList, "a".toList] := by
  intro pairs record
  have writable : ∀ pair ∈ pairs, Writable pair := by
    intro pair member
    constructor
    case trimmed => revert pair; decide +kernel
    case uncoloned => revert pair; decide +kernel
    case unbroken => revert pair; decide +kernel
  obtain ⟨-, -, handed⟩ := scan_delivers record []
  exact ⟨writable, handed pairs writable, by rfl⟩

end TemplateBinding.Segments
