import TemplateBinding.Text.Blank

/-!
The segments of a compound value such as `a: 1; b.bind: c`. One pass over the text keeps
the key of the current segment, once its first colon was met, and the text since then.
Nothing is escaped or quoted. A segment without a colon is dropped.
-/
namespace TemplateBinding.Segments

/-- The segment that ends here, if it has a key. The text read so far is held in reverse. -/
def flush (key : Option Text) (read : Text) : List (Text × Text) :=
  match key with
  | some key => [(key, read.reverse)]
  | none => []

def splitFrom (key : Option Text) (read : Text) : Text → List (Text × Text)
  | [] => flush key read
  | c :: cs =>
    if c = ';' then flush key read ++ splitFrom none [] cs
    else if c = ':' ∧ key = none then splitFrom (some (Text.trim read.reverse)) [] cs
    else splitFrom key (c :: read) cs

/-- The segments of a value, each as its trimmed key and its value as it stands. -/
def split (value : Text) : List (Text × Text) := splitFrom none [] value

def handOn {σ ε : Type} (deliver : σ → Text × Text → Except ε σ) (state : σ) (key : Option Text)
    (read : Text) : Except ε σ :=
  match key with
  | some key => deliver state (key, read.reverse)
  | none => .ok state

def scanFrom {σ ε : Type} (deliver : σ → Text × Text → Except ε σ) (state : σ)
    (key : Option Text) (read : Text) : Text → Except ε σ
  | [] => handOn deliver state key read
  | c :: cs =>
    if c = ';' then do
      let next ← handOn deliver state key read
      scanFrom deliver next none [] cs
    else if c = ':' ∧ key = none then
      scanFrom deliver state (some (Text.trim read.reverse)) [] cs
    else scanFrom deliver state key (c :: read) cs

/-- Hands each segment on as soon as it ends. The text is not read any further when a
segment is refused. -/
def scan {σ ε : Type} (deliver : σ → Text × Text → Except ε σ) (start : σ) (value : Text) :
    Except ε σ :=
  scanFrom deliver start none [] value

theorem splitFrom_shorter (key : Option Text) (read value : Text) (segment : Text × Text)
    (member : segment ∈ splitFrom key read value) :
    segment.2.length + (if key = none then 1 else 0)
      ≤ value.length + (if key = none then 0 else read.length) := by
  induction value generalizing key read with
  | nil =>
    unfold splitFrom flush at member
    split at member
    · simp only [List.mem_singleton] at member
      subst member
      simp
    · simp at member
  | cons c cs ih =>
    unfold splitFrom at member
    split at member
    · rw [List.mem_append] at member
      rcases member with here | later
      · unfold flush at here
        split at here
        · simp only [List.mem_singleton] at here
          subst here
          simp
        · simp at here
      · have bound := ih none [] later
        simp only [if_true] at bound
        simp only [List.length_cons]
        split <;> omega
    · split at member
      · rename_i opened
        have bound := ih _ [] member
        simp only [reduceCtorEq, if_false, List.length_nil] at bound
        simp only [opened.2, if_true, List.length_cons]
        omega
      · have bound := ih _ _ member
        simp only [List.length_cons] at bound ⊢
        split at bound <;> rename_i none_ <;> simp only [none_, if_true, if_false] <;> omega

theorem split_shorter {value : Text} {segment : Text × Text}
    (member : segment ∈ split value) : segment.2.length < value.length := by
  have bound := splitFrom_shorter none [] value segment member
  simp only [if_true] at bound
  omega

end TemplateBinding.Segments
