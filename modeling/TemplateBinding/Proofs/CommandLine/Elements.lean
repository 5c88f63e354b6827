import Mathlib.Data.List.Forall2
import TemplateBinding.CommandLine.Session
import TemplateBinding.Proofs.Template.Parts

/-! The attributes of an element are described one by one. Nothing is carried over from one to the
next: what a session makes of all of them, and logs, is what it makes of each alone, up to the first
that fails. -/
namespace TemplateBinding

namespace Run

variable {ε α β : Type} {f : α → Run ε β}

theorem log_bind_of_ok {r : Run ε α} {a : α} (done : r.result = .ok a) (next : α → Run ε β) :
    (r >>= next).log = r.log ++ (next a).log := by
  rw [bind_eq, andThen, done]

theorem log_bind_of_error {r : Run ε α} {e : ε} (failed : r.result = .error e)
    (next : α → Run ε β) : (r >>= next).log = r.log := by
  rw [bind_eq, andThen, failed]

theorem log_bind_pure (r : Run ε α) (g : α → β) : (r >>= fun a => pure (g a)).log = r.log := by
  obtain ⟨log, result⟩ := r
  cases result <;> simp [bind_eq, andThen, pure_eq]

theorem log_mapM_append {before : List α} (done : ∀ b ∈ before, ∃ c, (f b).result = .ok c)
    (as : List α) :
    ((before ++ as).mapM f).log = (before.flatMap fun b => (f b).log) ++ (as.mapM f).log := by
  induction before with
  | nil => rfl
  | cons b before ih =>
    obtain ⟨⟨c, first⟩, others⟩ := List.forall_mem_cons.1 done
    rw [List.cons_append, List.mapM_cons, log_bind_of_ok first, log_bind_pure, ih others,
      List.flatMap_cons, List.append_assoc]

theorem log_mapM_of_done {as : List α} (done : ∀ a ∈ as, ∃ b, (f a).result = .ok b) :
    (as.mapM f).log = as.flatMap fun a => (f a).log := by
  have whole := log_mapM_append done []
  rw [List.append_nil] at whole
  exact whole.trans (List.append_nil _)

theorem log_mapM_of_failed {before after : List α} {a : α} {e : ε}
    (done : ∀ b ∈ before, ∃ c, (f b).result = .ok c) (failed : (f a).result = .error e) :
    ((before ++ a :: after).mapM f).log = (before ++ [a]).flatMap fun b => (f b).log := by
  rw [log_mapM_append done, List.mapM_cons, log_bind_of_error failed, List.flatMap_append,
    List.flatMap_singleton]

end Run

namespace CommandLine.Session

variable (s : Session)

def element (documents : List Json) : Json :=
  .object [("tag", .string s.tag), ("attributes", .array documents)]

theorem attributes_eq (given : List (Text × Text)) :
    s.attributes given = given.mapM s.describe >>= fun documents => pure (s.element documents) :=
  rfl

theorem element_injective {documents documents' : List Json}
    (same : s.element documents = s.element documents') : documents = documents' := by
  simpa [element] using same

theorem attributes_done_iff {given : List (Text × Text)} {document : Json} :
    (s.attributes given).result = .ok document ↔
      ∃ documents, List.Forall₂ (fun pair d => (s.describe pair).result = .ok d) given documents ∧
        document = s.element documents := by
  rw [attributes_eq, Run.bind_eq_ok_iff]
  simp only [Run.mapM_eq_ok_iff, Run.pure_eq, Except.ok.injEq]
  simp only [eq_comm (a := document)]

theorem attributes_failed_iff {given : List (Text × Text)} {e : Failure} :
    (s.attributes given).result = .error e ↔
      ∃ before pair after, given = before ++ pair :: after ∧
        (∀ b ∈ before, ∃ d, (s.describe b).result = .ok d) ∧
          (s.describe pair).result = .error e := by
  rw [attributes_eq, Run.bind_eq_error_iff, Run.mapM_eq_error_iff]
  simp [Run.pure_eq]

theorem attributes_log (given : List (Text × Text)) :
    (s.attributes given).log = (given.mapM s.describe).log := by
  rw [attributes_eq, Run.log_bind_pure]

/-! An element with one attribute. -/

section Alone

variable {pair : Text × Text}

theorem alone_eq (pair : Text × Text) :
    s.attributes [pair] = s.describe pair >>= fun d => pure (s.element [d]) := by
  rw [attributes_eq, List.mapM_cons, List.mapM_nil]
  simp only [bind_assoc, pure_bind]

theorem alone_done_iff {document : Json} :
    (s.attributes [pair]).result = .ok document ↔
      ∃ d, (s.describe pair).result = .ok d ∧ document = s.element [d] := by
  rw [alone_eq, Run.bind_eq_ok_iff]
  simp only [Run.pure_eq, Except.ok.injEq]
  simp only [eq_comm (a := document)]

theorem alone_failed_iff {e : Failure} :
    (s.attributes [pair]).result = .error e ↔ (s.describe pair).result = .error e := by
  rw [alone_eq, Run.bind_eq_error_iff]
  simp [Run.pure_eq]

theorem alone_log : (s.attributes [pair]).log = (s.describe pair).log := by
  rw [alone_eq, Run.log_bind_pure]

theorem alone_done : (∃ document, (s.attributes [pair]).result = .ok document) ↔
    ∃ d, (s.describe pair).result = .ok d := by
  simp only [alone_done_iff]
  constructor
  · rintro ⟨-, d, done, -⟩
    exact ⟨d, done⟩
  · rintro ⟨d, done⟩
    exact ⟨_, d, done, rfl⟩

end Alone

structure Apart (given : List (Text × Text)) : Prop where
  /-- All of them succeed if each does alone, and their documents come in the same order. -/
  done : ∀ document, (s.attributes given).result = .ok document ↔
    ∃ parts, List.Forall₂
        (fun pair part => (s.attributes [pair]).result = .ok (s.element part)) given parts ∧
      document = s.element parts.flatten
  shown : ∀ document, (s.attributes given).result = .ok document →
    (s.attributes given).log = given.flatMap fun pair => (s.attributes [pair]).log
  /-- They fail as the first does that fails alone, and what comes behind it is not reported. -/
  failed : ∀ e, (s.attributes given).result = .error e ↔
    ∃ before pair after, given = before ++ pair :: after ∧
      (∀ b ∈ before, ∃ document, (s.attributes [b]).result = .ok document) ∧
      (s.attributes [pair]).result = .error e
  cut : ∀ before pair after e, given = before ++ pair :: after →
    (∀ b ∈ before, ∃ document, (s.attributes [b]).result = .ok document) →
    (s.attributes [pair]).result = .error e →
    (s.attributes given).log = (before ++ [pair]).flatMap fun b => (s.attributes [b]).log
  /-- In another order, each attribute has the document that it had. -/
  permuted : ∀ documents given', (s.attributes given).result = .ok (s.element documents) →
    given.Perm given' →
    ∃ one : Text × Text → Json, documents = given.map one ∧
      (s.attributes given').result = .ok (s.element (given'.map one))

theorem parts_iff {given : List (Text × Text)} {documents : List Json} :
    List.Forall₂ (fun pair d => (s.describe pair).result = .ok d) given documents ↔
      ∃ parts, List.Forall₂
          (fun pair part => (s.attributes [pair]).result = .ok (s.element part)) given parts ∧
        documents = parts.flatten := by
  constructor
  · intro related
    induction related with
    | nil => exact ⟨[], .nil, rfl⟩
    | @cons pair d _ _ first _ ih =>
      obtain ⟨parts, others, rfl⟩ := ih
      exact ⟨[d] :: parts, .cons ((s.alone_done_iff).2 ⟨d, first, rfl⟩) others, rfl⟩
  · rintro ⟨parts, related, rfl⟩
    induction related with
    | nil => exact .nil
    | @cons pair part _ _ first _ ih =>
      obtain ⟨d, done, same⟩ := (s.alone_done_iff).1 first
      rw [s.element_injective same]
      exact .cons done ih

def documentOf (pair : Text × Text) : Json :=
  match (s.describe pair).result with
  | .ok d => d
  | .error _ => .null

theorem documentOf_eq {pair : Text × Text} {d : Json} (done : (s.describe pair).result = .ok d) :
    s.documentOf pair = d := by
  unfold documentOf
  rw [done]

theorem documents_iff {given : List (Text × Text)} {documents : List Json} :
    List.Forall₂ (fun pair d => (s.describe pair).result = .ok d) given documents ↔
      documents = given.map s.documentOf ∧
        ∀ pair ∈ given, ∃ d, (s.describe pair).result = .ok d := by
  constructor
  · intro related
    induction related with
    | nil => exact ⟨rfl, nofun⟩
    | @cons pair d _ _ first _ ih =>
      obtain ⟨rfl, others⟩ := ih
      rw [List.map_cons, s.documentOf_eq first]
      exact ⟨rfl, List.forall_mem_cons.2 ⟨⟨d, first⟩, others⟩⟩
  · rintro ⟨rfl, done⟩
    refine List.forall₂_map_right_iff.2 (List.forall₂_same.2 fun pair member => ?_)
    obtain ⟨d, done⟩ := done pair member
    rw [s.documentOf_eq done, done]

/-- A list of attributes is described as each of them is alone. -/
theorem attributes_apart (given : List (Text × Text)) : s.Apart given := by
  constructor
  case done =>
    intro document
    rw [attributes_done_iff]
    constructor
    · rintro ⟨documents, related, rfl⟩
      obtain ⟨parts, alone, rfl⟩ := s.parts_iff.1 related
      exact ⟨parts, alone, rfl⟩
    · rintro ⟨parts, alone, rfl⟩
      exact ⟨_, s.parts_iff.2 ⟨parts, alone, rfl⟩, rfl⟩
  case shown =>
    intro document done
    obtain ⟨documents, related, -⟩ := s.attributes_done_iff.1 done
    rw [s.attributes_log given]
    simp only [alone_log]
    exact Run.log_mapM_of_done (s.documents_iff.1 related).2
  case failed =>
    intro e
    rw [attributes_failed_iff]
    simp only [alone_done, alone_failed_iff]
  case cut =>
    rintro before pair after e rfl done failed
    rw [s.attributes_log (before ++ pair :: after)]
    simp only [alone_log]
    simp only [alone_done] at done
    exact Run.log_mapM_of_failed done (s.alone_failed_iff.1 failed)
  case permuted =>
    intro documents given' done perm
    obtain ⟨documents', related, same⟩ := s.attributes_done_iff.1 done
    obtain ⟨ordered, done⟩ := s.documents_iff.1 related
    have done' : ∀ pair ∈ given', ∃ d, (s.describe pair).result = .ok d :=
      fun pair member => done pair (perm.mem_iff.2 member)
    refine ⟨s.documentOf, (s.element_injective same).trans ordered, ?_⟩
    exact s.attributes_done_iff.2 ⟨_, s.documents_iff.2 ⟨rfl, done'⟩, rfl⟩

end CommandLine.Session
end TemplateBinding
