import TemplateBinding.Log

/-!
A run is a log and a result. The log holds what the logger of the run has kept, and of a run
that fails, what was kept up to the failure. Running one thing after another appends their
logs, and a failure ends the run.
-/
namespace TemplateBinding

structure Run (ε α : Type) where
  log : List Record
  result : Except ε α

namespace Run

variable {ε δ α β : Type}

def andThen (r : Run ε α) (next : α → Run ε β) : Run ε β :=
  match r.result with
  | .ok a => ⟨r.log ++ (next a).log, (next a).result⟩
  | .error e => ⟨r.log, .error e⟩

instance : Monad (Run ε) where
  pure a := ⟨[], .ok a⟩
  bind := andThen

def report (level : Level) (message : Text) : Run ε Unit := ⟨[⟨level, message⟩], .ok ()⟩

def fail (e : ε) : Run ε α := ⟨[], .error e⟩

def ofExcept (result : Except ε α) : Run ε α := ⟨[], result⟩

def mapError (f : ε → δ) (r : Run ε α) : Run δ α := ⟨r.log, r.result.mapError f⟩

theorem pure_eq (a : α) : (pure a : Run ε α) = ⟨[], .ok a⟩ := rfl

theorem bind_eq (r : Run ε α) (next : α → Run ε β) : r >>= next = r.andThen next := rfl

theorem bind_eq_ok_iff {r : Run ε α} {next : α → Run ε β} {b : β} :
    (r >>= next).result = .ok b ↔ ∃ a, r.result = .ok a ∧ (next a).result = .ok b := by
  obtain ⟨log, result⟩ := r
  cases result <;> simp [bind_eq, andThen]

theorem bind_eq_error_iff {r : Run ε α} {next : α → Run ε β} {e : ε} :
    (r >>= next).result = .error e ↔
      r.result = .error e ∨ ∃ a, r.result = .ok a ∧ (next a).result = .error e := by
  obtain ⟨log, result⟩ := r
  cases result <;> simp [bind_eq, andThen]

theorem andThen_assoc {γ : Type} (r : Run ε α) (f : α → Run ε β) (g : β → Run ε γ) :
    (r.andThen f).andThen g = r.andThen fun a => (f a).andThen g := by
  obtain ⟨log, result⟩ := r
  cases result with
  | error e => rfl
  | ok a =>
    simp only [andThen]
    cases (f a).result <;> simp [List.append_assoc]

theorem map_id (r : Run ε α) : id <$> r = r := by
  obtain ⟨log, result⟩ := r
  cases result <;> simp [Functor.map, andThen]

theorem pure_andThen (a : α) (f : α → Run ε β) : (pure a : Run ε α) >>= f = f a := by
  simp [bind_eq, pure_eq, andThen]

instance : LawfulMonad (Run ε) := LawfulMonad.mk' _ map_id pure_andThen andThen_assoc

end Run

def Logger.record {ε : Type} (logger : Logger) (level : Level) (message : Text) : Run ε Unit :=
  if logger.enabled level then Run.report level message else pure ()

end TemplateBinding
