import TemporalBindings.Error

/-!
# TemporalBindings.Report

Results with the warnings that were given on the way to them. A warning does not
stop anything, and it stays when a later step fails.
-/

namespace TemporalBindings

/-- An option field that is ignored because no setting has its name: the extension
and the element it was found at, and the field. -/
structure Warning where
  extension : String
  element : String
  field : String
  deriving DecidableEq

/-- A result or an error, and the warnings given before. -/
structure Report (α : Type) where
  warnings : List Warning
  result : Except Error α

namespace Report

/-- A report without warnings. -/
def ofExcept {α : Type} (r : Except Error α) : Report α :=
  ⟨[], r⟩

/-- A report of a warning. -/
def warn (w : Warning) : Report Unit :=
  ⟨[w], .ok ()⟩

/-- What is reported by one step and then by another that depends on its result. -/
def andThen {α β : Type} (r : Report α) (next : α → Report β) : Report β :=
  match r.result with
  | .error e => ⟨r.warnings, .error e⟩
  | .ok a =>
    let s := next a
    ⟨r.warnings ++ s.warnings, s.result⟩

instance : Monad Report where
  pure a := ⟨[], .ok a⟩
  bind := andThen

instance {α : Type} : Coe (Except Error α) (Report α) :=
  ⟨ofExcept⟩

theorem pure_def {α : Type} (a : α) : (pure a : Report α) = ⟨[], .ok a⟩ :=
  rfl

theorem bind_def {α β : Type} (r : Report α) (next : α → Report β) : r >>= next = r.andThen next :=
  rfl

instance : LawfulMonad Report :=
  LawfulMonad.mk' Report
    (by
      intro α ⟨w, r⟩
      cases r <;> simp [Functor.map, andThen])
    (by
      intro α β a next
      simp [pure_def, bind_def, andThen])
    (by
      intro α β γ ⟨w, r⟩ f g
      cases r with
      | error e => rfl
      | ok a =>
        simp only [bind_def, andThen]
        cases (f a).result <;> simp [List.append_assoc])

end Report

end TemporalBindings
