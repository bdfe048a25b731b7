import Mathlib.Data.List.Basic

/-!
Computations that report errors and go on. What they return does not depend on the errors, which
come in the order in which they were reported.
-/

set_option autoImplicit false
set_option relaxedAutoImplicit false

/-- What a computation returns, and the errors it reported. -/
structure Reporting (ε α : Type) where
  value : α
  errors : List ε

namespace Reporting

variable {ε α β : Type}

instance : Monad (Reporting ε) where
  pure a := ⟨a, []⟩
  bind x f := ⟨(f x.value).value, x.errors ++ (f x.value).errors⟩

/-- Reports one error. -/
def report (error : ε) : Reporting ε Unit := ⟨(), [error]⟩

@[simp] theorem value_pure (a : α) : (pure a : Reporting ε α).value = a := rfl

@[simp] theorem errors_pure (a : α) : (pure a : Reporting ε α).errors = [] := rfl

@[simp] theorem value_bind (x : Reporting ε α) (f : α → Reporting ε β) :
    (x >>= f).value = (f x.value).value := rfl

@[simp] theorem errors_bind (x : Reporting ε α) (f : α → Reporting ε β) :
    (x >>= f).errors = x.errors ++ (f x.value).errors := rfl

@[simp] theorem errors_report (error : ε) : (report error).errors = [error] := rfl

end Reporting
