/-
# Faults

A machine that goes through a text or a diagram keeps the first fault that it meets and goes on.
`Fault.check` gives its result in the end, unless there was one.
-/

namespace UmlDraw
namespace Fault

variable {ε α : Type}

/-- The result, unless there is a fault. -/
def check (fault : Option ε) (a : α) : Except ε α :=
  match fault with
  | some e => .error e
  | none => .ok a

@[simp]
theorem check_none (a : α) : check (none : Option ε) a = .ok a := rfl

@[simp]
theorem check_some (e : ε) (a : α) : check (some e) a = .error e := rfl

theorem check_eq_ok_iff {fault : Option ε} {a b : α} :
    check fault a = .ok b ↔ fault = none ∧ a = b := by
  cases fault <;> simp

end Fault
end UmlDraw
