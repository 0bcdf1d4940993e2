import Mathlib.Init

namespace Fallible
set_option autoImplicit true

theorem bind_eq_ok {x : Except ε α} {f : α → Except ε β} (h : x >>= f = .ok b) :
    ∃ a, x = .ok a ∧ f a = .ok b := by
  cases x with
  | error e => cases h
  | ok a => exact ⟨a, rfl, h⟩

theorem map_eq_ok {x : Except ε α} {f : α → β} (h : x.map f = .ok b) :
    ∃ a, x = .ok a ∧ f a = b := by
  cases x with
  | error e => cases h
  | ok a =>
    cases h
    exact ⟨a, rfl, rfl⟩

theorem mapError_eq_ok {x : Except ε α} {f : ε → ε'} (h : x.mapError f = .ok a) : x = .ok a := by
  cases x with
  | error e => cases h
  | ok a' =>
    cases h
    rfl

def okOr (o : Option α) (e : ε) : Except ε α :=
  match o with
  | some a => .ok a
  | none => .error e

theorem okOr_eq_ok {o : Option α} {e : ε} (h : okOr o e = .ok a) : o = some a := by
  cases o with
  | none => cases h
  | some a' =>
    cases h
    rfl

end Fallible
