import Mathlib.Logic.Function.Basic

namespace Arenas
set_option autoImplicit true

/-- Cells allocated one after the other, and the keys that point to them. -/
structure Arena (κ : Type u) (α : Type v) where
  addr : κ → Option Nat
  cells : List α

def Arena.empty : Arena κ α := ⟨fun _ => none, []⟩

/-- Let a key point to a new cell, whatever it pointed to before. -/
def Arena.insert [DecidableEq κ] (s : Arena κ α) (k : κ) (a : α) : Arena κ α :=
  ⟨Function.update s.addr k (some s.cells.length), s.cells ++ [a]⟩

def Arena.set (s : Arena κ α) (i : Nat) (a : α) : Arena κ α := { s with cells := s.cells.set i a }

def Arena.get? (s : Arena κ α) (k : κ) : Option α := (s.addr k).bind fun i => s.cells[i]?

/-- Every cell belongs to just one key. -/
structure Arena.Exact (s : Arena κ α) : Prop where
  bounded : ∀ k i, s.addr k = some i → i < s.cells.length
  inj : ∀ k k' i, s.addr k = some i → s.addr k' = some i → k = k'
  owned : ∀ i < s.cells.length, ∃ k, s.addr k = some i

theorem Arena.Exact.empty : (Arena.empty : Arena κ α).Exact := ⟨nofun, nofun, nofun⟩

theorem Arena.Exact.set {s : Arena κ α} (h : s.Exact) (i : Nat) (a : α) : (s.set i a).Exact := by
  have hlen : (s.set i a).cells.length = s.cells.length := List.length_set
  constructor
  case bounded =>
    rw [hlen]
    exact h.bounded
  case inj => exact h.inj
  case owned =>
    rw [hlen]
    exact h.owned

theorem Arena.get?_eq {s : Arena κ α} (hk : s.addr k = some i) : s.get? k = s.cells[i]? := by
  rw [Arena.get?, hk, Option.bind_some]

section
variable [DecidableEq κ] {s : Arena κ α}

@[simp] theorem Arena.addr_insert_self (s : Arena κ α) (k : κ) (a : α) :
    (s.insert k a).addr k = some s.cells.length := Function.update_self ..

/-- An insertion at a vacant key replaces nothing. -/
theorem Arena.addr_insert (hk : s.addr k = none) (hk' : s.addr k' = some i) :
    (s.insert k a).addr k' = some i := by
  have hne : k' ≠ k := by
    intro he
    rw [he, hk] at hk'
    cases hk'
  rw [← hk']
  exact Function.update_of_ne hne ..

theorem Arena.Exact.insert (h : s.Exact) (hk : s.addr k = none) (a : α) :
    (s.insert k a).Exact := by
  have hlen : (s.insert k a).cells.length = s.cells.length + 1 := List.length_append
  have hcases : ∀ k' i, (s.insert k a).addr k' = some i →
      k' = k ∧ i = s.cells.length ∨ s.addr k' = some i := by
    intro k' i hi
    by_cases hne : k' = k
    · rw [hne, Arena.addr_insert_self] at hi
      exact .inl ⟨hne, (Option.some.inj hi).symm⟩
    · exact .inr ((Function.update_of_ne hne _ _).symm.trans hi)
  constructor
  case bounded =>
    intro k' i hi
    rw [hlen]
    obtain ⟨_, rfl⟩ | hold := hcases k' i hi
    · exact Nat.lt_succ_self _
    · exact Nat.lt_succ_of_lt (h.bounded k' i hold)
  case inj =>
    intro k₁ k₂ i h₁ h₂
    obtain ⟨rfl, hi⟩ | hold₁ := hcases k₁ i h₁
    · obtain ⟨rfl, _⟩ | hold₂ := hcases k₂ i h₂
      · rfl
      · exact absurd (h.bounded k₂ i hold₂) (by omega)
    · obtain ⟨_, hi⟩ | hold₂ := hcases k₂ i h₂
      · exact absurd (h.bounded k₁ i hold₁) (by omega)
      · exact h.inj k₁ k₂ i hold₁ hold₂
  case owned =>
    intro i hi
    rw [hlen] at hi
    obtain hlt | rfl := Nat.lt_succ_iff_lt_or_eq.1 hi
    · obtain ⟨k', hk'⟩ := h.owned i hlt
      exact ⟨k', Arena.addr_insert hk hk'⟩
    · exact ⟨k, Arena.addr_insert_self ..⟩

theorem Arena.Exact.get?_insert (h : s.Exact) (k : κ) (a : α) :
    (s.insert k a).get? = Function.update s.get? k (some a) := by
  funext k'
  by_cases hne : k' = k
  · subst hne
    rw [Arena.get?_eq (Arena.addr_insert_self ..), Function.update_self]
    exact List.getElem?_concat_length
  · have haddr : (s.insert k a).addr k' = s.addr k' := Function.update_of_ne hne ..
    rw [Function.update_of_ne hne, Arena.get?, haddr]
    cases hk' : s.addr k' with
    | none => rw [Arena.get?, hk', Option.bind_none, Option.bind_none]
    | some i =>
      rw [Arena.get?_eq hk', Option.bind_some]
      exact List.getElem?_append_left (h.bounded k' i hk')

theorem Arena.Exact.get?_set (h : s.Exact) (hk : s.addr k = some i) (a : α) :
    (s.set i a).get? = Function.update s.get? k (some a) := by
  funext k'
  by_cases hne : k' = k
  · subst hne
    have haddr : (s.set i a).addr k' = some i := hk
    rw [Arena.get?_eq haddr, Function.update_self]
    exact List.getElem?_set_self (h.bounded k' i hk)
  · rw [Function.update_of_ne hne, Arena.get?, Arena.get?]
    change (s.addr k').bind (fun j => (s.cells.set i a)[j]?) = _
    cases hk' : s.addr k' with
    | none => rfl
    | some j =>
      have hij : i ≠ j := by
        intro he
        rw [← he] at hk'
        exact hne (h.inj k' k i hk' hk)
      exact List.getElem?_set_ne hij

end

end Arenas
