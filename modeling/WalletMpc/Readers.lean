import Mathlib.Data.List.Basic
import Mathlib.Data.List.TakeWhile

namespace Readers
set_option autoImplicit true

/-- A reader takes a value off the front of a text, or fails and takes nothing. -/
abbrev Reader (α : Type) := StateT (List Char) Option α

def given (c : Char) : Reader Unit
  | [] => none
  | d :: cs => if d = c then some ((), cs) else none

/-- Goes back to where it began if the reader fails. -/
def attempt (r : Reader α) : Reader (Option α) := fun cs =>
  match r cs with
  | some (a, rest) => some (some a, rest)
  | none => some (none, cs)

def either (r q : Reader α) : Reader α := fun cs => (r cs).orElse fun _ => q cs

/-- The longest run of characters of one kind, as the value that it has. -/
def run (p : Char → Bool) (value : List Char → Option α) : Reader α := fun cs =>
  (value (cs.takeWhile p)).map fun a => (a, cs.dropWhile p)

def ended : α × List Char → Option α
  | (a, []) => some a
  | _ => none

/-- The value of a text that is read to its end. -/
def whole (r : Reader α) (cs : List Char) : Option α := (r cs).bind ended

/-- A reader takes this character, where it meets it, for the end of the text. -/
structure Stops (c : Char) (r : Reader α) : Prop where
  append : ∀ x y, c ∉ x → r (x ++ c :: y) = (r x).map fun a => (a.1, a.2 ++ c :: y)
  rest : ∀ x a z, c ∉ x → r x = some (a, z) → c ∉ z

theorem bind_apply (r : Reader α) (f : α → Reader β) (cs : List Char) :
    (r >>= f) cs = (r cs).bind fun a => f a.1 a.2 := rfl

theorem Stops.pure (c : Char) (a : α) : Stops c (pure a : Reader α) where
  append _ _ _ := rfl
  rest x b z hx h := by
    cases h
    exact hx

theorem Stops.failure (c : Char) : Stops c (failure : Reader α) where
  append _ _ _ := rfl
  rest _ _ _ _ h := nomatch h

theorem Stops.bind {r : Reader α} {f : α → Reader β} (hr : Stops c r) (hf : ∀ a, Stops c (f a)) :
    Stops c (r >>= f) := by
  constructor
  · intro x y hx
    rw [bind_apply, bind_apply, hr.append x y hx]
    cases h : r x with
    | none => rfl
    | some a => exact (hf a.1).append a.2 y (hr.rest x a.1 a.2 hx h)
  · intro x b z hx h
    rw [bind_apply] at h
    obtain ⟨a, ha, hb⟩ := Option.bind_eq_some_iff.1 h
    exact (hf a.1).rest a.2 b z (hr.rest x a.1 a.2 hx ha) hb

theorem Stops.given (h : d ≠ c) : Stops c (given d) := by
  constructor
  · intro x y hx
    cases x with
    | nil => exact if_neg h.symm
    | cons e x =>
      change (if e = d then some ((), x ++ c :: y) else none) =
        (if e = d then some ((), x) else none).map _
      split
      · rfl
      · rfl
  · intro x a z hx ha
    cases x with
    | nil => cases ha
    | cons e x =>
      change (if e = d then some ((), x) else none) = some (a, z) at ha
      split at ha
      · cases ha
        exact fun hz => hx (List.mem_cons_of_mem e hz)
      · cases ha

theorem Stops.attempt {r : Reader α} (hr : Stops c r) : Stops c (attempt r) := by
  constructor
  · intro x y hx
    rw [Readers.attempt, Readers.attempt, hr.append x y hx]
    cases r x with
    | none => rfl
    | some a => rfl
  · intro x a z hx ha
    rw [Readers.attempt] at ha
    cases h : r x with
    | none =>
      rw [h] at ha
      cases ha
      exact hx
    | some b =>
      rw [h] at ha
      cases ha
      exact hr.rest x b.1 b.2 hx h

theorem Stops.run {p : Char → Bool} (hc : p c = false) (value : List Char → Option α) :
    Stops c (run p value) := by
  constructor
  · intro x y _
    have htake : (x ++ c :: y).takeWhile p = x.takeWhile p := by
      rw [List.takeWhile_append, List.takeWhile_cons_of_neg (by rw [hc]; exact Bool.false_ne_true),
        List.append_nil]
      split
      · rename_i hlen
        exact (List.takeWhile_prefix p).eq_of_length hlen |>.symm
      · rfl
    have hdrop : (x ++ c :: y).dropWhile p = x.dropWhile p ++ c :: y := by
      rw [List.dropWhile_append]
      split
      · rename_i hnil
        rw [List.dropWhile_cons_of_neg (by rw [hc]; exact Bool.false_ne_true),
          List.isEmpty_iff.1 hnil, List.nil_append]
      · rfl
    rw [Readers.run, Readers.run, htake, hdrop, Option.map_map]
    rfl
  · intro x a z hx h
    obtain ⟨b, _, hb⟩ := Option.map_eq_some_iff.1 h
    cases hb
    exact fun hz => hx ((List.dropWhile_suffix p).subset hz)

end Readers
