import Mathlib.Data.List.Infix
import WalletMpc.Systems

namespace Feeds
open Systems
set_option autoImplicit true

/-- An append-only log, and for each reader everything it has been handed so far. -/
structure Feed (ι : Type u) (α : Type v) where
  log : List α
  read : ι → List α

inductive Action (ι : Type u) (α : Type v) where
  | append (a : α)
  | read (i : ι)

/-- The log grows at its end, and a reader is handed the entry after those it has. -/
inductive Feed.Step [DecidableEq ι] : Feed ι α → Action ι α → Feed ι α → Prop where
  | append (a : α) : Step f (.append a) ⟨f.log ++ [a], f.read⟩
  | read (i : ι) : f.log[(f.read i).length]? = some a →
      Step f (.read i) ⟨f.log, Function.update f.read i (f.read i ++ [a])⟩

/-- The specification of a broadcast channel whose readers never miss or repeat an entry. -/
def feed (ι : Type u) (α : Type v) [DecidableEq ι] : System (Feed ι α) (Action ι α) where
  start f := f.log = [] ∧ ∀ i, f.read i = []
  step := Feed.Step

def Feed.Coherent (f : Feed ι α) : Prop := ∀ i, f.read i <+: f.log

theorem prefix_concat_of_getElem? {l m : List α} (h : l <+: m) (ha : m[l.length]? = some a) :
    l ++ [a] <+: m := by
  obtain ⟨t, rfl⟩ := h
  cases t with
  | nil => simp at ha
  | cons b t =>
    simp only [List.getElem?_append_right (Nat.le_refl _), Nat.sub_self,
      List.getElem?_cons_zero, Option.some.injEq] at ha
    subst a
    exact ⟨t, by simp⟩

theorem Feed.Step.coherent [DecidableEq ι] {f g : Feed ι α} (hs : Step f a g)
    (h : f.Coherent) : g.Coherent := by
  intro j
  cases hs with
  | append => exact (h j).trans (List.prefix_append _ _)
  | read i ha =>
    by_cases hj : j = i
    · subst hj
      simpa only [Function.update_self] using prefix_concat_of_getElem? (h j) ha
    · simpa only [Function.update_of_ne hj] using h j

/-- Exactly once and in order: a reader's history is a prefix of the log. -/
theorem coherent [DecidableEq ι] {f : Feed ι α} (h : (feed ι α).Reachable f) : f.Coherent :=
  h.invariant (fun f h0 i => by rw [h0.2 i]; exact List.nil_prefix)
    (fun _ _ _ _ ih hs => Feed.Step.coherent hs ih)

theorem Feed.Coherent.length_le {f : Feed ι α} (h : f.Coherent) (i : ι) :
    (f.read i).length ≤ f.log.length :=
  (h i).length_le

theorem Feed.Coherent.caught_up {f : Feed ι α} (h : f.Coherent)
    (hi : f.log.length ≤ (f.read i).length) : f.read i = f.log :=
  (h i).eq_of_length_le hi

theorem Feed.Coherent.agree {f : Feed ι α} (h : f.Coherent)
    (hij : (f.read i).length ≤ (f.read j).length) : f.read i <+: f.read j :=
  List.prefix_of_prefix_length_le (h i) (h j) hij

end Feeds
