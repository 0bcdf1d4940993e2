import Mathlib.Logic.Relation

namespace Systems
set_option autoImplicit true

/-- A labelled transition system: the states it may start in and what each label may do. -/
structure System (σ : Type u) (α : Type v) where
  start : σ → Prop
  step : σ → α → σ → Prop

/-- The states reached by finite interleavings of steps. -/
inductive System.Reachable (T : System σ α) : σ → Prop where
  | start : T.start s → T.Reachable s
  | next : T.Reachable s → T.step s a t → T.Reachable t

inductive System.Run (T : System σ α) : σ → List α → σ → Prop where
  | refl (s : σ) : T.Run s [] s
  | head : T.step s a t → T.Run t as u → T.Run s (a :: as) u

def System.Enabled (T : System σ α) (s : σ) (a : α) : Prop := ∃ t, T.step s a t

/-- The same system, taking only the steps that meet a condition on the state before them. -/
def System.restrict (T : System σ α) (ok : σ → α → Prop) : System σ α where
  start := T.start
  step s a t := ok s a ∧ T.step s a t

/-- The same system, kept inside a set of states. -/
def System.within (T : System σ α) (P : σ → Prop) : System σ α where
  start s := T.start s ∧ P s
  step s a t := T.step s a t ∧ P t

theorem System.Run.trans {T : System σ α} (h : T.Run s as t) (h' : T.Run t bs u) :
    T.Run s (as ++ bs) u := by
  induction h with
  | refl => exact h'
  | head hs hr ih => exact .head hs (ih h')

theorem System.Run.single {T : System σ α} (h : T.step s a t) : T.Run s [a] t :=
  .head h (.refl t)

theorem System.Reachable.run {T : System σ α} (hs : T.Reachable s) (h : T.Run s as t) :
    T.Reachable t := by
  induction h with
  | refl => exact hs
  | head hs' hr ih => exact ih (.next hs hs')

/-- A property of the initial states that every step keeps holds of every reachable state. -/
theorem System.Reachable.invariant {T : System σ α} {I : σ → Prop} (h : T.Reachable s)
    (h0 : ∀ s, T.start s → I s)
    (hs : ∀ s a t, T.Reachable s → I s → T.step s a t → I t) : I s := by
  induction h with
  | start h => exact h0 _ h
  | next hr hst ih => exact hs _ _ _ hr ih hst

theorem System.Run.invariant {T : System σ α} {I : σ → Prop} (h : T.Run s as t)
    (hs : ∀ s a t, a ∈ as → I s → T.step s a t → I t) (h0 : I s) : I t := by
  induction h with
  | refl => exact h0
  | head hst hr ih =>
    exact ih (fun s a t ha => hs s a t (List.mem_cons_of_mem _ ha)) (hs _ _ _ List.mem_cons_self h0 hst)

/-- Where every step lowers a measure, a run is no longer than the measure falls. -/
theorem System.Run.length_le {T : System σ α} {I : σ → Prop} {f : σ → Nat} (h : T.Run s as t)
    (hs : ∀ s a t, a ∈ as → I s → T.step s a t → I t ∧ f t < f s) (h0 : I s) :
    as.length + f t ≤ f s := by
  induction h with
  | refl s => exact Nat.le_of_eq (Nat.zero_add (f s))
  | head hst hr ih =>
    obtain ⟨hi, hlt⟩ := hs _ _ _ List.mem_cons_self h0 hst
    have hrest := ih (fun s a t ha => hs s a t (List.mem_cons_of_mem _ ha)) hi
    rw [List.length_cons, Nat.add_right_comm]
    exact Nat.le_trans (Nat.add_le_add_right hrest 1) hlt

/-- Where no step raises a measure and those of a kind lower it, a run has no more of that kind than
the measure falls. -/
theorem System.Run.countP_le {T : System σ α} {f : σ → Nat} {q : α → Bool} (h : T.Run s as t)
    (hs : ∀ s a t, a ∈ as → T.step s a t → f t + (if q a then 1 else 0) ≤ f s) :
    as.countP q + f t ≤ f s := by
  induction h with
  | refl s => exact Nat.le_of_eq (Nat.zero_add (f s))
  | head hst hr ih =>
    have hfirst := hs _ _ _ List.mem_cons_self hst
    have hrest := ih fun s a t ha => hs s a t (List.mem_cons_of_mem _ ha)
    rw [List.countP_cons]
    omega

theorem System.Reachable.of_restrict {T : System σ α} {ok : σ → α → Prop}
    (h : (T.restrict ok).Reachable s) : T.Reachable s := by
  induction h with
  | start h => exact .start h
  | next hr hst ih => exact .next ih hst.2

theorem System.Reachable.of_within {T : System σ α} {P : σ → Prop}
    (h : (T.within P).Reachable s) : T.Reachable s ∧ P s := by
  induction h with
  | start h => exact ⟨.start h.1, h.2⟩
  | next hr hst ih => exact ⟨.next ih.1 hst.1, hst.2⟩

/-- A run that ends in a set which steps never enter has been inside it all along. -/
theorem System.Reachable.within {T : System σ α} {P : σ → Prop} (h : T.Reachable s)
    (back : ∀ s a t, T.step s a t → P t → P s) (hs : P s) : (T.within P).Reachable s := by
  induction h with
  | start h => exact .start ⟨h, hs⟩
  | next hr hst ih => exact .next (ih (back _ _ _ hst hs)) ⟨hst, hs⟩

/-- A run inside a set of states takes only steps that are allowed in all of them. -/
theorem System.Reachable.restrict_of_within {T : System σ α} {P : σ → Prop} {ok : σ → α → Prop}
    (h : (T.within P).Reachable s) (hok : ∀ s a, P s → ok s a) : (T.restrict ok).Reachable s := by
  induction h with
  | start h => exact .start h.1
  | next hr hst ih => exact .next ih ⟨hok _ _ hr.of_within.2, hst.1⟩

theorem System.Run.restrict {T : System σ α} {ok : σ → α → Prop} (h : T.Run s as t)
    (hok : ∀ s a, a ∈ as → ok s a) : (T.restrict ok).Run s as t := by
  induction h with
  | refl => exact .refl _
  | head hst hr ih =>
    exact .head ⟨hok _ _ List.mem_cons_self, hst⟩
      (ih fun s a ha => hok s a (List.mem_cons_of_mem _ ha))

/-- A forward simulation: each concrete step is one abstract step or none. -/
structure Simulation (C : System σ α) (A : System τ β) (R : σ → τ → Prop) : Prop where
  start : C.start s → ∃ t, A.start t ∧ R s t
  step : C.Reachable s → A.Reachable t → R s t → C.step s a s' →
    R s' t ∨ ∃ b t', A.step t b t' ∧ R s' t'

theorem Simulation.reachable {C : System σ α} {A : System τ β} {R : σ → τ → Prop}
    (h : Simulation C A R) (hs : C.Reachable s) : ∃ t, A.Reachable t ∧ R s t := by
  induction hs with
  | start hs =>
    obtain ⟨t, ht, hR⟩ := h.start hs
    exact ⟨t, .start ht, hR⟩
  | next hr hst ih =>
    obtain ⟨t, ht, hR⟩ := ih
    rcases h.step hr ht hR hst with hR' | ⟨b, t', hb, hR'⟩
    · exact ⟨t, ht, hR'⟩
    · exact ⟨t', .next ht hb, hR'⟩

end Systems
