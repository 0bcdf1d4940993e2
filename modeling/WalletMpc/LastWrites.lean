import Mathlib.Data.List.Induction

namespace LastWrites
set_option autoImplicit true

/-- The position in a log of the last write that covers a cell. -/
def Latest (covers : W → C → Prop) (log : List W) (cell : C) (k : Nat) : Prop :=
  ∃ w, log[k]? = some w ∧ covers w cell ∧
    ∀ k' w', k < k' → log[k']? = some w' → ¬covers w' cell

/-- A store in which every cell holds the position of the write that it comes from. -/
def Tracks (covers : W → C → Prop) (log : List W) (store : C → Nat → Prop) : Prop :=
  ∀ cell k, store cell k ↔ Latest covers log cell k

variable {covers : W → C → Prop} {log : List W}

theorem latest_concat (covers : W → C → Prop) (log : List W) (w : W) (cell : C) (k : Nat) :
    Latest covers (log ++ [w]) cell k ↔
      covers w cell ∧ k = log.length ∨ ¬covers w cell ∧ Latest covers log cell k := by
  have hlast : (log ++ [w])[log.length]? = some w := List.getElem?_concat_length
  have hold : ∀ {k v}, log[k]? = some v → k < log.length ∧ (log ++ [w])[k]? = some v := by
    intro k v hv
    obtain ⟨hlt, _⟩ := List.getElem?_eq_some_iff.1 hv
    exact ⟨hlt, (List.getElem?_append_left hlt).trans hv⟩
  have hnew : ∀ {k v}, (log ++ [w])[k]? = some v →
      log[k]? = some v ∨ k = log.length ∧ v = w := by
    intro k v hv
    obtain ⟨hlt, _⟩ := List.getElem?_eq_some_iff.1 hv
    rw [List.length_append, List.length_singleton] at hlt
    obtain hlt' | heq := Nat.lt_succ_iff_lt_or_eq.1 hlt
    · exact .inl ((List.getElem?_append_left hlt').symm.trans hv)
    · rw [heq, hlast] at hv
      exact .inr ⟨heq, (Option.some.inj hv).symm⟩
  apply Iff.intro
  · intro h
    obtain ⟨v, hv, hc, hafter⟩ := h
    obtain hv' | ⟨rfl, rfl⟩ := hnew hv
    · obtain ⟨hlt, _⟩ := hold hv'
      apply Or.inr
      apply And.intro (hafter _ w hlt hlast)
      exact ⟨v, hv', hc, fun k' w' hk hw' => hafter k' w' hk (hold hw').2⟩
    · exact .inl ⟨hc, rfl⟩
  · intro h
    obtain ⟨hc, rfl⟩ | ⟨hn, v, hv, hc, hafter⟩ := h
    · exists w, hlast, hc
      intro k' w' hk hw'
      obtain ⟨hlt, _⟩ := List.getElem?_eq_some_iff.1 hw'
      rw [List.length_append, List.length_singleton] at hlt
      omega
    · exists v, (hold hv).2, hc
      intro k' w' hk hw'
      obtain hw | ⟨_, rfl⟩ := hnew hw'
      · exact hafter k' w' hk hw
      · exact hn

theorem exists_latest (h : w ∈ log) (hc : covers w cell) : ∃ m, Latest covers log cell m := by
  induction log using List.reverseRecOn with
  | nil => cases h
  | append_singleton log v ih =>
    by_cases hv : covers v cell
    · exact ⟨_, (latest_concat ..).2 (.inl ⟨hv, rfl⟩)⟩
    · obtain hlog | hlast := List.mem_append.1 h
      · obtain ⟨m, hm⟩ := ih hlog
        exact ⟨m, (latest_concat ..).2 (.inr ⟨hv, hm⟩)⟩
      · rw [List.mem_singleton.1 hlast] at hc
        exact absurd hc hv

theorem tracks_nil (h : ∀ cell k, ¬store cell k) : Tracks covers [] store := by
  intro cell k
  apply Iff.intro
  · intro hs
    exact absurd hs (h cell k)
  · intro hl
    obtain ⟨w, hw, _⟩ := hl
    cases hw

theorem Tracks.concat (h : Tracks covers log store)
    (hc : ∀ cell k, covers w cell → (store' cell k ↔ k = log.length))
    (hn : ∀ cell k, ¬covers w cell → (store' cell k ↔ store cell k)) :
    Tracks covers (log ++ [w]) store' := by
  intro cell k
  rw [latest_concat]
  by_cases hw : covers w cell
  · rw [hc cell k hw]
    exact ⟨fun hk => .inl ⟨hw, hk⟩, fun hl => hl.elim And.right fun hr => absurd hw hr.1⟩
  · rw [hn cell k hw, h cell k]
    exact ⟨fun hl => .inr ⟨hw, hl⟩, fun hl => hl.elim (fun hr => absurd hr.1 hw) And.right⟩

/-- All cells come from one write just when the last write that covers anything covers
whatever any write of the log covers. -/
theorem Tracks.single_iff (h : Tracks covers log store) :
    (∃ k, ∀ cell m, store cell m → m = k) ↔
      ∀ m w, Latest (fun w (_ : Unit) => ∃ cell, covers w cell) log () m → log[m]? = some w →
        ∀ w' ∈ log, ∀ cell, covers w' cell → covers w cell := by
  apply Iff.intro
  · intro hs m w hm hw w' hw' cell hc'
    obtain ⟨k, hk⟩ := hs
    obtain ⟨v, hv, ⟨cell₀, hc₀⟩, hafter⟩ := hm
    cases hw.symm.trans hv
    have hm : m = k := by
      apply hk cell₀
      rw [h]
      exact ⟨w, hw, hc₀, fun k' w' hk' hw' hc => hafter k' w' hk' hw' ⟨cell₀, hc⟩⟩
    obtain ⟨n, hn⟩ := exists_latest hw' hc'
    have hnk : n = k := hk cell n ((h cell n).2 hn)
    obtain ⟨u, hu, hcu, _⟩ := hn
    rw [hnk, ← hm] at hu
    cases hu.symm.trans hw
    exact hcu
  · intro hlast
    by_cases hE : ∃ m, Latest (fun w (_ : Unit) => ∃ cell, covers w cell) log () m
    · obtain ⟨m, hm⟩ := hE
      exists m
      intro cell k hk
      obtain ⟨w, hw, _, hafter⟩ := id hm
      obtain ⟨u, hu, hcu, hafteru⟩ := (h cell k).1 hk
      have hcw : covers w cell := hlast m w hm hw u (List.mem_of_getElem? hu) cell hcu
      obtain hlt | heq | hgt := Nat.lt_trichotomy k m
      · exact absurd hcw (hafteru m w hlt hw)
      · exact heq
      · exact absurd ⟨cell, hcu⟩ (hafter k u hgt hu)
    · exists 0
      intro cell k hk
      obtain ⟨u, hu, hcu, _⟩ := (h cell k).1 hk
      exact absurd (exists_latest (List.mem_of_getElem? hu) ⟨cell, hcu⟩) hE

end LastWrites
