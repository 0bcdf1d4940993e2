import WalletMpc.Systems
import WalletMpc.Locks

namespace Locks
open Systems
set_option autoImplicit true

variable [DecidableEq ι]

/-- The tasks that get the guard before this one. -/
def Mutex.ahead (m : Mutex ι) (i : ι) : List ι := m.line.takeWhile (· ≠ i)

theorem Mutex.ahead_nil (m : Mutex ι) (i : ι) (h : i ∈ m.line) :
    m.ahead i = [] ↔ m.holder = some i := by
  obtain ⟨line⟩ := m
  cases line with
  | nil => cases h
  | cons j rest =>
    rw [Mutex.ahead, Mutex.holder, List.head?_cons, Option.some.injEq]
    by_cases hj : j = i
    · rw [List.takeWhile_cons_of_neg (by simpa using hj)]
      exact ⟨fun _ => hj, fun _ => rfl⟩
    · rw [List.takeWhile_cons_of_pos (by simpa using hj)]
      exact ⟨fun hnil => (List.cons_ne_nil _ _ hnil).elim, fun he => absurd he hj⟩

theorem Mutex.ahead_of_holder {m : Mutex ι} (h : m.holder = some j) (hj : j ≠ i) :
    j ∈ m.ahead i := by
  obtain ⟨line⟩ := m
  cases line with
  | nil => cases h
  | cons k rest =>
    cases h
    rw [Mutex.ahead, List.takeWhile_cons_of_pos (by simpa using hj)]
    exact List.mem_cons_self

/-- Whoever asks for the guard gets behind all that wait. -/
theorem Mutex.ahead_lock {m : Mutex ι} (h : i ∈ m.line) (j : ι) : (m.lock j).ahead i = m.ahead i := by
  obtain ⟨line⟩ := m
  rw [Mutex.ahead, Mutex.ahead, Mutex.lock]
  induction line with
  | nil => cases h
  | cons k rest ih =>
    rw [List.cons_append]
    by_cases hk : k = i
    · rw [List.takeWhile_cons_of_neg (by simpa using hk),
        List.takeWhile_cons_of_neg (by simpa using hk)]
    · have hrest : i ∈ rest := (List.mem_cons.1 h).resolve_left (Ne.symm hk)
      rw [List.takeWhile_cons_of_pos (by simpa using hk),
        List.takeWhile_cons_of_pos (by simpa using hk), ih hrest]

/-- Whoever leaves is no longer ahead, and the others stay as they were. -/
theorem Mutex.ahead_leave (m : Mutex ι) (hj : j ≠ i) :
    (m.leave j).ahead i = (m.ahead i).filter (· ≠ j) := by
  obtain ⟨line⟩ := m
  rw [Mutex.ahead, Mutex.ahead, Mutex.leave]
  induction line with
  | nil => rfl
  | cons k rest ih =>
    by_cases hk : k = i
    · subst hk
      rw [List.filter_cons_of_pos (by simpa using hj.symm),
        List.takeWhile_cons_of_neg (by simp), List.takeWhile_cons_of_neg (by simp),
        List.filter_nil]
    · rw [List.takeWhile_cons_of_pos (by simpa using hk)]
      by_cases hkj : k = j
      · rw [List.filter_cons_of_neg (by simpa using hkj), ih,
          List.filter_cons_of_neg (by simpa using hkj)]
      · rw [List.filter_cons_of_pos (by simpa using hkj),
          List.takeWhile_cons_of_pos (by simpa using hk), ih,
          List.filter_cons_of_pos (by simpa using hkj)]

theorem Mutex.length_ahead_leave {m : Mutex ι} (h : j ∈ m.ahead i) (hj : j ≠ i) :
    ((m.leave j).ahead i).length + 1 ≤ (m.ahead i).length := by
  rw [m.ahead_leave hj]
  apply List.length_filter_lt_length_iff_exists.2
  exact ⟨j, h, by simp⟩

/-- What the tasks do with a mutex. -/
inductive Turn (ι : Type u) where
  | lock (i : ι)
  | leave (i : ι)

def Turn.apply (m : Mutex ι) : Turn ι → Mutex ι
  | .lock i => m.lock i
  | .leave i => m.leave i

/-- Tasks that wait for a fair mutex and drop its guard, or give up. -/
def turns (ι : Type u) [DecidableEq ι] : System (Mutex ι) (Turn ι) where
  start m := m = .unlocked
  step m x m' := m' = x.apply m

/-- While a task waits, those ahead of it are the ones that were and have not left. -/
theorem ahead_of_run {m m' : Mutex ι} (h : (turns ι).Run m as m') (hi : i ∈ m.line)
    (hwait : .leave i ∉ as) : i ∈ m'.line ∧ (m'.ahead i).Sublist (m.ahead i) ∧
      ∀ j, j ∈ m'.ahead i ↔ j ∈ m.ahead i ∧ .leave j ∉ as := by
  induction h with
  | refl m => exact ⟨hi, .refl _, fun j => ⟨fun hj => ⟨hj, List.not_mem_nil⟩, fun hj => hj.1⟩⟩
  | head hst hr ih =>
    rename_i m x u as m'
    cases hst
    have hrest : Turn.leave i ∉ as := fun hmem => hwait (List.mem_cons_of_mem _ hmem)
    cases x with
    | lock k =>
      obtain ⟨hline, hsub, hmem⟩ := ih (Mutex.mem_lock.2 (.inl hi)) hrest
      rw [Turn.apply, Mutex.ahead_lock hi k] at hsub hmem
      refine ⟨hline, hsub, fun j => ?_⟩
      rw [hmem j, List.mem_cons, or_iff_right nofun]
    | leave k =>
      have hk : k ≠ i := by
        rintro rfl
        exact hwait List.mem_cons_self
      obtain ⟨hline, hsub, hmem⟩ := ih (Mutex.mem_leave.2 ⟨hi, hk.symm⟩) hrest
      rw [Turn.apply, m.ahead_leave hk] at hsub hmem
      refine ⟨hline, hsub.trans List.filter_sublist, fun j => ?_⟩
      rw [hmem j, List.mem_filter, decide_eq_true_eq, List.mem_cons, Turn.leave.injEq, not_or,
        and_assoc]

end Locks
