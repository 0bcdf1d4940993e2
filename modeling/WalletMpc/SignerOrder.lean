import Mathlib.Algebra.Order.BigOperators.Group.List
import WalletMpc.SharedSigner
import WalletMpc.Turns

namespace WalletMpc.MpcClient
open Systems Locks Ecdsa Proto Participant
set_option autoImplicit true

/-- The thread that takes the step, in a call that has been made. -/
def MpcAction.mover : MpcAction ι → Option ι
  | .advance k | .answer k => some k
  | _ => none

/-- A call that waits for the local participant to connect or for the peers to answer, with no limit
to that time. -/
def Thread.Awaits : Thread → Prop
  | .starting | .signing _ => True
  | _ => False

theorem Thread.Awaits.inside {thread : Thread} (h : thread.Awaits) : thread.place = .inside := by
  cases thread with
  | starting | signing => rfl
  | idle | waiting | stopping => exact h.elim

/-- A call takes a step to get the guard and one to return, or is refused at once. -/
def Thread.rank (thread : Thread) : Nat :=
  match thread.place with
  | .out => 0
  | .waiting => 2
  | .inside => 1

theorem Thread.rank_inside {thread : Thread} (h : thread.place = .inside) : thread.rank = 1 := by
  rw [Thread.rank, h]

section
variable [DecidableEq ι] {c : Curve} {platform : Platform c} {s t : MpcSigner ι}

/-- The steps of the calls that get the guard before this one. -/
def MpcSigner.wait (s : MpcSigner ι) (k : ι) : Nat :=
  ((s.lock.ahead k).map fun j => (s.threads j).rank).sum

/-- The thread with the guard goes on under it, or gives it back and returns. -/
structure MpcSigner.Served (s t : MpcSigner ι) (k : ι) : Prop where
  holder : s.lock.holder = some k
  moves : ∃ thread, t.threads = Function.update s.threads k thread ∧
    thread.rank < (s.threads k).rank
  lock : t.lock = s.lock ∨ t.lock = s.lock.leave k

theorem MpcSigner.Step.served (hs : Step platform s a t) (ha : a.mover = some k) (hi : s.Inv) :
    s.Served t k := by
  have hinside : ∀ {thread}, s.threads k = thread → thread.place = .inside →
      s.lock.holder = some k ∧ (s.threads k).rank = 1 := by
    rintro thread rfl hplace
    exact ⟨hi.tracks.holder k hplace, Thread.rank_inside hplace⟩
  have hgive : ∀ {u : MpcSigner ι}, u.threads = Function.update s.threads k .idle →
      u.lock = s.lock.leave k → s.lock.holder = some k → 0 < (s.threads k).rank → s.Served u k :=
    fun hthreads hlock hh hpos => ⟨hh, ⟨_, hthreads, hpos⟩, .inr hlock⟩
  have henter : ∀ {u : MpcSigner ι} {op thread}, u.threads = Function.update s.threads k thread →
      u.lock = s.lock → s.Enters k op → thread.place = .inside → s.Served u k := by
    intro u op thread hthreads hlock he hplace
    refine ⟨he.holder, ⟨thread, hthreads, ?_⟩, .inl hlock⟩
    rw [Thread.rank_inside hplace, he.waiting]
    exact Nat.one_lt_two
  cases hs with
  | call | server => cases ha
  | refused hk hh _ =>
    cases ha
    exact hgive rfl rfl hh (by rw [hk]; exact Nat.two_pos)
  | startRejected he | signRejected he _ =>
    cases ha
    exact hgive rfl rfl he.holder (by rw [he.waiting]; exact Nat.two_pos)
  | spawn he _ | stop he | send _ he _ =>
    cases ha
    exact henter rfl rfl he rfl
  | connected hk _ _ | connectFailed _ hk | signed _ hk | stopReturned hk =>
    cases ha
    obtain ⟨hh, hrank⟩ := hinside hk rfl
    exact hgive rfl rfl hh (by rw [hrank]; exact Nat.one_pos)

/-- Whoever is served is ahead of one that waits, and comes closer to its return. -/
theorem MpcSigner.Served.wait (h : s.Served t j) (hj : j ≠ k) :
    j ∈ s.lock.ahead k ∧ t.wait k < s.wait k := by
  have hmem := Mutex.ahead_of_holder h.holder hj
  obtain ⟨thread, hthreads, hlt⟩ := h.moves
  have hsub : (t.lock.ahead k).Sublist (s.lock.ahead k) := by
    obtain hlock | hlock := h.lock
    · rw [hlock]
    · rw [hlock, s.lock.ahead_leave hj]
      exact List.filter_sublist
  have hle : t.wait k ≤ ((s.lock.ahead k).map fun j => (t.threads j).rank).sum :=
    (hsub.map _).sum_le_sum fun _ _ => Nat.zero_le _
  have hfalls : ((s.lock.ahead k).map fun j => (t.threads j).rank).sum < s.wait k := by
    apply List.sum_lt_sum
    · intro i _
      rw [hthreads]
      by_cases hij : i = j
      · subst hij
        rw [Function.update_self]
        exact hlt.le
      · rw [Function.update_of_ne hij]
    · refine ⟨j, hmem, ?_⟩
      rw [hthreads, Function.update_self]
      exact hlt
  exact ⟨hmem, hle.trans_lt hfalls⟩

omit [DecidableEq ι] in
theorem MpcSigner.Inv.mem_line {op : Operation} (hi : s.Inv) (hk : s.threads k = .waiting op) :
    k ∈ s.lock.line := by
  rw [hi.tracks.line, Function.comp_apply, hk]
  exact nofun

/-- A call that comes in gets behind those that wait. -/
theorem MpcSigner.Inv.wait_call (hi : s.Inv) (hline : k ∈ s.lock.line) (hidle : s.threads j = .idle)
    (thread : Thread) : MpcSigner.wait
      { s with lock := s.lock.lock j, threads := Function.update s.threads j thread } k =
        s.wait k := by
  have hout : ∀ i ∈ s.lock.ahead k, i ≠ j := by
    rintro i hahead rfl
    have hmem := (hi.tracks.line i).1 ((List.takeWhile_prefix _).subset hahead)
    rw [Function.comp_apply, hidle] at hmem
    exact hmem rfl
  rw [MpcSigner.wait, Mutex.ahead_lock hline j]
  apply congrArg List.sum
  apply List.map_congr_left
  intro i hahead
  exact congrArg Thread.rank (Function.update_of_ne (hout i hahead) _ _)

/-- Until it is served a call waits on, and each step of a thread is one of a call ahead of it and
makes its wait shorter. -/
theorem MpcSigner.Step.waits {op : Operation} (hs : Step platform s a t) (hi : s.Inv)
    (hk : s.threads k = .waiting op) (hne : a ≠ .advance k) :
    t.threads k = .waiting op ∧ (∀ j, j ∈ t.lock.ahead k → j ∈ s.lock.ahead k) ∧
      (∀ j, a.mover = some j → j ∈ s.lock.ahead k) ∧
      t.wait k + (if a.mover.isSome then 1 else 0) ≤ s.wait k := by
  have hline := hi.mem_line hk
  cases hmover : a.mover with
  | some j =>
    have hserved := MpcSigner.Step.served hs hmover hi
    have hj : j ≠ k := by
      rintro rfl
      cases hs with
      | call | server => cases hmover
      | connected hthread | connectFailed _ hthread | signed _ hthread =>
        cases hmover
        cases hthread.symm.trans hk
      | _ =>
        cases hmover
        exact hne rfl
    obtain ⟨hmem, hlt⟩ := hserved.wait hj
    obtain ⟨thread, hthreads, _⟩ := hserved.moves
    refine ⟨?_, ?_, ?_, hlt⟩
    · rw [hthreads, Function.update_of_ne hj.symm]
      exact hk
    · obtain hlock | hlock := hserved.lock
      · rw [hlock]
        exact fun _ => id
      · rw [hlock, s.lock.ahead_leave hj]
        exact fun _ hi => List.mem_of_mem_filter hi
    · intro i he
      cases he
      exact hmem
  | none =>
    cases hs with
    | call _ hidle =>
      rename_i j op'
      have hj : j ≠ k := by
        rintro rfl
        cases hidle.symm.trans hk
      refine ⟨(Function.update_of_ne hj.symm _ _).trans hk, ?_, nofun,
        Nat.le_of_eq (hi.wait_call hline hidle _)⟩
      rw [Mutex.ahead_lock hline j]
      exact fun _ => id
    | server => exact ⟨hk, fun _ => id, nofun, Nat.le_refl _⟩
    | _ => cases hmover

/-- While a call waits for the network nothing but the answer to it moves any thread. -/
theorem MpcSigner.Inv.held (hi : s.Inv) (hj : (s.threads j).Awaits) (i : ι) :
    ¬ (mpcSigner platform config ι).Enabled s (.advance i) := by
  rintro ⟨t, hs⟩
  have hi' := (MpcSigner.Step.served hs rfl hi).holder
  cases hi'.symm.trans (hi.tracks.holder j hj.inside)
  cases hs with
  | refused hk | stopReturned hk =>
    rw [hk] at hj
    exact hj
  | startRejected he | spawn he | signRejected he | send _ he | stop he =>
    rw [he.waiting] at hj
    exact hj

end

end WalletMpc.MpcClient
