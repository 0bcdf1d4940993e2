import Mathlib.Algebra.Order.BigOperators.Group.Finset
import WalletMpc.Handlers

namespace WalletMpc.Sse
open Systems Arenas Locks
set_option autoImplicit true

/-- How many more steps a handler takes at most until it has answered. -/
def Handler.rank : Handler μ → Nat
  | .idle => 0
  | .lockingRead _ _ => 6
  | .reading _ _ => 5
  | .lockingWrite _ _ => 4
  | .writing _ _ => 3
  | .vacant _ _ => 2
  | .returned _ _ _ => 1
  | .streaming _ _ _ _ => 0

/-- A handler that has a request and has not answered it. -/
def Handler.Busy (h : Handler μ) : Prop := 0 < h.rank

/-- A handler that cannot go on before the lock lets it in. -/
def Handler.Waits : Handler μ → Prop
  | .lockingRead _ _ | .lockingWrite _ _ => True
  | _ => False

section
variable [DecidableEq τ] {s t : SseServer τ μ}

/-- A step of a handler brings it closer to its answer, and moves no other. -/
theorem SseServer.Step.rank (hs : Step p s (k, .advance) t) :
    ∃ h, t.handlers = Function.update s.handlers k h ∧ h.rank < (s.handlers k).rank := by
  cases hs with
  | lockRead hk => exact ⟨_, rfl, by simp [hk, Handler.rank]⟩
  | hit hk => exact ⟨_, rfl, by simp [hk, Handler.rank]⟩
  | miss hk => exact ⟨_, rfl, by simp [hk, Handler.rank]⟩
  | lockWrite hk => exact ⟨_, rfl, by simp [hk, Handler.rank]⟩
  | occupied hk => exact ⟨_, rfl, by simp [hk, Handler.rank]⟩
  | vacant hk => exact ⟨_, rfl, by simp [hk, Handler.rank]⟩
  | insert hk => exact ⟨_, rfl, by simp [hk, Handler.rank]⟩
  | got hk => exact ⟨_, rfl, by simp [hk, Handler.rank]⟩
  | subscribe hk => exact ⟨_, rfl, by simp [hk, Handler.rank]⟩
  | subscribeFailed hk => exact ⟨_, rfl, by simp [hk, Handler.rank]⟩
  | issueIdx hk => exact ⟨_, rfl, by simp [hk, Handler.rank]⟩
  | broadcast hk => exact ⟨_, rfl, by simp [hk, Handler.rank]⟩

theorem SseServer.Step.frame (hs : Step p s x t) :
    ∃ h, t.handlers = Function.update s.handlers x.1 h := by
  cases hs with
  | _ => exact ⟨_, rfl⟩

/-- The steps that the handlers of these tasks still take. -/
def SseServer.left (K : Finset τ) (s : SseServer τ μ) : Nat := ∑ k ∈ K, (s.handlers k).rank

theorem SseServer.Step.left {K : Finset τ} (hs : Step p s (k, .advance) t)
    (hK : ∀ k, (s.handlers k).Busy → k ∈ K) : (∀ k, (t.handlers k).Busy → k ∈ K) ∧
      (∀ k, k ∉ K → t.handlers k = s.handlers k) ∧ t.left K < s.left K := by
  obtain ⟨h, ht, hlt⟩ := SseServer.Step.rank hs
  have hself : (t.handlers k).rank < (s.handlers k).rank := by
    rw [ht, Function.update_self]
    exact hlt
  have hle : ∀ j, (t.handlers j).rank ≤ (s.handlers j).rank := by
    intro j
    by_cases hj : j = k
    · exact hj ▸ hself.le
    · rw [ht, Function.update_of_ne hj]
  have hk : k ∈ K := hK k (Nat.zero_lt_of_lt hself)
  refine ⟨?_, ?_, ?_⟩
  · intro j hb
    exact hK j (Nat.lt_of_lt_of_le hb (hle j))
  · intro j hj
    rw [ht, Function.update_of_ne (ne_of_mem_of_not_mem hk hj).symm]
  · exact Finset.sum_lt_sum (fun j _ => hle j) ⟨k, hk, hself⟩

/-- Of the steps of all handlers, those of one bring it closer to its answer. -/
theorem SseServer.run_rank (h : (server p τ μ).Run s as t) (has : ∀ x ∈ as, x.2 = .advance)
    (k : τ) :
    as.countP (fun x => x.1 = k) + (t.handlers k).rank ≤ (s.handlers k).rank := by
  apply h.countP_le (f := fun s => (s.handlers k).rank)
  rintro u ⟨j, x⟩ v hx hs
  cases has _ hx
  obtain ⟨h, hv, hlt⟩ := SseServer.Step.rank hs
  rw [hv]
  by_cases hj : j = k
  · subst hj
    rw [Function.update_self, if_pos (decide_eq_true rfl)]
    exact hlt
  · rw [Function.update_of_ne (Ne.symm hj), if_neg (by simpa using hj)]
    exact Nat.le_refl _

end

end WalletMpc.Sse
