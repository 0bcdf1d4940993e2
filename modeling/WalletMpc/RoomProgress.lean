import Mathlib.Algebra.Order.BigOperators.Group.Finset
import WalletMpc.Wakeup
import WalletMpc.Subscribers

namespace WalletMpc.Sse
open Systems Locks
set_option autoImplicit true

def Subscription.unread (sub : Subscription) (room : Room μ) : Nat :=
  room.messages.length - sub.nextEvent.toNat

/-- How many more steps a task takes at most until it has nothing to do, if no publisher moves. A
publisher has as many to its credit as it makes for the others, `n` at most: three for the delivery
of its message, and five for a subscriber that it wakes. -/
def Task.rank (n : Nat) (room : Room μ) (appeared : Notify) : Task μ → Nat
  | .idle => 0
  | .lockingWrite _ => 8 * n + 4
  | .locked _ => 8 * n + 3
  | .pushed => 5 * n + 2
  | .notified => 1
  | .subscribed sub => 3 * sub.unread room + 5
  | .lockingRead sub => 3 * sub.unread room + 4
  | .reading sub => 3 * sub.unread room + 3
  | .missed sub => 3 * sub.unread room + 2
  | .armed sub notification =>
    3 * sub.unread room + 1 + if notification.Fired appeared then 5 else 0
  | .suspended sub notification =>
    3 * sub.unread room + if notification.Fired appeared then 5 else 0

/-- A task that is in a call and not asleep. -/
def Task.Busy (appeared : Notify) : Task μ → Prop
  | .idle => False
  | .suspended _ notification => notification.Fired appeared
  | _ => True

/-- A task that cannot go on before the lock lets it in. -/
def Task.Waits : Task μ → Prop
  | .lockingRead _ | .lockingWrite _ => True
  | _ => False

/-- The message that a publisher has not pushed yet. -/
def Task.pending : Task μ → Option μ
  | .lockingWrite m | .locked m => some m
  | _ => none

def Task.subscription : Task μ → Option Subscription
  | .subscribed sub | .lockingRead sub | .reading sub | .missed sub | .armed sub _
  | .suspended sub _ => some sub
  | _ => none

theorem Room.length_publish (room : Room μ) (m : μ) :
    (room.publish m).messages.length = room.messages.length + 1 :=
  List.length_append

theorem Subscription.unread_publish (sub : Subscription) (room : Room μ) (m : μ) :
    sub.unread (room.publish m) ≤ sub.unread room + 1 := by
  rw [Subscription.unread, Subscription.unread, Room.length_publish]
  omega

/-- A delivery leaves one message less to read. -/
theorem Subscription.unread_next {sub : Subscription} {room : Room μ}
    (h : sub.next p room = .ready eventId msg sub') (hl : room.messages.length ≤ 65535) :
    sub'.unread room + 1 = sub.unread room := by
  obtain ⟨rfl, hm, _⟩ := Subscription.next_ready h
  have hlt := (List.getElem?_eq_some_iff.1 hm).1
  rw [Subscription.unread, Subscription.unread, Subscription.next_cursor h (by omega)]
  omega

theorem Notify.notified_not_fired (n : Notify) : ¬ n.notified.Fired n := Nat.lt_irrefl _

theorem Task.rank_publish (x : Task μ) (n : Nat) (room : Room μ) (m : μ) (appeared : Notify) :
    x.rank n (room.publish m) appeared ≤ x.rank n room appeared + 3 := by
  cases x with
  | idle | lockingWrite | locked | pushed | notified => exact Nat.le_add_right _ 3
  | subscribed sub | lockingRead sub | reading sub | missed sub | armed sub | suspended sub =>
    have hle := sub.unread_publish room m
    simp only [Task.rank]
    omega

theorem Task.rank_notifyWaiters (x : Task μ) (n : Nat) (room : Room μ) (appeared : Notify) :
    x.rank n room appeared.notifyWaiters ≤ x.rank n room appeared + 5 := by
  cases x with
  | armed | suspended =>
    simp only [Task.rank]
    split
    · omega
    · omega
  | _ => exact Nat.le_add_right _ 5

/-- One entry of a sum falls by more than the others rise. -/
theorem sum_lt_of_falls [DecidableEq τ] {K : Finset τ} {f g : τ → Nat} (hk : k ∈ K)
    (hothers : ∀ j ∈ K, j ≠ k → g j ≤ f j + d) (hself : g k + d * K.card < f k) :
    ∑ j ∈ K, g j < ∑ j ∈ K, f j := by
  have hrest : ∑ j ∈ K.erase k, g j ≤ ∑ j ∈ K.erase k, (f j + d) :=
    Finset.sum_le_sum fun j hj =>
      hothers j (Finset.mem_of_mem_erase hj) (Finset.ne_of_mem_erase hj)
  have hcard : (K.erase k).card * d ≤ d * K.card := by
    rw [Nat.mul_comm]
    exact Nat.mul_le_mul_left d (Finset.card_erase_le)
  rw [Finset.sum_add_distrib, Finset.sum_const, smul_eq_mul] at hrest
  rw [← Finset.add_sum_erase K f hk, ← Finset.add_sum_erase K g hk]
  omega

/-- What stays of a state: its history grows, a message being published stays so until it is in the
history, and a subscriber remains one. -/
structure Shared.Keeps (s t : Shared τ μ) : Prop where
  history : s.room.messages <+: t.room.messages
  pending : ∀ k m, (s.tasks k).pending = some m →
    (t.tasks k).pending = some m ∨ m ∈ t.room.messages
  subscribers : ∀ k, (s.tasks k).subscription.isSome → (t.tasks k).subscription.isSome

theorem Shared.Keeps.refl (s : Shared τ μ) : s.Keeps s :=
  ⟨List.prefix_rfl, fun _ _ h => .inl h, fun _ h => h⟩

theorem Shared.Keeps.trans {s t u : Shared τ μ} (h : s.Keeps t) (h' : t.Keeps u) : s.Keeps u where
  history := h.history.trans h'.history
  pending k m hm := by
    obtain hm | hm := h.pending k m hm
    · exact h'.pending k m hm
    · exact .inr (h'.history.subset hm)
  subscribers k hk := h'.subscribers k (h.subscribers k hk)

/-- Each message that was being published is in the history, and each subscriber has read it to its
end. -/
structure Shared.Delivered (s t : Shared τ μ) : Prop where
  published : ∀ k m, (s.tasks k).pending = some m → m ∈ t.room.messages
  read : ∀ k, (s.tasks k).subscription.isSome →
    ∃ sub, (t.tasks k).subscription = some sub ∧ sub.Drained t.room

/-- Where no task is busy each subscriber has read all there is. -/
theorem Shared.Inv.drained {s : Shared τ μ} (hi : s.Inv) (hquiet : ∀ k, ¬ (s.tasks k).Busy s.appeared)
    (hk : (s.tasks k).subscription.isSome) :
    ∃ sub, (s.tasks k).subscription = some sub ∧ sub.Drained s.room := by
  have hasleep := hquiet k
  have hsound := hi.sound k
  cases htask : s.tasks k with
  | suspended sub notification =>
    rw [htask] at hasleep hsound
    obtain hdrained | ⟨w, hw⟩ := hsound.2 hasleep
    · exact ⟨sub, rfl, hdrained⟩
    · have hwriter := hquiet w
      cases hannounces : s.tasks w with
      | locked | pushed =>
        rw [hannounces] at hwriter
        exact absurd trivial hwriter
      | _ =>
        rw [hannounces] at hw
        exact hw.elim
  | subscribed | lockingRead | reading | missed | armed =>
    rw [htask] at hasleep
    exact absurd trivial hasleep
  | idle | lockingWrite | locked | pushed | notified =>
    rw [htask] at hk
    cases hk

section
variable [DecidableEq τ] {s t : Shared τ μ}

/-- What goes on by itself in the room, and by the polls of the streams. -/
def TaskAction.Onward : TaskAction μ → Prop
  | .advance | .next => True
  | _ => False

/-- A step of a task lowers its rank by more than it raises those of `n` tasks. -/
theorem Shared.Step.rank (hs : Step p s (k, a) t) (ha : a.Onward)
    (hlen : t.room.messages.length ≤ 65535) (n : Nat) :
    ∃ x d, t.tasks = Function.update s.tasks k x ∧
      (∀ y : Task μ, y.rank n t.room t.appeared ≤ y.rank n s.room s.appeared + d) ∧
      x.rank n t.room t.appeared + d * n < (s.tasks k).rank n s.room s.appeared := by
  cases hs with
  | lockWrite hk | published hk | next hk | lockRead hk | miss hk =>
    refine ⟨_, 0, rfl, fun y => Nat.le_refl _, ?_⟩
    simp only [hk, Task.rank]
    omega
  | push hk =>
    refine ⟨_, 3, rfl, fun y => y.rank_publish n s.room _ s.appeared, ?_⟩
    simp only [hk, Task.rank]
    omega
  | notify hk =>
    refine ⟨_, 5, rfl, fun y => y.rank_notifyWaiters n s.room s.appeared, ?_⟩
    simp only [hk, Task.rank]
    omega
  | deliver hk hnext =>
    have hunread := Subscription.unread_next hnext hlen
    refine ⟨_, 0, rfl, fun y => Nat.le_refl _, ?_⟩
    simp only [hk, Task.rank]
    omega
  | crash hk hnext => exact absurd hnext (Subscription.next_ne_panicked (Nat.lt_succ_of_le hlen))
  | arm hk =>
    refine ⟨_, 0, rfl, fun y => Nat.le_refl _, ?_⟩
    simp only [hk, Task.rank, if_neg (Notify.notified_not_fired s.appeared)]
    omega
  | suspend hk =>
    refine ⟨_, 0, rfl, fun y => Nat.le_refl _, ?_⟩
    simp only [hk, Task.rank]
    omega
  | wake hk hfired =>
    refine ⟨_, 0, rfl, fun y => Nat.le_refl _, ?_⟩
    simp only [hk, Task.rank, if_pos hfired]
    omega
  | publish | subscribe | subscribeFailed | cancelPublish | drop => exact ha.elim

/-- The steps that these tasks still take. -/
def Shared.left (K : Finset τ) (s : Shared τ μ) : Nat :=
  ∑ k ∈ K, (s.tasks k).rank K.card s.room s.appeared

theorem Shared.Step.left {K : Finset τ} (hs : Step p s (k, a) t) (ha : a.Onward)
    (hlen : t.room.messages.length ≤ 65535) (hK : ∀ k, s.tasks k ≠ .idle → k ∈ K) :
    (∀ k, t.tasks k ≠ .idle → k ∈ K) ∧ t.left K < s.left K := by
  obtain ⟨x, d, ht, hothers, hself⟩ := Shared.Step.rank hs ha hlen K.card
  have hk : k ∈ K := by
    apply hK
    intro hidle
    rw [hidle] at hself
    exact Nat.not_lt_zero _ hself
  constructor
  · intro j hj
    by_cases hjk : j = k
    · exact hjk ▸ hk
    · rw [ht, Function.update_of_ne hjk] at hj
      exact hK j hj
  · apply sum_lt_of_falls hk
    · intro j _ hj
      rw [ht, Function.update_of_ne hj]
      exact hothers _
    · rw [ht, Function.update_self]
      exact hself

/-- A task moves. -/
theorem Shared.Keeps.move {room' : Room μ} {x : Task μ}
    (hroom : s.room.messages <+: room'.messages)
    (hpending : ∀ m, (s.tasks k).pending = some m → x.pending = some m ∨ m ∈ room'.messages)
    (hsub : (s.tasks k).subscription.isSome → x.subscription.isSome) :
    s.Keeps ⟨room', lock', appeared', Function.update s.tasks k x⟩ where
  history := hroom
  pending := by
    apply (Function.forall_update_iff s.tasks fun j y => ∀ m, (s.tasks j).pending = some m →
      y.pending = some m ∨ m ∈ room'.messages).2
    exact ⟨hpending, fun j _ m hm => .inl hm⟩
  subscribers := by
    apply (Function.forall_update_iff s.tasks fun j y =>
      (s.tasks j).subscription.isSome → y.subscription.isSome).2
    exact ⟨hsub, fun j _ hj => hj⟩

theorem Shared.Step.keeps (hs : Step p s (k, a) t) (ha : a.Onward)
    (hlen : t.room.messages.length ≤ 65535) : s.Keeps t := by
  have hnone : ∀ {x y : Task μ} {messages : List μ}, s.tasks k = y → y.pending = none →
      ∀ m, (s.tasks k).pending = some m → x.pending = some m ∨ m ∈ messages := by
    rintro x y messages rfl hy m hm
    cases hy.symm.trans hm
  cases hs with
  | lockWrite hk => exact .move List.prefix_rfl (by rw [hk]; exact fun m => .inl) (by rw [hk]; nofun)
  | push hk =>
    refine .move (List.prefix_append _ _) ?_ (by rw [hk]; nofun)
    rw [hk]
    intro m hm
    cases hm
    exact .inr (List.mem_append_right _ (List.mem_singleton_self _))
  | notify hk | published hk => exact .move List.prefix_rfl (hnone hk rfl) (by rw [hk]; nofun)
  | next hk | lockRead hk | deliver hk | miss hk | arm hk | suspend hk | wake hk =>
    exact .move List.prefix_rfl (hnone hk rfl) fun _ => rfl
  | crash hk hnext => exact absurd hnext (Subscription.next_ne_panicked (Nat.lt_succ_of_le hlen))
  | publish | subscribe | subscribeFailed | cancelPublish | drop => exact ha.elim

theorem Shared.Step.history (hs : Step p s a t) : s.room.messages <+: t.room.messages := by
  cases hs with
  | push => exact List.prefix_append _ _
  | subscribe _ _ hsub | subscribeFailed _ _ hsub =>
    have hroom := congrArg (fun x => x.1.messages) hsub
    exact ⟨[], (List.append_nil _).trans hroom⟩
  | _ => exact List.prefix_rfl

theorem Shared.run_history (hr : (shared p τ μ).Run s as t) :
    s.room.messages <+: t.room.messages := by
  apply hr.invariant (I := fun u => s.room.messages <+: u.room.messages)
  · intro u a v _ hu hs
    exact hu.trans (Shared.Step.history hs)
  · exact List.prefix_rfl

theorem Shared.run_left {K : Finset τ} (hr : (shared p τ μ).Run s as t)
    (has : ∀ x ∈ as, x.2.Onward) (hlen : t.room.messages.length ≤ 65535)
    (hK : ∀ k, s.tasks k ≠ .idle → k ∈ K) : as.length + t.left K ≤ s.left K ∧ s.Keeps t := by
  induction hr with
  | refl s => exact ⟨Nat.le_of_eq (Nat.zero_add _), .refl s⟩
  | @head s x u as t hs hr ih =>
    obtain ⟨ha, has⟩ := List.forall_mem_cons.1 has
    have hu := (Shared.run_history hr).length_le.trans hlen
    obtain ⟨hK', hlt⟩ := Shared.Step.left hs ha hu hK
    obtain ⟨hle, hkeeps⟩ := ih has hlen hK'
    rw [List.length_cons]
    exact ⟨by omega, (Shared.Step.keeps hs ha hu).trans hkeeps⟩

/-- Only finitely many tasks are in a call at a time. -/
theorem Shared.tasks_finite (h : (shared p τ μ).Reachable s) :
    ∃ K : Finset τ, ∀ k, s.tasks k ≠ .idle → k ∈ K := by
  apply h.invariant (I := fun s => ∃ K : Finset τ, ∀ k, s.tasks k ≠ .idle → k ∈ K)
  · intro s h0
    cases h0
    exact ⟨∅, fun k hk => absurd rfl hk⟩
  · rintro s ⟨k, a⟩ t _ ⟨K, hK⟩ hs
    obtain ⟨x, ht⟩ : ∃ x, t.tasks = Function.update s.tasks k x := by
      cases hs with
      | subscribeFailed => exact ⟨_, (Function.update_eq_self k s.tasks).symm⟩
      | _ => exact ⟨_, rfl⟩
    refine ⟨insert k K, fun j hj => ?_⟩
    by_cases hjk : j = k
    · exact hjk ▸ Finset.mem_insert_self ..
    · rw [ht, Function.update_of_ne hjk] at hj
      exact Finset.mem_insert_of_mem (hK j hj)

def Shared.CanGo (p : Profile) (s : Shared τ μ) (k : τ) : Prop :=
  ∃ a : TaskAction μ, a.Onward ∧ (shared p τ μ).Enabled s (k, a)

/-- Nobody is stuck: a busy task that is not at the lock can go on, and while no guard is held each
that is at the lock can. -/
structure Shared.Proceeds (p : Profile) (s : Shared τ μ) : Prop where
  go : ∀ k, (s.tasks k).Busy s.appeared → ¬ (s.tasks k).Waits → s.CanGo p k
  enter : (∀ j, (s.tasks j).mode = .free) → ∀ k, (s.tasks k).Waits → s.CanGo p k

theorem Shared.reading_enabled (hk : s.tasks k = .reading sub) : s.CanGo p k := by
  cases hnext : sub.next p s.room with
  | ready eventId m sub' => exact ⟨.advance, trivial, _, .deliver hk hnext⟩
  | pending => exact ⟨.advance, trivial, _, .miss hk hnext⟩
  | panicked => exact ⟨.advance, trivial, _, .crash hk hnext⟩

theorem Shared.Inv.proceeds (hi : s.Inv) : s.Proceeds p := by
  constructor
  case go =>
    intro k hbusy hwaits
    cases hk : s.tasks k with
    | idle =>
      rw [hk] at hbusy
      exact hbusy.elim
    | lockingWrite | lockingRead =>
      rw [hk] at hwaits
      exact absurd trivial hwaits
    | locked m => exact ⟨.advance, trivial, _, .push hk⟩
    | pushed => exact ⟨.advance, trivial, _, .notify hk⟩
    | notified => exact ⟨.advance, trivial, _, .published hk⟩
    | subscribed sub => exact ⟨.next, trivial, _, .next hk⟩
    | reading sub => exact Shared.reading_enabled hk
    | missed sub => exact ⟨.advance, trivial, _, .arm hk⟩
    | armed sub notification => exact ⟨.advance, trivial, _, .suspend hk⟩
    | suspended sub notification =>
      rw [hk] at hbusy
      exact ⟨.advance, trivial, _, .wake hk hbusy⟩
  case enter =>
    intro hfree k hwaits
    have hwriter : s.lock.writer = none := by
      cases hw : s.lock.writer with
      | none => rfl
      | some j => cases (hfree j).symm.trans ((hi.guards.writer j).1 hw)
    have hreaders : s.lock.readers = ∅ := by
      apply Finset.eq_empty_of_forall_notMem
      intro j hj
      cases (hfree j).symm.trans ((hi.guards.reader j).1 hj)
    cases hk : s.tasks k with
    | lockingWrite m => exact ⟨.advance, trivial, _, .lockWrite hk (dif_pos ⟨hwriter, hreaders⟩)⟩
    | lockingRead sub => exact ⟨.advance, trivial, _, .lockRead hk (dif_pos hwriter)⟩
    | _ =>
      rw [hk] at hwaits
      exact hwaits.elim

/-- Once no more calls come, every message reaches every subscriber: however the tasks take turns
there are no more than so many steps, nobody is ever stuck, and when nobody is busy any more all is
delivered. -/
theorem all_delivered (h : (shared p τ μ).Reachable s) :
    ∃ K : Finset τ, (∀ k, s.tasks k ≠ .idle → k ∈ K) ∧
      ∀ as t, (shared p τ μ).Run s as t → (∀ x ∈ as, x.2.Onward) →
        t.room.messages.length ≤ 65535 → as.length ≤ s.left K ∧ t.Proceeds p ∧
        ((∀ k, ¬ (t.tasks k).Busy t.appeared) → s.Delivered t) := by
  obtain ⟨K, hK⟩ := Shared.tasks_finite h
  refine ⟨K, hK, fun as t hr has hlen => ?_⟩
  obtain ⟨hle, hkeeps⟩ := Shared.run_left hr has hlen hK
  have hi := Shared.inv (h.run hr)
  refine ⟨by omega, hi.proceeds, fun hquiet => ⟨fun k m hm => ?_, fun k hk => ?_⟩⟩
  · obtain hpending | hmem := hkeeps.pending k m hm
    · have hbusy := hquiet k
      cases htask : t.tasks k with
      | lockingWrite | locked =>
        rw [htask] at hbusy
        exact absurd trivial hbusy
      | _ =>
        rw [htask] at hpending
        cases hpending
    · exact hmem
  · exact hi.drained hquiet (hkeeps.subscribers k hk)

/-- A subscriber sleeps and a publisher asks for the lock. -/
theorem all_delivered_asleep : ∃ s : Shared Bool String, s.tasks true = .suspended ⟨0⟩ ⟨0⟩ ∧
    (s.tasks false).pending = some "round 1" ∧
    ∃ K : Finset Bool, (∀ k, s.tasks k ≠ .idle → k ∈ K) ∧
      ∀ as t, (shared .dev Bool String).Run s as t → (∀ x ∈ as, x.2.Onward) →
        t.room.messages.length ≤ 65535 → as.length ≤ s.left K ∧ t.Proceeds .dev ∧
        ((∀ k, ¬ (t.tasks k).Busy t.appeared) → s.Delivered t) := by
  have h0 := System.Reachable.start (T := shared .dev Bool String) rfl
  have h1 := h0.next (.subscribe (k := true) none rfl rfl)
  have h2 := h1.next (.next (k := true) rfl)
  have h3 := h2.next (.lockRead (k := true) rfl rfl)
  have h4 := h3.next (.miss (k := true) rfl rfl)
  have h5 := h4.next (.arm (k := true) rfl)
  have h6 := h5.next (.suspend (k := true) rfl)
  have h7 := h6.next (.publish (k := false) "round 1" rfl)
  exact ⟨_, rfl, rfl, all_delivered h7⟩

end

end WalletMpc.Sse
