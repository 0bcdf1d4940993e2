import WalletMpc.Systems
import WalletMpc.Room
import WalletMpc.Locks

namespace WalletMpc.Sse
open Systems Locks
set_option autoImplicit true

/-- Where a task stands in `Room::publish` or `Subscription::next`. -/
inductive Task (μ : Type) where
  | idle
  | lockingWrite (m : μ)
  | locked (m : μ)
  | pushed
  | notified
  | subscribed (sub : Subscription)
  | lockingRead (sub : Subscription)
  | reading (sub : Subscription)
  | missed (sub : Subscription)
  | armed (sub : Subscription) (notification : Notified)
  | suspended (sub : Subscription) (notification : Notified)

structure Shared (τ μ : Type) where
  room : Room μ
  lock : RwLock τ
  appeared : Notify
  tasks : τ → Task μ

inductive TaskAction (μ : Type) where
  | publish (m : μ)
  | subscribe (lastSeenMsg : Option UInt16)
  | next
  | advance
  | cancel

/-- The code between two consecutive lock, await and return points. -/
inductive Shared.Step [DecidableEq τ] (p : Profile) :
    Shared τ μ → τ × TaskAction μ → Shared τ μ → Prop where
  | publish (m : μ) : s.tasks k = .idle →
      Step p s (k, .publish m) { s with tasks := Function.update s.tasks k (.lockingWrite m) }
  | lockWrite : s.tasks k = .lockingWrite m → s.lock.tryWrite k = some lock' →
      Step p s (k, .advance)
        { s with lock := lock', tasks := Function.update s.tasks k (.locked m) }
  | push : s.tasks k = .locked m →
      Step p s (k, .advance)
        { s with room := s.room.publish m, tasks := Function.update s.tasks k .pushed }
  | notify : s.tasks k = .pushed →
      Step p s (k, .advance)
        { s with
          appeared := s.appeared.notifyWaiters
          tasks := Function.update s.tasks k .notified }
  | published : s.tasks k = .notified →
      Step p s (k, .advance)
        { s with lock := s.lock.release k, tasks := Function.update s.tasks k .idle }
  | subscribe (last : Option UInt16) : s.tasks k = .idle →
      s.room.subscribe p last = (room', some sub) →
      Step p s (k, .subscribe last)
        { s with room := room', tasks := Function.update s.tasks k (.subscribed sub) }
  | subscribeFailed (last : Option UInt16) : s.tasks k = .idle →
      s.room.subscribe p last = (room', none) →
      Step p s (k, .subscribe last) { s with room := room' }
  | next : s.tasks k = .subscribed sub →
      Step p s (k, .next) { s with tasks := Function.update s.tasks k (.lockingRead sub) }
  | lockRead : s.tasks k = .lockingRead sub → s.lock.tryRead k = some lock' →
      Step p s (k, .advance)
        { s with lock := lock', tasks := Function.update s.tasks k (.reading sub) }
  | deliver : s.tasks k = .reading sub → sub.next p s.room = .ready eventId m sub' →
      Step p s (k, .advance)
        { s with
          lock := s.lock.release k
          tasks := Function.update s.tasks k (.subscribed sub') }
  | crash : s.tasks k = .reading sub → sub.next p s.room = .panicked →
      Step p s (k, .advance)
        { s with
          room := (s.room.leave p).1
          lock := s.lock.release k
          tasks := Function.update s.tasks k .idle }
  | miss : s.tasks k = .reading sub → sub.next p s.room = .pending →
      Step p s (k, .advance) { s with tasks := Function.update s.tasks k (.missed sub) }
  | arm : s.tasks k = .missed sub →
      Step p s (k, .advance)
        { s with tasks := Function.update s.tasks k (.armed sub s.appeared.notified) }
  | suspend : s.tasks k = .armed sub notification →
      Step p s (k, .advance)
        { s with
          lock := s.lock.release k
          tasks := Function.update s.tasks k (.suspended sub notification) }
  | wake : s.tasks k = .suspended sub notification → notification.Fired s.appeared →
      Step p s (k, .advance) { s with tasks := Function.update s.tasks k (.lockingRead sub) }
  | cancelPublish : s.tasks k = .lockingWrite m →
      Step p s (k, .cancel) { s with tasks := Function.update s.tasks k .idle }
  -- a stream is dropped between two events or at one of the awaits of `next`
  | drop : (s.tasks k = .subscribed sub ∨ s.tasks k = .lockingRead sub ∨
      s.tasks k = .suspended sub notification) →
      Step p s (k, .cancel)
        { s with room := (s.room.leave p).1, tasks := Function.update s.tasks k .idle }

def shared (p : Profile) (τ μ : Type) [DecidableEq τ] :
    System (Shared τ μ) (τ × TaskAction μ) where
  start s := s = ⟨Room.empty, .unlocked, ⟨0⟩, fun _ => .idle⟩
  step := Shared.Step p

def Task.mode : Task μ → Mode
  | .locked _ | .pushed | .notified => .writes
  | .reading _ | .missed _ | .armed _ _ => .reads
  | _ => .free

/-- A publisher with the write lock that has yet to call `notify_waiters`. -/
def Task.Announces : Task μ → Prop
  | .locked _ | .pushed => True
  | _ => False

def Shared.Announced (s : Shared τ μ) : Prop := ∃ w, (s.tasks w).Announces

def Subscription.Drained (sub : Subscription) (room : Room μ) : Prop :=
  room.messages.length ≤ sub.nextEvent.toNat

/-- What holds of a task where it stands: once it has missed, its queue stays drained until
it gives up the read lock, and from then on until its notification fires or is about to. -/
def Task.Sound (s : Shared τ μ) : Task μ → Prop
  | .missed sub => sub.Drained s.room
  | .armed sub notification => sub.Drained s.room ∧ notification.Of s.appeared
  | .suspended sub notification => notification.Of s.appeared ∧
      (¬notification.Fired s.appeared → sub.Drained s.room ∨ s.Announced)
  | _ => True

structure Shared.Inv (s : Shared τ μ) : Prop where
  guards : s.lock.Tracks (Task.mode ∘ s.tasks)
  sound : ∀ k, (s.tasks k).Sound s

theorem Task.Announces.writes {t : Task μ} (h : t.Announces) : t.mode = .writes := by
  cases t with
  | locked => rfl
  | pushed => rfl
  | _ => exact h.elim

theorem Shared.Inv.task {s : Shared τ μ} (h : s.Inv) (hk : s.tasks k = t) : t.Sound s :=
  hk ▸ h.sound k

theorem Task.Sound.frame {s s' : Shared τ μ} {t : Task μ} (h : t.Sound s)
    (hroom : s'.room.messages = s.room.messages) (happ : s'.appeared = s.appeared)
    (hann : s.Announced → s'.Announced) : t.Sound s' := by
  cases t with
  | missed sub =>
    change s'.room.messages.length ≤ _
    rw [hroom]
    exact h
  | armed sub notification =>
    obtain ⟨hd, ho⟩ := h
    change s'.room.messages.length ≤ _ ∧ notification.Of s'.appeared
    rw [hroom, happ]
    exact ⟨hd, ho⟩
  | suspended sub notification =>
    obtain ⟨ho, hd⟩ := h
    change notification.Of s'.appeared ∧ (¬notification.Fired s'.appeared →
      s'.room.messages.length ≤ _ ∨ s'.Announced)
    rw [hroom, happ]
    exact ⟨ho, fun hf => (hd hf).imp_right hann⟩
  | _ => trivial

section
variable [DecidableEq τ]

theorem Shared.Announced.update {s s' : Shared τ μ} {t : Task μ} (h : s.Announced)
    (hk : ¬(s.tasks k).Announces) (ht : s'.tasks = Function.update s.tasks k t) :
    s'.Announced := by
  obtain ⟨w, hw⟩ := h
  have hne : w ≠ k := by
    intro he
    subst he
    exact hk hw
  refine ⟨w, ?_⟩
  rw [ht, Function.update_of_ne hne]
  exact hw

/-- A task that is not announcing moves, and changes neither the messages nor the notifier. -/
theorem Shared.Inv.move {s : Shared τ μ} {room' : Room μ} (h : s.Inv) (t : Task μ)
    (hk : ¬(s.tasks k).Announces)
    (hlock : lock'.Tracks (Function.update (Task.mode ∘ s.tasks) k t.mode))
    (hroom : room'.messages = s.room.messages) (ht : t.Sound s) :
    Shared.Inv ⟨room', lock', s.appeared, Function.update s.tasks k t⟩ := by
  constructor
  · rw [Function.comp_update]
    exact hlock
  · have hann : s.Announced → Shared.Announced
        ⟨room', lock', s.appeared, Function.update s.tasks k t⟩ := fun ha => ha.update hk rfl
    apply (Function.forall_update_iff s.tasks fun _ t => t.Sound _).2
    exact ⟨ht.frame hroom rfl hann, fun j _ => (h.sound j).frame hroom rfl hann⟩

/-- A publisher moves under the write lock. Nobody is between the check and the release of
the read lock then, so only suspended subscribers have to be looked after. -/
theorem Shared.Inv.moveWriter {s : Shared τ μ} (h : s.Inv) (hk : (s.tasks k).mode = .writes)
    (t : Task μ) (ht : t.mode = .writes)
    (hs : ∀ notification : Notified, notification.Of s.appeared → notification.Of appeared' ∧
      (¬notification.Fired appeared' → t.Announces)) :
    Shared.Inv ⟨room', s.lock, appeared', Function.update s.tasks k t⟩ := by
  constructor
  · rw [Function.comp_update, ht]
    exact h.guards.keep hk
  · apply (Function.forall_update_iff s.tasks fun _ t => t.Sound _).2
    apply And.intro
    · cases t with
      | locked => trivial
      | pushed => trivial
      | notified => trivial
      | _ => cases ht
    · intro j _
      have hsound := h.sound j
      have hr : (s.tasks j).mode ≠ .reads := h.guards.no_reader hk j
      cases hj : s.tasks j with
      | missed => exact absurd (by rw [hj]; rfl) hr
      | armed => exact absurd (by rw [hj]; rfl) hr
      | suspended sub notification =>
        rw [hj] at hsound
        obtain ⟨ho, ha⟩ := hs notification hsound.1
        refine ⟨ho, fun hf => .inr ⟨k, ?_⟩⟩
        change (Function.update s.tasks k t k).Announces
        rw [Function.update_self]
        exact ha hf
      | _ => trivial

theorem Shared.Step.inv {s : Shared τ μ} (hs : Step p s a s') (h : s.Inv) : s'.Inv := by
  have hmode : ∀ {k t m}, s.tasks k = t → t.mode = m → (Task.mode ∘ s.tasks) k = m := by
    intro k t m ht hm
    rw [Function.comp_apply, ht, hm]
  cases hs with
  | publish m hk => exact h.move _ (by rw [hk]; exact id) (h.guards.keep (hmode hk rfl)) rfl trivial
  | lockWrite hk hl => exact h.move _ (by rw [hk]; exact id) (h.guards.tryWrite hl) rfl trivial
  | push hk => exact h.moveWriter (hmode hk rfl) _ rfl fun _ ho => ⟨ho, fun _ => trivial⟩
  | notify hk =>
    exact h.moveWriter (hmode hk rfl) _ rfl fun _ ho => ⟨ho.notifyWaiters, fun hf => (hf ho.fired).elim⟩
  | published hk => exact h.move _ (by rw [hk]; exact id) (h.guards.release _) rfl trivial
  | subscribe last hk hsub =>
    have hroom := congrArg (fun x => x.1.messages) hsub
    exact h.move _ (by rw [hk]; exact id) (h.guards.keep (hmode hk rfl)) hroom.symm trivial
  | subscribeFailed last hk hsub =>
    have hroom := congrArg (fun x => x.1.messages) hsub
    exact ⟨h.guards, fun j => (h.sound j).frame hroom.symm rfl id⟩
  | next hk => exact h.move _ (by rw [hk]; exact id) (h.guards.keep (hmode hk rfl)) rfl trivial
  | lockRead hk hl => exact h.move _ (by rw [hk]; exact id) (h.guards.tryRead hl) rfl trivial
  | deliver hk hn => exact h.move _ (by rw [hk]; exact id) (h.guards.release _) rfl trivial
  | crash hk hn => exact h.move _ (by rw [hk]; exact id) (h.guards.release _) rfl trivial
  | miss hk hn =>
    exact h.move _ (by rw [hk]; exact id) (h.guards.keep (hmode hk rfl)) rfl
      (Subscription.next_pending.1 hn)
  | arm hk =>
    have hd := h.task hk
    exact h.move _ (by rw [hk]; exact id) (h.guards.keep (hmode hk rfl)) rfl
      ⟨hd, Notify.notified_of _⟩
  | suspend hk =>
    have hd := h.task hk
    exact h.move _ (by rw [hk]; exact id) (h.guards.release _) rfl
      ⟨hd.2, fun _ => .inl hd.1⟩
  | wake hk hf => exact h.move _ (by rw [hk]; exact id) (h.guards.keep (hmode hk rfl)) rfl trivial
  | cancelPublish hk =>
    exact h.move _ (by rw [hk]; exact id) (h.guards.keep (hmode hk rfl)) rfl trivial
  | drop hk =>
    rcases hk with hk | hk | hk
    · exact h.move _ (by rw [hk]; exact id) (h.guards.keep (hmode hk rfl)) rfl trivial
    · exact h.move _ (by rw [hk]; exact id) (h.guards.keep (hmode hk rfl)) rfl trivial
    · exact h.move _ (by rw [hk]; exact id) (h.guards.keep (hmode hk rfl)) rfl trivial

theorem Shared.inv {s : Shared τ μ} (h : (shared p τ μ).Reachable s) : s.Inv := by
  apply h.invariant
  · intro s h0
    cases h0
    exact ⟨.unlocked fun _ => rfl, fun _ => trivial⟩
  · intro s a t _ hi hs
    exact Shared.Step.inv hs hi

/-- No wakeup is lost: a subscriber whose notification has not fired has nothing to read, or
a publisher with the write lock is about to fire it. -/
theorem no_lost_wakeup {s : Shared τ μ} (h : (shared p τ μ).Reachable s)
    (hk : s.tasks k = .suspended sub notification) (hf : ¬notification.Fired s.appeared) :
    s.room.messages.length ≤ sub.nextEvent.toNat ∨
      ∃ w, s.lock.writer = some w ∧ (s.tasks w).Announces := by
  have hi := Shared.inv h
  have hs := hi.task hk
  rcases hs.2 hf with hd | ⟨w, hw⟩
  · exact .inl hd
  · exact .inr ⟨w, (hi.guards.writer w).2 hw.writes, hw⟩

theorem no_lost_wakeup_pushed : ∃ s : Shared Bool String, (shared .dev Bool String).Reachable s ∧
    s.tasks true = .suspended ⟨0⟩ ⟨0⟩ ∧ s.room.messages = ["round 1"] ∧
    (s.room.messages.length ≤ (0 : UInt16).toNat ∨
      ∃ w, s.lock.writer = some w ∧ (s.tasks w).Announces) := by
  have h0 := System.Reachable.start (T := shared .dev Bool String) rfl
  have h1 := h0.next (.subscribe (k := true) none rfl rfl)
  have h2 := h1.next (.next (k := true) rfl)
  have h3 := h2.next (.lockRead (k := true) rfl rfl)
  have h4 := h3.next (.miss (k := true) rfl rfl)
  have h5 := h4.next (.arm (k := true) rfl)
  have h6 := h5.next (.suspend (k := true) rfl)
  have h7 := h6.next (.publish (k := false) "round 1" rfl)
  have h8 := h7.next (.lockWrite (k := false) rfl rfl)
  have h9 := h8.next (.push (k := false) rfl)
  obtain ⟨s, hs, hk, hm, hf⟩ : ∃ s, (shared .dev Bool String).Reachable s ∧
      s.tasks true = .suspended ⟨0⟩ ⟨0⟩ ∧ s.room.messages = ["round 1"] ∧
      ¬Notified.Fired ⟨0⟩ s.appeared := ⟨_, h9, rfl, rfl, by decide⟩
  exact ⟨s, hs, hk, hm, no_lost_wakeup hs hk hf⟩

end

end WalletMpc.Sse
