import WalletMpc.Feeds
import WalletMpc.Room

namespace WalletMpc.Sse
open Systems Feeds
set_option autoImplicit true

/-- A room, the connection of one subscriber to it, and the events delivered to that
subscriber over all its connections. -/
structure Subscriber (μ : Type) where
  room : Room μ
  connection : Option Subscription
  delivered : List (Event μ)

inductive SubscriberAction (μ : Type) where
  | publish (m : μ)
  | next
  | disconnect
  | subscribe
  | others

def Subscriber.request (s : Subscriber μ) : HttpRequest := ⟨s.delivered.getLast?.map Event.id⟩

inductive Subscriber.Step (p : Profile) :
    Subscriber μ → SubscriberAction μ → Subscriber μ → Prop where
  | publish (m : μ) : Step p s (.publish m) { s with room := s.room.publish m }
  | deliver : s.connection = some sub → sub.next p s.room = .ready eventId msg sub' →
      Step p s .next
        { s with connection := some sub', delivered := s.delivered ++ [toEvent eventId msg] }
  | wait : s.connection = some sub → sub.next p s.room = .pending → Step p s .next s
  | crash : s.connection = some sub → sub.next p s.room = .panicked →
      Step p s .next { s with room := (s.room.leave p).1, connection := none }
  | disconnect : s.connection = some sub →
      Step p s .disconnect { s with room := (s.room.leave p).1, connection := none }
  | subscribe : s.connection = none →
      s.room.subscribe p (extractLastEventId s.request) = (room', connection') →
      Step p s .subscribe { s with room := room', connection := connection' }
  -- other clients of the room move its two counters
  | others (subscribers nextIdx : UInt16) : Step p s .others
      { s with room := { s.room with subscribers := subscribers, nextIdx := nextIdx } }

def subscriber (p : Profile) (μ : Type) : System (Subscriber μ) (SubscriberAction μ) where
  start s := s.room.messages = [] ∧ s.connection = none ∧ s.delivered = []
  step := Subscriber.Step p

def event (k : Nat) (m : μ) : Event μ := ⟨"new-message", toString k, m⟩

/-- The events of a room: its messages in publish order, the k-th one under id k. -/
def Room.history (room : Room μ) : List (Event μ) := room.messages.mapIdx event

/-- Exactly-once, in-order delivery: what was delivered is a prefix of the history, and as
long as something is left a call of `next` returns the first of it. -/
def Subscriber.ExactlyOnce (p : Profile) (s : Subscriber μ) : Prop :=
  s.delivered <+: s.room.history ∧
    ∀ sub e, s.connection = some sub → s.room.history[s.delivered.length]? = some e →
      ∃ eventId msg sub', sub.next p s.room = .ready eventId msg sub' ∧ toEvent eventId msg = e

/-- The subscriber is not about to read the message under the last `u16`, which its cursor cannot
go past. -/
def Subscriber.CursorFits (s : Subscriber μ) : Prop :=
  ∀ sub, s.connection = some sub → sub.nextEvent = 65535 → s.room.messages.length ≤ 65535

theorem Room.history_publish (room : Room μ) (m : μ) :
    (room.publish m).history = room.history ++ [event room.messages.length m] := by
  simp only [Room.history, Room.publish_messages, List.mapIdx_concat]

theorem Room.history_congr {room room' : Room μ} (h : room'.messages = room.messages) :
    room'.history = room.history := by
  rw [Room.history, Room.history, h]

theorem Room.history_getElem? (room : Room μ) (k : Nat) :
    room.history[k]? = room.messages[k]?.map (event k) := List.getElem?_mapIdx

theorem toEvent_eq (eventId : UInt16) (msg : μ) : toEvent eventId msg = event eventId.toNat msg :=
  rfl

theorem Subscriber.Step.length_le (h : Subscriber.Step p s a t) :
    s.room.messages.length ≤ t.room.messages.length := by
  cases h with
  | publish m => simp
  | deliver => exact Nat.le_refl _
  | wait => exact Nat.le_refl _
  | crash => exact Nat.le_refl _
  | disconnect => exact Nat.le_refl _
  | subscribe hc hs =>
    have hr := congrArg (fun x => x.1.messages.length) hs
    exact Nat.le_of_eq hr
  | others => exact Nat.le_refl _

theorem Subscriber.CursorFits.lt {s : Subscriber μ} (h : s.CursorFits)
    (hsub : s.connection = some sub)
    (hmsg : s.room.messages[sub.nextEvent.toNat]? = some msg) : sub.nextEvent.toNat < 65535 := by
  by_contra hge
  have hlt := (List.getElem?_eq_some_iff.1 hmsg).1
  have hlast : sub.nextEvent = 65535 := by
    rw [← UInt16.toNat_inj]
    change _ = 65535
    have := sub.nextEvent.toNat_lt
    omega
  have hfits := h sub hsub hlast
  omega

/-- The subscriber is the one reader of a feed of events, and its cursor counts them. -/
structure Subscriber.Follows (s : Subscriber μ) (f : Feed Unit (Event μ)) : Prop where
  log : f.log = s.room.history
  read : f.read () = s.delivered
  cursor : ∀ sub, s.connection = some sub → sub.nextEvent.toNat = s.delivered.length
  few : s.delivered.length ≤ 65535

/-- A resumed subscription starts behind the last event delivered. -/
theorem Subscriber.resume {s : Subscriber μ} (hp : s.delivered <+: s.room.history)
    (hfew : s.delivered.length ≤ 65535)
    (hs : s.room.subscribe p (extractLastEventId s.request) = (room', some sub)) :
    sub.nextEvent.toNat = s.delivered.length := by
  have hn : (firstEvent p (extractLastEventId s.request)).map Subscription.mk = some sub := by
    have h := congrArg Prod.snd hs
    simp only [Room.subscribe] at h
    obtain ⟨n, hn, h'⟩ := Option.bind_eq_some_iff.1 h
    exact h'
  obtain ⟨n, hf, rfl⟩ := Option.map_eq_some_iff.1 hn
  cases hd : s.delivered.getLast? with
  | none =>
    have he := List.getLast?_eq_none_iff.1 hd
    simp only [Subscriber.request, hd, Option.map_none, extractLastEventId, Option.filter_none,
      Option.bind_none, firstEvent, Option.some.injEq] at hf
    rw [he, ← hf]
    rfl
  | some e =>
    have hne : s.delivered.length ≠ 0 := by
      intro h0
      rw [List.length_eq_zero_iff.1 h0] at hd
      cases hd
    have hid : e.id = toString (s.delivered.length - 1) := by
      rw [List.getLast?_eq_getElem?] at hd
      obtain ⟨t, ht⟩ := hp
      have hk : s.room.history[s.delivered.length - 1]? = some e := by
        rw [← ht, List.getElem?_append_left (by omega), hd]
      rw [Room.history_getElem?] at hk
      obtain ⟨m, _, rfl⟩ := Option.map_eq_some_iff.1 hk
      rfl
    have hlast : extractLastEventId s.request = some (UInt16.ofNat (s.delivered.length - 1)) := by
      rw [Subscriber.request, hd, Option.map_some, hid]
      exact extractLastEventId_toString (by omega)
    have hnat : (UInt16.ofNat (s.delivered.length - 1)).toNat = s.delivered.length - 1 :=
      UInt16.toNat_ofNat_of_lt (by change _ < 65536; omega)
    rw [hlast] at hf
    change addU16 p _ 1 = some n at hf
    rw [addU16_of_lt p (by rw [hnat, UInt16.toNat_one]; omega)] at hf
    rw [← Option.some.inj hf]
    change (UInt16.ofNat (s.delivered.length - 1) + 1).toNat = _
    rw [toNat_add_one (by omega), hnat]
    omega

/-- The runs whose steps find the cursor fitting. -/
abbrev fittingRuns (p : Profile) (μ : Type) : System (Subscriber μ) (SubscriberAction μ) :=
  (subscriber p μ).restrict fun s _ => s.CursorFits

/-- While the cursor fits, the room with its `u16` cursors refines the feed. -/
theorem subscriber_refines (p : Profile) (μ : Type) :
    Simulation (fittingRuns p μ) (feed Unit (Event μ)) Subscriber.Follows where
  start := by
    intro s hx
    obtain ⟨hm, hc, hd⟩ := hx
    refine ⟨⟨[], fun _ => []⟩, ⟨rfl, fun _ => rfl⟩, ?_, hd.symm, ?_, ?_⟩
    · simp only [Room.history, hm, List.mapIdx_nil]
    · intro sub hs
      rw [hc] at hs
      cases hs
    · rw [hd]
      exact Nat.zero_le _
  step := by
    rintro s f a s' hr hf hR ⟨hfits, hs⟩
    have hc := coherent hf
    cases hs with
    | publish m =>
      refine .inr ⟨.append (event s.room.messages.length m), _, .append _, ?_, hR.read, hR.cursor,
        hR.few⟩
      rw [Room.history_publish, hR.log]
    | deliver hsub hnext =>
      rename_i sub sub' eventId msg
      obtain ⟨rfl, hmsg, -⟩ := Subscription.next_ready hnext
      have hcur := hR.cursor sub hsub
      have hlt := hfits.lt hsub hmsg
      have hmove := Subscription.next_cursor_of_lt hnext hlt
      have hread : f.log[(f.read ()).length]? = some (toEvent sub.nextEvent msg) := by
        rw [hR.log, hR.read, ← hcur, Room.history_getElem?, hmsg]
        rfl
      have hupd : Function.update f.read () (f.read () ++ [toEvent sub.nextEvent msg]) () =
          s.delivered ++ [toEvent sub.nextEvent msg] := by
        rw [Function.update_self, hR.read]
      have hcount : (s.delivered ++ [toEvent sub.nextEvent msg]).length =
          sub.nextEvent.toNat + 1 := by
        rw [List.length_append, List.length_singleton, hcur]
      refine .inr ⟨.read (), _, .read () hread, hR.log, hupd, ?_, ?_⟩
      · intro sub'' hsub''
        cases hsub''
        rw [hmove, hcount]
      · rw [hcount]
        exact hlt
    | wait => exact .inl hR
    | crash hsub hnext =>
      refine .inl ⟨hR.log, hR.read, ?_, hR.few⟩
      intro sub' hn
      cases hn
    | disconnect hsub =>
      refine .inl ⟨hR.log, hR.read, ?_, hR.few⟩
      intro sub' hn
      cases hn
    | subscribe hsub hnew =>
      rename_i connection' room'
      have hm : room'.messages = s.room.messages := (congrArg (fun x => x.1.messages) hnew).symm
      refine .inl ⟨?_, hR.read, ?_, hR.few⟩
      · exact hR.log.trans (Room.history_congr hm).symm
      · intro sub' hsub'
        change connection' = some sub' at hsub'
        rw [hsub'] at hnew
        have hp : s.delivered <+: s.room.history := by
          rw [← hR.log, ← hR.read]
          exact hc ()
        exact Subscriber.resume (s := s) hp hR.few hnew
    | others => exact .inl ⟨hR.log, hR.read, hR.cursor, hR.few⟩

theorem Subscriber.Follows.exactlyOnce {s : Subscriber μ} {f : Feed Unit (Event μ)}
    (h : s.Follows f) (hc : f.Coherent) (hfits : s.CursorFits) : s.ExactlyOnce p := by
  have hp : s.delivered <+: s.room.history := by
    rw [← h.log, ← h.read]
    exact hc ()
  refine ⟨hp, ?_⟩
  intro sub e hsub he
  have hcur := h.cursor sub hsub
  rw [Room.history_getElem?] at he
  obtain ⟨m, hm, rfl⟩ := Option.map_eq_some_iff.1 he
  rw [← hcur] at hm
  have hnext := Subscription.next_of_lt (p := p) hm (hfits.lt hsub hm)
  exact ⟨_, _, _, hnext, by rw [toEvent_eq, hcur]⟩

/-- At the last `u16` the next call panics in dev; in release it delivers the message, and the
call after that the first message once more. -/
theorem Subscriber.Follows.overflows {s : Subscriber μ} {f : Feed Unit (Event μ)}
    (h : s.Follows f) (hfits : ¬s.CursorFits) : ∃ as t, (subscriber p μ).Run s as t ∧
      (∀ a ∈ as, a = .next) ∧ ¬t.ExactlyOnce p := by
  obtain ⟨⟨_⟩, hsub⟩ := not_forall.1 hfits
  obtain ⟨hsub, hlast⟩ := Classical.not_imp.1 hsub
  obtain ⟨rfl, hlong⟩ := Classical.not_imp.1 hlast
  have hlt : 65535 < s.room.messages.length := Nat.lt_of_not_le hlong
  have hcount : s.delivered.length = 65535 := (h.cursor _ hsub).symm
  obtain ⟨last, hmsg⟩ : ∃ m, s.room.messages[(65535 : UInt16).toNat]? = some m :=
    ⟨_, List.getElem?_eq_getElem hlt⟩
  cases p with
  | dev =>
    refine ⟨[], s, .refl s, List.forall_mem_nil _, fun hexact => ?_⟩
    have hhist : s.room.history[s.delivered.length]? = some (event 65535 last) := by
      rw [Room.history_getElem?, hcount]
      exact congrArg (Option.map (event 65535)) hmsg
    obtain ⟨eventId, msg, sub', hnext, _⟩ := hexact.2 _ _ hsub hhist
    obtain ⟨rfl, _, hadd⟩ := Subscription.next_ready hnext
    cases hadd
  | release =>
    obtain ⟨first, hfirst⟩ : ∃ m, s.room.messages[(0 : UInt16).toNat]? = some m :=
      ⟨_, List.getElem?_eq_getElem (Nat.zero_lt_of_lt hlt)⟩
    have hnext : Subscription.next .release s.room ⟨65535⟩ = .ready 65535 last ⟨0⟩ := by
      simp only [Subscription.next, hmsg]
      rfl
    have hagain : Subscription.next .release s.room ⟨0⟩ = .ready 0 first ⟨1⟩ := by
      simp only [Subscription.next, hfirst]
      rfl
    refine ⟨[.next, .next], _, .head (.deliver hsub hnext) (.single (.deliver rfl hagain)),
      by simp, fun hexact => ?_⟩
    have hevent : s.room.history[65536]? = some (toEvent 0 first) := by
      obtain ⟨rest, hrest⟩ := hexact.1
      change s.delivered ++ [toEvent 65535 last] ++ [toEvent 0 first] ++ rest = _ at hrest
      rw [← hrest, List.append_assoc, List.append_assoc, List.getElem?_append_right (by omega),
        hcount]
      rfl
    rw [Room.history_getElem?] at hevent
    obtain ⟨m, _, hm⟩ := Option.map_eq_some_iff.1 hevent
    have hid : toString 65536 = toString 0 := congrArg Event.id hm
    exact absurd hid (by decide)

/-- A room of at most 65535 messages leaves every cursor room. -/
theorem Subscriber.fitting_of_le {s : Subscriber μ} (h : (subscriber p μ).Reachable s)
    (hl : s.room.messages.length ≤ 65535) : (fittingRuns p μ).Reachable s :=
  (h.within (P := fun s => s.room.messages.length ≤ 65535)
    (fun _ _ _ hst ht => (Subscriber.Step.length_le hst).trans ht) hl).restrict_of_within
      fun _ _ hle _ _ _ => hle

structure Subscriber.CaughtUp (s : Subscriber μ) (n : Nat) : Prop where
  messages : s.room.messages.length = n
  delivered : s.delivered.length = n
  connection : s.connection = some ⟨UInt16.ofNat n⟩

theorem Subscriber.CaughtUp.succ {s : Subscriber μ} (h : s.CaughtUp n) (hn : n < 65535)
    (hs : (subscriber p μ).Reachable s) (m : μ) :
    ∃ t, (subscriber p μ).Reachable t ∧ t.CaughtUp (n + 1) := by
  have hnat : (UInt16.ofNat n).toNat = n :=
    UInt16.toNat_ofNat_of_lt (Nat.lt_succ_of_lt hn)
  have hmsg : (s.room.publish m).messages[(UInt16.ofNat n).toNat]? = some m := by
    rw [hnat, Room.publish_messages, ← h.messages, List.getElem?_concat_length]
  have hlt : (UInt16.ofNat n).toNat < 65535 := hnat.symm ▸ hn
  have hnext : Subscription.next p _ ⟨UInt16.ofNat n⟩ = _ := Subscription.next_of_lt hmsg hlt
  refine ⟨_, .next (.next hs (.publish m)) (.deliver h.connection hnext), ?_, ?_, ?_⟩
  · simp only [Room.publish_messages, List.length_append, List.length_singleton, h.messages]
  · simp only [List.length_append, List.length_singleton, h.delivered]
  · rw [UInt16.ofNat_add]
    rfl

theorem Subscriber.CaughtUp.reachable (p : Profile) (m : μ) {n : Nat} (hn : n < 65536) :
    ∃ s, (subscriber p μ).Reachable s ∧ s.CaughtUp n := by
  induction n with
  | zero =>
    have h0 : (subscriber p μ).Reachable ⟨Room.empty, none, []⟩ := .start ⟨rfl, rfl, rfl⟩
    have hsub : (Room.empty : Room μ).subscribe p none = (⟨[], 1, 0⟩, some ⟨0⟩) := by
      cases p with
      | dev => rfl
      | release => rfl
    exact ⟨_, .next h0 (.subscribe rfl hsub), rfl, rfl, rfl⟩
  | succ n ih =>
    obtain ⟨s, hs, hc⟩ := ih (by omega)
    exact hc.succ (by omega) hs m

/-- One message more than a subscriber has read that has read 65535. -/
theorem Subscriber.overflow (p : Profile) (m : μ) : ∃ s, (fittingRuns p μ).Reachable s ∧
    s.room.messages.length = 65536 ∧ ¬s.CursorFits := by
  obtain ⟨s, hs, hc⟩ := Subscriber.CaughtUp.reachable p m (n := 65535) (by decide)
  have hfits : s.CursorFits := fun _ _ _ => hc.messages.le
  have hlen : (s.room.publish m).messages.length = 65536 := by
    rw [Room.publish_messages, List.length_append, hc.messages]
    rfl
  refine ⟨_, .next (Subscriber.fitting_of_le hs hc.messages.le) ⟨hfits, .publish m⟩, hlen, ?_⟩
  intro h
  have hle := h _ hc.connection rfl
  rw [hlen] at hle
  exact absurd hle (by decide)

theorem Subscriber.run_next {s : Subscriber μ} (h : (subscriber p μ).Run s as t)
    (has : ∀ a ∈ as, a = .next) : t.room.messages = s.room.messages := by
  apply h.invariant (I := fun u => u.room.messages = s.room.messages) _ rfl
  rintro u a v ha hu hs
  cases has a ha
  cases hs with
  | _ => exact hu

/-- Exactly-once delivery with resume holds while the cursor fits; from the first state in which
it does not, calls of `next` break it. So it holds in rooms of at most 65535 messages, and no
more. -/
theorem exactlyOnce_iff [Inhabited μ] (p : Profile) :
    (∀ s, (fittingRuns p μ).Reachable s →
      (s.CursorFits → s.ExactlyOnce p) ∧
      (¬s.CursorFits → ∃ as t, (subscriber p μ).Run s as t ∧ (∀ a ∈ as, a = .next) ∧
        ¬t.ExactlyOnce p)) ∧
    ∀ capacity, (∀ s, (subscriber p μ).Reachable s → s.room.messages.length ≤ capacity →
      s.ExactlyOnce p) ↔ capacity ≤ 65535 := by
  have hruns : ∀ s, (fittingRuns p μ).Reachable s → (s.CursorFits → s.ExactlyOnce p) ∧
      (¬s.CursorFits → ∃ as t, (subscriber p μ).Run s as t ∧ (∀ a ∈ as, a = .next) ∧
        ¬t.ExactlyOnce p) := by
    intro s hs
    obtain ⟨f, hf, hR⟩ := (subscriber_refines p μ).reachable hs
    exact ⟨hR.exactlyOnce (coherent hf), hR.overflows⟩
  refine ⟨hruns, fun capacity => ?_⟩
  apply Iff.intro
  · intro h
    obtain ⟨s, hs, hl, hfits⟩ := Subscriber.overflow p (default : μ)
    obtain ⟨as, t, hrun, has, hn⟩ := (hruns s hs).2 hfits
    by_contra hc
    apply hn (h t (hs.of_restrict.run hrun) _)
    rw [Subscriber.run_next hrun has, hl]
    omega
  · intro hc s hs hl
    have hle : s.room.messages.length ≤ 65535 := hl.trans hc
    exact (hruns s (Subscriber.fitting_of_le hs hle)).1 fun _ _ _ => hle

theorem not_exactlyOnce :
    (¬∀ s, (subscriber .dev String).Reachable s → s.ExactlyOnce .dev) ∧
      ¬∀ s, (subscriber .release String).Reachable s → s.ExactlyOnce .release := by
  have hbroken (p : Profile) : ¬∀ s, (subscriber p String).Reachable s → s.ExactlyOnce p := by
    intro h
    obtain ⟨s, hs, _, hfits⟩ := Subscriber.overflow p ""
    obtain ⟨f, _, hR⟩ := (subscriber_refines p String).reachable hs
    obtain ⟨as, t, hrun, _, hn⟩ := hR.overflows hfits
    exact hn (h t (hs.of_restrict.run hrun))
  exact ⟨hbroken .dev, hbroken .release⟩

end WalletMpc.Sse
