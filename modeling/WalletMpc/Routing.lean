import WalletMpc.Feeds
import WalletMpc.Network

namespace WalletMpc.Participant
open Systems Feeds Sse
set_option autoImplicit true

def Session.received (x : Session M) : List (Except TransportError (Incoming M)) :=
  x.yielded.map Prod.snd

def Session.messages (x : Session M) : List (Incoming M) := x.received.filterMap Except.toOption

/-- The stream is open and has been handed the whole history of its room. -/
def Session.CaughtUp (s : Network σ M) (x : Session M) : Prop :=
  ∃ sub, x.stream = some sub ∧ (s.db.room x.room).messages.length ≤ sub.nextEvent.toNat

/-- The code's filter: the message as the stream of a session with this index yields it. -/
def Posted.arrives (index : UInt16) (e : Posted σ M) : Option (Incoming M) :=
  e.message.arrives e.sender index

/-- The specification: a message of another party reaches party j with this index when it is
for everybody or for that index, and is tagged accordingly. -/
def Posted.reaches [DecidableEq σ] (j : σ) (index : UInt16) (e : Posted σ M) :
    Option (Incoming M) :=
  if e.session = j then none
  else match e.message.recipient with
    | .allParties => some ⟨0, e.sender, .broadcast, e.message.msg⟩
    | .oneParty i => if i = index then some ⟨0, e.sender, .p2p, e.message.msg⟩ else none

/-- The parties of a room have pairwise distinct indexes. -/
def Network.Distinct (s : Network σ M) (r : String) : Prop :=
  ∀ i j x y, s.sessions i = some x → s.sessions j = some y → x.room = r → y.room = r →
    x.index = y.index → i = j

def Session.broadcasts (x : Session M) (other : UInt16) : List (Incoming M) :=
  x.messages.filter fun m => m.msgType = .broadcast ∧ m.sender ≠ other

structure Network.Routed [DecidableEq σ] (s : Network σ M) (r : String) : Prop where
  senders : ∀ e ∈ s.history r,
    ∃ x, s.sessions e.session = some x ∧ x.room = r ∧ x.index = e.sender
  exact : ∀ j x, s.sessions j = some x → x.room = r → x.CaughtUp s →
    x.received = ((s.history r).filterMap (Posted.reaches j x.index)).map .ok
  ordered : ∀ i j x y, s.sessions i = some x → s.sessions j = some y → x.room = r → y.room = r →
    y.messages.filter (fun m => m.sender = x.index) <+:
      x.sent.filterMap (fun message => message.arrives x.index y.index)
  agreed : ∀ i j x y, s.sessions i = some x → s.sessions j = some y → x.room = r → y.room = r →
    x.broadcasts y.index <+: y.broadcasts x.index ∨ y.broadcasts x.index <+: x.broadcasts y.index

/-- A session has read these entries, and what it yielded is what they make of them. -/
structure Session.Follows (x : Session M) (read : List (Posted σ M)) : Prop where
  received : x.received = (read.filterMap (Posted.arrives x.index)).map .ok
  cursor : ∀ sub, x.stream = some sub → sub.nextEvent.toNat = read.length

/-- The sessions of a room are readers of one feed, the history of the room. -/
structure Network.Follows (r : String) (s : Network σ M) (f : Feed σ (Posted σ M)) : Prop where
  log : f.log = s.history r
  session : ∀ a x, s.sessions a = some x → x.room = r → x.Follows (f.read a)
  fresh : ∀ a, s.sessions a = none → f.read a = []

theorem Posted.arrives_eq_reaches [DecidableEq σ] {e : Posted σ M}
    (h : e.sender = index ↔ e.session = j) : e.arrives index = e.reaches j index := by
  obtain ⟨session, sender, ⟨recipient, msg⟩, text⟩ := e
  unfold Posted.arrives Outgoing.arrives Posted.reaches
  by_cases hs : session = j
  · rw [if_pos (h.2 hs), if_pos hs]
  · cases recipient with
    | allParties => exact (if_neg (mt h.1 hs)).trans (if_neg hs).symm
    | oneParty => exact (if_neg (mt h.1 hs)).trans (if_neg hs).symm

theorem Session.Follows.read {x : Session M} {read : List (Posted σ M)} {serde : Serde M}
    (h : x.Follows read) (he : incoming serde x.index data = (e.arrives x.index).map .ok)
    (hc : sub'.nextEvent.toNat = read.length + 1) :
    Session.Follows { x with
      stream := some sub'
      yielded := x.yielded ++ ((incoming serde x.index data).map (eventId, ·)).toList }
      (read ++ [e]) where
  received := by
    have hr := h.received
    unfold Session.received at hr ⊢
    rw [List.map_append, hr, List.filterMap_append, List.map_append, he]
    cases ha : e.arrives x.index with
    | none => rw [List.filterMap_cons_none ha]; rfl
    | some m => rw [List.filterMap_cons_some ha]; rfl
  cursor := by
    intro sub hn
    cases hn
    rw [hc, List.length_append, List.length_singleton]

section
variable [DecidableEq σ]

theorem Network.Step.length_le {serde : Serde M} {s t : Network σ M} (h : Step p serde s a t)
    (r : String) : (s.history r).length ≤ (t.history r).length := by
  cases h with
  | post =>
    rename_i x text message a ha hx
    change _ ≤ (Function.update s.history x.room _ r).length
    by_cases hr : r = x.room
    · rw [hr, Function.update_self, List.length_append]
      exact Nat.le_add_right _ _
    · rw [Function.update_of_ne hr]
  | _ => exact Nat.le_refl _

theorem Network.Follows.move {s : Network σ M} {f f' : Feed σ (Posted σ M)} {x' : Session M}
    (h : s.Follows r f) (hlog : f'.log = history' r)
    (hread : ∀ b, b ≠ a → f'.read b = f.read b) (hx : x'.room = r → x'.Follows (f'.read a)) :
    Network.Follows r ⟨db', Function.update s.sessions a (some x'), history'⟩ f' where
  log := hlog
  session := by
    apply (Function.forall_update_iff s.sessions fun b y =>
      ∀ x, y = some x → x.room = r → x.Follows (f'.read b)).2
    apply And.intro
    · intro x hn
      cases hn
      exact hx
    · intro b hb x hxb hr
      rw [hread b hb]
      exact h.session b x hxb hr
  fresh := by
    apply (Function.forall_update_iff s.sessions fun b y => y = none → f'.read b = []).2
    apply And.intro
    · exact nofun
    · intro b hb hn
      rw [hread b hb]
      exact h.fresh b hn

theorem network_refines (p : Profile) (serde : Serde M) (r : String) :
    Simulation ((network σ p serde).within fun s => (s.history r).length < 65536)
      (feed σ (Posted σ M)) (Network.Follows r) where
  start := by
    intro s hx
    obtain ⟨rfl, _⟩ := hx
    exact ⟨⟨[], fun _ => []⟩, ⟨rfl, fun _ => rfl⟩, rfl, nofun, fun _ _ => rfl⟩
  step := by
    rintro s f a s' hr hf hR ⟨hs, hl⟩
    have hinv := Network.inv hr.of_within.1
    cases hs with
    | join room index ha hsub =>
      rename_i room' sub a
      refine .inl (hR.move hR.log (fun _ _ => rfl) ?_)
      intro _
      rw [hR.fresh a ha]
      refine ⟨rfl, ?_⟩
      intro sub' hn
      cases hn
      have hs2 := congrArg Prod.snd hsub
      obtain ⟨n, _, hn⟩ := Option.bind_eq_some_iff.1 hs2
      cases hn
      rfl
    | joinFailed room index ha hsub => exact .inl ⟨hR.log, hR.session, hR.fresh⟩
    | send message ha hx hout =>
      refine .inl (hR.move hR.log (fun _ _ => rfl) ?_)
      intro hroom
      have hfol := hR.session _ _ ha hroom
      exact ⟨hfol.received, hfol.cursor⟩
    | post ha hx =>
      rename_i x message text a
      by_cases hroom : x.room = r
      · subst hroom
        have hfol := hR.session _ _ ha rfl
        refine .inr ⟨.append ⟨a, x.index, message, text⟩, _, .append _, hR.move ?_ (fun _ _ => rfl)
          fun _ => ⟨hfol.received, hfol.cursor⟩⟩
        change f.log ++ _ = _
        rw [Function.update_self, hR.log]
      · refine .inl (hR.move ?_ (fun _ _ => rfl) fun hroom' => absurd hroom' hroom)
        rw [Function.update_of_ne (Ne.symm hroom), hR.log]
    | next ha hstream hnext =>
      rename_i x sub a eventId data sub'
      by_cases hroom : x.room = r
      · have hfol := hR.session _ _ ha hroom
        obtain ⟨rfl, _⟩ := Subscription.next_ready hnext
        obtain ⟨e, he, hin⟩ := hinv.delivered hnext x.index
        rw [hroom] at he
        have hcur := hfol.cursor sub hstream
        have hlen : (s.db.room x.room).messages.length < 65536 := by
          rw [hinv.stored, List.length_map, hroom]
          exact hl
        have hmove := Subscription.next_cursor hnext hlen
        rw [hcur, ← hR.log] at he
        refine .inr ⟨.read a, _, .read a he, hR.move hR.log ?_ ?_⟩
        · intro b hb
          exact Function.update_of_ne hb ..
        · intro _
          change Session.Follows _ (Function.update f.read a (f.read a ++ [e]) a)
          rw [Function.update_self]
          exact hfol.read hin (by rw [hmove, hcur])
      · exact .inl (hR.move hR.log (fun _ _ => rfl) fun hroom' => absurd hroom' hroom)
    | crash ha hstream hnext =>
      refine .inl (hR.move hR.log (fun _ _ => rfl) ?_)
      intro hroom
      exact ⟨(hR.session _ _ ha hroom).received, nofun⟩
    | disconnect ha hstream =>
      refine .inl (hR.move hR.log (fun _ _ => rfl) ?_)
      intro hroom
      exact ⟨(hR.session _ _ ha hroom).received, nofun⟩

theorem Network.follows {serde : Serde M} {s : Network σ M}
    (h : (network σ p serde).Reachable s) (hl : (s.history r).length < 65536) :
    ∃ f, f.Coherent ∧ s.Follows r f := by
  have hw := h.within (P := fun s => (s.history r).length < 65536)
    (fun s a t hst ht => Nat.lt_of_le_of_lt (Network.Step.length_le hst r) ht) hl
  obtain ⟨f, hf, hR⟩ := (network_refines p serde r).reachable hw
  exact ⟨f, coherent hf, hR⟩

/-- With distinct indexes the sender field of a posted message tells who posted it. -/
theorem Network.Inv.sender_iff {serde : Serde M} {s : Network σ M} (h : s.Inv serde)
    (hd : s.Distinct r) (hj : s.sessions j = some x) (hx : x.room = r) (he : e ∈ s.history r) :
    e.sender = x.index ↔ e.session = j := by
  obtain ⟨y, hy, hyr, hyi⟩ := h.posted r e he
  apply Iff.intro
  · intro hs
    exact hd _ _ y x hy hj hyr hx (hyi.trans hs)
  · intro hs
    rw [hs, hj] at hy
    cases hy
    exact hyi.symm

end

theorem Session.Follows.messages {x : Session M} {read : List (Posted σ M)}
    (h : x.Follows read) : x.messages = read.filterMap (Posted.arrives x.index) := by
  rw [Session.messages, h.received, List.filterMap_map]
  exact List.filterMap_some

theorem Posted.arrives_sender {e : Posted σ M} (h : e.arrives index = some m) :
    m.sender = e.sender := by
  unfold Posted.arrives Outgoing.arrives at h
  split at h
  · cases h
  · split at h
    · cases h
      rfl
    · split at h
      · cases h
        rfl
      · cases h

theorem filter_sender [DecidableEq σ] {l : List (Posted σ M)} (i : σ) (sender index : UInt16)
    (h : ∀ e ∈ l, (e.sender = sender ↔ e.session = i)) :
    (l.filterMap (Posted.arrives index)).filter (fun m => m.sender = sender) =
      ((l.filter fun e => e.session = i).map Posted.message).filterMap
        (fun message => message.arrives sender index) := by
  rw [List.filter_filterMap, List.filterMap_map, List.filterMap_filter]
  apply List.filterMap_congr
  intro e he
  by_cases hs : e.session = i
  · have hsender := (h e he).2 hs
    rw [if_pos (decide_eq_true hs), Function.comp_apply, ← hsender]
    change (e.arrives index).filter _ = e.arrives index
    cases ha : e.arrives index with
    | none => rfl
    | some m => rw [Option.filter_some, if_pos (decide_eq_true (Posted.arrives_sender ha))]
  · rw [if_neg (by simpa using hs)]
    cases ha : e.arrives index with
    | none => rfl
    | some m =>
      have hne : m.sender ≠ sender := by
        rw [Posted.arrives_sender ha]
        exact mt (h e he).1 hs
      rw [Option.filter_some, if_neg (by simpa using hne)]

def Posted.common (a b : UInt16) (e : Posted σ M) : Option (Incoming M) :=
  if e.message.recipient = .allParties ∧ e.sender ≠ a ∧ e.sender ≠ b then
    some ⟨0, e.sender, .broadcast, e.message.msg⟩
  else none

theorem Posted.common_comm (a b : UInt16) :
    (Posted.common a b : Posted σ M → Option (Incoming M)) = Posted.common b a := by
  funext e
  simp only [Posted.common, and_comm (a := e.sender ≠ a)]

theorem Posted.arrives_filter (a b : UInt16) (e : Posted σ M) :
    (e.arrives a).filter (fun m => m.msgType = .broadcast ∧ m.sender ≠ b) = e.common a b := by
  obtain ⟨session, sender, ⟨recipient, msg⟩, text⟩ := e
  unfold Posted.arrives Outgoing.arrives Posted.common
  by_cases ha : sender = a
  · simp [ha]
  · cases recipient with
    | allParties => by_cases hb : sender = b <;> simp [ha, hb]
    | oneParty i => by_cases hi : i = a <;> simp [ha, hi]

theorem Session.Follows.broadcasts {x : Session M} {read : List (Posted σ M)}
    (h : x.Follows read) (other : UInt16) :
    x.broadcasts other = read.filterMap (Posted.common x.index other) := by
  rw [Session.broadcasts]
  rw [h.messages, List.filter_filterMap]
  apply List.filterMap_congr
  intro e _
  exact e.arrives_filter x.index other

/-- Routing between the parties of a room: exactly once, with the right sender and tag, in
sending order, and in one order for all. -/
theorem routed [DecidableEq σ] {serde : Serde M} {s : Network σ M}
    (h : (network σ p serde).Reachable s) (hd : s.Distinct r)
    (hl : (s.history r).length < 65536) : s.Routed r := by
  have hi := Network.inv h
  obtain ⟨f, hc, hf⟩ := Network.follows h hl
  refine ⟨hi.posted r, ?_, ?_, ?_⟩
  · intro j x hx rfl hx
    obtain ⟨sub, hsub, hle⟩ := hx
    have hfol := hf.session j x hx rfl
    have hread : f.read j = s.history x.room := by
      rw [← hf.log]
      apply hc.caught_up
      rw [hf.log, ← hfol.cursor sub hsub]
      rw [hi.stored, List.length_map] at hle
      exact hle
    rw [hfol.received, hread]
    congr 1
    apply List.filterMap_congr
    intro e he
    exact Posted.arrives_eq_reaches (hi.sender_iff hd hx rfl he)
  · intro i j x y hx hy hxr hyr
    have hfol := hf.session j y hy hyr
    have hsound := (hi.sound i x hx).sent
    rw [hxr] at hsound
    rw [hfol.messages, ← hsound, ← filter_sender i x.index y.index
      fun e he => hi.sender_iff hd hx hxr he, ← hf.log]
    exact ((hc j).filterMap _).filter _
  · intro i j x y hx hy hxr hyr
    rw [(hf.session i x hx hxr).broadcasts, (hf.session j y hy hyr).broadcasts,
      Posted.common_comm y.index]
    rcases Nat.le_total (f.read i).length (f.read j).length with hle | hle
    · exact .inl ((hc.agree hle).filterMap _)
    · exact .inr ((hc.agree hle).filterMap _)

/-- Party 1 sends to everybody and party 0 joins late; it is caught up after one event. -/
theorem routed_late_join : ∃ (s : Network Bool Nat) (x : Session Nat),
    (network Bool .dev numbers).Reachable s ∧ s.sessions false = some x ∧
    x.received = [.ok ⟨0, 1, .broadcast, 42⟩] ∧ s.Routed "signing_7" := by
  have h0 := System.Reachable.start (T := network Bool .dev numbers) rfl
  have h1 := h0.next (.join (a := true) "signing_7" 1 rfl rfl)
  have h2 := h1.next (.send (a := true) ⟨.allParties, 42⟩ rfl rfl rfl)
  have h3 := h2.next (.post (a := true) rfl rfl)
  have h4 := h3.next (.join (a := false) "signing_7" 0 rfl rfl)
  have h5 := h4.next (.next (a := false) rfl rfl rfl)
  have hr := routed (r := "signing_7") h5 (by
    intro i j x y hi hj _ _ hxy
    cases i with
    | false =>
      cases j with
      | false => rfl
      | true =>
        cases hi
        cases hj
        cases hxy
    | true =>
      cases j with
      | false =>
        cases hi
        cases hj
        cases hxy
      | true => rfl) (show 1 < 65536 by decide)
  exact ⟨_, _, h5, rfl, (hr.exact false _ rfl rfl ⟨_, rfl, Nat.le_refl 1⟩).trans rfl, hr⟩

end WalletMpc.Participant
