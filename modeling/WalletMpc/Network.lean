import WalletMpc.Systems
import WalletMpc.Room
import WalletMpc.JoinRoom

namespace WalletMpc.Participant
open Systems Sse
set_option autoImplicit true

/-- A call of `join_room`: its stream with what it yielded under which event ids, and its sink
with the broadcast in flight and those that were made. -/
structure Session (M : Type) where
  room : String
  index : UInt16
  stream : Option Subscription
  yielded : List (UInt16 × Except TransportError (Incoming M))
  sending : Option (Outgoing M × String)
  sent : List (Outgoing M)

structure Posted (σ M : Type) where
  session : σ
  sender : UInt16
  message : Outgoing M
  text : String

/-- One server, the sessions of its clients, and who posted what to each room. -/
structure Network (σ M : Type) where
  db : Db String
  sessions : σ → Option (Session M)
  history : String → List (Posted σ M)

inductive NetworkAction (σ M : Type) where
  | join (a : σ) (room : String) (index : UInt16)
  | send (a : σ) (message : Outgoing M)
  | post (a : σ)
  | next (a : σ)
  | disconnect (a : σ)

inductive Network.Step [DecidableEq σ] (p : Profile) (serde : Serde M) :
    Network σ M → NetworkAction σ M → Network σ M → Prop where
  | join (room : String) (index : UInt16) : s.sessions a = none →
      (s.db.room room).subscribe p (extractLastEventId ⟨none⟩) = (room', some sub) →
      Step p serde s (.join a room index)
        { s with
          db := s.db.set room room'
          sessions := Function.update s.sessions a (some ⟨room, index, some sub, [], none, []⟩) }
  | joinFailed (room : String) (index : UInt16) : s.sessions a = none →
      (s.db.room room).subscribe p (extractLastEventId ⟨none⟩) = (room', none) →
      Step p serde s (.join a room index) { s with db := s.db.set room room' }
  -- the sink takes a message once the broadcast of the one before it is through
  | send (message : Outgoing M) : s.sessions a = some x → x.sending = none →
      outgoing serde x.index message = .ok text →
      Step p serde s (.send a message)
        { s with
          sessions := Function.update s.sessions a (some { x with sending := some (message, text) }) }
  | post : s.sessions a = some x → x.sending = some (message, text) →
      Step p serde s (.post a)
        { db := s.db.broadcast x.room text
          sessions := Function.update s.sessions a
            (some { x with sending := none, sent := x.sent ++ [message] })
          history := Function.update s.history x.room
            (s.history x.room ++ [⟨a, x.index, message, text⟩]) }
  | next : s.sessions a = some x → x.stream = some sub →
      sub.next p (s.db.room x.room) = .ready eventId data sub' →
      Step p serde s (.next a)
        { s with
          sessions := Function.update s.sessions a
            (some { x with
              stream := some sub'
              yielded := x.yielded ++ ((incoming serde x.index data).map (eventId, ·)).toList }) }
  | crash : s.sessions a = some x → x.stream = some sub →
      sub.next p (s.db.room x.room) = .panicked →
      Step p serde s (.next a)
        { s with
          db := s.db.set x.room ((s.db.room x.room).leave p).1
          sessions := Function.update s.sessions a (some { x with stream := none }) }
  | disconnect : s.sessions a = some x → x.stream = some sub →
      Step p serde s (.disconnect a)
        { s with
          db := s.db.set x.room ((s.db.room x.room).leave p).1
          sessions := Function.update s.sessions a (some { x with stream := none }) }

def network (σ : Type) [DecidableEq σ] (p : Profile) (serde : Serde M) :
    System (Network σ M) (NetworkAction σ M) where
  start s := s = ⟨Db.empty, fun _ => none, fun _ => []⟩
  step := Network.Step p serde

/-- What a session has is accounted for by the history of its room. -/
structure Session.Sound [DecidableEq σ] (serde : Serde M) (history : List (Posted σ M)) (a : σ)
    (x : Session M) : Prop where
  sending : ∀ message text, x.sending = some (message, text) →
    outgoing serde x.index message = .ok text
  sent : (history.filter fun e => e.session = a).map Posted.message = x.sent
  yielded : ∀ k item, (k, item) ∈ x.yielded → ∃ e m, history[k.toNat]? = some e ∧
    e.message.arrives e.sender x.index = some m ∧ item = .ok m

structure Network.Inv [DecidableEq σ] (serde : Serde M) (s : Network σ M) : Prop where
  stored : ∀ r, (s.db.room r).messages = (s.history r).map Posted.text
  encoded : ∀ r, ∀ e ∈ s.history r, outgoing serde e.sender e.message = .ok e.text
  posted : ∀ r, ∀ e ∈ s.history r,
    ∃ x, s.sessions e.session = some x ∧ x.room = r ∧ x.index = e.sender
  sound : ∀ a x, s.sessions a = some x → x.Sound serde (s.history x.room) a

section
variable [DecidableEq σ]

theorem room_messages_set (db : Db String) {room : Room String}
    (h : room.messages = (db.room r).messages) (r' : String) :
    ((db.set r room).room r').messages = (db.room r').messages := by
  by_cases hr : r' = r
  · subst hr
    rw [Db.room_set, h]
  · rw [Db.room_set_of_ne _ _ hr]

/-- An event that a subscription delivers is one that was posted, and reads as what was sent. -/
theorem Network.Inv.delivered {serde : Serde M} {s : Network σ M} {sub : Subscription}
    (h : s.Inv serde) (hnext : sub.next p (s.db.room r) = .ready eventId data sub')
    (index : UInt16) : ∃ e, (s.history r)[eventId.toNat]? = some e ∧
      incoming serde index data = (e.message.arrives e.sender index).map .ok := by
  obtain ⟨_, hdata, _⟩ := Subscription.next_ready hnext
  rw [h.stored, List.getElem?_map] at hdata
  obtain ⟨e, he, rfl⟩ := Option.map_eq_some_iff.1 hdata
  exact ⟨e, he, incoming_outgoing (h.encoded r e (List.mem_of_getElem? he)) index⟩

/-- A session that keeps its room and its index remains the sender of what it posted. -/
theorem Network.Inv.posted_update {serde : Serde M} {s : Network σ M} {x' : Session M}
    (h : s.Inv serde)
    (hx : ∀ x, s.sessions a = some x → x'.room = x.room ∧ x'.index = x.index)
    (r : String) (e : Posted σ M) (he : e ∈ s.history r) :
    ∃ y, Function.update s.sessions a (some x') e.session = some y ∧
      y.room = r ∧ y.index = e.sender := by
  obtain ⟨x, hxe, hr, hi⟩ := h.posted r e he
  by_cases ha : e.session = a
  · rw [ha] at hxe
    obtain ⟨hroom, hindex⟩ := hx x hxe
    refine ⟨x', ?_, hroom.trans hr, hindex.trans hi⟩
    rw [ha]
    exact Function.update_self ..
  · refine ⟨x, ?_, hr, hi⟩
    rw [← hxe]
    exact Function.update_of_ne ha ..

theorem Network.Inv.move {serde : Serde M} {s : Network σ M} {db' : Db String}
    {x' : Session M} (h : s.Inv serde)
    (hdb : ∀ r, (db'.room r).messages = (s.db.room r).messages)
    (hx : ∀ x, s.sessions a = some x → x'.room = x.room ∧ x'.index = x.index)
    (hs : x'.Sound serde (s.history x'.room) a) :
    Network.Inv serde ⟨db', Function.update s.sessions a (some x'), s.history⟩ where
  stored r := (hdb r).trans (h.stored r)
  encoded := h.encoded
  posted := h.posted_update hx
  sound := by
    apply (Function.forall_update_iff s.sessions fun b y =>
      ∀ x, y = some x → x.Sound serde (s.history x.room) b).2
    apply And.intro
    · intro x hn
      cases hn
      exact hs
    · intro b _ x hb
      exact h.sound b x hb

/-- An open session changes, and no room's messages do. -/
theorem Network.Inv.change {serde : Serde M} {s : Network σ M} {db' : Db String}
    {x x' : Session M} (h : s.Inv serde) (ha : s.sessions a = some x)
    (hdb : ∀ r, (db'.room r).messages = (s.db.room r).messages)
    (hx : x'.room = x.room ∧ x'.index = x.index)
    (hs : x'.Sound serde (s.history x'.room) a) :
    Network.Inv serde ⟨db', Function.update s.sessions a (some x'), s.history⟩ := by
  apply h.move hdb _ hs
  intro y hy
  cases ha.symm.trans hy
  exact hx

/-- What a session has yielded stays where it is in the history. -/
theorem Session.Sound.yielded_append {serde : Serde M} {history : List (Posted σ M)}
    {x : Session M} (h : x.Sound serde history a) (e : Posted σ M) (k : UInt16)
    (item : Except TransportError (Incoming M)) (hk : (k, item) ∈ x.yielded) :
    ∃ e' m, (history ++ [e])[k.toNat]? = some e' ∧
      e'.message.arrives e'.sender x.index = some m ∧ item = .ok m := by
  obtain ⟨e', m, hk', hm⟩ := h.yielded k item hk
  refine ⟨e', m, ?_, hm⟩
  rw [List.getElem?_append_left (List.getElem?_eq_some_iff.1 hk').1]
  exact hk'

theorem Session.Sound.append {serde : Serde M} {history : List (Posted σ M)} {x : Session M}
    (h : x.Sound serde history b) (e : Posted σ M) (he : e.session ≠ b) :
    x.Sound serde (history ++ [e]) b where
  sending := h.sending
  sent := by
    rw [List.filter_append, List.filter_singleton, decide_eq_false he, cond_false,
      List.append_nil]
    exact h.sent
  yielded := h.yielded_append _

theorem Session.Sound.post {serde : Serde M} {history : List (Posted σ M)} {x : Session M}
    (h : x.Sound serde history a) (message : Outgoing M) (text : String) :
    Session.Sound serde (history ++ [⟨a, x.index, message, text⟩]) a
      { x with sending := none, sent := x.sent ++ [message] } where
  sending := nofun
  sent := by
    rw [List.filter_append, List.filter_singleton, decide_eq_true rfl, cond_true,
      List.map_append, h.sent]
    rfl
  yielded := h.yielded_append _

theorem Network.Inv.post {serde : Serde M} {s : Network σ M} (h : s.Inv serde)
    (ha : s.sessions a = some x) (hx : x.sending = some (message, text)) :
    Network.Inv serde
      { db := s.db.broadcast x.room text
        sessions := Function.update s.sessions a
          (some { x with sending := none, sent := x.sent ++ [message] })
        history := Function.update s.history x.room
          (s.history x.room ++ [⟨a, x.index, message, text⟩]) } where
  stored r := by
    by_cases hr : r = x.room
    · subst hr
      simp only [Db.broadcast, Db.room_set, Room.publish_messages, Function.update_self,
        List.map_append, List.map_singleton, h.stored]
    · simp only [Db.broadcast, Db.room_set_of_ne _ _ hr, Function.update_of_ne hr, h.stored]
  encoded := by
    apply (Function.forall_update_iff s.history fun r l =>
      ∀ e ∈ l, outgoing serde e.sender e.message = .ok e.text).2
    apply And.intro
    · intro e he
      rcases List.mem_append.1 he with he | he
      · exact h.encoded _ e he
      · rw [List.mem_singleton.1 he]
        exact (h.sound a x ha).sending message text hx
    · intro r _ e he
      exact h.encoded r e he
  posted := by
    have hsame : ∀ y, s.sessions a = some y → x.room = y.room ∧ x.index = y.index := by
      intro y hy
      cases ha.symm.trans hy
      exact ⟨rfl, rfl⟩
    have hold : ∀ r, ∀ e ∈ s.history r, ∃ y, Function.update s.sessions a
        (some { x with sending := none, sent := x.sent ++ [message] }) e.session = some y ∧
          y.room = r ∧ y.index = e.sender := h.posted_update hsame
    apply (Function.forall_update_iff s.history fun r l => ∀ e ∈ l, ∃ y',
      Function.update s.sessions a (some { x with sending := none, sent := x.sent ++ [message] })
        e.session = some y' ∧ y'.room = r ∧ y'.index = e.sender).2
    apply And.intro
    · intro e he
      rcases List.mem_append.1 he with he | he
      · exact hold x.room e he
      · rw [List.mem_singleton.1 he]
        exact ⟨_, Function.update_self .., rfl, rfl⟩
    · intro r _
      exact hold r
  sound := by
    apply (Function.forall_update_iff s.sessions fun b y => ∀ z, y = some z →
      z.Sound serde (Function.update s.history x.room (s.history x.room ++
        [(⟨a, x.index, message, text⟩ : Posted σ M)]) z.room) b).2
    apply And.intro
    · intro z hn
      cases hn
      rw [Function.update_self]
      exact (h.sound a x ha).post message text
    · intro b hb z hz
      by_cases hr : z.room = x.room
      · have hz' := h.sound b z hz
        rw [hr] at hz' ⊢
        rw [Function.update_self]
        exact hz'.append _ (Ne.symm hb)
      · rw [Function.update_of_ne hr]
        exact h.sound b z hz

theorem Network.Step.inv {serde : Serde M} {s t : Network σ M} (hs : Step p serde s x t)
    (h : s.Inv serde) : t.Inv serde := by
  have hnew : ∀ {a r}, s.sessions a = none → ∀ e ∈ s.history r, e.session ≠ a := by
    rintro a r ha e he rfl
    obtain ⟨x, hx, _⟩ := h.posted r e he
    rw [ha] at hx
    cases hx
  cases hs with
  | join room index ha hsub =>
    rename_i room' sub a
    have hm := congrArg (fun x => x.1.messages) hsub
    apply h.move (room_messages_set s.db hm.symm)
    · intro y hy
      rw [ha] at hy
      cases hy
    · have hf : (s.history room).filter (fun e => e.session = a) = [] := by
        rw [List.filter_eq_nil_iff]
        intro e he hea
        exact hnew ha e he (of_decide_eq_true hea)
      exact ⟨nofun, by rw [hf]; rfl, nofun⟩
  | joinFailed room index ha hsub =>
    have hm := congrArg (fun x => x.1.messages) hsub
    exact ⟨fun r => (room_messages_set s.db hm.symm r).trans (h.stored r), h.encoded, h.posted,
      h.sound⟩
  | send message ha hx hout =>
    have hsound := h.sound _ _ ha
    apply h.change ha (fun _ => rfl)
    · exact ⟨rfl, rfl⟩
    · refine ⟨?_, hsound.sent, hsound.yielded⟩
      intro message' text' hn
      cases hn
      exact hout
  | post ha hx => exact h.post ha hx
  | next ha hstream hnext =>
    rename_i x sub a eventId data sub'
    have hsound := h.sound _ _ ha
    obtain ⟨e, he, hin⟩ := h.delivered hnext x.index
    apply h.change ha (fun _ => rfl)
    · exact ⟨rfl, rfl⟩
    · refine ⟨hsound.sending, hsound.sent, ?_⟩
      intro k item hk
      rcases List.mem_append.1 hk with hk | hk
      · exact hsound.yielded k item hk
      · rw [Option.mem_toList, hin, Option.map_map] at hk
        obtain ⟨m, hm, he'⟩ := Option.map_eq_some_iff.1 hk
        cases he'
        exact ⟨e, m, he, hm, rfl⟩
  | crash ha hstream hnext =>
    have hsound := h.sound _ _ ha
    apply h.change ha (room_messages_set s.db (Room.leave_messages _ _))
    · exact ⟨rfl, rfl⟩
    · exact ⟨hsound.sending, hsound.sent, hsound.yielded⟩
  | disconnect ha hstream =>
    have hsound := h.sound _ _ ha
    apply h.change ha (room_messages_set s.db (Room.leave_messages _ _))
    · exact ⟨rfl, rfl⟩
    · exact ⟨hsound.sending, hsound.sent, hsound.yielded⟩

theorem Network.inv {serde : Serde M} {s : Network σ M}
    (h : (network σ p serde).Reachable s) : s.Inv serde := by
  apply h.invariant
  · intro s h0
    cases h0
    exact ⟨fun _ => rfl, nofun, nofun, nofun⟩
  · intro s a t _ hi hs
    exact Network.Step.inv hs hi

end

end WalletMpc.Participant
