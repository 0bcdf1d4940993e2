import WalletMpc.Room
import WalletMpc.JoinRoom

namespace WalletMpc.Sse
set_option autoImplicit true

structure Response where
  status : UInt16

/-- An answer that is no success, from whatever turns a request down ahead of the handler. -/
structure Refusal where
  status : UInt16
  unsuccessful : status < 200 ∨ 300 ≤ status

/-- The limit of `PayloadConfig`. -/
def payloadLimit : Nat := 100 * 1024 * 1024

/-- The route of `broadcast`: the extractor of the body turns down one that is too long. -/
def Db.routeBroadcast (db : Db String) (roomId body : String) (refusal : Option Refusal) :
    Db String × Response :=
  match refusal with
  | some refusal => (db, ⟨refusal.status⟩)
  | none =>
    if payloadLimit < body.utf8ByteSize then (db, ⟨413⟩) else (db.broadcast roomId body, ⟨200⟩)

/-- The message is in the history of the room once more than before, at its end. -/
structure Appended (db db' : Db String) (roomId message : String) : Prop where
  last : (db'.room roomId).messages = (db.room roomId).messages ++ [message]
  frame : ∀ other, other ≠ roomId → db'.room other = db.room other

theorem appended_broadcast (db : Db String) (roomId message : String) :
    Appended db (db.broadcast roomId message) roomId message where
  last := by rw [Db.broadcast, Db.room_set, Room.publish_messages]
  frame other h := Db.room_set_of_ne db _ h

theorem not_appended_self (db : Db String) (roomId message : String) :
    ¬Appended db db roomId message := by
  intro h
  exact absurd (List.self_eq_append_right.1 h.last) (List.cons_ne_nil _ _)

end WalletMpc.Sse

namespace WalletMpc.Participant
open Sse
set_option autoImplicit true

/-- How the exchange for one request goes: it does not get through, or the server answers, on
its own or by the handler, and the answer arrives or is lost. -/
inductive Exchange where
  | unsent (error : String)
  | served (refusal : Option Refusal) (lost : Option String)

/-- `send` of the HTTP client: an answer that arrives is no error, whatever its status. -/
def Exchange.send (exchange : Exchange) (db : Db String) (room body : String) :
    Db String × Except String Response :=
  match exchange with
  | .unsent error => (db, .error error)
  | .served refusal lost =>
    let (db', response) := db.routeBroadcast room body refusal
    match lost with
    | some error => (db', .error error)
    | none => (db', .ok response)

/-- `Room::broadcast` of the participant. -/
def broadcast (exchange : Exchange) (db : Db String) (room message : String) :
    Db String × Except TransportError Unit :=
  let (db', answer) := exchange.send db room message
  (db', (answer.mapError fun e => .http ("Failed to broadcast message: " ++ e)).map fun _ => ())

/-- The sink of `join_room`. -/
def outgoingSink (serde : Serde M) (index : UInt16) (exchange : Exchange) (db : Db String)
    (room : String) (message : Outgoing M) : Db String × Except TransportError Unit :=
  match outgoing serde index message with
  | .error e => (db, .error e)
  | .ok serialized => broadcast exchange db room serialized

/-- No answer reaches the client. -/
def Exchange.Unanswered : Exchange → Prop
  | .unsent _ => True
  | .served _ lost => lost ≠ none

/-- Nothing turns the request down, so that the handler gets it. -/
def Exchange.Handles (message : String) : Exchange → Prop
  | .unsent _ => False
  | .served refusal _ => refusal = none ∧ message.utf8ByteSize ≤ payloadLimit

theorem broadcast_ok_iff (exchange : Exchange) (db : Db String) (room message : String) :
    (broadcast exchange db room message).2 = .ok () ↔ ¬exchange.Unanswered := by
  cases exchange with
  | unsent error => exact ⟨nofun, fun h => absurd trivial h⟩
  | served refusal lost =>
    cases lost with
    | none => exact ⟨fun _ h => h rfl, fun _ => rfl⟩
    | some error => exact ⟨nofun, fun h => absurd (Option.some_ne_none error) h⟩

theorem broadcast_db (refusal : Option Refusal) (lost : Option String) (db : Db String)
    (room message : String) : (broadcast (.served refusal lost) db room message).1 =
      (db.routeBroadcast room message refusal).1 := by
  cases lost with
  | none => rfl
  | some error => rfl

theorem appended_route_iff (db : Db String) (room message : String) (refusal : Option Refusal) :
    Appended db (db.routeBroadcast room message refusal).1 room message ↔
      refusal = none ∧ message.utf8ByteSize ≤ payloadLimit := by
  cases refusal with
  | some refusal => exact ⟨fun h => absurd h (not_appended_self db room message), nofun⟩
  | none =>
    rw [Db.routeBroadcast]
    split
    · rename_i hlong
      exact ⟨fun h => absurd h (not_appended_self db room message),
        fun h => absurd h.2 (Nat.not_le_of_lt hlong)⟩
    · rename_i hshort
      exact ⟨fun _ => ⟨rfl, Nat.le_of_not_lt hshort⟩, fun _ => appended_broadcast db room message⟩

theorem broadcast_appends_iff (exchange : Exchange) (db : Db String) (room message : String) :
    ((broadcast exchange db room message).2 = .ok () →
        Appended db (broadcast exchange db room message).1 room message) ↔
      exchange.Unanswered ∨ exchange.Handles message := by
  rw [broadcast_ok_iff]
  cases exchange with
  | unsent error => exact ⟨fun _ => .inl trivial, fun _ h => absurd trivial h⟩
  | served refusal lost =>
    rw [broadcast_db, appended_route_iff]
    exact or_iff_not_imp_left.symm

theorem outgoingSink_appends_iff (serde : Serde M) (index : UInt16) (exchange : Exchange)
    (db : Db String) (room : String) (message : Outgoing M) :
    ((outgoingSink serde index exchange db room message).2 = .ok () →
        ∃ text, outgoing serde index message = .ok text ∧
          Appended db (outgoingSink serde index exchange db room message).1 room text) ↔
      ∀ text, outgoing serde index message = .ok text →
        exchange.Unanswered ∨ exchange.Handles text := by
  rw [outgoingSink]
  cases hout : outgoing serde index message with
  | error e => exact ⟨fun _ _ => nofun, fun _ => nofun⟩
  | ok serialized =>
    dsimp only
    apply Iff.intro
    · intro h text ht
      cases ht
      apply (broadcast_appends_iff exchange db room serialized).1
      intro hok
      obtain ⟨text, ht, happended⟩ := h hok
      cases ht
      exact happended
    · intro h hok
      exact ⟨serialized, rfl,
        (broadcast_appends_iff exchange db room serialized).2 (h serialized rfl) hok⟩

/-- A send that returns Ok has appended its message just when no answer was taken for success
that did not come from the handler. -/
theorem delivered_iff (serde : Serde M) (index : UInt16) (exchange : Exchange) (db : Db String)
    (room : String) :
    (∀ message, ((broadcast exchange db room message).2 = .ok () →
        Appended db (broadcast exchange db room message).1 room message) ↔
      exchange.Unanswered ∨ exchange.Handles message) ∧
    ∀ message : Outgoing M, ((outgoingSink serde index exchange db room message).2 = .ok () →
        ∃ text, outgoing serde index message = .ok text ∧
          Appended db (outgoingSink serde index exchange db room message).1 room text) ↔
      ∀ text, outgoing serde index message = .ok text →
        exchange.Unanswered ∨ exchange.Handles text :=
  ⟨broadcast_appends_iff exchange db room, outgoingSink_appends_iff serde index exchange db room⟩

theorem length_le_utf8ByteSize (cs : List Char) : cs.length ≤ (String.ofList cs).utf8ByteSize := by
  rw [String.utf8ByteSize_ofList]
  induction cs with
  | nil => exact Nat.zero_le _
  | cons c cs ih =>
    have hc := c.utf8Size_pos
    rw [List.length_cons, String.utf8Len_cons]
    omega

/-- A message of this many bytes or more. -/
def longMessage (n : Nat) : String := String.ofList (List.replicate n 'a')

theorem utf8ByteSize_longMessage (n : Nat) : n ≤ (longMessage n).utf8ByteSize := by
  have hle := length_le_utf8ByteSize (List.replicate n 'a')
  rw [List.length_replicate] at hle
  exact hle

/-- The server answers 413 without calling its handler, which passes for success. -/
theorem broadcast_longMessage (h : payloadLimit < n) (db : Db String) (room : String) :
    (broadcast (.served none none) db room (longMessage n)).2 = .ok () ∧
      (broadcast (.served none none) db room (longMessage n)).1 = db ∧
      ¬Appended db (broadcast (.served none none) db room (longMessage n)).1 room
        (longMessage n) := by
  have hroute : (db.routeBroadcast room (longMessage n) none).1 = db := by
    rw [Db.routeBroadcast]
    rw [if_pos (Nat.lt_of_lt_of_le h (utf8ByteSize_longMessage n))]
  have hdb := (broadcast_db none none db room (longMessage n)).trans hroute
  have hanswered : ¬(Exchange.served none none).Unanswered := fun h => h rfl
  apply And.intro ((broadcast_ok_iff ..).2 hanswered)
  apply And.intro hdb
  rw [hdb]
  exact not_appended_self db room (longMessage n)

def unavailable : Refusal := ⟨503, .inr (by decide)⟩

/-- A short message that is answered 503, and a message one byte above the limit. -/
theorem refused_lost :
    ((broadcast (.served (some unavailable) none) Db.empty "signing_7" "hello").2 = .ok () ∧
      (broadcast (.served (some unavailable) none) Db.empty "signing_7" "hello").1 = Db.empty ∧
      ¬Appended Db.empty
        (broadcast (.served (some unavailable) none) Db.empty "signing_7" "hello").1
        "signing_7" "hello") ∧
    (broadcast (.served none none) Db.empty "signing_7" (longMessage (payloadLimit + 1))).2 =
        .ok () ∧
      (broadcast (.served none none) Db.empty "signing_7" (longMessage (payloadLimit + 1))).1 =
        Db.empty ∧
      ¬Appended Db.empty
        (broadcast (.served none none) Db.empty "signing_7" (longMessage (payloadLimit + 1))).1
        "signing_7" (longMessage (payloadLimit + 1)) :=
  ⟨⟨rfl, rfl, not_appended_self Db.empty "signing_7" "hello"⟩,
    broadcast_longMessage (Nat.lt_succ_self payloadLimit) Db.empty "signing_7"⟩

end WalletMpc.Participant
