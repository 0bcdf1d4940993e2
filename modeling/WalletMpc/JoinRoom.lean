import WalletMpc.Fallible
import WalletMpc.Decimals

namespace WalletMpc.Participant
open Fallible
set_option autoImplicit true

inductive MessageDestination where
  | allParties
  | oneParty (partyId : UInt16)
  deriving DecidableEq

structure Outgoing (M : Type) where
  recipient : MessageDestination
  msg : M

inductive MessageType where
  | broadcast
  | p2p
  deriving DecidableEq

structure Incoming (M : Type) where
  id : UInt64
  sender : UInt16
  msgType : MessageType
  msg : M

structure Msg (M : Type) where
  sender : UInt16
  receiver : Option UInt16
  body : M

/-- The failures of `serde_json` on either side and of an HTTP exchange. -/
inductive TransportError where
  | serialization (error : String)
  | http (error : String)

def TransportError.display : TransportError → String
  | .serialization error => "Failed to serialize/deserialize message: " ++ error
  | .http error => "HTTP client error: " ++ error

/-- `serde_json` at the message type: it reads back what it writes. -/
structure Serde (M : Type) where
  toString : Msg M → Except String String
  fromStr : String → Except String (Msg M)
  fromStr_toString : toString m = .ok text → fromStr text = .ok m

def Outgoing.toMsg (index : UInt16) (message : Outgoing M) : Msg M where
  sender := index
  receiver := match message.recipient with
    | .allParties => none
    | .oneParty partyId => some partyId
  body := message.msg

def Msg.shouldReceive (index : UInt16) (msg : Msg M) : Bool :=
  msg.sender != index && (msg.receiver.isNone || msg.receiver == some index)

def Msg.toIncoming (msg : Msg M) : Incoming M where
  id := 0
  sender := msg.sender
  msgType := if msg.receiver.isNone then .broadcast else .p2p
  msg := msg.body

/-- The body that the sink of `join_room` broadcasts. -/
def outgoing (serde : Serde M) (index : UInt16) (message : Outgoing M) :
    Except TransportError String :=
  (serde.toString (message.toMsg index)).mapError .serialization

/-- What the stream of `join_room` yields for the data of an event, if anything. -/
def incoming (serde : Serde M) (index : UInt16) (data : String) :
    Option (Except TransportError (Incoming M)) :=
  match serde.fromStr data with
  | .error error => some (.error (.serialization error))
  | .ok msg => if msg.shouldReceive index then some (.ok msg.toIncoming) else none

/-- The message of a party as another one gets it: whoever sends to everybody or to the
receiver is heard, except by itself. -/
def Outgoing.arrives (message : Outgoing M) (sender index : UInt16) : Option (Incoming M) :=
  if sender = index then none
  else match message.recipient with
    | .allParties => some ⟨0, sender, .broadcast, message.msg⟩
    | .oneParty partyId => if partyId = index then some ⟨0, sender, .p2p, message.msg⟩ else none

theorem toMsg_arrives (message : Outgoing M) (sender index : UInt16) :
    (if (message.toMsg sender).shouldReceive index then
      some (message.toMsg sender).toIncoming else none) = message.arrives sender index := by
  obtain ⟨recipient, msg⟩ := message
  by_cases hs : sender = index
  · simp [Outgoing.toMsg, Msg.shouldReceive, Outgoing.arrives, hs]
  · cases recipient with
    | allParties => simp [Outgoing.toMsg, Msg.shouldReceive, Msg.toIncoming, Outgoing.arrives, hs]
    | oneParty partyId =>
      by_cases hi : partyId = index
      · simp [Outgoing.toMsg, Msg.shouldReceive, Msg.toIncoming, Outgoing.arrives, hs, hi]
      · simp [Outgoing.toMsg, Msg.shouldReceive, Outgoing.arrives, hs, hi]

/-- What one party posts arrives at another just as it was sent. -/
theorem incoming_outgoing {serde : Serde M} {message : Outgoing M}
    (h : outgoing serde sender message = .ok text) (index : UInt16) :
    incoming serde index text = (message.arrives sender index).map .ok := by
  have ht : serde.toString (message.toMsg sender) = .ok text := mapError_eq_ok h
  rw [incoming, serde.fromStr_toString ht, ← toMsg_arrives]
  split
  · rename_i he
    cases he
  · rename_i he
    cases he
    split
    · rfl
    · rfl

/-- The text that `serde_json` writes for a message whose body is a number. -/
def Msg.json (msg : Msg Nat) : List Char :=
  "\x7b\"sender\":".toList ++ (Nat.toDigits 10 msg.sender.toNat ++
    ',' :: ("\"receiver\":".toList ++
      ((msg.receiver.elim "null".toList fun i => Nat.toDigits 10 i.toNat) ++
        ',' :: ("\"body\":".toList ++ (Nat.toDigits 10 msg.body ++ ['\x7d'])))))

def readU16 (cs : List Char) : Option (UInt16 × List Char) :=
  (Decimals.read cs).bind fun r => if r.1 < 65536 then some (UInt16.ofNat r.1, r.2) else none

def readNullable (cs : List Char) : Option (Option UInt16 × List Char) :=
  match cs.dropPrefix? "null".toList with
  | some rest => some (none, rest)
  | none => (readU16 cs).map fun r => (some r.1, r.2)

def Msg.read (cs : List Char) : Option (Msg Nat) := do
  let cs ← cs.dropPrefix? "\x7b\"sender\":".toList
  let (sender, cs) ← readU16 cs
  let cs ← cs.dropPrefix? ",\"receiver\":".toList
  let (receiver, cs) ← readNullable cs
  let cs ← cs.dropPrefix? ",\"body\":".toList
  let (body, cs) ← Decimals.read cs
  if cs = ['\x7d'] then some ⟨sender, receiver, body⟩ else none

theorem dropPrefix_append (p cs : List Char) : (p ++ cs).dropPrefix? p = some cs := by
  rw [List.dropPrefix?_eq_some_iff]
  exact ⟨p, rfl, BEq.rfl⟩

theorem dropPrefix_cons {p q : List Char} (h : p = c :: q) (cs : List Char) :
    (c :: (q ++ cs)).dropPrefix? p = some cs := by
  subst h
  exact dropPrefix_append (c :: q) cs

theorem readU16_append (i : UInt16) {c : Char} (hc : c.isDigit = false) (cs : List Char) :
    readU16 (Nat.toDigits 10 i.toNat ++ c :: cs) = some (i, c :: cs) := by
  rw [readU16, Decimals.read_append _ hc, Option.bind_some, if_pos i.toNat_lt, UInt16.ofNat_toNat]

theorem readNullable_append (receiver : Option UInt16) (cs : List Char) :
    readNullable ((receiver.elim "null".toList fun i => Nat.toDigits 10 i.toNat) ++ ',' :: cs) =
      some (receiver, ',' :: cs) := by
  cases receiver with
  | none =>
    rw [readNullable]
    rw [Option.elim_none, dropPrefix_append]
  | some i =>
    have hnull : (Nat.toDigits 10 i.toNat ++ ',' :: cs).dropPrefix? "null".toList = none := by
      cases h : (Nat.toDigits 10 i.toNat ++ ',' :: cs).dropPrefix? "null".toList with
      | none => rfl
      | some rest =>
        obtain ⟨p, he, hp⟩ := List.dropPrefix?_eq_some_iff.1 h
        rw [eq_of_beq hp] at he
        have hhead := congrArg List.head? he
        rw [List.head?_append_of_ne_nil _ Nat.toDigits_ne_nil] at hhead
        exact absurd hhead (Decimals.head?_toDigits_ne (c := 'n') rfl i.toNat)
    rw [readNullable]
    rw [Option.elim_some, hnull, readU16_append i rfl]
    rfl

theorem Msg.read_json (msg : Msg Nat) : Msg.read msg.json = some msg := by
  have hreceiver := dropPrefix_cons
    (show ",\"receiver\":".toList = ',' :: "\"receiver\":".toList from rfl)
  have hbody := dropPrefix_cons
    (show ",\"body\":".toList = ',' :: "\"body\":".toList from rfl)
  have hsender := readU16_append msg.sender (c := ',') rfl
  have hnumber := Decimals.read_append msg.body (c := '\x7d') rfl []
  unfold Msg.read Msg.json
  simp only [Option.bind_eq_bind]
  rw [dropPrefix_append, Option.bind_some, hsender, Option.bind_some, hreceiver, Option.bind_some,
    readNullable_append, Option.bind_some, hbody, Option.bind_some, hnumber, Option.bind_some]
  exact if_pos rfl

def numbers : Serde Nat where
  toString msg := .ok (String.ofList msg.json)
  fromStr text := match Msg.read text.toList with
    | some msg => .ok msg
    | none => .error "expected value"
  fromStr_toString := by
    intro m text h
    cases h
    rw [String.toList_ofList, Msg.read_json]

end WalletMpc.Participant
