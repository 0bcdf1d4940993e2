import WalletMpc.Decimals

namespace WalletMpc.Sse
set_option autoImplicit true

/-- How the crate was built: `u16` overflow panics in the dev profile and wraps in release. -/
inductive Profile where
  | dev
  | release
  deriving DecidableEq, Repr

/-- `a + b` on `u16`, where `none` is the overflow panic. -/
def addU16 (p : Profile) (a b : UInt16) : Option UInt16 :=
  match p with
  | .dev => if a.toNat + b.toNat < 65536 then some (a + b) else none
  | .release => some (a + b)

def subU16 (p : Profile) (a b : UInt16) : Option UInt16 :=
  match p with
  | .dev => if b ≤ a then some (a - b) else none
  | .release => some (a - b)

theorem addU16_of_lt (p : Profile) (h : a.toNat + b.toNat < 65536) :
    addU16 p a b = some (a + b) := by
  cases p with
  | dev => simp only [addU16, if_pos h]
  | release => rfl

theorem toNat_add_one {a : UInt16} (h : a.toNat < 65535) : (a + 1).toNat = a.toNat + 1 := by
  rw [UInt16.toNat_add, UInt16.toNat_one]
  omega

/-- `str::parse::<u16>`: an optional leading plus, then decimal digits that fit. -/
def parseU16 (s : String) : Option UInt16 :=
  let digits := match s.toList with
    | '+' :: cs => cs
    | cs => cs
  (Decimals.parse digits).bind fun n =>
    if n < 65536 then some (UInt16.ofNat n) else none

theorem parseU16_toString {n : Nat} (h : n < 65536) :
    parseU16 (toString n) = some (UInt16.ofNat n) := by
  have hl : (toString n).toList = Nat.toDigits 10 n := Nat.toList_repr
  have hp : ∀ cs, Nat.toDigits 10 n ≠ '+' :: cs := by
    intro cs he
    apply Decimals.head?_toDigits_ne (c := '+') (by decide) n
    rw [he]
    rfl
  unfold parseU16
  rw [hl]
  split
  · rename_i cs he
    exact (hp cs (by assumption)).elim
  · simp only [Decimals.parse_toDigits, Option.bind_some, if_pos h]

structure HttpRequest where
  lastEventId : Option String

def visibleAscii (c : Char) : Bool := c == '\t' || (32 ≤ c.toNat && c.toNat < 127)

def extractLastEventId (req : HttpRequest) : Option UInt16 :=
  (req.lastEventId.filter fun header => header.toList.all visibleAscii).bind parseU16

theorem visibleAscii_of_isDigit {c : Char} (h : c.isDigit = true) : visibleAscii c = true := by
  have hv : 48 ≤ c.toNat ∧ c.toNat ≤ 57 := by
    simp only [Char.isDigit, Bool.and_eq_true, decide_eq_true_eq] at h
    exact h
  simp only [visibleAscii, Bool.or_eq_true, Bool.and_eq_true, decide_eq_true_eq]
  omega

/-- The server reads back exactly the event ids that it writes. -/
theorem extractLastEventId_toString {n : Nat} (h : n < 65536) :
    extractLastEventId ⟨some (toString n)⟩ = some (UInt16.ofNat n) := by
  have hv : (toString n).toList.all visibleAscii = true := by
    rw [List.all_eq_true]
    intro c hc
    rw [show (toString n).toList = Nat.toDigits 10 n from Nat.toList_repr] at hc
    exact visibleAscii_of_isDigit (List.all_eq_true.1 (Decimals.all_isDigit_toDigits n) c hc)
  simp only [extractLastEventId, Option.filter_some, hv, if_pos, Option.bind_some,
    parseU16_toString h]

structure Room (μ : Type) where
  messages : List μ
  subscribers : UInt16
  nextIdx : UInt16

def Room.empty : Room μ := ⟨[], 0, 0⟩

/-- A subscription; the room it reads is the one it was made for. -/
structure Subscription where
  nextEvent : UInt16

def Room.publish (room : Room μ) (message : μ) : Room μ :=
  { room with messages := room.messages ++ [message] }

/-- The first event of a new subscription; `none` is the overflow panic of `i + 1`. -/
def firstEvent (p : Profile) : Option UInt16 → Option UInt16
  | some i => addU16 p i 1
  | none => some 0

/-- `Room::subscribe`: the counter is bumped before the checked additions that may panic. -/
def Room.subscribe (p : Profile) (room : Room μ) (lastSeenMsg : Option UInt16) :
    Room μ × Option Subscription :=
  ({ room with subscribers := room.subscribers + 1 },
    (addU16 p room.subscribers 1).bind fun _newCount =>
      (firstEvent p lastSeenMsg).map Subscription.mk)

/-- `Drop for Subscription`, with the remaining count it logs. -/
def Room.leave (p : Profile) (room : Room μ) : Room μ × Option UInt16 :=
  ({ room with subscribers := room.subscribers - 1 }, subU16 p room.subscribers 1)

def Room.issueUniqueIdx (room : Room μ) : Room μ × UInt16 :=
  ({ room with nextIdx := room.nextIdx + 1 }, room.nextIdx)

/-- What one pass of the loop in `Subscription::next` ends in. -/
inductive Poll (μ : Type) where
  | ready (eventId : UInt16) (msg : μ) (sub : Subscription)
  | pending
  | panicked

def Subscription.next (p : Profile) (room : Room μ) (sub : Subscription) : Poll μ :=
  match room.messages[sub.nextEvent.toNat]? with
  | some msg =>
    match addU16 p sub.nextEvent 1 with
    | some nextEvent => .ready sub.nextEvent msg ⟨nextEvent⟩
    | none => .panicked
  | none => .pending

structure Event (μ : Type) where
  event : String
  id : String
  data : μ

def toEvent (id : UInt16) (msg : μ) : Event μ := ⟨"new-message", toString id.toNat, msg⟩

structure Db (μ : Type) where
  rooms : String → Option (Room μ)

def Db.empty : Db μ := ⟨fun _ => none⟩

/-- The room that `Db::get_room_or_create_for_index` returns. -/
def Db.room (db : Db μ) (roomId : String) : Room μ := (db.rooms roomId).getD Room.empty

/-- Change the room that `get_room_or_create_for_index` returns, which it leaves in the map. -/
def Db.set (db : Db μ) (roomId : String) (room : Room μ) : Db μ :=
  ⟨Function.update db.rooms roomId (some room)⟩

def Db.broadcast (db : Db μ) (roomId : String) (message : μ) : Db μ :=
  db.set roomId ((db.room roomId).publish message)

@[simp] theorem Room.publish_messages (room : Room μ) (m : μ) :
    (room.publish m).messages = room.messages ++ [m] := rfl

@[simp] theorem Room.subscribe_messages (p : Profile) (room : Room μ) (i : Option UInt16) :
    (room.subscribe p i).1.messages = room.messages := rfl

@[simp] theorem Room.leave_messages (p : Profile) (room : Room μ) :
    (room.leave p).1.messages = room.messages := rfl

@[simp] theorem Db.room_empty (r : String) : (Db.empty : Db μ).room r = Room.empty := rfl

@[simp] theorem Db.room_set (db : Db μ) (r : String) (room : Room μ) :
    (db.set r room).room r = room := by
  simp only [Db.set, Db.room, Function.update_self, Option.getD_some]

theorem Db.room_set_of_ne (db : Db μ) {r r' : String} (room : Room μ) (h : r' ≠ r) :
    (db.set r room).room r' = db.room r' := by
  simp only [Db.set, Db.room, Function.update_of_ne h]

theorem Subscription.next_ready {sub : Subscription} {room : Room μ}
    (h : sub.next p room = .ready eventId msg sub') :
    eventId = sub.nextEvent ∧ room.messages[eventId.toNat]? = some msg ∧
      addU16 p eventId 1 = some sub'.nextEvent := by
  rw [Subscription.next] at h
  split at h
  · rename_i m hm
    split at h
    · rename_i n hn
      cases h
      exact ⟨rfl, hm, hn⟩
    · cases h
  · cases h

theorem Subscription.next_pending {sub : Subscription} {room : Room μ} :
    sub.next p room = .pending ↔ room.messages.length ≤ sub.nextEvent.toNat := by
  rw [← List.getElem?_eq_none_iff]
  rw [Subscription.next]
  split
  · rename_i m hm
    rw [hm]
    split <;> simp
  · rename_i hm
    simp [hm]

theorem Subscription.next_of_lt {sub : Subscription} {room : Room μ}
    (hm : room.messages[sub.nextEvent.toNat]? = some msg) (h : sub.nextEvent.toNat < 65535) :
    sub.next p room = .ready sub.nextEvent msg ⟨sub.nextEvent + 1⟩ := by
  have ha := addU16_of_lt p (a := sub.nextEvent) (b := 1) (by rw [UInt16.toNat_one]; omega)
  simp only [Subscription.next, hm, ha]

/-- A delivery moves the cursor by one, unless it is at the last `u16`. -/
theorem Subscription.next_cursor_of_lt {sub : Subscription} {room : Room μ}
    (h : sub.next p room = .ready eventId msg sub') (hlt : sub.nextEvent.toNat < 65535) :
    sub'.nextEvent.toNat = sub.nextEvent.toNat + 1 := by
  obtain ⟨rfl, hm, ha⟩ := Subscription.next_ready h
  rw [addU16_of_lt p (by rw [UInt16.toNat_one]; omega)] at ha
  rw [← Option.some.inj ha]
  exact toNat_add_one hlt

/-- A delivery moves the cursor by one while the history is shorter than `u16` allows. -/
theorem Subscription.next_cursor {sub : Subscription} {room : Room μ}
    (h : sub.next p room = .ready eventId msg sub') (hl : room.messages.length < 65536) :
    sub'.nextEvent.toNat = sub.nextEvent.toNat + 1 := by
  apply Subscription.next_cursor_of_lt h
  obtain ⟨rfl, hm, -⟩ := Subscription.next_ready h
  have := (List.getElem?_eq_some_iff.1 hm).1
  omega

end WalletMpc.Sse
