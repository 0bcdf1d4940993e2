import WalletMpc.Systems
import WalletMpc.Arenas
import WalletMpc.Locks
import WalletMpc.Room

namespace WalletMpc.Sse
open Systems Arenas Locks
set_option autoImplicit true

/-- What a task wants from a room; `get` only calls `get_room_or_create_for_index`. -/
inductive Request (μ : Type) where
  | get
  | subscribe (req : HttpRequest)
  | issueIdx
  | broadcast (message : μ)

/-- Where a task stands in a handler. -/
inductive Handler (μ : Type) where
  | idle
  | lockingRead (request : Request μ) (roomId : String)
  | reading (request : Request μ) (roomId : String)
  | lockingWrite (request : Request μ) (roomId : String)
  | writing (request : Request μ) (roomId : String)
  | vacant (request : Request μ) (roomId : String)
  | returned (request : Request μ) (roomId : String) (room : Nat)
  | streaming (roomId : String) (room : Nat) (sub : Subscription) (delivered : List (UInt16 × μ))

/-- The map of `Db` with the rooms that its `Arc`s point to, the lock around it, and a record
of the calls that returned, the messages published and the indexes issued. -/
structure SseServer (τ μ : Type) where
  rooms : Arena String (Room μ)
  lock : RwLock τ
  handlers : τ → Handler μ
  returned : List (String × Nat)
  posted : List (String × μ)
  issued : List (String × UInt16)

inductive HandlerAction (μ : Type) where
  | request (request : Request μ) (roomId : String)
  | advance
  | next
  | cancel

def SseServer.move [DecidableEq τ] (s : SseServer τ μ) (k : τ) (h : Handler μ) : SseServer τ μ :=
  { s with handlers := Function.update s.handlers k h }

/-- `get_room_or_create_for_index` returns a room and drops its guard. -/
def SseServer.give [DecidableEq τ] (s : SseServer τ μ) (k : τ) (request : Request μ)
    (roomId : String) (room : Nat) : SseServer τ μ :=
  { s with
    lock := s.lock.release k
    handlers := Function.update s.handlers k (.returned request roomId room)
    returned := s.returned ++ [(roomId, room)] }

def SseServer.leave [DecidableEq τ] (s : SseServer τ μ) (p : Profile) (k : τ) (a : Nat)
    (room : Room μ) : SseServer τ μ :=
  { s with
    rooms := s.rooms.set a (room.leave p).1
    handlers := Function.update s.handlers k .idle }

inductive SseServer.Step [DecidableEq τ] (p : Profile) :
    SseServer τ μ → τ × HandlerAction μ → SseServer τ μ → Prop where
  | request (request : Request μ) (roomId : String) : s.handlers k = .idle →
      Step p s (k, .request request roomId) (s.move k (.lockingRead request roomId))
  | lockRead : s.handlers k = .lockingRead request roomId → s.lock.tryRead k = some lock' →
      Step p s (k, .advance) { s.move k (.reading request roomId) with lock := lock' }
  | hit : s.handlers k = .reading request roomId → s.rooms.addr roomId = some a →
      Step p s (k, .advance) (s.give k request roomId a)
  | miss : s.handlers k = .reading request roomId → s.rooms.addr roomId = none →
      Step p s (k, .advance)
        { s.move k (.lockingWrite request roomId) with lock := s.lock.release k }
  | lockWrite : s.handlers k = .lockingWrite request roomId → s.lock.tryWrite k = some lock' →
      Step p s (k, .advance) { s.move k (.writing request roomId) with lock := lock' }
  | occupied : s.handlers k = .writing request roomId → s.rooms.addr roomId = some a →
      Step p s (k, .advance) (s.give k request roomId a)
  | vacant : s.handlers k = .writing request roomId → s.rooms.addr roomId = none →
      Step p s (k, .advance) (s.move k (.vacant request roomId))
  | insert : s.handlers k = .vacant request roomId →
      Step p s (k, .advance)
        { s.give k request roomId s.rooms.cells.length with
          rooms := s.rooms.insert roomId Room.empty }
  | got : s.handlers k = .returned .get roomId a → Step p s (k, .advance) (s.move k .idle)
  | subscribe : s.handlers k = .returned (.subscribe req) roomId a →
      s.rooms.cells[a]? = some room →
      room.subscribe p (extractLastEventId req) = (room', some sub) →
      Step p s (k, .advance)
        { s.move k (.streaming roomId a sub []) with rooms := s.rooms.set a room' }
  | subscribeFailed : s.handlers k = .returned (.subscribe req) roomId a →
      s.rooms.cells[a]? = some room →
      room.subscribe p (extractLastEventId req) = (room', none) →
      Step p s (k, .advance) { s.move k .idle with rooms := s.rooms.set a room' }
  | issueIdx {room : Room μ} : s.handlers k = .returned .issueIdx roomId a → s.rooms.cells[a]? = some room →
      Step p s (k, .advance)
        { s.move k .idle with
          rooms := s.rooms.set a room.issueUniqueIdx.1
          issued := s.issued ++ [(roomId, room.issueUniqueIdx.2)] }
  | broadcast {message : μ} : s.handlers k = .returned (.broadcast message) roomId a →
      s.rooms.cells[a]? = some room →
      Step p s (k, .advance)
        { s.move k .idle with
          rooms := s.rooms.set a (room.publish message)
          posted := s.posted ++ [(roomId, message)] }
  | deliver : s.handlers k = .streaming roomId a sub delivered → s.rooms.cells[a]? = some room →
      sub.next p room = .ready eventId message sub' →
      Step p s (k, .next) (s.move k (.streaming roomId a sub' (delivered ++ [(eventId, message)])))
  | crash : s.handlers k = .streaming roomId a sub delivered → s.rooms.cells[a]? = some room →
      sub.next p room = .panicked → Step p s (k, .next) (s.leave p k a room)
  | drop : s.handlers k = .streaming roomId a sub delivered → s.rooms.cells[a]? = some room →
      Step p s (k, .cancel) (s.leave p k a room)
  -- a handler is dropped at one of its awaits; `publish` waits for the messages of the room
  | cancel : (s.handlers k = .lockingRead request roomId ∨
      s.handlers k = .lockingWrite request roomId ∨
      s.handlers k = .returned (.broadcast message) roomId a) →
      Step p s (k, .cancel) (s.move k .idle)

def server (p : Profile) (τ μ : Type) [DecidableEq τ] :
    System (SseServer τ μ) (τ × HandlerAction μ) where
  start s := s = ⟨.empty, .unlocked, fun _ => .idle, [], [], []⟩
  step := SseServer.Step p

/-- The server as one that finds or creates a room in one step. -/
def SseServer.toDb (s : SseServer τ μ) : Db μ := ⟨s.rooms.get?⟩

inductive RoomAction (μ : Type) where
  | create
  | subscribe (lastSeenMsg : Option UInt16)
  | issueIdx
  | broadcast (message : μ)
  | leave

def Db.act (p : Profile) (db : Db μ) (r : String) : RoomAction μ → Db μ
  | .create => db.set r (db.room r)
  | .subscribe lastSeenMsg => db.set r ((db.room r).subscribe p lastSeenMsg).1
  | .issueIdx => db.set r (db.room r).issueUniqueIdx.1
  | .broadcast message => db.broadcast r message
  | .leave => db.set r ((db.room r).leave p).1

/-- The messages that were broadcast to a room, in order. -/
def SseServer.broadcasts (s : SseServer τ μ) (roomId : String) : List μ :=
  (s.posted.filter fun e => e.1 = roomId).map Prod.snd

def Handler.mode : Handler μ → Mode
  | .reading _ _ => .reads
  | .writing _ _ | .vacant _ _ => .writes
  | _ => .free

/-- What a task knows of the rooms where it stands: a vacant entry stays vacant until the task
gives up the write lock, a room once found is the room of its id for ever. -/
def Handler.Sound (rooms : Arena String (Room μ)) : Handler μ → Prop
  | .vacant _ roomId => rooms.addr roomId = none
  | .returned _ roomId a => rooms.addr roomId = some a
  | .streaming roomId a _ delivered => rooms.addr roomId = some a ∧
      ∀ n m, (n, m) ∈ delivered → ∃ room, rooms.cells[a]? = some room ∧
        room.messages[n.toNat]? = some m
  | _ => True

structure SseServer.Inv (s : SseServer τ μ) : Prop where
  guards : s.lock.Tracks (Handler.mode ∘ s.handlers)
  exact : s.rooms.Exact
  sound : ∀ k, (s.handlers k).Sound s.rooms
  returned : ∀ c ∈ s.returned, s.rooms.addr c.1 = some c.2
  stored : ∀ r, (s.toDb.room r).messages = s.broadcasts r

theorem getElem?_of_prefix {l l' : List α} {n : Nat} (h : l <+: l') (hn : l[n]? = some x) :
    l'[n]? = some x := by
  obtain ⟨t, rfl⟩ := h
  exact (List.getElem?_append_left (List.getElem?_eq_some_iff.1 hn).1).trans hn

/-- Ids keep their rooms, and rooms their messages. -/
structure Grows (rooms rooms' : Arena String (Room μ)) : Prop where
  addr : ∀ r a, rooms.addr r = some a → rooms'.addr r = some a
  cells : ∀ (a : Nat) (room : Room μ), rooms.cells[a]? = some room →
    ∃ room', rooms'.cells[a]? = some room' ∧ room.messages <+: room'.messages

theorem Handler.Sound.frame {rooms rooms' : Arena String (Room μ)} {h : Handler μ}
    (hs : h.Sound rooms) (hg : Grows rooms rooms')
    (hvacant : h.mode = .writes → rooms'.addr = rooms.addr) : h.Sound rooms' := by
  cases h with
  | vacant request roomId =>
    change rooms'.addr roomId = none
    rw [hvacant rfl]
    exact hs
  | returned request roomId a => exact hg.addr roomId a hs
  | streaming roomId a sub delivered =>
    obtain ⟨ha, hd⟩ := hs
    apply And.intro (hg.addr roomId a ha)
    intro n m hm
    obtain ⟨room, hroom, hget⟩ := hd n m hm
    obtain ⟨room', hroom', hle⟩ := hg.cells a room hroom
    exact ⟨room', hroom', getElem?_of_prefix hle hget⟩
  | _ => trivial

theorem room_of_addr {s : SseServer τ μ} (ha : s.rooms.addr r = some a)
    (hroom : s.rooms.cells[a]? = some room) : s.toDb.room r = room := by
  have hget : s.rooms.get? r = some room := (Arena.get?_eq ha).trans hroom
  rw [Db.room]
  change (s.rooms.get? r).getD Room.empty = room
  rw [hget, Option.getD_some]

theorem room_of_no_addr {s : SseServer τ μ} (ha : s.rooms.addr r = none) :
    s.toDb.room r = Room.empty := by
  rw [Db.room]
  change (s.rooms.get? r).getD Room.empty = Room.empty
  rw [Arena.get?, ha]
  rfl

theorem SseServer.Inv.knows {s : SseServer τ μ} (hi : s.Inv) (hk : s.handlers k = h) :
    h.Sound s.rooms := hk ▸ hi.sound k

theorem SseServer.Inv.toDb_set {s : SseServer τ μ} (hi : s.Inv) (ha : s.rooms.addr r = some a)
    (room' : Room μ) : (⟨(s.rooms.set a room').get?⟩ : Db μ) = s.toDb.set r room' :=
  congrArg Db.mk (hi.exact.get?_set ha room')

theorem Grows.set {rooms : Arena String (Room μ)} {room room' : Room μ}
    (hroom : rooms.cells[a]? = some room) (hm : room.messages <+: room'.messages) :
    Grows rooms (rooms.set a room') where
  addr _ _ := id
  cells := by
    intro b old hold
    by_cases hb : a = b
    · subst hb
      cases hroom.symm.trans hold
      obtain ⟨hlt, _⟩ := List.getElem?_eq_some_iff.1 hroom
      exact ⟨room', List.getElem?_set_self hlt, hm⟩
    · exact ⟨old, (List.getElem?_set_ne hb).trans hold, List.prefix_rfl⟩

theorem Grows.insert {rooms : Arena String (Room μ)} (hr : rooms.addr r = none) (room : Room μ) :
    Grows rooms (rooms.insert r room) where
  addr _ _ := Arena.addr_insert hr
  cells := by
    intro a old hold
    obtain ⟨hlt, _⟩ := List.getElem?_eq_some_iff.1 hold
    exact ⟨old, (List.getElem?_append_left hlt).trans hold, List.prefix_rfl⟩

theorem filter_posted (messages : List μ) (r r' : String) :
    (((messages.map fun m => (r, m)).filter fun e => e.1 = r').map Prod.snd) =
      if r' = r then messages else [] := by
  split
  · rename_i hr
    subst hr
    rw [List.filter_eq_self.2]
    · rw [List.map_map]
      exact List.map_id messages
    · intro e he
      obtain ⟨m, _, rfl⟩ := List.mem_map.1 he
      exact decide_eq_true rfl
  · rename_i hr
    rw [List.filter_eq_nil_iff.2]
    · rfl
    · intro e he
      obtain ⟨m, _, rfl⟩ := List.mem_map.1 he
      exact fun hd => hr (of_decide_eq_true hd).symm

/-- Each id has one room for all calls, with all that was broadcast to the id and nothing else,
and the streams of the id read that room. -/
structure SseServer.OneRoom (s : SseServer τ μ) : Prop where
  returned : ∀ c ∈ s.returned, ∀ d ∈ s.returned, c.2 = d.2 ↔ c.1 = d.1
  placed : ∀ e ∈ s.posted, ∃ a, s.rooms.addr e.1 = some a
  histories : ∀ (a : Nat) (room : Room μ), s.rooms.cells[a]? = some room →
    ∃ r, (∀ r', s.rooms.addr r' = some a ↔ r' = r) ∧ room.messages = s.broadcasts r
  streams : ∀ k r a sub delivered, s.handlers k = .streaming r a sub delivered →
    s.rooms.addr r = some a ∧
      ∀ n m, (n, m) ∈ delivered → (s.broadcasts r)[n.toNat]? = some m

theorem SseServer.Inv.oneRoom {s : SseServer τ μ} (hi : s.Inv) : s.OneRoom := by
  have hroom : ∀ {r a} {room : Room μ}, s.rooms.addr r = some a → s.rooms.cells[a]? = some room →
      room.messages = s.broadcasts r := by
    intro r a room ha hc
    rw [← hi.stored r, room_of_addr ha hc]
  constructor
  case returned =>
    intro c hc d hd
    have hca := hi.returned c hc
    have hda := hi.returned d hd
    apply Iff.intro
    · intro he
      rw [← he] at hda
      exact hi.exact.inj _ _ _ hca hda
    · intro he
      rw [he, hda] at hca
      exact (Option.some.inj hca).symm
  case placed =>
    intro e he
    cases ha : s.rooms.addr e.1 with
    | some a => exact ⟨a, rfl⟩
    | none =>
      have hempty : s.broadcasts e.1 = [] := by
        rw [← hi.stored e.1, Db.room]
        change ((s.rooms.get? e.1).getD Room.empty).messages = []
        rw [Arena.get?, ha]
        rfl
      have hmem : e.2 ∈ s.broadcasts e.1 :=
        List.mem_map.2 ⟨e, List.mem_filter.2 ⟨he, decide_eq_true rfl⟩, rfl⟩
      rw [hempty] at hmem
      cases hmem
  case histories =>
    intro a room hc
    obtain ⟨r, ha⟩ := hi.exact.owned a (List.getElem?_eq_some_iff.1 hc).1
    refine ⟨r, ?_, hroom ha hc⟩
    intro r'
    apply Iff.intro
    · intro ha'
      exact hi.exact.inj r' r a ha' ha
    · intro he
      rw [he, ha]
  case streams =>
    intro k r a sub delivered hk
    obtain ⟨ha, hd⟩ := hi.knows hk
    apply And.intro ha
    intro n m hm
    obtain ⟨room, hc, hget⟩ := hd n m hm
    rw [← hroom ha hc]
    exact hget

section
variable [DecidableEq τ] {s : SseServer τ μ}

/-- A task moves and leaves the rooms as they are. -/
theorem SseServer.Inv.move (hi : s.Inv) {h : Handler μ}
    (hlock : lock'.Tracks (Function.update (Handler.mode ∘ s.handlers) k h.mode))
    (hh : h.Sound s.rooms) (hr : ∀ c ∈ returned', s.rooms.addr c.1 = some c.2) :
    SseServer.Inv { s.move k h with lock := lock', returned := returned' } where
  guards := by
    change lock'.Tracks (Handler.mode ∘ Function.update s.handlers k h)
    rw [Function.comp_update]
    exact hlock
  exact := hi.exact
  sound := by
    apply (Function.forall_update_iff s.handlers fun _ h => h.Sound s.rooms).2
    exact ⟨hh, fun j _ => hi.sound j⟩
  returned := hr
  stored := hi.stored

theorem SseServer.Inv.stay (hi : s.Inv) (hk : s.handlers k = h₀) {h : Handler μ}
    (hm : h₀.mode = h.mode) (hh : h.Sound s.rooms) : (s.move k h).Inv := by
  apply hi.move _ hh hi.returned
  apply hi.guards.keep
  rw [Function.comp_apply, hk, hm]

theorem SseServer.Inv.give (hi : s.Inv) (k : τ) (request : Request μ)
    (ha : s.rooms.addr roomId = some a) : (s.give k request roomId a).Inv := by
  apply hi.move (h := .returned request roomId a) (hi.guards.release k) ha
  intro c hc
  obtain hc | hc := List.mem_append.1 hc
  · exact hi.returned c hc
  · rw [List.mem_singleton.1 hc]
    exact ha

/-- A task with a room adds to its messages what it broadcasts, if anything. -/
theorem SseServer.Inv.set (hi : s.Inv) (hk : s.handlers k = h₀) (hfree : h₀.mode = .free)
    (ha : s.rooms.addr r = some a) (hroom : s.rooms.cells[a]? = some room)
    (hm : room'.messages = room.messages ++ messages) {h : Handler μ} (hfree' : h.mode = .free)
    (hh : h.Sound (s.rooms.set a room')) (hp : posted' = s.posted ++ messages.map (r, ·))
    (issued' : List (String × UInt16)) :
    SseServer.Inv { s.move k h with
      rooms := s.rooms.set a room'
      posted := posted'
      issued := issued' } := by
  subst hp
  have hgrows : Grows s.rooms (s.rooms.set a room') :=
    .set hroom (by rw [hm]; exact List.prefix_append _ _)
  constructor
  case guards =>
    change s.lock.Tracks (Handler.mode ∘ Function.update s.handlers k h)
    rw [Function.comp_update, hfree']
    apply hi.guards.keep
    rw [Function.comp_apply, hk, hfree]
  case exact => exact hi.exact.set a room'
  case sound =>
    apply (Function.forall_update_iff s.handlers fun _ h => h.Sound (s.rooms.set a room')).2
    exact ⟨hh, fun j _ => (hi.sound j).frame hgrows fun _ => rfl⟩
  case returned => exact hi.returned
  case stored =>
    intro r'
    change (Db.room ⟨(s.rooms.set a room').get?⟩ r').messages =
      ((s.posted ++ messages.map (r, ·)).filter fun e => e.1 = r').map Prod.snd
    rw [hi.toDb_set ha room', List.filter_append, List.map_append, filter_posted]
    change _ = s.broadcasts r' ++ _
    rw [← hi.stored r']
    split
    · rename_i hr
      rw [hr, Db.room_set, hm, room_of_addr ha hroom]
    · rename_i hr
      rw [Db.room_set_of_ne _ _ hr, List.append_nil]

/-- Whoever has seen a vacant entry holds the write lock, so no other task has seen one. -/
theorem SseServer.Inv.insert (hi : s.Inv) (hk : s.handlers k = .vacant request roomId) :
    SseServer.Inv { s.give k request roomId s.rooms.cells.length with
      rooms := s.rooms.insert roomId Room.empty } := by
  have hnone : s.rooms.addr roomId = none := hi.knows hk
  have hgrows : Grows s.rooms (s.rooms.insert roomId Room.empty) := .insert hnone Room.empty
  constructor
  case guards =>
    have hg := hi.guards.release k
    change (s.lock.release k).Tracks (Handler.mode ∘ Function.update s.handlers k _)
    rw [Function.comp_update]
    exact hg
  case exact => exact hi.exact.insert hnone _
  case sound =>
    apply (Function.forall_update_iff s.handlers fun _ h =>
      h.Sound (s.rooms.insert roomId Room.empty)).2
    apply And.intro (Arena.addr_insert_self ..)
    intro j hj
    apply (hi.sound j).frame hgrows
    intro hw
    have hwriter : s.lock.writer = some k := (hi.guards.writer k).2 (by
      rw [Function.comp_apply, hk]
      rfl)
    have hwriter' : s.lock.writer = some j := (hi.guards.writer j).2 hw
    exact absurd (Option.some.inj (hwriter'.symm.trans hwriter)) hj
  case returned =>
    intro c hc
    obtain hc | hc := List.mem_append.1 hc
    · exact hgrows.addr _ _ (hi.returned c hc)
    · rw [List.mem_singleton.1 hc]
      exact Arena.addr_insert_self ..
  case stored =>
    intro r
    have hdb : (⟨(s.rooms.insert roomId Room.empty).get?⟩ : Db μ) =
        s.toDb.set roomId Room.empty := congrArg Db.mk (hi.exact.get?_insert roomId Room.empty)
    change (Db.room ⟨(s.rooms.insert roomId Room.empty).get?⟩ r).messages = s.broadcasts r
    rw [hdb, ← hi.stored r]
    by_cases hr : r = roomId
    · subst hr
      rw [Db.room_set, Db.room]
      change _ = ((s.rooms.get? r).getD Room.empty).messages
      rw [Arena.get?, hnone]
      rfl
    · rw [Db.room_set_of_ne _ _ hr]

theorem SseServer.Inv.leave (hi : s.Inv) (hk : s.handlers k = .streaming r a sub delivered)
    (hroom : s.rooms.cells[a]? = some room) : (s.leave p k a room).Inv := by
  have hm : (room.leave p).1.messages = room.messages ++ [] := (List.append_nil _).symm
  exact hi.set (h := .idle) hk rfl (hi.knows hk).1 hroom hm rfl trivial
    (List.append_nil _).symm s.issued

theorem SseServer.Step.inv {t : SseServer τ μ} (hs : Step p s x t) (hi : s.Inv) : t.Inv := by
  have hp : s.posted = s.posted ++ [] := (List.append_nil _).symm
  cases hs with
  | request request roomId hk => exact hi.stay hk rfl trivial
  | lockRead hk hl => exact hi.move (hi.guards.tryRead hl) trivial hi.returned
  | hit hk ha => exact hi.give _ _ ha
  | miss hk ha => exact hi.move (hi.guards.release _) trivial hi.returned
  | lockWrite hk hl => exact hi.move (hi.guards.tryWrite hl) trivial hi.returned
  | occupied hk ha => exact hi.give _ _ ha
  | vacant hk ha => exact hi.stay hk rfl ha
  | insert hk => exact hi.insert hk
  | got hk => exact hi.stay hk rfl trivial
  | subscribe hk hroom hsub =>
    have hm := congrArg (fun x => x.1.messages) hsub
    have ha := hi.knows hk
    rw [← List.append_nil (Room.messages _)] at hm
    exact hi.set (h := .streaming _ _ _ []) hk rfl ha hroom hm.symm rfl ⟨ha, nofun⟩ hp _
  | subscribeFailed hk hroom hsub =>
    have hm := congrArg (fun x => x.1.messages) hsub
    rw [← List.append_nil (Room.messages _)] at hm
    exact hi.set (h := .idle) hk rfl (hi.knows hk) hroom hm.symm rfl trivial hp _
  | issueIdx hk hroom =>
    rename_i room
    have hm : room.issueUniqueIdx.1.messages = room.messages ++ [] := (List.append_nil _).symm
    exact hi.set (h := .idle) hk rfl (hi.knows hk) hroom hm rfl trivial hp _
  | broadcast hk hroom =>
    rename_i room message
    have hm : (room.publish message).messages = room.messages ++ [message] := rfl
    exact hi.set (h := .idle) hk rfl (hi.knows hk) hroom hm rfl trivial rfl _
  | deliver hk hroom hnext =>
    rename_i sub' eventId sub room delivered message
    obtain ⟨ha, hd⟩ := hi.knows hk
    obtain ⟨_, hget, _⟩ := Subscription.next_ready hnext
    apply hi.stay (h := .streaming _ _ sub' (delivered ++ [(eventId, message)])) hk rfl
    apply And.intro ha
    intro n m hm
    obtain hm | hm := List.mem_append.1 hm
    · exact hd n m hm
    · cases List.mem_singleton.1 hm
      exact ⟨_, hroom, hget⟩
  | crash hk hroom _ => exact hi.leave hk hroom
  | drop hk hroom => exact hi.leave hk hroom
  | cancel hk =>
    obtain hk | hk | hk := hk
    · exact hi.stay hk rfl trivial
    · exact hi.stay hk rfl trivial
    · exact hi.stay hk rfl trivial

theorem SseServer.inv {s : SseServer τ μ} (h : (server p τ μ).Reachable s) : s.Inv := by
  apply h.invariant
  · intro s h0
    cases h0
    exact ⟨.unlocked fun _ => rfl, .empty, fun _ => trivial, nofun, fun _ => rfl⟩
  · intro s x t _ hi hs
    exact SseServer.Step.inv hs hi

theorem SseServer.Inv.leave_act (hi : s.Inv) (hk : s.handlers k = .streaming r a sub delivered)
    (hroom : s.rooms.cells[a]? = some room) :
    ∃ r action, (s.leave p k a room).toDb = s.toDb.act p r action := by
  refine ⟨r, .leave, ?_⟩
  rw [Db.act, room_of_addr (hi.knows hk).1 hroom]
  exact hi.toDb_set (hi.knows hk).1 _

/-- What a step does to the rooms is nothing or one action on the room of its id. -/
theorem SseServer.Step.act {t : SseServer τ μ} (hs : Step p s x t) (hi : s.Inv) :
    t.toDb = s.toDb ∨ ∃ r action, t.toDb = s.toDb.act p r action := by
  cases hs with
  | insert hk =>
    rename_i k roomId request
    refine .inr ⟨roomId, .create, ?_⟩
    rw [Db.act, room_of_no_addr (hi.knows hk)]
    exact congrArg Db.mk (hi.exact.get?_insert roomId Room.empty)
  | subscribe hk hroom hsub =>
    rename_i a sub k roomId req room room'
    refine .inr ⟨roomId, .subscribe (extractLastEventId req), ?_⟩
    rw [Db.act, room_of_addr (hi.knows hk) hroom, hsub]
    exact hi.toDb_set (hi.knows hk) room'
  | subscribeFailed hk hroom hsub =>
    rename_i a k req roomId room room'
    refine .inr ⟨roomId, .subscribe (extractLastEventId req), ?_⟩
    rw [Db.act, room_of_addr (hi.knows hk) hroom, hsub]
    exact hi.toDb_set (hi.knows hk) room'
  | issueIdx hk hroom =>
    rename_i a k roomId room
    refine .inr ⟨roomId, .issueIdx, ?_⟩
    rw [Db.act, room_of_addr (hi.knows hk) hroom]
    exact hi.toDb_set (hi.knows hk) _
  | broadcast hk hroom =>
    rename_i a k roomId room message
    refine .inr ⟨roomId, .broadcast message, ?_⟩
    rw [Db.act, Db.broadcast, room_of_addr (hi.knows hk) hroom]
    exact hi.toDb_set (hi.knows hk) _
  | crash hk hroom _ => exact .inr (hi.leave_act hk hroom)
  | drop hk hroom => exact .inr (hi.leave_act hk hroom)
  | _ => exact .inl rfl

theorem SseServer.Step.addr {t : SseServer τ μ} (hs : Step p s x t) (hi : s.Inv)
    (ha : s.rooms.addr r = some a) : t.rooms.addr r = some a := by
  cases hs with
  | insert hk =>
    exact Arena.addr_insert (hi.knows hk) ha
  | _ => exact ha

/-- There is one room for each id, and it is never replaced. -/
theorem one_room_per_id (p : Profile) (τ μ : Type) [DecidableEq τ] :
    (∀ s, (server p τ μ).Reachable s → s.OneRoom) ∧
    ∀ s as t, (server p τ μ).Reachable s → (server p τ μ).Run s as t →
      ∀ r a, s.rooms.addr r = some a → t.rooms.addr r = some a := by
  apply And.intro
  · intro s h
    exact (SseServer.inv h).oneRoom
  · intro s as t h hr r a ha
    induction hr with
    | refl => exact ha
    | head hs hr ih => exact ih (h.next hs) (SseServer.Step.addr hs (SseServer.inv h) ha)

end

end WalletMpc.Sse
