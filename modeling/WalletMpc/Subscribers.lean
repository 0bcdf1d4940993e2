import WalletMpc.Systems
import WalletMpc.Room

namespace WalletMpc.Sse
open Systems
set_option autoImplicit true

/-- A room with the subscriptions to it that are alive, and whether a `u16` addition or
subtraction has left its range so far: those are the ones that panic in the dev profile. -/
structure Crowd (μ : Type) where
  room : Room μ
  alive : List Subscription
  overflowed : Bool

inductive CrowdAction (μ : Type) where
  | publish (message : μ)
  | subscribe (req : HttpRequest)
  | next (i : Nat)
  | drop (i : Nat)

def Poll.isPanicked : Poll μ → Bool
  | .panicked => true
  | _ => false

inductive Crowd.Step (p : Profile) : Crowd μ → CrowdAction μ → Crowd μ → Prop where
  | publish (message : μ) :
      Step p s (.publish message) { s with room := s.room.publish message }
  | subscribe : s.room.subscribe p (extractLastEventId req) = (room', some sub) →
      Step p s (.subscribe req) ⟨room', s.alive ++ [sub],
        s.overflowed || (s.room.subscribe .dev (extractLastEventId req)).2.isNone⟩
  | subscribePanics : s.room.subscribe p (extractLastEventId req) = (room', none) →
      Step p s (.subscribe req) ⟨room', s.alive,
        s.overflowed || (s.room.subscribe .dev (extractLastEventId req)).2.isNone⟩
  | deliver : s.alive[i]? = some sub → sub.next p s.room = .ready eventId msg sub' →
      Step p s (.next i) ⟨s.room, s.alive.set i sub',
        s.overflowed || (sub.next .dev s.room).isPanicked⟩
  | wait : s.alive[i]? = some sub → sub.next p s.room = .pending → Step p s (.next i) s
  -- unwinding drops the subscription
  | nextPanics : s.alive[i]? = some sub → sub.next p s.room = .panicked →
      Step p s (.next i) ⟨(s.room.leave p).1, s.alive.eraseIdx i, true⟩
  | drop : s.alive[i]? = some sub →
      Step p s (.drop i) ⟨(s.room.leave p).1, s.alive.eraseIdx i,
        s.overflowed || (s.room.leave .dev).2.isNone⟩

def Crowd.empty : Crowd μ := ⟨.empty, [], false⟩

def crowd (p : Profile) (μ : Type) : System (Crowd μ) (CrowdAction μ) where
  start s := s = .empty
  step := Crowd.Step p

def Crowd.Small (s : Crowd μ) : Prop := s.room.messages.length < 65536 ∧ s.alive.length < 65536

/-- The counter counts the subscriptions alive, and nothing has overflowed. -/
structure Crowd.Sound (s : Crowd μ) : Prop where
  count : s.room.subscribers.toNat = s.alive.length
  overflowed : s.overflowed = false

/-- What a call of `subscribe` has to avoid: the last event id there is, and a full counter. -/
def Crowd.Safe (s : Crowd μ) : CrowdAction μ → Prop
  | .subscribe req => extractLastEventId req ≠ some 65535 ∧ s.alive.length + 1 < 65536
  | _ => True

theorem addU16_dev_isNone {a : UInt16} : (addU16 .dev a 1).isNone = false ↔ a.toNat < 65535 := by
  rw [addU16, UInt16.toNat_one]
  split
  · next h => exact iff_of_true rfl (by omega)
  · next h => exact iff_of_false Bool.noConfusion (by omega)

theorem firstEvent_dev_isNone {lastSeen : Option UInt16} :
    (firstEvent .dev lastSeen).isNone = false ↔ lastSeen ≠ some 65535 := by
  cases lastSeen with
  | none => exact iff_of_true rfl fun h => by cases h
  | some i =>
    rw [firstEvent, addU16_dev_isNone, Ne, Option.some.injEq, ← UInt16.toNat_inj]
    have := i.toNat_lt
    show i.toNat < 65535 ↔ ¬ i.toNat = 65535
    omega

/-- Both additions of `subscribe` stay in range, or the dev profile does not get through. -/
theorem Room.subscribe_dev_isNone {room : Room μ} :
    (room.subscribe .dev lastSeen).2.isNone = false ↔
      room.subscribers.toNat < 65535 ∧ lastSeen ≠ some 65535 := by
  rw [← addU16_dev_isNone, ← firstEvent_dev_isNone, subscribe]
  cases addU16 .dev room.subscribers 1 with
  | none => exact iff_of_false Bool.noConfusion fun h => Bool.noConfusion h.1
  | some n => cases firstEvent .dev lastSeen <;> simp

/-- A profile that gets through no addition is the dev profile. -/
theorem Room.subscribe_dev_none {room : Room μ} (h : (room.subscribe p lastSeen).2 = none) :
    (room.subscribe .dev lastSeen).2.isNone = true := by
  cases p with
  | dev =>
    rw [h]
    rfl
  | release =>
    cases lastSeen with
    | none => cases h
    | some i => cases h

theorem Subscription.not_panicked {sub : Subscription} {room : Room μ}
    (hl : room.messages.length < 65536) (p : Profile) :
    (sub.next p room).isPanicked = false := by
  cases hm : room.messages[sub.nextEvent.toNat]? with
  | none => simp only [next, hm, Poll.isPanicked]
  | some msg =>
    have hlt := (List.getElem?_eq_some_iff.1 hm).1
    rw [next_of_lt hm (by omega)]
    rfl

theorem Subscription.next_ne_panicked {sub : Subscription} {room : Room μ}
    (hl : room.messages.length < 65536) : sub.next p room ≠ .panicked := by
  intro h
  have hnot := sub.not_panicked hl p
  rw [h] at hnot
  cases hnot

theorem Room.leave_dev_isNone {room : Room μ} :
    (room.leave .dev).2.isNone = false ↔ 0 < room.subscribers.toNat := by
  rw [leave, subU16]
  split
  · next h =>
    rw [UInt16.le_iff_toNat_le, UInt16.toNat_one] at h
    exact iff_of_true rfl h
  · next h =>
    rw [UInt16.le_iff_toNat_le, UInt16.toNat_one] at h
    exact iff_of_false Bool.noConfusion h

theorem toNat_sub_one {a : UInt16} (h : 0 < a.toNat) : (a - 1).toNat = a.toNat - 1 := by
  have hle : (1 : UInt16) ≤ a := by
    rw [UInt16.le_iff_toNat_le, UInt16.toNat_one]
    exact h
  rw [UInt16.toNat_sub_of_le _ _ hle, UInt16.toNat_one]

theorem Crowd.Step.overflowed_mono (h : Crowd.Step p s a t) (ht : t.overflowed = false) :
    s.overflowed = false := by
  cases h with
  | publish => exact ht
  | subscribe => exact (Bool.or_eq_false_iff.1 ht).1
  | subscribePanics => exact (Bool.or_eq_false_iff.1 ht).1
  | deliver => exact (Bool.or_eq_false_iff.1 ht).1
  | wait => exact ht
  | nextPanics => cases ht
  | drop => exact (Bool.or_eq_false_iff.1 ht).1

/-- A step overflows nothing just when it is safe. -/
theorem Crowd.Step.safe_iff (h : Crowd.Step p s a t) (hs : s.Sound) (hsmall : s.Small) :
    t.overflowed = false ↔ s.Safe a := by
  have hsubscribe : ∀ req, (s.overflowed ||
      (s.room.subscribe .dev (extractLastEventId req)).2.isNone) = false ↔
        s.Safe (.subscribe req) := by
    intro req
    rw [hs.overflowed, Bool.false_or, Room.subscribe_dev_isNone, hs.count, and_comm]
    exact and_congr_right fun _ => by omega
  cases h with
  | publish => exact iff_of_true hs.overflowed trivial
  | subscribe => exact hsubscribe _
  | subscribePanics => exact hsubscribe _
  | deliver hi hnext =>
    refine iff_of_true ?_ trivial
    rw [hs.overflowed, Bool.false_or]
    exact Subscription.not_panicked hsmall.1 .dev
  | wait => exact iff_of_true hs.overflowed trivial
  | nextPanics hi hnext =>
    exact absurd hnext (Subscription.next_ne_panicked hsmall.1)
  | drop hi =>
    have hpos := Nat.zero_lt_of_lt (List.getElem?_eq_some_iff.1 hi).1
    refine iff_of_true ?_ trivial
    rw [hs.overflowed, Bool.false_or, Room.leave_dev_isNone, hs.count]
    exact hpos

/-- A safe step keeps the count. -/
theorem Crowd.Step.sound (h : Crowd.Step p s a t) (hs : s.Sound) (hsmall : s.Small)
    (hsafe : s.Safe a) : t.Sound := by
  refine ⟨?_, (h.safe_iff hs hsmall).2 hsafe⟩
  cases h with
  | publish => exact hs.count
  | subscribe hsub =>
    obtain ⟨-, hfull⟩ := hsafe
    have hroom := congrArg (fun x => x.1.subscribers) hsub
    show _ = (s.alive ++ [_]).length
    rw [← hroom, List.length_append, List.length_singleton, ← hs.count]
    exact toNat_add_one (by rw [hs.count]; omega)
  | subscribePanics hsub =>
    have hover := Room.subscribe_dev_none (congrArg Prod.snd hsub)
    have hrange := Room.subscribe_dev_isNone.2 ⟨by rw [hs.count]; have := hsafe.2; omega, hsafe.1⟩
    rw [hover] at hrange
    cases hrange
  | deliver => rw [List.length_set]; exact hs.count
  | wait => exact hs.count
  | nextPanics hi hnext =>
    exact absurd hnext (Subscription.next_ne_panicked hsmall.1)
  | drop hi =>
    have hlt := (List.getElem?_eq_some_iff.1 hi).1
    rw [List.length_eraseIdx_of_lt hlt, ← hs.count]
    exact toNat_sub_one (by rw [hs.count]; omega)

theorem Crowd.overflowed_mono_run (h : ((crowd p μ).within Crowd.Small).Run s as t)
    (ht : t.overflowed = false) : s.overflowed = false := by
  induction h with
  | refl => exact ht
  | head hst hr ih => exact hst.1.overflowed_mono (ih ht)

theorem Crowd.sound_of_safe (h : (((crowd p μ).within Crowd.Small).restrict Crowd.Safe).Run s as t)
    (hs : s.Sound) (hsmall : s.Small) : t.Sound := by
  induction h with
  | refl => exact hs
  | head hst hr ih => exact ih (hst.2.1.sound hs hsmall hst.1) hst.2.2

theorem Crowd.safe_of_sound (h : ((crowd p μ).within Crowd.Small).Run s as t) (hs : s.Sound)
    (hsmall : s.Small) (ht : t.Sound) :
    (((crowd p μ).within Crowd.Small).restrict Crowd.Safe).Run s as t := by
  induction h with
  | refl => exact .refl _
  | head hst hr ih =>
    have hsafe := (hst.1.safe_iff hs hsmall).1 (overflowed_mono_run hr ht.overflowed)
    exact .head ⟨hsafe, hst⟩ (ih (hst.1.sound hs hsmall hsafe) hst.2 ht)

theorem Crowd.sound_empty : (Crowd.empty : Crowd μ).Sound := ⟨rfl, rfl⟩

theorem Crowd.small_empty : (Crowd.empty : Crowd μ).Small := by
  constructor <;> exact Nat.zero_lt_succ _

/-- The count is exact and nothing overflows along a run just when all its calls of
`subscribe` avoid the last event id and a full counter. -/
theorem subscribers_exact_iff (p : Profile) {s : Crowd μ}
    (h : ((crowd p μ).within Crowd.Small).Run .empty as s) :
    s.Sound ↔ (((crowd p μ).within Crowd.Small).restrict Crowd.Safe).Run .empty as s :=
  ⟨Crowd.safe_of_sound h Crowd.sound_empty Crowd.small_empty,
    fun hsafe => Crowd.sound_of_safe hsafe Crowd.sound_empty Crowd.small_empty⟩

theorem extractLastEventId_max : extractLastEventId ⟨some (toString 65535)⟩ = some 65535 :=
  extractLastEventId_toString (by decide)

def maxRequest : HttpRequest := ⟨some (toString 65535)⟩

theorem subscribe_max_dev :
    (crowd .dev String).step .empty (.subscribe maxRequest) ⟨⟨[], 1, 0⟩, [], true⟩ := by
  have hsub : Room.empty.subscribe .dev (extractLastEventId maxRequest) =
      ((⟨[], 1, 0⟩ : Room String), none) := by
    rw [maxRequest, extractLastEventId_max]
    rfl
  have hstep := Crowd.Step.subscribePanics (s := .empty) hsub
  rw [show (Crowd.empty : Crowd String).room = Room.empty from rfl, hsub] at hstep
  exact hstep

theorem subscribe_max_release :
    (crowd .release String).step .empty (.subscribe maxRequest) ⟨⟨[], 1, 0⟩, [⟨0⟩], true⟩ := by
  have hsub : Room.empty.subscribe .release (extractLastEventId maxRequest) =
      ((⟨[], 1, 0⟩ : Room String), some ⟨0⟩) := by
    rw [maxRequest, extractLastEventId_max]
    rfl
  have hdev : (Room.empty.subscribe .dev (extractLastEventId maxRequest) :
      Room String × Option Subscription).2 = none := by
    rw [maxRequest, extractLastEventId_max]
    rfl
  have hstep := Crowd.Step.subscribe (s := .empty) hsub
  rw [show (Crowd.empty : Crowd String).room = Room.empty from rfl, hdev] at hstep
  exact hstep

/-- One request with the header `Last-Event-ID: 65535` on a new room: the dev profile counts a
subscription that does not exist, release starts it again from event 0. -/
theorem max_last_event_id_breaks_count :
    (∃ s, ((crowd .dev String).within Crowd.Small).Run .empty [.subscribe maxRequest] s ∧
      s.room.subscribers = 1 ∧ s.alive = [] ∧ ¬ s.Sound) ∧
    ∃ s, ((crowd .release String).within Crowd.Small).Run .empty [.subscribe maxRequest] s ∧
      s.alive = [⟨0⟩] ∧ ¬ s.Sound := by
  apply And.intro
  · refine ⟨_, .single ⟨subscribe_max_dev, by decide, by decide⟩, rfl, rfl, fun h => ?_⟩
    cases h.overflowed
  · refine ⟨_, .single ⟨subscribe_max_release, by decide, by decide⟩, rfl, fun h => ?_⟩
    cases h.overflowed

/-- Two subscriptions, an event that the first one reads, and the end of the second. -/
theorem subscribers_exact_two :
    (⟨⟨["hello"], 1, 0⟩, [⟨1⟩], false⟩ : Crowd String).Sound := by
  have hsafe (s : Crowd String) (hs : s.alive.length + 1 < 65536) : s.Safe (.subscribe ⟨none⟩) :=
    ⟨Option.some_ne_none _ ∘ Eq.symm, hs⟩
  have h1 : ((crowd .dev String).within Crowd.Small).step .empty (.subscribe ⟨none⟩)
      ⟨⟨[], 1, 0⟩, [⟨0⟩], false⟩ := ⟨.subscribe (s := .empty) rfl, by decide, by decide⟩
  have h2 : ((crowd .dev String).within Crowd.Small).step ⟨⟨[], 1, 0⟩, [⟨0⟩], false⟩
      (.subscribe ⟨none⟩) ⟨⟨[], 2, 0⟩, [⟨0⟩, ⟨0⟩], false⟩ :=
    ⟨.subscribe (s := ⟨⟨[], 1, 0⟩, [⟨0⟩], false⟩) rfl, by decide, by decide⟩
  have h3 : ((crowd .dev String).within Crowd.Small).step ⟨⟨[], 2, 0⟩, [⟨0⟩, ⟨0⟩], false⟩
      (.publish "hello") ⟨⟨["hello"], 2, 0⟩, [⟨0⟩, ⟨0⟩], false⟩ :=
    ⟨.publish "hello", by decide, by decide⟩
  have h4 : ((crowd .dev String).within Crowd.Small).step ⟨⟨["hello"], 2, 0⟩, [⟨0⟩, ⟨0⟩], false⟩
      (.next 0) ⟨⟨["hello"], 2, 0⟩, [⟨1⟩, ⟨0⟩], false⟩ :=
    have hread : (⟨0⟩ : Subscription).next .dev ⟨["hello"], 2, 0⟩ = .ready 0 "hello" ⟨1⟩ := rfl
    ⟨.deliver (s := ⟨⟨["hello"], 2, 0⟩, [⟨0⟩, ⟨0⟩], false⟩) rfl hread, by decide, by decide⟩
  have h5 : ((crowd .dev String).within Crowd.Small).step ⟨⟨["hello"], 2, 0⟩, [⟨1⟩, ⟨0⟩], false⟩
      (.drop 1) ⟨⟨["hello"], 1, 0⟩, [⟨1⟩], false⟩ :=
    have hsecond : ([⟨1⟩, ⟨0⟩] : List Subscription)[1]? = some ⟨0⟩ := rfl
    ⟨.drop (s := ⟨⟨["hello"], 2, 0⟩, [⟨1⟩, ⟨0⟩], false⟩) hsecond, by decide, by decide⟩
  have hrun := System.Run.head h1 <| .head h2 <| .head h3 <| .head h4 <| .single h5
  exact (subscribers_exact_iff .dev hrun).2 <| .head ⟨hsafe _ (by decide), h1⟩ <|
    .head ⟨hsafe _ (by decide), h2⟩ <| .head ⟨trivial, h3⟩ <| .head ⟨trivial, h4⟩ <|
      .single ⟨trivial, h5⟩

end WalletMpc.Sse
