import WalletMpc.Network
import WalletMpc.Proto

namespace WalletMpc.Participant
open Systems Sse Proto
set_option autoImplicit true

/-- A request in service: what names its room, its execution, and the index that the
participant takes from its key share. -/
structure Serving where
  txId : Int32
  executionId : Bytes
  index : UInt16

/-- The room of `Signing::new`. -/
def signingRoom (id : Int32) : String := "signing_" ++ toString id.toInt

theorem signingRoom_inj : signingRoom m = signingRoom n ↔ m = n := by
  rw [signingRoom, signingRoom, Decimals.signed_inj, Int32.toInt_inj]

def Joins (request : σ → Serving) (_ : Network σ M) : NetworkAction σ M → Prop
  | .join a room index => room = signingRoom (request a).txId ∧ index = (request a).index
  | _ => True

/-- Participants serving `sign_tx`: one call of `join_room` for each request. -/
def serving [DecidableEq σ] (p : Profile) (serde : Serde M) (request : σ → Serving) :
    System (Network σ M) (NetworkAction σ M) :=
  (network σ p serde).restrict (Joins request)

/-- Whatever the stream of a session yielded was sent under the execution id of that session. -/
def Network.Isolated (request : σ → Serving) (s : Network σ M) : Prop :=
  ∀ a x, s.sessions a = some x → ∀ k item, (k, item) ∈ x.yielded →
    ∃ e, (s.history x.room)[k.toNat]? = some e ∧
      (request e.session).executionId = (request a).executionId

theorem Network.Step.session [DecidableEq σ] {serde : Serde M} {s t : Network σ M}
    (h : Step p serde s act t) (hb : t.sessions b = some y) :
    (∃ x, s.sessions b = some x ∧ x.room = y.room ∧ x.index = y.index) ∨
      act = .join b y.room y.index := by
  have hupd : ∀ {a x x'}, Function.update s.sessions a (some x') b = some y →
      s.sessions a = some x → x'.room = x.room → x'.index = x.index →
      (∃ x, s.sessions b = some x ∧ x.room = y.room ∧ x.index = y.index) ∨
        act = .join b y.room y.index := by
    intro a x x' hy ha hr hi
    by_cases hba : b = a
    · subst hba
      rw [Function.update_self] at hy
      cases hy
      exact .inl ⟨x, ha, hr.symm, hi.symm⟩
    · rw [Function.update_of_ne hba] at hy
      exact .inl ⟨y, hy, rfl, rfl⟩
  cases h with
  | join room index ha hsub =>
    rename_i room' sub a
    change Function.update s.sessions a _ b = some y at hb
    by_cases hba : b = a
    · subst hba
      rw [Function.update_self] at hb
      cases hb
      exact .inr rfl
    · rw [Function.update_of_ne hba] at hb
      exact .inl ⟨y, hb, rfl, rfl⟩
  | joinFailed => exact .inl ⟨y, hb, rfl, rfl⟩
  | send message ha hx hout => exact hupd hb ha rfl rfl
  | post ha hx => exact hupd hb ha rfl rfl
  | next ha hstream hnext => exact hupd hb ha rfl rfl
  | crash ha hstream hnext => exact hupd hb ha rfl rfl
  | disconnect ha hstream => exact hupd hb ha rfl rfl

section
variable [DecidableEq σ]

theorem serving_next {serde : Serde M} {s t : Network σ M}
    (h : (serving p serde request).Reachable s) (hs : Network.Step p serde s x t)
    (hj : Joins request s x) : (serving p serde request).Reachable t :=
  h.next ⟨hj, hs⟩

theorem serving_session {serde : Serde M} {s : Network σ M}
    (h : (serving p serde request).Reachable s) :
    ∀ a x, s.sessions a = some x →
      x.room = signingRoom (request a).txId ∧ x.index = (request a).index := by
  induction h with
  | start h =>
    subst h
    exact nofun
  | next hr hst ih =>
    obtain ⟨hj, hs⟩ := hst
    intro a y hy
    rcases Network.Step.session hs hy with ⟨x, hx, hroom, hindex⟩ | hact
    · obtain ⟨hxr, hxi⟩ := ih a x hx
      exact ⟨hroom.symm.trans hxr, hindex.symm.trans hxi⟩
    · subst hact
      exact hj

theorem isolated_of_separate {serde : Serde M} {s : Network σ M}
    (h : (serving p serde request).Reachable s)
    (hq : ∀ a b, (request a).txId = (request b).txId → (request a).index ≠ (request b).index →
      (request a).executionId = (request b).executionId) : s.Isolated request := by
  have hi := Network.inv h.of_restrict
  have hserve := serving_session h
  intro a x ha k item hk
  obtain ⟨e, m, he, hm, _⟩ := (hi.sound a x ha).yielded k item hk
  obtain ⟨y, hy, hroom, hindex⟩ := hi.posted x.room e (List.mem_of_getElem? he)
  obtain ⟨hxr, hxi⟩ := hserve a x ha
  obtain ⟨hyr, hyi⟩ := hserve e.session y hy
  refine ⟨e, he, hq e.session a ?_ ?_⟩
  · apply signingRoom_inj.1
    rw [← hyr, ← hxr, hroom]
  · rw [← hyi, ← hxi, hindex]
    intro hs
    rw [Outgoing.arrives, if_pos hs] at hm
    cases hm

end

/-- One session posts a broadcast; another one that joins the room, then or later, reads it. -/
theorem serving_leak (p : Profile) {serde : Serde M} {request : Nat → Serving}
    (htx : (request 0).txId = (request 1).txId) (hi : (request 1).index ≠ (request 0).index)
    (hout : outgoing serde (request 1).index ⟨.allParties, m⟩ = .ok text) :
    ∃ (s : Network Nat M) (x : Session M) (e : Posted Nat M) (item : _),
      (serving p serde request).Reachable s ∧ s.sessions 0 = some x ∧ (0, item) ∈ x.yielded ∧
        (s.history x.room)[0]? = some e ∧ e.session = 1 := by
  have hfirst : Room.subscribe p (Room.empty : Room String) none = (⟨[], 1, 0⟩, some ⟨0⟩) := by
    cases p with
    | dev => rfl
    | release => rfl
  have hsecond : Room.subscribe p ⟨[text], 1, 0⟩ none = (⟨[text], 2, 0⟩, some ⟨0⟩) := by
    cases p with
    | dev => rfl
    | release => rfl
  have hnext : Subscription.next p ⟨[text], 2, 0⟩ ⟨0⟩ = .ready 0 text ⟨1⟩ := by
    cases p with
    | dev => rfl
    | release => rfl
  have h0 := System.Reachable.start (T := serving p serde request) rfl
  have h1 := serving_next h0 (.join (a := 1) _ _ rfl hfirst) ⟨rfl, rfl⟩
  have h2 := serving_next h1 (.send (a := 1) ⟨.allParties, m⟩ rfl rfl hout) trivial
  have h3 := serving_next h2 (.post (a := 1) rfl rfl) trivial
  have hroom : ∀ r, ((Db.empty.set r ⟨[], 1, 0⟩).broadcast r text).room r = ⟨[text], 1, 0⟩ := by
    intro r
    rw [Db.broadcast, Db.room_set, Db.room_set]
    rfl
  have h4 := serving_next h3 (.join (a := 0) _ _ rfl
    ((congrArg (fun r => Room.subscribe p r none) (hroom (signingRoom (request 1).txId))).trans
      hsecond)) ⟨congrArg signingRoom htx.symm, rfl⟩
  have h5 := serving_next h4 (.next (a := 0) rfl rfl
    ((congrArg (fun r => Subscription.next p r ⟨0⟩) (Db.room_set ..)).trans hnext)) trivial
  have hin : incoming serde (request 0).index text =
      some (.ok ⟨0, (request 1).index, .broadcast, m⟩) := by
    rw [incoming_outgoing hout, Outgoing.arrives, if_neg hi]
    rfl
  have hhist : Function.update (fun _ => [] : String → List (Posted Nat M))
      (signingRoom (request 1).txId) [⟨1, (request 1).index, ⟨.allParties, m⟩, text⟩]
      (signingRoom (request 1).txId) = [⟨1, (request 1).index, ⟨.allParties, m⟩, text⟩] :=
    Function.update_self ..
  refine ⟨_, _, ⟨1, (request 1).index, ⟨.allParties, m⟩, text⟩,
    .ok ⟨0, (request 1).index, .broadcast, m⟩, h5, rfl, ?_, congrArg (·[0]?) hhist, rfl⟩
  change (0, _) ∈ [] ++ ((incoming serde (request 0).index text).map ((0 : UInt16), ·)).toList
  rw [hin]
  exact List.mem_singleton_self _

theorem not_isolated (p : Profile) {serde : Serde M} (request : Nat → Serving)
    (htx : (request 0).txId = (request 1).txId) (hi : (request 1).index ≠ (request 0).index)
    (he : (request 1).executionId ≠ (request 0).executionId)
    (hout : outgoing serde (request 1).index ⟨.allParties, m⟩ = .ok text) :
    ∃ s : Network Nat M, (serving p serde request).Reachable s ∧ ¬s.Isolated request := by
  obtain ⟨s, x, e, item, hs, hx, hitem, hhist, hone⟩ := serving_leak p htx hi hout
  refine ⟨s, hs, ?_⟩
  intro h
  obtain ⟨e', he', heid⟩ := h 0 x hx 0 item hitem
  change (s.history x.room)[0]? = some e' at he'
  rw [hhist] at he'
  cases he'
  rw [hone] at heid
  exact he heid

/-- Sessions are isolated in every run over a set of requests just when no transaction id is
served under two execution ids by participants with different indexes. -/
theorem isolated_iff (p : Profile) (serde : Serde M)
    (henc : ∀ index, ∃ m text, outgoing serde index ⟨.allParties, m⟩ = .ok text)
    (Q : Set Serving) :
    (∀ request : Nat → Serving, (∀ a, request a ∈ Q) → ∀ s : Network Nat M,
      (serving p serde request).Reachable s → s.Isolated request) ↔
    ∀ q ∈ Q, ∀ q' ∈ Q, q.txId = q'.txId → q.index ≠ q'.index →
      q.executionId = q'.executionId := by
  apply Iff.intro
  · intro h q hq q' hq' htx hi
    by_contra he
    obtain ⟨m, text, hout⟩ := henc q.index
    have hQ : ∀ a, (fun a : Nat => if a = 1 then q else q') a ∈ Q := by
      intro a
      change (if a = 1 then q else q') ∈ Q
      split
      · exact hq
      · exact hq'
    obtain ⟨s, hs, hn⟩ := not_isolated p (fun a => if a = 1 then q else q') htx.symm hi he hout
    exact hn (h _ hQ s hs)
  · intro h request hQ s hs
    apply isolated_of_separate hs
    intro a b
    exact h (request a) (hQ a) (request b) (hQ b)

theorem isolated_two_transactions : ∃ Q : Set Serving, ⟨7, [1], 0⟩ ∈ Q ∧ ⟨7, [1], 1⟩ ∈ Q ∧
    ⟨8, [2], 0⟩ ∈ Q ∧ ⟨8, [2], 1⟩ ∈ Q ∧
    ∀ request : Nat → Serving, (∀ a, request a ∈ Q) → ∀ s : Network Nat Nat,
      (serving .dev numbers request).Reachable s → s.Isolated request := by
  refine ⟨fun q => q.txId = 7 ∧ q.executionId = [1] ∨ q.txId = 8 ∧ q.executionId = [2],
    .inl ⟨rfl, rfl⟩, .inl ⟨rfl, rfl⟩, .inr ⟨rfl, rfl⟩, .inr ⟨rfl, rfl⟩,
    (isolated_iff .dev numbers (fun _ => ⟨42, _, rfl⟩) _).2 ?_⟩
  rintro q (⟨hq, he⟩ | ⟨hq, he⟩) q' (⟨hq', he'⟩ | ⟨hq', he'⟩) htx _
  · rw [he, he']
  · rw [hq, hq'] at htx
    exact absurd htx (by decide)
  · rw [hq, hq'] at htx
    exact absurd htx (by decide)
  · rw [he, he']

/-- Transaction 7 is served again, under execution id 2 and by party 0; it reads what party 1
posted under execution id 1. -/
theorem sessions_mix : ¬∀ (request : Nat → Serving) (s : Network Nat Nat),
    (serving .dev numbers request).Reachable s → s.Isolated request := by
  intro h
  have hout : outgoing numbers 1 ⟨.allParties, 42⟩ = .ok _ := rfl
  obtain ⟨s, hs, hn⟩ := not_isolated .dev (fun a => if a = 1 then ⟨7, [1], 1⟩ else ⟨7, [2], 0⟩)
    rfl (by decide) (by decide) hout
  exact hn (h _ s hs)

end WalletMpc.Participant
