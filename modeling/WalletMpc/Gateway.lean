import WalletMpc.Systems
import WalletMpc.Locks
import WalletMpc.Proto

namespace WalletMpc.Gateway
open Systems Locks Proto
set_option autoImplicit true

inductive Service where
  | participant
  | signGateway

/-- What both handlers make of the upstream answer. -/
def proxied (answer : Reply) : Reply :=
  answer.mapError fun _status => ⟨.unavailable, "upstream sign-service unavailable"⟩

/-- Where a call stands in either `sign_tx`: up to `lock().await`, under the guard with the
upstream answer outstanding, or returned. -/
inductive Call where
  | idle
  | pending (service : Service) (payload : SignMessage)
  | forwarded (service : Service) (payload : SignMessage)
  | answered (reply : Reply)

structure SignGatewayGrpc (ι : Type) where
  upstream : Mutex ι
  calls : ι → Call

inductive Action (ι : Type) where
  | signTx (c : ι) (service : Service) (payload : SignMessage)
  | forward (c : ι)
  | answer (c : ι) (result : Reply)
  | cancel (c : ι)

def Call.request? : Call → Option SignMessage
  | .pending _ payload | .forwarded _ payload => some payload
  | _ => none

inductive SignGatewayGrpc.Step [DecidableEq ι] :
    SignGatewayGrpc ι → Action ι → SignGatewayGrpc ι → Prop where
  | signTx (service : Service) (payload : SignMessage) : s.calls c = .idle →
      Step s (.signTx c service payload)
        ⟨s.upstream.lock c, Function.update s.calls c (.pending service payload)⟩
  | forward : s.calls c = .pending service payload → s.upstream.holder = some c →
      Step s (.forward c)
        ⟨s.upstream, Function.update s.calls c (.forwarded service payload)⟩
  -- the guard lives across the upstream call and is dropped with its answer
  | answer (result : Reply) : s.calls c = .forwarded service payload →
      Step s (.answer c result)
        ⟨s.upstream.leave c, Function.update s.calls c (.answered (proxied result))⟩
  -- the client of the call went away, and its future is dropped where it stands
  | cancel : (s.calls c).request? = some payload →
      Step s (.cancel c) ⟨s.upstream.leave c, Function.update s.calls c .idle⟩

def gateway (ι : Type) [DecidableEq ι] : System (SignGatewayGrpc ι) (Action ι) where
  start s := s = ⟨.unlocked, fun _ => .idle⟩
  step := SignGatewayGrpc.Step

/-- The calls in line for the upstream client are those that have not returned, and one that
is forwarded has the guard. -/
structure SignGatewayGrpc.Inv (s : SignGatewayGrpc ι) : Prop where
  inLine : ∀ c, c ∈ s.upstream.line ↔ (s.calls c).request? ≠ none
  guarded : ∀ c service payload, s.calls c = .forwarded service payload →
    s.upstream.holder = some c

/-- No session blocks another: whatever call is in progress, one of another transaction that
has arrived can be forwarded. -/
def SignGatewayGrpc.Unblocked [DecidableEq ι] (s : SignGatewayGrpc ι) : Prop :=
  ∀ a b payloadA service payloadB, (s.calls a).request? = some payloadA →
    s.calls b = .pending service payloadB → payloadA.txId ≠ payloadB.txId →
      (gateway ι).Enabled s (.forward b)

/-- A call arrives only while every call in progress is of its own transaction. -/
def Alone (s : SignGatewayGrpc ι) (x : Action ι) : Prop :=
  ∀ c service payload, x = .signTx c service payload →
    ∀ a payloadA, (s.calls a).request? = some payloadA → payloadA.txId = payload.txId

section
variable [DecidableEq ι]

theorem SignGatewayGrpc.Inv.move {s : SignGatewayGrpc ι} {upstream' : Mutex ι} (h : s.Inv)
    (call : Call) (hc : c ∈ upstream'.line ↔ call.request? ≠ none)
    (hd : ∀ d, d ≠ c → (d ∈ upstream'.line ↔ d ∈ s.upstream.line))
    (hg : ∀ service payload, call = .forwarded service payload → upstream'.holder = some c)
    (hh : ∀ d, d ≠ c → s.upstream.holder = some d → upstream'.holder = some d) :
    SignGatewayGrpc.Inv ⟨upstream', Function.update s.calls c call⟩ := by
  constructor
  · apply (Function.forall_update_iff s.calls fun d x => d ∈ upstream'.line ↔ x.request? ≠ none).2
    exact ⟨hc, fun d hne => (hd d hne).trans (h.inLine d)⟩
  · apply (Function.forall_update_iff s.calls fun d x =>
      ∀ service payload, x = .forwarded service payload → upstream'.holder = some d).2
    exact ⟨hg, fun d hne service payload hx => hh d hne (h.guarded d service payload hx)⟩

theorem SignGatewayGrpc.Inv.leave {s : SignGatewayGrpc ι} (h : s.Inv) (c : ι) {call : Call}
    (hc : call.request? = none) :
    SignGatewayGrpc.Inv ⟨s.upstream.leave c, Function.update s.calls c call⟩ := by
  apply h.move call
  · rw [hc, Mutex.mem_leave]
    exact ⟨fun hm => absurd rfl hm.2, fun hn => absurd rfl hn⟩
  · intro d hd
    rw [Mutex.mem_leave, and_iff_left hd]
  · intro service payload hf
    rw [hf] at hc
    cases hc
  · intro d hd hh
    exact Mutex.holder_leave hh hd

theorem SignGatewayGrpc.Step.inv {s t : SignGatewayGrpc ι} (hs : Step s a t) (h : s.Inv) :
    t.Inv := by
  cases hs with
  | signTx service payload hc =>
    apply h.move
    · rw [Mutex.mem_lock]
      exact ⟨fun _ => nofun, fun _ => .inr rfl⟩
    · intro d hd
      rw [Mutex.mem_lock, or_iff_left hd]
    · intro service' payload' hf
      cases hf
    · intro d _ hh
      exact Mutex.holder_lock hh
  | forward hc hh =>
    apply h.move
    · exact ⟨fun _ => nofun, fun _ => Mutex.mem_of_holder hh⟩
    · intro d _
      exact Iff.rfl
    · intro _ _ _
      exact hh
    · intro d _ hd
      exact hd
  | answer result hc => exact h.leave _ rfl
  | cancel hc => exact h.leave _ rfl

theorem SignGatewayGrpc.inv {s : SignGatewayGrpc ι} (h : (gateway ι).Reachable s) : s.Inv := by
  apply h.invariant
  · intro s h0
    cases h0
    exact ⟨fun c => ⟨nofun, fun hc => absurd rfl hc⟩, nofun⟩
  · intro s a t _ hi hs
    exact SignGatewayGrpc.Step.inv hs hi

theorem enabled_forward_iff {s : SignGatewayGrpc ι} (h : (gateway ι).Reachable s)
    (hb : s.calls b = .pending service payload) :
    (gateway ι).Enabled s (.forward b) ↔ ∀ a, a ≠ b → s.upstream.holder ≠ some a := by
  apply Iff.intro
  · intro h a ha hh
    obtain ⟨t, ht⟩ := h
    cases ht with
    | forward hc hholder =>
      rw [hholder] at hh
      exact ha (Option.some.inj hh).symm
  · intro ha
    have hline : b ∈ s.upstream.line := by
      rw [(SignGatewayGrpc.inv h).inLine, hb]
      exact nofun
    obtain ⟨c, hc⟩ := Mutex.exists_holder hline
    by_cases hcb : c = b
    · subst hcb
      exact ⟨_, .forward hb hc⟩
    · exact absurd hc (ha c hcb)

/-- As long as the holder of the upstream client is neither answered nor cancelled it keeps it. -/
theorem holder_stays {s t : SignGatewayGrpc ι} (h : (gateway ι).Run s as t)
    (ha : ∀ x ∈ as, (∀ result, x ≠ .answer a result) ∧ x ≠ .cancel a)
    (hh : s.upstream.holder = some a) : t.upstream.holder = some a := by
  apply h.invariant (I := fun s => s.upstream.holder = some a) _ hh
  intro s x t hx hs hst
  obtain ⟨hanswer, hcancel⟩ := ha x hx
  cases hst with
  | signTx => exact Mutex.holder_lock hs
  | forward => exact hs
  | answer result =>
    apply Mutex.holder_leave hs
    intro he
    cases he
    exact hanswer result rfl
  | cancel =>
    apply Mutex.holder_leave hs
    intro he
    cases he
    exact hcancel rfl

theorem SignGatewayGrpc.Step.request {s t : SignGatewayGrpc ι} (hs : Step s a t)
    (h : (t.calls c).request? = some payload) :
    (s.calls c).request? = some payload ∨ ∃ service, a = .signTx c service payload := by
  have hupd : ∀ {d call}, (Function.update s.calls d call c).request? = some payload →
      (s.calls c).request? = some payload ∨ (d = c ∧ call.request? = some payload) := by
    intro d call hc
    by_cases hd : c = d
    · subst hd
      rw [Function.update_self] at hc
      exact .inr ⟨rfl, hc⟩
    · rw [Function.update_of_ne hd] at hc
      exact .inl hc
  cases hs with
  | signTx service payload' hc =>
    rcases hupd h with ho | ⟨rfl, hp⟩
    · exact .inl ho
    · cases hp
      exact .inr ⟨service, rfl⟩
  | forward hc hh =>
    rcases hupd h with ho | ⟨rfl, hp⟩
    · exact .inl ho
    · rw [hc]
      exact .inl hp
  | answer result hc =>
    rcases hupd h with ho | ⟨rfl, hp⟩
    · exact .inl ho
    · cases hp
  | cancel hc =>
    rcases hupd h with ho | ⟨rfl, hp⟩
    · exact .inl ho
    · cases hp

theorem one_transaction {s : SignGatewayGrpc ι} (h : ((gateway ι).restrict Alone).Reachable s) :
    ∀ a b payloadA payloadB, (s.calls a).request? = some payloadA →
      (s.calls b).request? = some payloadB → payloadA.txId = payloadB.txId := by
  induction h with
  | start hs =>
    subst hs
    intro a b payloadA payloadB ha
    cases ha
  | next hr hst ih =>
    rename_i s x t
    obtain ⟨hx, hs⟩ := hst
    intro a b payloadA payloadB ha hb
    rcases SignGatewayGrpc.Step.request hs ha with ha' | ⟨serviceA, rfl⟩
    · rcases SignGatewayGrpc.Step.request hs hb with hb' | ⟨serviceB, rfl⟩
      · exact ih a b payloadA payloadB ha' hb'
      · exact hx b serviceB payloadB rfl a payloadA ha'
    · rcases SignGatewayGrpc.Step.request hs hb with hb' | ⟨serviceB, he⟩
      · exact (hx a serviceA payloadA rfl b payloadB hb').symm
      · cases he
        rfl

/-- A call that arrives while one of another transaction is in progress is blocked by it. -/
theorem not_unblocked_of_not_alone {s t : SignGatewayGrpc ι} (h : (gateway ι).Reachable s)
    (hs : (gateway ι).step s x t) (hx : ¬Alone s x) : ¬t.Unblocked := by
  intro hu
  apply hx
  rintro b service payload rfl a payloadA ha
  by_contra hne
  have ht := h.next hs
  cases hs with
  | signTx _ _ hb =>
    have hab : a ≠ b := by
      intro he
      cases he
      rw [hb] at ha
      cases ha
    have hb' : Function.update s.calls b (.pending service payload) b = .pending service payload :=
      Function.update_self ..
    have ha' : (Function.update s.calls b (.pending service payload) a).request? =
        some payloadA := by
      rw [Function.update_of_ne hab]
      exact ha
    have hfree := (enabled_forward_iff ht hb').1 (hu a b payloadA service payload ha' hb' hne)
    -- whoever is ahead in the queue is not the newcomer
    have hi := SignGatewayGrpc.inv h
    have hline : a ∈ s.upstream.line := by
      rw [hi.inLine, ha]
      exact nofun
    obtain ⟨c, hc⟩ := Mutex.exists_holder hline
    have hcb : c ≠ b := by
      intro he
      rw [he] at hc
      have hn := (hi.inLine b).1 (Mutex.mem_of_holder hc)
      rw [hb] at hn
      exact hn rfl
    exact hfree c hcb (Mutex.holder_lock hc)

/-- The gateway keeps sessions apart in just the runs in which they never overlap at it: a
call is forwarded next if and only if no other call has the upstream client. -/
theorem sessions_unblocked :
    (∀ s : SignGatewayGrpc ι, (gateway ι).Reachable s → ∀ b service payload,
      s.calls b = .pending service payload →
        ((gateway ι).Enabled s (.forward b) ↔ ∀ a, a ≠ b → s.upstream.holder ≠ some a)) ∧
    (∀ s, ((gateway ι).restrict Alone).Reachable s → s.Unblocked) ∧
    ∀ s x t, (gateway ι).Reachable s → (gateway ι).step s x t → ¬Alone s x → ¬t.Unblocked := by
  refine ⟨?_, ?_, ?_⟩
  · intro s hs b service payload hb
    exact enabled_forward_iff hs hb
  · intro s hs a b payloadA service payloadB ha hb hne
    exact absurd (one_transaction hs a b payloadA payloadB ha (by rw [hb]; rfl)) hne
  · intro s x t hs hst hx
    exact not_unblocked_of_not_alone hs hst hx

end

/-- Call 0 is forwarded and its answer is outstanding. Call 1, of another transaction, is not
forwarded in any continuation in which call 0 is neither answered nor cancelled. -/
theorem session_blocked : ∃ s : SignGatewayGrpc Nat, (gateway Nat).Reachable s ∧
    s.calls 0 = .forwarded .participant ⟨7, [1], 0, [2], "alice"⟩ ∧
    s.calls 1 = .pending .participant ⟨8, [3], 0, [4], "bob"⟩ ∧ ¬s.Unblocked ∧
    ∀ as t, (gateway Nat).Run s as t →
      (∀ x ∈ as, (∀ result, x ≠ .answer 0 result) ∧ x ≠ .cancel 0) →
        ¬(gateway Nat).Enabled t (.forward 1) := by
  have h0 := System.Reachable.start (T := gateway Nat) rfl
  have h1 := h0.next (.signTx (c := 0) .participant ⟨7, [1], 0, [2], "alice"⟩ rfl)
  have h2 := h1.next (.forward (c := 0) rfl rfl)
  have h3 := h2.next (.signTx (c := 1) .participant ⟨8, [3], 0, [4], "bob"⟩ rfl)
  refine ⟨_, h3, rfl, rfl, ?_, ?_⟩
  · apply not_unblocked_of_not_alone h2 (.signTx (c := 1) .participant ⟨8, [3], 0, [4], "bob"⟩ rfl)
    intro h
    have htx := h 1 .participant ⟨8, [3], 0, [4], "bob"⟩ rfl 0 ⟨7, [1], 0, [2], "alice"⟩ rfl
    exact absurd htx (by decide)
  · intro as t hrun has
    have hholder := holder_stays hrun has rfl
    intro hx
    obtain ⟨u, hu⟩ := hx
    cases hu with
    | forward hc hh =>
      rw [hholder] at hh
      cases hh

end WalletMpc.Gateway
