import WalletMpc.GatewayOrder

namespace WalletMpc.Gateway
open Systems Locks Proto
set_option autoImplicit true

/-- What the gateway is for: requests wait in the order in which they came, one is with the
sign-service, and its answer goes to the call that it came from. -/
structure Proxy (ι : Type) where
  waiting : List (ι × SignMessage)
  current : Option (ι × SignMessage)
  replies : ι → Option Reply

def Proxy.Holds (s : Proxy ι) (c : ι) : Prop :=
  ∃ payload, (c, payload) ∈ s.waiting ∨ s.current = some (c, payload)

inductive Proxy.Step [DecidableEq ι] : Proxy ι → Action ι → Proxy ι → Prop where
  | arrive : ¬s.Holds c → s.replies c = none →
      Step s (.signTx c service payload) { s with waiting := s.waiting ++ [(c, payload)] }
  | send : s.current = none → s.waiting = (c, payload) :: rest →
      Step s (.forward c) { s with waiting := rest, current := some (c, payload) }
  | reply : s.current = some (c, payload) →
      Step s (.answer c result)
        { s with current := none, replies := Function.update s.replies c (some (proxied result)) }
  | drop : s.Holds c →
      Step s (.cancel c)
        { s with
          waiting := s.waiting.filter fun e => e.1 ≠ c
          current := s.current.filter fun e => e.1 ≠ c }

def proxy (ι : Type) [DecidableEq ι] : System (Proxy ι) (Action ι) where
  start s := s = ⟨[], none, fun _ => none⟩
  step := Proxy.Step

def Call.waits : Call → Option SignMessage
  | .pending _ payload => some payload
  | _ => none

def Call.sent : Call → Option SignMessage
  | .forwarded _ payload => some payload
  | _ => none

def Call.reply? : Call → Option Reply
  | .answered reply => some reply
  | _ => none

/-- The requests of a line that have not been forwarded. -/
def waitingOf (calls : ι → Call) (line : List ι) : List (ι × SignMessage) :=
  line.filterMap fun c => (calls c).waits.map fun payload => (c, payload)

/-- The request that the upstream client is busy with. -/
def currentOf (calls : ι → Call) (line : List ι) : Option (ι × SignMessage) :=
  line.head?.bind fun c => (calls c).sent.map fun payload => (c, payload)

def SignGatewayGrpc.proxy (s : SignGatewayGrpc ι) : Proxy ι where
  waiting := waitingOf s.calls s.upstream.line
  current := currentOf s.calls s.upstream.line
  replies c := (s.calls c).reply?

theorem waitingOf_cons_pending {calls : ι → Call} (h : (calls c).waits = some payload)
    (line : List ι) : waitingOf calls (c :: line) = (c, payload) :: waitingOf calls line := by
  rw [waitingOf, List.filterMap_cons_some (b := (c, payload)) (by rw [h]; rfl), waitingOf]

theorem waitingOf_cons_other {calls : ι → Call} (h : (calls c).waits = none) (line : List ι) :
    waitingOf calls (c :: line) = waitingOf calls line := by
  rw [waitingOf, List.filterMap_cons_none (by rw [h]; rfl), waitingOf]

theorem waitingOf_append (calls : ι → Call) (line line' : List ι) :
    waitingOf calls (line ++ line') = waitingOf calls line ++ waitingOf calls line' :=
  List.filterMap_append

theorem mem_waitingOf {calls : ι → Call} {line : List ι} :
    (c, payload) ∈ waitingOf calls line ↔ c ∈ line ∧ (calls c).waits = some payload := by
  rw [waitingOf, List.mem_filterMap]
  apply Iff.intro
  · rintro ⟨d, hd, hpayload⟩
    obtain ⟨_, hwaits, he⟩ := Option.map_eq_some_iff.1 hpayload
    cases he
    exact ⟨hd, hwaits⟩
  · rintro ⟨hc, hwaits⟩
    exact ⟨c, hc, Option.map_eq_some_iff.2 ⟨payload, hwaits, rfl⟩⟩

theorem currentOf_eq_some {calls : ι → Call} {line : List ι} :
    currentOf calls line = some (c, payload) ↔
      line.head? = some c ∧ (calls c).sent = some payload := by
  rw [currentOf, Option.bind_eq_some_iff]
  apply Iff.intro
  · rintro ⟨d, hd, hpayload⟩
    obtain ⟨_, hsent, he⟩ := Option.map_eq_some_iff.1 hpayload
    cases he
    exact ⟨hd, hsent⟩
  · rintro ⟨hc, hsent⟩
    exact ⟨c, hc, Option.map_eq_some_iff.2 ⟨payload, hsent, rfl⟩⟩

theorem SignGatewayGrpc.Inv.holds_iff {s : SignGatewayGrpc ι} (hi : s.Inv) :
    s.proxy.Holds c ↔ (s.calls c).request? ≠ none := by
  change (∃ payload, (c, payload) ∈ waitingOf s.calls s.upstream.line ∨
    currentOf s.calls s.upstream.line = some (c, payload)) ↔ _
  simp only [mem_waitingOf, currentOf_eq_some]
  apply Iff.intro
  · rintro ⟨payload, ⟨hc, _⟩ | ⟨hc, _⟩⟩
    · exact (hi.inLine c).1 hc
    · exact (hi.inLine c).1 (List.mem_of_head? hc)
  · intro hrequest
    have hline := (hi.inLine c).2 hrequest
    cases hc : s.calls c with
    | idle =>
      rw [hc] at hrequest
      exact absurd rfl hrequest
    | pending service payload => exact ⟨payload, .inl ⟨hline, rfl⟩⟩
    | forwarded service payload => exact ⟨payload, .inr ⟨hi.guarded c service payload hc, rfl⟩⟩
    | answered reply =>
      rw [hc] at hrequest
      exact absurd rfl hrequest

/-- Nothing is forwarded for a call behind the first in line. -/
theorem SignGatewayGrpc.Inv.currentOf_tail {s : SignGatewayGrpc ι} (hi : s.Inv)
    (hline : s.upstream.line = c :: rest) (hc : c ∉ rest) : currentOf s.calls rest = none := by
  cases rest with
  | nil => rfl
  | cons d rest =>
    change (s.calls d).sent.map _ = none
    rw [Option.map_eq_none_iff]
    cases hd : s.calls d with
    | forwarded service payload =>
      have hholder := hi.guarded d service payload hd
      rw [Mutex.holder, hline] at hholder
      cases hholder
      exact absurd List.mem_cons_self hc
    | _ => rfl

theorem SignGatewayGrpc.proxy_eq {s : SignGatewayGrpc ι} (hw : waitingOf s.calls s.upstream.line = w)
    (hc : currentOf s.calls s.upstream.line = o) (hr : (fun c => (s.calls c).reply?) = r) :
    s.proxy = ⟨w, o, r⟩ := by
  rw [SignGatewayGrpc.proxy, hw, hc, hr]

section
variable [DecidableEq ι]

theorem waitingOf_update (calls : ι → Call) (call : Call) {line : List ι} (h : c ∉ line) :
    waitingOf (Function.update calls c call) line = waitingOf calls line := by
  apply List.filterMap_congr
  intro d hd
  have hne : d ≠ c := by
    rintro rfl
    exact h hd
  rw [Function.update_of_ne hne]

theorem waitingOf_leave (calls : ι → Call) (line : List ι) :
    waitingOf calls (line.filter (· ≠ c)) = (waitingOf calls line).filter fun e => e.1 ≠ c := by
  induction line with
  | nil => rfl
  | cons d rest ih =>
    by_cases hd : d = c
    · rw [List.filter_cons_of_neg (by simpa using hd), ih]
      cases hw : (calls d).waits with
      | none => rw [waitingOf_cons_other hw]
      | some payload =>
        rw [waitingOf_cons_pending hw, List.filter_cons_of_neg (by simpa using hd)]
    · rw [List.filter_cons_of_pos (by simpa using hd)]
      cases hw : (calls d).waits with
      | none => rw [waitingOf_cons_other hw, waitingOf_cons_other hw, ih]
      | some payload =>
        rw [waitingOf_cons_pending hw, waitingOf_cons_pending hw, ih,
          List.filter_cons_of_pos (by simpa using hd)]

theorem currentOf_update (calls : ι → Call) (call : Call) {line : List ι}
    (h : line.head? ≠ some c) :
    currentOf (Function.update calls c call) line = currentOf calls line := by
  cases line with
  | nil => rfl
  | cons d rest =>
    have hne : d ≠ c := by
      rintro rfl
      exact h rfl
    change ((Function.update calls c call d).sent.map _) = ((calls d).sent.map _)
    rw [Function.update_of_ne hne]

/-- A call is in line once. -/
theorem nodup_line {s : SignGatewayGrpc ι} (h : (gateway ι).Reachable s) : s.upstream.line.Nodup := by
  apply h.invariant
  · intro s h0
    cases h0
    exact List.nodup_nil
  · intro s x t hr hs hst
    cases hst with
    | signTx service payload hc =>
      rename_i c
      have hnot : c ∉ s.upstream.line := by
        rw [(SignGatewayGrpc.inv hr).inLine, hc]
        exact fun hne => hne rfl
      exact List.nodup_append.2 ⟨hs, List.nodup_singleton c, by
        intro a ha b hb
        obtain rfl := List.mem_singleton.1 hb
        rintro rfl
        exact hnot ha⟩
    | forward => exact hs
    | answer => exact hs.filter _
    | cancel => exact hs.filter _

theorem filter_cons_self {c : ι} {rest : List ι} (h : c ∉ rest) :
    (c :: rest).filter (· ≠ c) = rest := by
  rw [List.filter_cons_of_neg (by simp), List.filter_eq_self]
  intro d hd
  rw [decide_eq_true_eq]
  rintro rfl
  exact h hd

theorem replies_update (calls : ι → Call) (c : ι) (call : Call)
    (h : call.reply? = (calls c).reply?) :
    (fun d => (Function.update calls c call d).reply?) = fun d => (calls d).reply? := by
  funext d
  by_cases hd : d = c
  · subst hd
    rw [Function.update_self, h]
  · rw [Function.update_of_ne hd]

section
variable {s : SignGatewayGrpc ι}

theorem proxy_signTx (hi : s.Inv) (hc : s.calls c = .idle) (service : Service)
    (payload : SignMessage) :
    SignGatewayGrpc.proxy
        ⟨s.upstream.lock c, Function.update s.calls c (.pending service payload)⟩ =
      { s.proxy with waiting := s.proxy.waiting ++ [(c, payload)] } := by
  have hnot : c ∉ s.upstream.line := by
    rw [hi.inLine, hc]
    exact fun hne => hne rfl
  apply SignGatewayGrpc.proxy_eq
  · change waitingOf _ (s.upstream.line ++ [c]) = _
    have hnew : (Function.update s.calls c (.pending service payload) c).waits = some payload := by
      rw [Function.update_self]
      rfl
    rw [waitingOf_append, waitingOf_update _ _ hnot, waitingOf_cons_pending hnew]
    rfl
  · change currentOf _ (s.upstream.line ++ [c]) = currentOf s.calls s.upstream.line
    cases hline : s.upstream.line with
    | nil =>
      change (Function.update s.calls c _ c).sent.map _ = none
      rw [Function.update_self]
      rfl
    | cons d rest =>
      have hne : (d :: rest).head? ≠ some c := by
        rw [hline] at hnot
        rw [List.head?_cons, Ne, Option.some.injEq]
        rintro rfl
        exact hnot List.mem_cons_self
      exact currentOf_update s.calls _ hne
  · exact replies_update s.calls c _ (by rw [hc]; rfl)

theorem proxy_forward (hnodup : s.upstream.line.Nodup) (hc : s.calls c = .pending service payload)
    (hh : s.upstream.holder = some c) : ∃ rest, s.proxy.waiting = (c, payload) :: rest ∧
      s.proxy.current = none ∧
      SignGatewayGrpc.proxy
          ⟨s.upstream, Function.update s.calls c (.forwarded service payload)⟩ =
        { s.proxy with waiting := rest, current := some (c, payload) } := by
  obtain ⟨⟨line⟩, calls⟩ := s
  cases line with
  | nil => cases hh
  | cons d rest =>
    cases hh
    have hnot := (List.nodup_cons.1 hnodup).1
    dsimp only at hc
    refine ⟨waitingOf calls rest, ?_, ?_, ?_⟩
    · have hpending : (calls c).waits = some payload := by
        rw [hc]
        rfl
      exact waitingOf_cons_pending hpending rest
    · change (calls c).sent.map _ = none
      rw [hc]
      rfl
    · apply SignGatewayGrpc.proxy_eq
      · have hnone : (Function.update calls c (.forwarded service payload) c).waits = none := by
          rw [Function.update_self]
          rfl
        exact (waitingOf_cons_other hnone rest).trans (waitingOf_update calls _ hnot)
      · change (Function.update calls c _ c).sent.map _ = _
        rw [Function.update_self]
        rfl
      · exact replies_update calls c _ (by rw [hc]; rfl)

theorem proxy_answer (hi : s.Inv) (hnodup : s.upstream.line.Nodup)
    (hc : s.calls c = .forwarded service payload) (result : Reply) :
    SignGatewayGrpc.proxy
        ⟨s.upstream.leave c, Function.update s.calls c (.answered (proxied result))⟩ =
      { s.proxy with
        current := none, replies := Function.update s.proxy.replies c (some (proxied result)) } := by
  have hh := hi.guarded c service payload hc
  obtain ⟨rest, hline⟩ : ∃ rest, s.upstream.line = c :: rest := by
    cases hline : s.upstream.line with
    | nil =>
      rw [Mutex.holder, hline] at hh
      cases hh
    | cons d rest =>
      rw [Mutex.holder, hline] at hh
      cases hh
      exact ⟨rest, rfl⟩
  have hnot : c ∉ rest := (List.nodup_cons.1 (hline ▸ hnodup)).1
  have hleave : (s.upstream.leave c).line = rest := by
    rw [Mutex.leave, hline]
    exact filter_cons_self hnot
  have hhead : rest.head? ≠ some c := fun he => hnot (List.mem_of_head? he)
  apply SignGatewayGrpc.proxy_eq
  · rw [hleave, waitingOf_update _ _ hnot]
    change _ = waitingOf s.calls s.upstream.line
    rw [hline, waitingOf_cons_other (by rw [hc]; rfl)]
  · rw [hleave, currentOf_update _ _ hhead]
    exact hi.currentOf_tail hline hnot
  · funext d
    change (Function.update s.calls c (.answered (proxied result)) d).reply? = _
    by_cases hd : d = c
    · subst hd
      rw [Function.update_self, Function.update_self]
      rfl
    · rw [Function.update_of_ne hd, Function.update_of_ne hd]
      rfl

theorem proxy_cancel (hi : s.Inv) (hnodup : s.upstream.line.Nodup)
    (hc : (s.calls c).request? = some payload) :
    SignGatewayGrpc.proxy ⟨s.upstream.leave c, Function.update s.calls c .idle⟩ =
      { s.proxy with
        waiting := s.proxy.waiting.filter fun e => e.1 ≠ c
        current := s.proxy.current.filter fun e => e.1 ≠ c } := by
  have hnot : c ∉ s.upstream.line.filter (· ≠ c) := by
    intro hmem
    exact of_decide_eq_true (List.mem_filter.1 hmem).2 rfl
  apply SignGatewayGrpc.proxy_eq
  · exact (waitingOf_update _ _ hnot).trans (waitingOf_leave s.calls s.upstream.line)
  · have hhead : (s.upstream.line.filter (· ≠ c)).head? ≠ some c :=
      fun he => hnot (List.mem_of_head? he)
    change currentOf _ (s.upstream.line.filter (· ≠ c)) = _
    rw [currentOf_update _ _ hhead]
    change _ = (currentOf s.calls s.upstream.line).filter _
    cases hline : s.upstream.line with
    | nil => rfl
    | cons d rest =>
      by_cases hd : d = c
      · subst hd
        have hrest : d ∉ rest := (List.nodup_cons.1 (hline ▸ hnodup)).1
        rw [filter_cons_self hrest, hi.currentOf_tail hline hrest]
        change none = ((s.calls d).sent.map fun payload => (d, payload)).filter _
        cases (s.calls d).sent with
        | none => rfl
        | some payload' => exact (Option.filter_some_neg (by simp)).symm
      · rw [List.filter_cons_of_pos (by simpa using hd)]
        change (s.calls d).sent.map _ = ((s.calls d).sent.map fun payload => (d, payload)).filter _
        cases (s.calls d).sent with
        | none => rfl
        | some payload' => exact (Option.filter_some_pos (by simpa using hd)).symm
  · apply replies_update
    cases hcall : s.calls c with
    | answered reply =>
      rw [hcall] at hc
      cases hc
    | _ => rfl

end

/-- Each step of the gateway is that step of the proxy. -/
theorem SignGatewayGrpc.Step.proxy {s t : SignGatewayGrpc ι} (h : (gateway ι).Reachable s)
    (hs : Step s x t) : Proxy.Step s.proxy x t.proxy := by
  have hi := SignGatewayGrpc.inv h
  have hnodup := nodup_line h
  cases hs with
  | signTx service payload hc =>
    rename_i c
    have hfresh : ¬s.proxy.Holds c := by
      rw [hi.holds_iff, hc]
      exact fun hne => hne rfl
    have hreply : s.proxy.replies c = none := by
      change (s.calls c).reply? = none
      rw [hc]
      rfl
    rw [proxy_signTx hi hc]
    exact .arrive hfresh hreply
  | forward hc hh =>
    obtain ⟨rest, hwaiting, hcurrent, ht⟩ := proxy_forward hnodup hc hh
    rw [ht]
    exact .send hcurrent hwaiting
  | answer result hc =>
    rename_i c service payload
    rw [proxy_answer hi hnodup hc]
    apply Proxy.Step.reply
    exact currentOf_eq_some.2 ⟨hi.guarded c service payload hc, by rw [hc]; rfl⟩
  | cancel hc =>
    rw [proxy_cancel hi hnodup hc]
    apply Proxy.Step.drop
    rw [hi.holds_iff, hc]
    exact nofun

/-- The gateway is a serial proxy: any run of its calls, however they interleave, is a run of one
queue of requests with one of them at the sign-service. -/
theorem simulates_proxy {s t : SignGatewayGrpc ι} (h : (gateway ι).Reachable s)
    (hrun : (gateway ι).Run s as t) :
    (Gateway.proxy ι).Reachable s.proxy ∧ (Gateway.proxy ι).Run s.proxy as t.proxy := by
  apply And.intro
  · apply h.invariant (I := fun s => (Gateway.proxy ι).Reachable s.proxy)
    · intro s h0
      cases h0
      exact .start rfl
    · intro s x t hr hs hst
      exact hs.next (SignGatewayGrpc.Step.proxy hr hst)
  · induction hrun with
    | refl s => exact .refl _
    | head hst hr ih => exact .head (SignGatewayGrpc.Step.proxy h hst) (ih (h.next hst))

end

/-- A call arrives while another one is with the sign-service, and is sent there after its
answer. -/
theorem simulates_proxy_two : ∃ t : SignGatewayGrpc Nat,
    t.proxy.current = some (1, ⟨8, [2], 0, [3], "bob"⟩) ∧
    t.proxy.replies 0 = some (.ok ⟨[1], [2], 0⟩) ∧
    (Gateway.proxy Nat).Reachable (SignGatewayGrpc.proxy ⟨.unlocked, fun _ => .idle⟩) ∧
    (Gateway.proxy Nat).Run (SignGatewayGrpc.proxy ⟨.unlocked, fun _ => .idle⟩)
      [.signTx 0 .participant ⟨7, [1], 0, [2], "alice"⟩, .forward 0,
        .signTx 1 .signGateway ⟨8, [2], 0, [3], "bob"⟩, .answer 0 (.ok ⟨[1], [2], 0⟩),
        .forward 1] t.proxy := by
  have h0 := System.Run.refl (T := gateway Nat) ⟨.unlocked, fun _ => .idle⟩
  have h1 := h0.trans (.single (.signTx (c := 0) .participant ⟨7, [1], 0, [2], "alice"⟩ rfl))
  have h2 := h1.trans (.single (.forward (c := 0) rfl rfl))
  have h3 := h2.trans (.single (.signTx (c := 1) .signGateway ⟨8, [2], 0, [3], "bob"⟩ rfl))
  have h4 := h3.trans (.single (.answer (c := 0) (.ok ⟨[1], [2], 0⟩) rfl))
  have h5 := h4.trans (.single (.forward (c := 1) rfl rfl))
  exact ⟨_, rfl, rfl, simulates_proxy (.start rfl) h5⟩

end WalletMpc.Gateway
