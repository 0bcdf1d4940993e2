import WalletMpc.Turns
import WalletMpc.Gateway

namespace WalletMpc.Gateway
open Systems Locks Proto
set_option autoImplicit true

/-- What an action does with the guard of the upstream client. -/
def Action.turn : Action ι → Option (Turn ι)
  | .signTx c _ _ => some (.lock c)
  | .forward _ => none
  | .answer c _ => some (.leave c)
  | .cancel c => some (.leave c)

def Action.isAnswer : Action ι → Bool
  | .answer _ _ => true
  | _ => false

theorem leave_mem_iff {as : List (Action ι)} : Turn.leave c ∈ as.filterMap Action.turn ↔
    (∃ result, .answer c result ∈ as) ∨ .cancel c ∈ as := by
  rw [List.mem_filterMap]
  apply Iff.intro
  · rintro ⟨x, hx, hturn⟩
    cases x with
    | signTx => cases hturn
    | forward => cases hturn
    | answer d result =>
      cases hturn
      exact .inl ⟨result, hx⟩
    | cancel d =>
      cases hturn
      exact .inr hx
  · rintro (⟨result, hx⟩ | hx)
    · exact ⟨_, hx, rfl⟩
    · exact ⟨_, hx, rfl⟩

theorem mem_line_of_pending {s : SignGatewayGrpc ι} (hi : s.Inv)
    (hb : s.calls b = .pending service payload) : b ∈ s.upstream.line := by
  rw [hi.inLine, hb]
  exact nofun

section
variable [DecidableEq ι]

theorem SignGatewayGrpc.Step.upstream_eq {s t : SignGatewayGrpc ι} (hs : Step s x t) :
    t.upstream = x.turn.elim s.upstream (Turn.apply s.upstream) := by
  cases hs with
  | signTx => rfl
  | forward => rfl
  | answer => rfl
  | cancel => rfl

/-- A run of the gateway is a run of its mutex. -/
theorem turns_of_run {s t : SignGatewayGrpc ι} (h : (gateway ι).Run s as t) :
    (turns ι).Run s.upstream (as.filterMap Action.turn) t.upstream := by
  induction h with
  | refl s => exact .refl _
  | head hst hr ih =>
    rename_i s x u as t
    have hx := hst.upstream_eq
    rw [List.filterMap_cons]
    cases hturn : x.turn with
    | none =>
      rw [hturn, Option.elim_none] at hx
      rw [hx] at ih
      exact ih
    | some turn =>
      rw [hturn] at hx
      exact .head hx ih

/-- A call that is neither forwarded nor cancelled stays where it is. -/
theorem SignGatewayGrpc.Step.pending {s t : SignGatewayGrpc ι} (hs : Step s x t)
    (hb : s.calls b = .pending service payload) (hforward : x ≠ .forward b)
    (hcancel : x ≠ .cancel b) : t.calls b = .pending service payload := by
  cases hs with
  | signTx service' payload' hc =>
    rename_i c
    have hne : b ≠ c := by
      rintro rfl
      cases hc.symm.trans hb
    exact (Function.update_of_ne hne _ _).trans hb
  | forward hc hh =>
    rename_i c service' payload'
    have hne : b ≠ c := by
      rintro rfl
      exact hforward rfl
    exact (Function.update_of_ne hne _ _).trans hb
  | answer result hc =>
    rename_i c service' payload'
    have hne : b ≠ c := by
      rintro rfl
      cases hc.symm.trans hb
    exact (Function.update_of_ne hne _ _).trans hb
  | cancel hc =>
    rename_i payload' c
    have hne : b ≠ c := by
      rintro rfl
      exact hcancel rfl
    exact (Function.update_of_ne hne _ _).trans hb

/-- Only calls ahead of a waiting one are forwarded and answered, and each answer takes one of
them off. -/
theorem SignGatewayGrpc.Step.waits {s t : SignGatewayGrpc ι} (hs : Step s x t) (hi : s.Inv)
    (hb : s.calls b = .pending service payload) (hforward : x ≠ .forward b)
    (hcancel : x ≠ .cancel b) :
    (t.upstream.ahead b).length + (if x.isAnswer then 1 else 0) ≤ (s.upstream.ahead b).length ∧
      ∀ c, x = .forward c → c ∈ s.upstream.ahead b := by
  have hline := mem_line_of_pending hi hb
  cases hs with
  | signTx service' payload' hc =>
    rename_i c
    have hahead := Mutex.ahead_lock hline c
    exact ⟨Nat.le_of_eq (congrArg List.length hahead), nofun⟩
  | forward hc hh =>
    rename_i c service' payload'
    apply And.intro (Nat.le_refl _)
    intro d hd
    cases hd
    apply Mutex.ahead_of_holder hh
    rintro rfl
    exact hforward rfl
  | answer result hc =>
    rename_i c service' payload'
    have hne : c ≠ b := by
      rintro rfl
      cases hc.symm.trans hb
    have hahead := Mutex.ahead_of_holder (hi.guarded c service' payload' hc) hne
    exact ⟨Mutex.length_ahead_leave hahead hne, nofun⟩
  | cancel hc =>
    rename_i payload' c
    have hne : c ≠ b := by
      rintro rfl
      exact hcancel rfl
    apply And.intro _ nofun
    change ((s.upstream.leave c).ahead b).length ≤ _
    rw [s.upstream.ahead_leave hne]
    exact List.length_filter_le _ _

/-- What keeps a call waiting over a run: no step forwards or cancels it. -/
structure Waits (b : ι) (as : List (Action ι)) : Prop where
  forward : .forward b ∉ as
  cancel : .cancel b ∉ as

theorem Waits.head (h : Waits b (x :: as)) : x ≠ .forward b ∧ x ≠ .cancel b :=
  ⟨fun he => h.forward (he ▸ List.mem_cons_self), fun he => h.cancel (he ▸ List.mem_cons_self)⟩

theorem Waits.tail (h : Waits b (x :: as)) : Waits b as :=
  ⟨fun hx => h.forward (List.mem_cons_of_mem _ hx), fun hx => h.cancel (List.mem_cons_of_mem _ hx)⟩

theorem Waits.pending {s t : SignGatewayGrpc ι} (hw : Waits b as) (hrun : (gateway ι).Run s as t)
    (hb : s.calls b = .pending service payload) :
    t.calls b = .pending service payload ∧ .leave b ∉ as.filterMap Action.turn := by
  rw [leave_mem_iff, not_or, not_exists, and_iff_left hw.cancel]
  induction hrun with
  | refl s => exact ⟨hb, fun _ => List.not_mem_nil⟩
  | head hst hr ih =>
    obtain ⟨hforward, hcancel⟩ := hw.head
    have hu := SignGatewayGrpc.Step.pending hst hb hforward hcancel
    obtain ⟨ht, hanswer⟩ := ih hw.tail hu
    apply And.intro ht
    intro result hx
    obtain rfl | hx := List.mem_cons.1 hx
    · cases hst with
      | answer _ hc => cases hc.symm.trans hb
    · exact hanswer result hx

/-- While a call waits the calls ahead of it are those that were and have not returned. -/
theorem Waits.ahead {s t : SignGatewayGrpc ι} (hw : Waits b as) (hi : s.Inv)
    (hrun : (gateway ι).Run s as t) (hb : s.calls b = .pending service payload) (c : ι) :
    c ∈ t.upstream.ahead b ↔ c ∈ s.upstream.ahead b ∧
      (∀ result, .answer c result ∉ as) ∧ .cancel c ∉ as := by
  obtain ⟨_, hleave⟩ := hw.pending hrun hb
  obtain ⟨_, _, hmem⟩ := ahead_of_run (turns_of_run hrun) (mem_line_of_pending hi hb) hleave
  rw [hmem c, leave_mem_iff, not_or, not_exists]

/-- While a call waits the calls forwarded are ones ahead of it, and each answer shortens its
wait. -/
theorem Waits.answers {s t : SignGatewayGrpc ι} (hw : Waits b as) (h : (gateway ι).Reachable s)
    (hrun : (gateway ι).Run s as t) (hb : s.calls b = .pending service payload) :
    (t.upstream.ahead b).length + as.countP Action.isAnswer ≤ (s.upstream.ahead b).length ∧
      ∀ c, .forward c ∈ as → c ∈ s.upstream.ahead b := by
  induction hrun with
  | refl s => exact ⟨Nat.le_refl _, fun c hc => absurd hc List.not_mem_nil⟩
  | head hst hr ih =>
    rename_i s x u as t
    have hi := SignGatewayGrpc.inv h
    obtain ⟨hforward, hcancel⟩ := hw.head
    obtain ⟨hlength, hfirst⟩ := SignGatewayGrpc.Step.waits hst hi hb hforward hcancel
    obtain ⟨hlength', hrest⟩ := ih hw.tail (h.next hst)
      (SignGatewayGrpc.Step.pending hst hb hforward hcancel)
    have hone : Waits b [x] :=
      ⟨fun hx => hforward (List.mem_singleton.1 hx).symm, fun hx => hcancel (List.mem_singleton.1 hx).symm⟩
    apply And.intro
    · rw [List.countP_cons]
      omega
    · intro c hc
      obtain hc | hc := List.mem_cons.1 hc
      · exact hfirst c hc.symm
      · exact ((hone.ahead hi (.single hst) hb c).1 (hrest c hc)).1

/-- A call that waits is next when none is ahead of it, and otherwise one ahead of it can step. -/
theorem forward_enabled_iff {s : SignGatewayGrpc ι} (h : (gateway ι).Reachable s)
    (hb : s.calls b = .pending service payload) :
    ((gateway ι).Enabled s (.forward b) ↔ s.upstream.ahead b = []) ∧
      (s.upstream.ahead b ≠ [] → ∃ a ∈ s.upstream.ahead b, (gateway ι).Enabled s (.forward a) ∨
        ∀ result, (gateway ι).Enabled s (.answer a result)) := by
  have hi := SignGatewayGrpc.inv h
  have hline := mem_line_of_pending hi hb
  have hnil := s.upstream.ahead_nil b hline
  apply And.intro
  · rw [hnil]
    apply Iff.intro
    · rintro ⟨t, ht⟩
      cases ht with
      | forward _ hh => exact hh
    · intro hh
      exact ⟨_, .forward hb hh⟩
  · intro hne
    obtain ⟨a, ha⟩ := Mutex.exists_holder hline
    have hab : a ≠ b := by
      rintro rfl
      exact hne (hnil.2 ha)
    refine ⟨a, Mutex.ahead_of_holder ha hab, ?_⟩
    have hrequest := (hi.inLine a).1 (Mutex.mem_of_holder ha)
    cases hc : s.calls a with
    | idle =>
      rw [hc] at hrequest
      exact absurd rfl hrequest
    | pending service' payload' => exact .inl ⟨_, .forward hc ha⟩
    | forwarded service' payload' => exact .inr fun result => ⟨_, .answer result hc⟩
    | answered reply =>
      rw [hc] at hrequest
      exact absurd rfl hrequest

/-- Calls are served in the order in which they came: while a call waits only those that came
before it are forwarded, it waits for no more answers than there are such calls, and it is next
once they have returned. -/
theorem served_in_turn {s t : SignGatewayGrpc ι} (h : (gateway ι).Reachable s)
    (hrun : (gateway ι).Run s as t) (hb : s.calls b = .pending service payload)
    (hw : Waits b as) :
    t.calls b = .pending service payload ∧ (∀ c, .forward c ∈ as → c ∈ s.upstream.ahead b) ∧
      as.countP Action.isAnswer ≤ (s.upstream.ahead b).length ∧
      ((gateway ι).Enabled t (.forward b) ↔ ∀ c ∈ s.upstream.ahead b,
        (∃ result, .answer c result ∈ as) ∨ .cancel c ∈ as) ∧
      ((gateway ι).Enabled t (.forward b) ∨ ∃ a ∈ s.upstream.ahead b,
        (gateway ι).Enabled t (.forward a) ∨ ∀ result, (gateway ι).Enabled t (.answer a result)) := by
  have hi := SignGatewayGrpc.inv h
  obtain ⟨ht, _⟩ := hw.pending hrun hb
  obtain ⟨hlength, hforward⟩ := hw.answers h hrun hb
  obtain ⟨henabled, hprogress⟩ := forward_enabled_iff (h.run hrun) ht
  have hahead := hw.ahead hi hrun hb
  refine ⟨ht, hforward, by omega, ?_, ?_⟩
  · rw [henabled, List.eq_nil_iff_forall_not_mem]
    apply forall_congr'
    intro c
    rw [hahead c, not_and, not_and_or, not_forall_not, Classical.not_not]
  · rw [henabled]
    by_cases hnil : t.upstream.ahead b = []
    · exact .inl hnil
    · obtain ⟨a, ha, hstep⟩ := hprogress hnil
      exact .inr ⟨a, ((hahead a).1 ha).1, hstep⟩

end

/-- Two calls have arrived and the first is answered, so the second is next. -/
theorem served_in_turn_two : ∃ s t : SignGatewayGrpc Nat, (gateway Nat).Reachable s ∧
    (gateway Nat).Run s [.answer 0 (.error ⟨.internal, "Transaction signing failed"⟩)] t ∧
    s.calls 1 = .pending .participant ⟨8, [3], 0, [4], "bob"⟩ ∧ s.upstream.ahead 1 = [0] ∧
    (gateway Nat).Enabled t (.forward 1) := by
  obtain ⟨s, h, hfirst, hsecond, hahead⟩ : ∃ s : SignGatewayGrpc Nat, (gateway Nat).Reachable s ∧
      s.calls 0 = .forwarded .participant ⟨7, [1], 0, [2], "alice"⟩ ∧
      s.calls 1 = .pending .participant ⟨8, [3], 0, [4], "bob"⟩ ∧ s.upstream.ahead 1 = [0] := by
    have h0 := System.Reachable.start (T := gateway Nat) rfl
    have h1 := h0.next (.signTx (c := 0) .participant ⟨7, [1], 0, [2], "alice"⟩ rfl)
    have h2 := h1.next (.forward (c := 0) rfl rfl)
    have h3 := h2.next (.signTx (c := 1) .participant ⟨8, [3], 0, [4], "bob"⟩ rfl)
    exact ⟨_, h3, rfl, rfl, rfl⟩
  have hrun := System.Run.single (T := gateway Nat)
    (.answer (.error ⟨.internal, "Transaction signing failed"⟩) hfirst)
  have hw : Waits 1 [Action.answer 0 (.error ⟨.internal, "Transaction signing failed"⟩)] :=
    ⟨fun hx => (nomatch List.mem_singleton.1 hx), fun hx => (nomatch List.mem_singleton.1 hx)⟩
  obtain ⟨_, _, _, hnext, _⟩ := served_in_turn h hrun hsecond hw
  refine ⟨s, _, h, hrun, hsecond, hahead, hnext.2 ?_⟩
  intro c hc
  rw [hahead] at hc
  obtain rfl := List.mem_singleton.1 hc
  exact .inl ⟨_, List.mem_cons_self⟩

end WalletMpc.Gateway
