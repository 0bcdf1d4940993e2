import WalletMpc.Threshold
import WalletMpc.Lifecycle

namespace WalletMpc.MpcClient
open Systems Ecdsa Proto
set_option autoImplicit true

/-- The requests of one call of `sign`, which all carry its message. -/
def Signer.requests (signer : Signer) (executionId data : Bytes) (accountId : String) :
    List (Client × SignMessage) :=
  if signer.config.keyShares.any fun data => data.accountId = accountId then
    signer.contacted.map fun client => (client, signer.message executionId data accountId)
  else []

/-- `sign` goes by the answers to its requests alone. -/
theorem Signer.sign_requests (signer : Signer) (signTx : Nat → Client → SignMessage → Reply)
    (h : (signer.config.keyShares.any fun data => data.accountId = accountId) = true) :
    (signer.sign signTx executionId data accountId).2 =
      collect ((signer.requests executionId data accountId).mapIdx fun i request =>
        signTx i request.1 request.2) := by
  have hresults : signer.results signTx (signer.message executionId data accountId) =
      (signer.requests executionId data accountId).mapIdx fun i request =>
        signTx i request.1 request.2 := by
    rw [Signer.results, Signer.requests]
    rw [if_pos h, List.mapIdx_eq_iff]
    intro i
    rw [List.getElem?_mapIdx, List.getElem?_map, Option.map_map]
    rfl
  rw [Signer.sign]
  rw [if_pos h, hresults]

/-- No participant is asked twice, and the local one only while it is started. -/
structure Signer.AsksOnce (signer : Signer) (executionId data : Bytes) (accountId : String) :
    Prop where
  gateway : ((signer.requests executionId data accountId).map Prod.fst).count .gateway ≤ 1
  localParticipant :
    ((signer.requests executionId data accountId).map Prod.fst).count .localParticipant ≤ 1
  started : .localParticipant ∈ (signer.requests executionId data accountId).map Prod.fst →
    signer.localParticipantServer ≠ none
  apart : ∀ (i j : Nat) (client : Client) (m m' : SignMessage),
    (signer.requests executionId data accountId)[i]? = some (client, m) →
    (signer.requests executionId data accountId)[j]? = some (client, m') → m.txId = m'.txId → i = j

theorem Signer.requests_fst (signer : Signer) (executionId data : Bytes)
    (h : (signer.config.keyShares.any fun data => data.accountId = accountId) = true) :
    (signer.requests executionId data accountId).map Prod.fst = signer.contacted := by
  rw [Signer.requests]
  rw [if_pos h, List.map_map]
  exact List.map_id _

theorem Signer.asksOnce_unknown {signer : Signer}
    (h : (signer.config.keyShares.any fun data => data.accountId = accountId) = false) :
    signer.AsksOnce executionId data accountId := by
  have hnone : signer.requests executionId data accountId = [] := by
    rw [Signer.requests]
    rw [h]
    rfl
  constructor
  case gateway =>
    rw [hnone]
    exact Nat.zero_le _
  case localParticipant =>
    rw [hnone]
    exact Nat.zero_le _
  case started =>
    rw [hnone]
    exact nofun
  case apart =>
    rw [hnone]
    exact nofun

theorem Client.nodup_iff (clients : List Client) :
    clients.Nodup ↔ clients.count .gateway ≤ 1 ∧ clients.count .localParticipant ≤ 1 := by
  rw [List.nodup_iff_count_le_one]
  apply Iff.intro
  · intro h
    exact ⟨h .gateway, h .localParticipant⟩
  · intro h client
    cases client with
    | gateway => exact h.1
    | localParticipant => exact h.2

/-- For a known account all depends on the clients that are contacted. -/
theorem Signer.asksOnce_iff {signer : Signer}
    (h : (signer.config.keyShares.any fun data => data.accountId = accountId) = true) :
    signer.AsksOnce executionId data accountId ↔ signer.contacted.count .gateway ≤ 1 ∧
      signer.contacted.count .localParticipant ≤ 1 ∧
      (.localParticipant ∈ signer.contacted → signer.localParticipantServer ≠ none) := by
  have hfst := signer.requests_fst executionId data h
  apply Iff.intro
  · intro ha
    obtain ⟨hgateway, hlocal, hstarted, _⟩ := ha
    rw [hfst] at hgateway hlocal hstarted
    exact ⟨hgateway, hlocal, hstarted⟩
  · intro ha
    obtain ⟨hgateway, hlocal, hstarted⟩ := ha
    rw [← hfst] at hgateway hlocal hstarted
    refine ⟨hgateway, hlocal, hstarted, ?_⟩
    have hnodup := (Client.nodup_iff _).2 ⟨hgateway, hlocal⟩
    intro i j client m m' hi hj _
    have hclient : ∀ {k : Nat} {m}, (signer.requests executionId data accountId)[k]? = some (client, m) →
        ((signer.requests executionId data accountId).map Prod.fst)[k]? = some client := by
      intro k _ hk
      rw [List.getElem?_map, hk]
      rfl
    obtain ⟨_, hget⟩ := List.getElem?_eq_some_iff.1 (hclient hi)
    obtain ⟨_, hget'⟩ := List.getElem?_eq_some_iff.1 (hclient hj)
    exact hnodup.getElem_inj_iff.1 (hget.trans hget'.symm)

section
variable {c : Curve} {platform : Platform c} {s t : Lifecycle}

/-- The list of clients only grows, by one local participant for each start that returns Ok. -/
theorem Lifecycle.Step.clients (hs : Step platform s a t) :
    t.signer.allParticipantClients = s.signer.allParticipantClients ++
      List.replicate ([a].count .connected) .localParticipant := by
  cases hs with
  | connected => rfl
  | sign signTx executionId data accountId =>
    refine Eq.trans ?_ (List.append_nil _).symm
    rw [Signer.sign]
    split
    · rfl
    · rfl
  | stop =>
    refine Eq.trans ?_ (List.append_nil _).symm
    rw [Lifecycle.stop]
    split
    · rfl
    · rfl
  | _ => exact (List.append_nil _).symm

theorem clients_of_run (h : (lifecycle platform config).Run s as t) :
    t.signer.allParticipantClients = s.signer.allParticipantClients ++
      List.replicate (as.count .connected) .localParticipant := by
  induction h with
  | refl => exact (List.append_nil _).symm
  | head hst hr ih =>
    rename_i a _ as _
    rw [ih, hst.clients, List.append_assoc, List.replicate_append_replicate, ← List.count_append]
    rfl

end

/-- What the first clients of such a list are. -/
theorem count_take_clients (n threshold : Nat) :
    ((.gateway :: List.replicate n .localParticipant : List Client).take threshold).count
        .gateway ≤ 1 ∧
      ((.gateway :: List.replicate n .localParticipant : List Client).take threshold).count
        .localParticipant = min (threshold - 1) n := by
  cases threshold with
  | zero => exact ⟨Nat.zero_le _, (Nat.zero_min n).symm⟩
  | succ k =>
    rw [List.take_succ_cons, List.take_replicate]
    apply And.intro
    · rw [List.count_cons_self, List.count_replicate]
      exact Nat.le_refl 1
    · rw [List.count_cons_of_ne (by decide), List.count_replicate_self, Nat.add_sub_cancel]

/-- In every run the next call of `sign` asks each participant at most once just when it asks
nobody but the gateway, or a local participant is started and is the only one asked. -/
theorem asks_once_iff {platform : Platform c} (h0 : (lifecycle platform config).start s₀)
    (h : (lifecycle platform config).Run s₀ as s) (executionId data : Bytes) (accountId : String) :
    s.signer.AsksOnce executionId data accountId ↔
      (config.keyShares.any fun data => data.accountId = accountId) = false ∨
        config.threshold.toNat ≤ 1 ∨ as.count .connected = 0 ∨
        s.signer.localParticipantServer ≠ none ∧
          (as.count .connected = 1 ∨ config.threshold.toNat = 2) := by
  have hconfig := config_of_reachable (System.Reachable.run (.start h0) h)
  have hclients := clients_of_run h
  obtain ⟨⟨timestampMs, randomPart, hnew⟩, _⟩ := h0
  rw [← Except.ok.inj hnew] at hclients
  have hcontacted : s.signer.contacted = (.gateway ::
      List.replicate (as.count .connected) .localParticipant : List Client).take
        config.threshold.toNat := by
    rw [Signer.contacted, hclients, hconfig]
    rfl
  obtain ⟨hgateway, hlocal⟩ := count_take_clients (as.count .connected) config.threshold.toNat
  rw [← hcontacted] at hgateway hlocal
  cases hknown : config.keyShares.any fun data => data.accountId = accountId with
  | false => exact ⟨fun _ => .inl rfl, fun _ => Signer.asksOnce_unknown (by rw [hconfig, hknown])⟩
  | true =>
    rw [Signer.asksOnce_iff (by rw [hconfig, hknown]), ← List.count_pos_iff, hlocal]
    apply Iff.intro
    · intro ha
      obtain ⟨_, hle, hstarted⟩ := ha
      by_cases hasked : 0 < min (config.threshold.toNat - 1) (as.count .connected)
      · have hone : as.count .connected = 1 ∨ config.threshold.toNat = 2 := by omega
        exact .inr (.inr (.inr ⟨hstarted hasked, hone⟩))
      · have hnobody : config.threshold.toNat ≤ 1 ∨ as.count .connected = 0 := by omega
        exact .inr (hnobody.imp_right Or.inl)
    · intro ha
      apply And.intro hgateway
      obtain hunknown | hlow | hnone | ⟨hstarted, hone⟩ := ha
      · cases hunknown
      · exact ⟨by omega, by omega⟩
      · exact ⟨by omega, by omega⟩
      · exact ⟨by omega, fun _ => hstarted⟩

def started : List Event := [.spawn, .store 0, .listen 0, .connected]

theorem started_run : (lifecycle tinyPlatform aliceSignerConfig).start aliceLifecycle ∧
    ∃ s, (lifecycle tinyPlatform aliceSignerConfig).Run aliceLifecycle started s ∧
      s.call = .idle ∧ s.signer.localParticipantServer = some 0 := by
  obtain ⟨server, hserver⟩ : ∃ server,
      aliceSignerConfig.participantServer tinyPlatform = .ok server := ⟨_, rfl⟩
  have hrun := System.Run.head (T := lifecycle tinyPlatform aliceSignerConfig) (s := aliceLifecycle)
    (.spawn rfl hserver) <| .head (.store (k := 0) (by decide) rfl hserver rfl) <|
    .head (.listen (k := 0) (by decide) rfl (by decide)) <|
    .single (.connected (k := 0) rfl (by decide) (by decide))
  apply And.intro ⟨⟨0, 0, rfl⟩, rfl, rfl, rfl⟩
  exact ⟨_, hrun, rfl, rfl⟩

theorem asks_once_started : ∃ s, (lifecycle tinyPlatform aliceSignerConfig).Run aliceLifecycle
    started s ∧ s.signer.AsksOnce [] [] "alice" := by
  obtain ⟨h0, s, hrun, _, hserver⟩ := started_run
  exists s, hrun
  apply (asks_once_iff h0 hrun [] [] "alice").2
  exact .inr (.inr (.inr ⟨by rw [hserver]; exact nofun, .inl (by decide)⟩))

/-- After a stop that returned Ok the local participant is still asked. -/
theorem stopped_still_asked : ∃ s,
    (lifecycle tinyPlatform aliceSignerConfig).start aliceLifecycle ∧
      (lifecycle tinyPlatform aliceSignerConfig).Run aliceLifecycle
        (started ++ [.stop, .stopReturned]) s ∧ s.call = .idle ∧
      ¬s.signer.AsksOnce [] [] "alice" := by
  obtain ⟨h0, s, hrun, hcall, _⟩ := started_run
  have hstop : s.stop.call = .stopping := by
    rw [Lifecycle.stop]
    split
    · rfl
    · rfl
  have hstopped : (lifecycle tinyPlatform aliceSignerConfig).Run s [.stop, .stopReturned]
      s.stop.stopReturned :=
    .head (.stop hcall) (.single (.stopReturned hstop))
  have hall := hrun.trans hstopped
  refine ⟨_, h0, hall, rfl, ?_⟩
  intro h
  have hclients := clients_of_run hall
  have hconfig := config_of_reachable (System.Reachable.run (.start h0) hall)
  apply h.started _ rfl
  rw [Signer.requests_fst _ _ _ (by rw [hconfig]; rfl), Signer.contacted, hclients, hconfig]
  decide

end WalletMpc.MpcClient
