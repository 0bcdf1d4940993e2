import WalletMpc.Systems
import WalletMpc.Signer

namespace WalletMpc.MpcClient
open Systems Ecdsa Proto Participant
set_option autoImplicit true

/-- How far the task that runs `ParticipantServer::start` has come. -/
inductive Task where
  | spawned
  | stored
  | listening
  | ended
  deriving DecidableEq

/-- A spawned server: its task, whether `server_handle` holds the shutdown sender, and whether
that sender has fired. -/
structure LocalServer where
  task : Task
  serverHandle : Bool
  fired : Bool

def LocalServer.new : LocalServer := ⟨.spawned, false, false⟩

/-- A server stops once its sender has fired. -/
def LocalServer.Serving (server : LocalServer) : Prop :=
  server.task = .listening ∧ server.fired = false

instance (server : LocalServer) : Decidable server.Serving := inferInstanceAs (Decidable (_ ∧ _))

/-- A server that serves or may come to. -/
def LocalServer.Live (server : LocalServer) : Prop :=
  server.task ≠ .ended ∧ server.fired = false

def LocalServer.store (server : LocalServer) : LocalServer :=
  { server with task := .stored, serverHandle := true }

def LocalServer.listen (server : LocalServer) : LocalServer := { server with task := .listening }

def LocalServer.stop (server : LocalServer) : LocalServer := { server with task := .ended }

def LocalServer.shutdown (server : LocalServer) : LocalServer :=
  if server.serverHandle then { server with serverHandle := false, fired := true } else server

inductive Call where
  | idle
  | starting
  | stopping
  deriving DecidableEq

/-- The signer, the servers spawned so far, and how many of them were there when
`stop_local_participant` last returned Ok. -/
structure Lifecycle where
  signer : Signer
  servers : Nat → LocalServer
  spawned : Nat
  call : Call
  stopped : Nat

def Lifecycle.update (s : Lifecycle) (k : Nat) (f : LocalServer → LocalServer) : Lifecycle :=
  { s with servers := Function.update s.servers k (f (s.servers k)) }

inductive Event where
  | startRejected
  | spawn
  | connected
  | connectFailed
  | sign
  | stop
  | stopReturned
  | store (k : Nat)
  | listen (k : Nat)
  | ended (k : Nat)
  deriving DecidableEq

section
variable {c : Curve} (platform : Platform c)

/-- `start_local_participant` up to its connection: the new server takes the place of any
earlier one. -/
def Lifecycle.spawn (s : Lifecycle) : Lifecycle :=
  { s with
    signer := { s.signer with
      localParticipantServer := some s.spawned
      localParticipantHandle := some s.spawned }
    servers := Function.update s.servers s.spawned .new
    spawned := s.spawned + 1
    call := .starting }

def Lifecycle.connected (s : Lifecycle) : Lifecycle :=
  { s with
    signer := { s.signer with
      allParticipantClients := s.signer.allParticipantClients ++ [.localParticipant] }
    call := .idle }

/-- `stop_local_participant` up to its wait for the task. -/
def Lifecycle.stop (s : Lifecycle) : Lifecycle :=
  match s.signer.localParticipantServer with
  | none => { s with call := .stopping }
  | some k => { s.update k .shutdown with call := .stopping }

def Lifecycle.stopReturned (s : Lifecycle) : Lifecycle :=
  { s with
    signer := { s.signer with
      localParticipantServer := none
      localParticipantHandle := none }
    call := .idle
    stopped := s.spawned }

inductive Lifecycle.Step : Lifecycle → Event → Lifecycle → Prop where
  | startRejected : s.call = .idle → s.signer.config.participantServer platform = .error e →
      Step s .startRejected s
  | spawn : s.call = .idle → s.signer.config.participantServer platform = .ok server →
      Step s .spawn s.spawn
  -- whichever server listens on the address answers
  | connected : s.call = .starting → k < s.spawned → (s.servers k).Serving →
      Step s .connected s.connected
  | connectFailed : s.call = .starting → Step s .connectFailed { s with call := .idle }
  | sign (signTx : Nat → Client → SignMessage → Reply) (executionId data : Bytes)
      (accountId : String) : s.call = .idle →
      Step s .sign { s with signer := (s.signer.sign signTx executionId data accountId).1 }
  | stop : s.call = .idle → Step s .stop s.stop
  -- the wait is over when the task ends or times out
  | stopReturned : s.call = .stopping → Step s .stopReturned s.stopReturned
  | store : k < s.spawned → (s.servers k).task = .spawned →
      s.signer.config.participantServer platform = .ok server →
      platform.parsesAddress server.serverAddress = true →
      Step s (.store k) (s.update k .store)
  | listen : k < s.spawned → (s.servers k).task = .stored →
      (∀ j < s.spawned, ¬(s.servers j).Serving) → Step s (.listen k) (s.update k .listen)
  -- a bad address, an address in use, an error of the transport or the shutdown
  | ended : k < s.spawned → Step s (.ended k) (s.update k .stop)

/-- All runs of one signer, from a `Signer::new` that reached the gateway. -/
def lifecycle (config : SignerConfig) : System Lifecycle Event where
  start s := (∃ timestampMs randomPart,
      Signer.new config timestampMs randomPart (.ok ()) = .ok s.signer) ∧
    s.spawned = 0 ∧ s.call = .idle ∧ s.stopped = 0
  step := Lifecycle.Step platform

end

/-- No server serves that was spawned before a stop that returned Ok. -/
def Lifecycle.NoLeak (s : Lifecycle) : Prop := ∀ k < s.stopped, ¬(s.servers k).Serving

/-- A start spawns no server while an earlier one is live, and a stop finds the sender of the
server that it is to stop, if that is live. -/
def Lifecycle.Careful (s : Lifecycle) : Event → Prop
  | .spawn => ∀ k < s.spawned, ¬(s.servers k).Live
  | .stop => ∀ k, s.signer.localParticipantServer = some k → (s.servers k).Live →
      (s.servers k).task ≠ .spawned
  | _ => True

theorem LocalServer.Serving.live {server : LocalServer} (h : server.Serving) : server.Live := by
  obtain ⟨htask, hfired⟩ := h
  exact ⟨by rw [htask]; exact nofun, hfired⟩

/-- While a server is live, `server_handle` holds its sender just when its task has stored it. -/
def LocalServer.Armed (server : LocalServer) : Prop :=
  server.Live → (server.serverHandle = true ↔ server.task ≠ .spawned)

theorem LocalServer.Armed.new : LocalServer.new.Armed :=
  fun _ => ⟨nofun, fun htask => absurd rfl htask⟩

theorem LocalServer.Armed.store (server : LocalServer) : server.store.Armed :=
  fun _ => ⟨fun _ => nofun, fun _ => rfl⟩

theorem LocalServer.Armed.listen {server : LocalServer} (h : server.Armed)
    (ht : server.task = .stored) : server.listen.Armed := by
  intro hlive
  have hlive' : server.Live := ⟨by rw [ht]; exact nofun, hlive.2⟩
  have hhandle : server.serverHandle = true := (h hlive').2 (by rw [ht]; exact nofun)
  exact ⟨fun _ => nofun, fun _ => hhandle⟩

theorem LocalServer.not_live_stop (server : LocalServer) : ¬server.stop.Live :=
  fun h => h.1 rfl

theorem LocalServer.shutdown_live {server : LocalServer} (h : server.shutdown.Live) :
    server.shutdown = server ∧ server.serverHandle = false := by
  unfold LocalServer.shutdown at h ⊢
  split
  · rename_i hs
    rw [if_pos hs] at h
    cases h.2
  · rename_i hs
    exact ⟨rfl, Bool.eq_false_of_not_eq_true hs⟩

theorem LocalServer.Armed.shutdown {server : LocalServer} (h : server.Armed) :
    server.shutdown.Armed := by
  intro hlive
  obtain ⟨hsame, _⟩ := LocalServer.shutdown_live hlive
  rw [hsame] at hlive ⊢
  exact h hlive

theorem LocalServer.Armed.not_live_shutdown {server : LocalServer} (h : server.Armed)
    (ht : server.Live → server.task ≠ .spawned) : ¬server.shutdown.Live := by
  intro hlive
  obtain ⟨hsame, hnone⟩ := LocalServer.shutdown_live hlive
  rw [hsame] at hlive
  rw [(h hlive).2 (ht hlive)] at hnone
  cases hnone

theorem LocalServer.Armed.shutdown_spawned {server : LocalServer} (h : server.Armed)
    (hlive : server.Live) (ht : server.task = .spawned) : server.shutdown = server := by
  rw [LocalServer.shutdown]
  rw [if_neg]
  intro hhandle
  exact (h hlive).1 hhandle ht

/-- What holds whatever the calls: the signer knows only servers that it spawned. -/
structure Lifecycle.Inv (s : Lifecycle) : Prop where
  known : ∀ k, s.signer.localParticipantServer = some k → k < s.spawned
  armed : ∀ k < s.spawned, (s.servers k).Armed
  stopped_le : s.stopped ≤ s.spawned

/-- The only server that may be live is the one that the signer knows, and none is once a stop
has fired. -/
structure Lifecycle.Tidy (s : Lifecycle) : Prop where
  owned : ∀ k < s.spawned, (s.servers k).Live → s.signer.localParticipantServer = some k
  stopping : s.call = .stopping → ∀ k < s.spawned, ¬(s.servers k).Live
  gone : ∀ k < s.stopped, ¬(s.servers k).Live

theorem Lifecycle.Inv.update {s : Lifecycle} (h : s.Inv) (k : Nat) {f : LocalServer → LocalServer}
    (hf : k < s.spawned → (f (s.servers k)).Armed) : (s.update k f).Inv where
  known := h.known
  armed := by
    apply (Function.forall_update_iff s.servers fun j server => j < s.spawned → server.Armed).2
    exact ⟨hf, fun j _ => h.armed j⟩
  stopped_le := h.stopped_le

theorem Lifecycle.Tidy.update {s : Lifecycle} (h : s.Tidy) (k : Nat) {f : LocalServer → LocalServer}
    (hf : (f (s.servers k)).Live → (s.servers k).Live) : (s.update k f).Tidy where
  owned := by
    apply (Function.forall_update_iff s.servers fun j server => j < s.spawned → server.Live →
      s.signer.localParticipantServer = some j).2
    exact ⟨fun hk hl => h.owned k hk (hf hl), fun j _ => h.owned j⟩
  stopping := by
    intro hcall
    apply (Function.forall_update_iff s.servers fun j server => j < s.spawned → ¬server.Live).2
    exact ⟨fun hk hl => h.stopping hcall k hk (hf hl), fun j _ => h.stopping hcall j⟩
  gone := by
    apply (Function.forall_update_iff s.servers fun j server => j < s.stopped → ¬server.Live).2
    exact ⟨fun hk hl => h.gone k hk (hf hl), fun j _ => h.gone j⟩

theorem Lifecycle.stop_spawned (s : Lifecycle) : s.stop.spawned = s.spawned := by
  rw [Lifecycle.stop]
  split
  · rfl
  · rfl

theorem Lifecycle.stop_stopped (s : Lifecycle) : s.stop.stopped = s.stopped := by
  rw [Lifecycle.stop]
  split
  · rfl
  · rfl

theorem Lifecycle.Inv.spawn {s : Lifecycle} (h : s.Inv) : s.spawn.Inv where
  known := by
    intro k hk
    cases hk
    exact Nat.lt_succ_self _
  armed := by
    apply (Function.forall_update_iff s.servers fun j server =>
      j < s.spawned + 1 → server.Armed).2
    apply And.intro
    · exact fun _ => .new
    · exact fun j hj hlt => h.armed j (Nat.lt_of_le_of_ne (Nat.le_of_lt_succ hlt) hj)
  stopped_le := Nat.le_succ_of_le h.stopped_le

theorem Lifecycle.Tidy.spawn {s : Lifecycle} (h : s.Tidy) (hi : s.Inv)
    (hc : ∀ k < s.spawned, ¬(s.servers k).Live) : s.spawn.Tidy where
  owned := by
    apply (Function.forall_update_iff s.servers fun j server => j < s.spawned + 1 →
      server.Live → some s.spawned = some j).2
    apply And.intro
    · exact fun _ _ => rfl
    · exact fun j hj hlt hl =>
        absurd hl (hc j (Nat.lt_of_le_of_ne (Nat.le_of_lt_succ hlt) hj))
  stopping := nofun
  gone := by
    have hle := hi.stopped_le
    apply (Function.forall_update_iff s.servers fun j server => j < s.stopped → ¬server.Live).2
    exact ⟨fun hlt => absurd hlt (Nat.not_lt_of_le hle), fun j _ => h.gone j⟩

/-- A stop that finds the sender of the server it knows leaves none live. -/
theorem Lifecycle.Tidy.not_live_stop {s : Lifecycle} (h : s.Tidy) (hi : s.Inv)
    (hc : ∀ k, s.signer.localParticipantServer = some k → (s.servers k).Live →
      (s.servers k).task ≠ .spawned) : ∀ k < s.spawned, ¬(s.stop.servers k).Live := by
  rw [Lifecycle.stop]
  split
  · rename_i hserver
    intro k hk hl
    cases hserver.symm.trans (h.owned k hk hl)
  · rename_i k hserver
    apply (Function.forall_update_iff s.servers fun j server => j < s.spawned → ¬server.Live).2
    apply And.intro
    · intro hk
      exact (hi.armed k hk).not_live_shutdown (hc k hserver)
    · intro j hj hlt hl
      cases hserver.symm.trans (h.owned j hlt hl)
      exact hj rfl

theorem Lifecycle.Tidy.stop {s : Lifecycle} (h : s.Tidy) (hi : s.Inv)
    (hc : ∀ k, s.signer.localParticipantServer = some k → (s.servers k).Live →
      (s.servers k).task ≠ .spawned) : s.stop.Tidy where
  owned := by
    rw [s.stop_spawned]
    exact fun k hk hl => absurd hl (h.not_live_stop hi hc k hk)
  stopping := by
    rw [s.stop_spawned]
    exact fun _ => h.not_live_stop hi hc
  gone := by
    rw [s.stop_stopped]
    exact fun k hk => h.not_live_stop hi hc k (Nat.lt_of_lt_of_le hk hi.stopped_le)

theorem Signer.sign_server (signer : Signer) (signTx : Nat → Client → SignMessage → Reply)
    (executionId data : Bytes) (accountId : String) :
    (signer.sign signTx executionId data accountId).1.localParticipantServer =
      signer.localParticipantServer := by
  rw [Signer.sign]
  split
  · rfl
  · rfl

section
variable {c : Curve} {platform : Platform c} {s t : Lifecycle}

theorem Lifecycle.Step.inv (hs : Step platform s a t) (h : s.Inv) : t.Inv := by
  cases hs with
  | startRejected => exact h
  | spawn => exact h.spawn
  | connected => exact ⟨h.known, h.armed, h.stopped_le⟩
  | connectFailed => exact ⟨h.known, h.armed, h.stopped_le⟩
  | sign signTx executionId data accountId =>
    exact ⟨by rw [Signer.sign_server]; exact h.known, h.armed, h.stopped_le⟩
  | stop =>
    rw [Lifecycle.stop]
    split
    · exact ⟨h.known, h.armed, h.stopped_le⟩
    · rename_i k _
      have hi := h.update k fun hk => (h.armed k hk).shutdown
      exact ⟨hi.known, hi.armed, hi.stopped_le⟩
  | stopReturned => exact ⟨nofun, h.armed, Nat.le_refl _⟩
  | store => exact h.update _ fun _ => .store _
  | listen hk ht => exact h.update _ fun _ => (h.armed _ hk).listen ht
  | ended => exact h.update _ fun _ hl => absurd hl (LocalServer.not_live_stop _)

theorem Lifecycle.Step.tidy (hs : Step platform s a t) (hi : s.Inv) (hc : s.Careful a)
    (h : s.Tidy) : t.Tidy := by
  cases hs with
  | startRejected => exact h
  | spawn => exact h.spawn hi hc
  | connected => exact ⟨h.owned, nofun, h.gone⟩
  | connectFailed => exact ⟨h.owned, nofun, h.gone⟩
  | sign signTx executionId data accountId hcall =>
    exact ⟨by rw [Signer.sign_server]; exact h.owned, h.stopping, h.gone⟩
  | stop => exact h.stop hi hc
  | stopReturned hcall =>
    have hnone := h.stopping hcall
    exact ⟨fun k hk hl => absurd hl (hnone k hk), nofun, hnone⟩
  | store hk ht => exact h.update _ fun hl => ⟨by rw [ht]; exact nofun, hl.2⟩
  | listen hk ht => exact h.update _ fun hl => ⟨by rw [ht]; exact nofun, hl.2⟩
  | ended => exact h.update _ fun hl => absurd hl (LocalServer.not_live_stop _)

theorem inv_of_reachable (h : (lifecycle platform config).Reachable s) : s.Inv := by
  apply h.invariant
  · intro s h0
    obtain ⟨⟨timestampMs, randomPart, hnew⟩, hspawned, _, hstopped⟩ := h0
    have hsigner := Except.ok.inj hnew
    constructor
    case known =>
      rw [← hsigner]
      exact nofun
    case armed =>
      rw [hspawned]
      exact nofun
    case stopped_le =>
      rw [hstopped]
      exact Nat.zero_le _
  · intro s a t _ hi hst
    exact hst.inv hi

theorem tidy_of_reachable
    (h : ((lifecycle platform config).restrict Lifecycle.Careful).Reachable s) : s.Tidy := by
  apply h.invariant
  · intro s h0
    obtain ⟨_, hspawned, hcall, hstopped⟩ := h0
    constructor
    case owned =>
      rw [hspawned]
      exact nofun
    case stopping =>
      rw [hspawned]
      exact fun _ => nofun
    case gone =>
      rw [hstopped]
      exact nofun
  · intro s a t hr ht hst
    exact hst.2.tidy (inv_of_reachable hr.of_restrict) hst.1 ht

theorem Lifecycle.Step.config (hs : Step platform s a t) : t.signer.config = s.signer.config := by
  cases hs with
  | sign signTx executionId data accountId =>
    rw [Signer.sign]
    split
    · rfl
    · rfl
  | stop =>
    rw [Lifecycle.stop]
    split
    · rfl
    · rfl
  | _ => rfl

theorem config_of_reachable (h : (lifecycle platform config).Reachable s) :
    s.signer.config = config := by
  apply h.invariant
  · intro s h0
    obtain ⟨⟨timestampMs, randomPart, hnew⟩, _⟩ := h0
    rw [← Except.ok.inj hnew]
  · intro s a t _ hi hst
    exact hst.config.trans hi

/-- The participant server of a configuration can be made and its address parsed. -/
def Startable (platform : Platform c) (config : SignerConfig) : Prop :=
  ∃ server, config.participantServer platform = .ok server ∧
    platform.parsesAddress server.serverAddress = true

theorem leak_of_stored (hk : k < s.stopped) (hspawned : s.stopped = s.spawned)
    (hlive : (s.servers k).Live) (ht : (s.servers k).task = .stored) :
    ∃ as u, (lifecycle platform config).Run s as u ∧ ¬u.NoLeak := by
  by_cases hE : ∃ j < s.spawned, (s.servers j).Serving
  · obtain ⟨j, hj, hserving⟩ := hE
    exact ⟨_, s, .refl s, fun h => h j (by omega) hserving⟩
  · have hnone : ∀ j < s.spawned, ¬(s.servers j).Serving := fun j hj hs => hE ⟨j, hj, hs⟩
    have hstep : (lifecycle platform config).step s (.listen k) (s.update k .listen) :=
      .listen (by omega) ht hnone
    have hleak : ¬(s.update k .listen).NoLeak := by
      intro h
      apply h k hk
      change (Function.update s.servers k _ k).Serving
      rw [Function.update_self]
      exact ⟨rfl, hlive.2⟩
    exact ⟨_, _, .single hstep, hleak⟩

theorem leak_of_live (hconfig : Startable platform s.signer.config) (hk : k < s.stopped)
    (hspawned : s.stopped = s.spawned) (hlive : (s.servers k).Live) :
    ∃ as u, (lifecycle platform config).Run s as u ∧ ¬u.NoLeak := by
  cases ht : (s.servers k).task with
  | spawned =>
    obtain ⟨server, hserver, haddress⟩ := hconfig
    have hstep : (lifecycle platform config).step s (.store k) (s.update k .store) :=
      .store (by omega) ht hserver haddress
    have hself : (s.update k .store).servers k = (s.servers k).store := Function.update_self ..
    have hleak : ∃ as u, (lifecycle platform config).Run (s.update k .store) as u ∧ ¬u.NoLeak := by
      apply leak_of_stored (s := s.update k .store) hk hspawned
      · rw [hself]
        exact ⟨nofun, hlive.2⟩
      · rw [hself]
        rfl
    obtain ⟨as, u, hrun, hu⟩ := hleak
    exact ⟨_, u, .head hstep hrun, hu⟩
  | stored => exact leak_of_stored hk hspawned hlive ht
  | listening => exact ⟨_, s, .refl s, fun h => h k hk ⟨ht, hlive.2⟩⟩
  | ended => exact absurd ht hlive.1

theorem leak_of_careless (h : (lifecycle platform config).Reachable s)
    (hconfig : Startable platform config) (hst : (lifecycle platform config).step s a t)
    (hc : ¬s.Careful a) : ∃ as u, (lifecycle platform config).Run t as u ∧ ¬u.NoLeak := by
  have hi := inv_of_reachable h
  rw [← config_of_reachable h] at hconfig
  cases hst with
  | spawn =>
    obtain ⟨k, hk⟩ := not_forall.1 hc
    obtain ⟨hk, hlive⟩ := Classical.not_imp.1 hk
    have hne : k ≠ s.spawned := Nat.ne_of_lt hk
    let u := { s.spawn with call := .idle }.stop.stopReturned
    have hsame : u.servers k = s.servers k :=
      (Function.update_of_ne hne _ _).trans (Function.update_of_ne hne _ _)
    have hleft : ∃ as v, (lifecycle platform config).Run u as v ∧ ¬v.NoLeak :=
      leak_of_live hconfig (Nat.lt_succ_of_lt hk) rfl (hsame ▸ Classical.not_not.1 hlive)
    obtain ⟨as, v, hrun, hv⟩ := hleft
    have hstart : (lifecycle platform config).Run s.spawn
        [.connectFailed, .stop, .stopReturned] u :=
      .head (.connectFailed rfl) (.head (.stop rfl) (.single (.stopReturned rfl)))
    exact ⟨_, v, hstart.trans hrun, hv⟩
  | stop =>
    obtain ⟨k, hk⟩ := not_forall.1 hc
    obtain ⟨hserver, hk⟩ := Classical.not_imp.1 hk
    obtain ⟨hlive, ht⟩ := Classical.not_imp.1 hk
    have ht := Classical.not_not.1 ht
    have hlt := hi.known k hserver
    have hstop : s.stop = { s.update k .shutdown with call := .stopping } := by
      rw [Lifecycle.stop]
      rw [hserver]
    have hsame : s.stop.stopReturned.servers k = s.servers k := by
      rw [hstop]
      exact (Function.update_self ..).trans ((hi.armed k hlt).shutdown_spawned hlive ht)
    have hleft : ∃ as u, (lifecycle platform config).Run s.stop.stopReturned as u ∧ ¬u.NoLeak := by
      apply leak_of_live (k := k)
      · rw [hstop]
        exact hconfig
      · rw [hstop]
        exact hlt
      · rfl
      · rw [hsame]
        exact hlive
    obtain ⟨as, v, hrun, hv⟩ := hleft
    have hstopping : s.stop.call = .stopping := by
      rw [hstop]
    exact ⟨_, v, .head (.stopReturned hstopping) hrun, hv⟩
  | _ => exact absurd trivial hc

end

/-- No local participant is leaked while every start finds none live and every stop finds the
sender it needs; and any other start or stop can be followed by a leak. -/
theorem no_leak_iff (platform : Platform c) (config : SignerConfig) :
    (∀ s, ((lifecycle platform config).restrict Lifecycle.Careful).Reachable s → s.NoLeak) ∧
    (Startable platform config → ∀ s a t, (lifecycle platform config).Reachable s →
      (lifecycle platform config).step s a t → ¬s.Careful a →
      ∃ as u, (lifecycle platform config).Run t as u ∧ ¬u.NoLeak) := by
  apply And.intro
  · intro s h k hk hserving
    exact (tidy_of_reachable h).gone k hk hserving.live
  · intro hconfig s a t h hst hc
    exact leak_of_careless h hconfig hst hc

def aliceLifecycle : Lifecycle where
  signer := ⟨aliceSignerConfig, none, none, [.gateway], 0, 0⟩
  servers _ := .new
  spawned := 0
  call := .idle
  stopped := 0

/-- Two starts, the second of which cannot bind and still returns Ok, and one stop. -/
def startedTwice : List Event :=
  [.spawn, .store 0, .listen 0, .connected, .spawn, .store 1, .ended 1, .connected, .stop,
    .stopReturned]

theorem startedTwice_leaks :
    (lifecycle tinyPlatform aliceSignerConfig).start aliceLifecycle ∧
    ∃ s, (lifecycle tinyPlatform aliceSignerConfig).Run aliceLifecycle startedTwice s ∧
      s.call = .idle ∧ ¬s.NoLeak := by
  obtain ⟨server, hserver⟩ : ∃ server,
      aliceSignerConfig.participantServer tinyPlatform = .ok server := ⟨_, rfl⟩
  have hrun := System.Run.head (T := lifecycle tinyPlatform aliceSignerConfig) (s := aliceLifecycle)
    (.spawn rfl hserver) <| .head (.store (k := 0) (by decide) rfl hserver rfl) <|
    .head (.listen (k := 0) (by decide) rfl (by decide)) <|
    .head (.connected (k := 0) rfl (by decide) (by decide)) <|
    .head (.spawn rfl hserver) <| .head (.store (k := 1) (by decide) rfl hserver rfl) <|
    .head (.ended (k := 1) (by decide)) <|
    .head (.connected (k := 0) rfl (by decide) (by decide)) <|
    .head (.stop rfl) <| .single (.stopReturned rfl)
  apply And.intro ⟨⟨0, 0, rfl⟩, rfl, rfl, rfl⟩
  exact ⟨_, hrun, rfl, fun h => h 0 (by decide) (by decide)⟩

end WalletMpc.MpcClient
