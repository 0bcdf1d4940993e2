import WalletMpc.Signing

namespace WalletMpc.MpcClient
open Fallible Ecdsa Proto Participant
set_option autoImplicit true

structure KeyShareData where
  accountId : String
  keyShareData : String

structure SignerConfig where
  localParticipantHost : String
  localParticipantPort : UInt16
  keyShares : List KeyShareData
  sseHost : String
  ssePort : UInt16
  threshold : UInt16

inductive Client where
  | gateway
  | localParticipant
  deriving DecidableEq

/-- The signer; the servers that it has spawned are known by their numbers. -/
structure Signer where
  config : SignerConfig
  localParticipantServer : Option Nat
  localParticipantHandle : Option Nat
  allParticipantClients : List Client
  instanceId : UInt16
  txCounter : UInt16

def generateInstanceId (timestampMs : UInt64) (randomPart : UInt8) : UInt16 :=
  ((timestampMs >>> 8) &&& 0xFF).toUInt16 <<< 8 ||| randomPart.toUInt16

/-- `Signer::new`, given how the connection to the gateway comes out. -/
def Signer.new (config : SignerConfig) (timestampMs : UInt64) (randomPart : UInt8)
    (connect : Except String Unit) : Except String Signer :=
  connect.map fun _ =>
    { config := config
      localParticipantServer := none
      localParticipantHandle := none
      allParticipantClients := [.gateway]
      instanceId := generateInstanceId timestampMs randomPart
      txCounter := 0 }

def Signer.nextTxId (signer : Signer) : Signer × Int32 :=
  ({ signer with txCounter := signer.txCounter + 1 },
    (signer.instanceId.toUInt32 <<< 16 ||| signer.txCounter.toUInt32).toInt32)

/-- What a local participant needs from outside: the JSON of a key share, the URL and the HTTP
client of the sse, and the address that it listens on. -/
structure Platform (c : Curve) where
  parseKeyShare : String → Except String (KeyShare c)
  newClient : String → Except String Unit
  parsesAddress : String → Bool

structure ParticipantServer (c : Curve) where
  serverAddress : String
  handler : ParticipantHandler c

section
variable {c : Curve} (platform : Platform c)

/-- The loop of `start_local_participant` over the configured key shares. -/
def loadKeyShares : List KeyShareData → Accounts (KeyShare c) → Except String (Accounts (KeyShare c))
  | [], keyShares => .ok keyShares
  | data :: rest, keyShares =>
    match platform.parseKeyShare data.keyShareData with
    | .error e => .error ("Failed to parse key share for " ++ data.accountId ++ ": " ++ e)
    | .ok keyShare => loadKeyShares rest (keyShares.insert data.accountId keyShare)

def ParticipantServer.new (sseUrl participantHost : String) (participantPort : UInt16)
    (keyShares : Accounts (KeyShare c)) : Except String (ParticipantServer c) := do
  platform.newClient sseUrl
  let handler ← ParticipantHandler.new keyShares
  return ⟨participantHost ++ ":" ++ toString participantPort.toNat, handler⟩

/-- The server that `start_local_participant` makes before it spawns it. -/
def SignerConfig.participantServer (config : SignerConfig) :
    Except String (ParticipantServer c) :=
  match loadKeyShares platform config.keyShares ∅ with
  | .error e => .error e
  | .ok keyShares =>
    if keyShares.keys = ∅ then .error "No key shares provided"
    else
      (ParticipantServer.new platform
        ("http://" ++ config.sseHost ++ ":" ++ toString config.ssePort.toNat)
        config.localParticipantHost config.localParticipantPort keyShares).mapError
          fun e => "Failed to create local participant server: " ++ e

/-- The share of an account that a configuration holds: the last of its entries. -/
def SignerConfig.keyShare (config : SignerConfig) (accountId : String) : Option (KeyShare c) :=
  (config.keyShares.reverse.find? fun data => data.accountId = accountId).bind fun data =>
    (platform.parseKeyShare data.keyShareData).toOption

end

abbrev SignatureResult := SignatureMessage

def collect (results : List Reply) : Except String SignatureResult :=
  match results.filterMap Except.toOption with
  | [] => .error "No valid signatures received"
  | signature :: _ => .ok signature

def Signer.message (signer : Signer) (executionId data : Bytes) (accountId : String) :
    SignMessage where
  txId := signer.nextTxId.2
  executionId := executionId
  chain := Chain.ethereum.toInt32
  data := data
  accountId := accountId

def Signer.results (signer : Signer) (signTx : Nat → Client → SignMessage → Reply)
    (message : SignMessage) : List Reply :=
  (signer.allParticipantClients.take signer.config.threshold.toNat).mapIdx fun i client =>
    signTx i client message

def Signer.sign (signer : Signer) (signTx : Nat → Client → SignMessage → Reply)
    (executionId data : Bytes) (accountId : String) : Signer × Except String SignatureResult :=
  if signer.config.keyShares.any fun data => data.accountId = accountId then
    (signer.nextTxId.1, collect (signer.results signTx (signer.message executionId data accountId)))
  else
    (signer, .error ("Account ID '" ++ accountId ++ "' not found in available key shares"))

section
variable {c : Curve} {platform : Platform c}

theorem loadKeyShares_lookup (h : loadKeyShares platform data keyShares = .ok loaded)
    (accountId : String) : loaded.lookup accountId =
      match data.reverse.find? fun d => d.accountId = accountId with
      | none => keyShares.lookup accountId
      | some d => (platform.parseKeyShare d.keyShareData).toOption := by
  induction data generalizing keyShares with
  | nil =>
    cases h
    rfl
  | cons d rest ih =>
    rw [loadKeyShares] at h
    cases hp : platform.parseKeyShare d.keyShareData with
    | error e =>
      rw [hp] at h
      cases h
    | ok keyShare =>
      rw [hp] at h
      rw [ih h, List.reverse_cons, List.find?_append]
      cases rest.reverse.find? fun d => d.accountId = accountId with
      | some d' => rfl
      | none =>
        by_cases ha : d.accountId = accountId
        · rw [← ha, Finmap.lookup_insert]
          simp [hp, Except.toOption]
        · rw [Finmap.lookup_insert_of_ne _ (Ne.symm ha)]
          simp [ha]

theorem ParticipantServer.new_ok {server : ParticipantServer c}
    (h : ParticipantServer.new platform sseUrl host port keyShares = .ok server) :
    server.handler.keyShares = keyShares := by
  rw [ParticipantServer.new] at h
  obtain ⟨_, _, h⟩ := bind_eq_ok h
  obtain ⟨handler, hhandler, h⟩ := bind_eq_ok h
  cases h
  rw [ParticipantHandler.new] at hhandler
  split at hhandler
  · cases hhandler
  · cases hhandler
    rfl

theorem keyShare_of_loaded {config : SignerConfig}
    (h : loadKeyShares platform config.keyShares ∅ = .ok keyShares) (accountId : String) :
    keyShares.lookup accountId = config.keyShare platform accountId := by
  rw [loadKeyShares_lookup h accountId, SignerConfig.keyShare]
  cases config.keyShares.reverse.find? fun d => d.accountId = accountId with
  | none => rfl
  | some d => rfl

theorem participantServer_ok {config : SignerConfig} {server : ParticipantServer c}
    (h : config.participantServer platform = .ok server) :
    loadKeyShares platform config.keyShares ∅ = .ok server.handler.keyShares := by
  rw [SignerConfig.participantServer] at h
  cases hl : loadKeyShares platform config.keyShares ∅ with
  | error e =>
    rw [hl] at h
    cases h
  | ok keyShares =>
    rw [hl] at h
    dsimp only at h
    split at h
    · cases h
    · rw [ParticipantServer.new_ok (mapError_eq_ok h)]

/-- A local participant serves every account with the share that the configuration holds. -/
theorem participantServer_lookup {config : SignerConfig} {server : ParticipantServer c}
    (h : config.participantServer platform = .ok server) (accountId : String) :
    server.handler.keyShares.lookup accountId = config.keyShare platform accountId :=
  keyShare_of_loaded (participantServer_ok h) accountId

theorem keyShare_known {config : SignerConfig} (h : config.keyShare platform accountId = some ks) :
    (config.keyShares.any fun data => data.accountId = accountId) = true := by
  rw [SignerConfig.keyShare] at h
  obtain ⟨data, hfind, _⟩ := Option.bind_eq_some_iff.1 h
  have hmem := List.mem_of_find?_eq_some hfind
  have hfound := List.find?_some hfind
  exact List.any_eq_true.2 ⟨data, List.mem_reverse.1 hmem, hfound⟩

end

structure First (results : List Reply) (i : Nat) (m : SignatureMessage) : Prop where
  answer : results[i]? = some (.ok m)
  earlier : ∀ j m', j < i → results[j]? ≠ some (.ok m')

theorem collect_ok_iff (results : List Reply) :
    collect results = .ok m ↔ ∃ i, First results i m := by
  induction results with
  | nil =>
    apply Iff.intro
    · intro h
      cases h
    · intro h
      obtain ⟨_, hi, _⟩ := h
      cases hi
  | cons result rest ih =>
    cases result with
    | error status =>
      have hskip : collect (.error status :: rest) = collect rest := rfl
      rw [hskip, ih]
      apply Iff.intro
      · intro h
        obtain ⟨i, hi, hearlier⟩ := h
        exists i + 1, hi
        intro j m' hj
        cases j with
        | zero => exact nofun
        | succ j => exact hearlier j m' (Nat.lt_of_succ_lt_succ hj)
      · intro h
        obtain ⟨i, hi, hearlier⟩ := h
        cases i with
        | zero => cases hi
        | succ i => exact ⟨i, hi, fun j m' hj => hearlier (j + 1) m' (Nat.succ_lt_succ hj)⟩
    | ok m' =>
      apply Iff.intro
      · intro h
        cases h
        exact ⟨0, rfl, fun j _ hj => absurd hj (Nat.not_lt_zero j)⟩
      · intro h
        obtain ⟨i, hi, hearlier⟩ := h
        cases i with
        | zero =>
          cases hi
          rfl
        | succ i => exact absurd rfl (hearlier 0 m' (Nat.zero_lt_succ i))

/-- A platform that reads the same key share out of every JSON. -/
def tinyPlatform : Platform tiny where
  parseKeyShare _ := .ok ⟨0, tiny.gen, by decide⟩
  newClient _ := .ok ()
  parsesAddress _ := true

def aliceSignerConfig : SignerConfig :=
  ⟨"127.0.0.1", 50051, [⟨"alice", "{}"⟩], "127.0.0.1", 8080, 2⟩

end WalletMpc.MpcClient
