import WalletMpc.Fallible
import WalletMpc.Room
import WalletMpc.Dealer
import WalletMpc.Signer

namespace WalletMpc.Client
open Fallible Proto KeyGen MpcClient
set_option autoImplicit true

/-- `serde_yaml::Value`, with the bits of a float. -/
inductive Yaml where
  | null
  | bool (b : Bool)
  | posInt (n : UInt64)
  | negInt (n : Int64)
  | float (bits : UInt64)
  | string (s : String)
  | sequence (items : List Yaml)
  | mapping (entries : List (Yaml × Yaml))
  | tagged (tag : String) (value : Yaml)

def Yaml.untag : Yaml → Yaml
  | .tagged _ value => value.untag
  | value => value

def Yaml.isKey (key : String) : Yaml → Bool
  | .string s => s == key
  | _ => false

def Yaml.get (value : Yaml) (key : String) : Option Yaml :=
  match value.untag with
  | .mapping entries => (entries.find? fun entry => entry.1.isKey key).map Prod.snd
  | _ => none

def Yaml.asStr (value : Yaml) : Option String :=
  match value.untag with
  | .string s => some s
  | _ => none

def Yaml.asU64 (value : Yaml) : Option UInt64 :=
  match value.untag with
  | .posInt n => some n
  | _ => none

/-- The value at the end of a path of keys. -/
def Yaml.at (value : Yaml) : List String → Option Yaml
  | [] => some value
  | key :: keys => (value.get key).bind fun inner => inner.at keys

theorem Yaml.at_pair {document inner : Yaml} (h : document.get key = some inner) (key' : String) :
    document.at [key, key'] = inner.get key' := by
  show (document.get key).bind _ = _
  rw [h, Option.bind_some]
  exact Option.bind_fun_some _

theorem Yaml.at_triple {document inner innermost : Yaml} (h : document.get key = some inner)
    (h' : inner.get key' = some innermost) (key'' : String) :
    document.at [key, key', key''] = innermost.get key'' := by
  show (document.get key).bind _ = _
  rw [h, Option.bind_some]
  exact at_pair h' key''

/-- `KeyShare` of the UniFFI interface. -/
structure KeyShare where
  accountId : String
  keyShareData : String

structure MpcConfig where
  localParticipantHost : String
  localParticipantPort : UInt16
  localParticipantIndex : UInt16
  keyShares : List KeyShare
  signGatewayHost : String
  signGatewayPort : UInt16
  sseHost : String
  ssePort : UInt16
  threshold : UInt16
  totalParticipants : UInt16
  logLevel : String

/-- The integers of a configuration with the places they are read from. -/
def MpcConfig.integers (c : MpcConfig) : List (List String × UInt16) := [
  (["local_participant", "port"], c.localParticipantPort),
  (["local_participant", "index"], c.localParticipantIndex),
  (["remote_services", "sign_gateway", "participant_port"], c.signGatewayPort),
  (["mpc", "threshold"], c.threshold),
  (["mpc", "total_participants"], c.totalParticipants)]

def MpcConfig.toSignerConfig (config : MpcConfig) : SignerConfig where
  localParticipantHost := config.localParticipantHost
  localParticipantPort := config.localParticipantPort
  keyShares := config.keyShares.map fun ks => ⟨ks.accountId, ks.keyShareData⟩
  sseHost := config.sseHost
  ssePort := config.ssePort
  threshold := config.threshold

/-- The parsers of the client, what `serde_json` writes for a value, and the order in which a
`HashMap` is iterated. -/
structure Reader (T J : Type) where
  yaml : T → Except String Yaml
  dict : T → Except String (Accounts J)
  valueToString : J → Except String String
  entries : Accounts J → List (Sigma fun _ : String => J)
  coe_entries : ∀ m, (entries m : Multiset (Sigma fun _ : String => J)) = m.entries

/-- `split("://")`. -/
def splitScheme : List Char → List (List Char)
  | [] => [[]]
  | ':' :: '/' :: '/' :: rest => [] :: splitScheme rest
  | c :: rest =>
    match splitScheme rest with
    | [] => [[c]]
    | part :: parts => (c :: part) :: parts

/-- The host and the port in the URL of the gateway. -/
def sseAddress (gatewayUrl : String) : Except String (String × UInt16) :=
  match (splitScheme gatewayUrl.toList)[1]? with
  | none => .error "Invalid gateway URL format"
  | some hostPort =>
    let parts := hostPort.splitOn ':'
    match parts[0]? with
    | none => .error "Invalid gateway URL: missing host"
    | some sseHost =>
      match parts[1]?.bind fun p => Sse.parseU16 (String.ofList p) with
      | none => .error "Invalid gateway URL: missing or invalid port"
      | some ssePort => .ok (String.ofList sseHost, ssePort)

def readToString (dir : Dir T R) (path : String) : Option T :=
  match dir path with
  | some (.text t) => some t
  | _ => none

section
variable (reader : Reader T J) (dir : Dir T R)

/-- The loop over the key shares dictionary. -/
def keyShareList : List (Sigma fun _ : String => J) → Except String (List KeyShare)
  | [] => .ok []
  | ⟨accountId, keyShareData⟩ :: rest =>
    match reader.valueToString keyShareData with
    | .error _ => .error ("Failed to serialize key share for account_id: " ++ accountId)
    | .ok keyShareJson => (keyShareList rest).map fun keyShares => ⟨accountId, keyShareJson⟩ :: keyShares

def readKeyShares (keyShareFile : String) : Except String (List KeyShare) :=
  match readToString dir keyShareFile with
  | none => .error ("Failed to read key share file: " ++ keyShareFile)
  | some keyShareContent =>
    match reader.dict keyShareContent with
    | .error _ => .error ("Failed to parse key shares file as JSON: " ++ keyShareFile)
    | .ok keySharesDict =>
      match keyShareList reader (reader.entries keySharesDict) with
      | .error e => .error e
      | .ok [] => .error ("No key shares found in file: " ++ keyShareFile)
      | .ok keyShares => .ok keyShares

def loadMpcConfig (configPath : String) : Except String MpcConfig := do
  let yamlContent ← okOr (readToString dir configPath)
    ("Failed to read config file: " ++ configPath)
  let config ← (reader.yaml yamlContent).mapError fun _ => "Failed to parse YAML config"
  let gateway ← okOr (config.get "gateway") "Missing gateway config"
  let localParticipant ← okOr (config.get "local_participant") "Missing local_participant config"
  let remoteServices ← okOr (config.get "remote_services") "Missing remote_services config"
  let signGateway ← okOr (remoteServices.get "sign_gateway") "Missing sign_gateway config"
  let mpc ← okOr (config.get "mpc") "Missing mpc config"
  let logging ← okOr (config.get "logging") "Missing logging config"
  let gatewayUrl ← okOr ((gateway.get "url").bind Yaml.asStr) "Missing gateway.url"
  let (sseHost, ssePort) ← sseAddress gatewayUrl
  let keyShareFile ← okOr ((localParticipant.get "key_share_file").bind Yaml.asStr)
    "Missing local_participant.key_share_file"
  let participantIndex ← okOr ((localParticipant.get "index").bind Yaml.asU64)
    "Missing local_participant.index"
  let keyShares ← readKeyShares reader dir keyShareFile
  let host ← okOr ((localParticipant.get "host").bind Yaml.asStr) "Missing local_participant.host"
  let port ← okOr ((localParticipant.get "port").bind Yaml.asU64) "Missing local_participant.port"
  let signGatewayHost ← okOr ((signGateway.get "participant_host").bind Yaml.asStr)
    "Missing sign_gateway.participant_host"
  let signGatewayPort ← okOr ((signGateway.get "participant_port").bind Yaml.asU64)
    "Missing sign_gateway.participant_port"
  let threshold ← okOr ((mpc.get "threshold").bind Yaml.asU64) "Missing mpc.threshold"
  let totalParticipants ← okOr ((mpc.get "total_participants").bind Yaml.asU64)
    "Missing mpc.total_participants"
  return {
    localParticipantHost := host
    localParticipantPort := port.toUInt16
    localParticipantIndex := participantIndex.toUInt16
    keyShares := keyShares
    signGatewayHost := signGatewayHost
    signGatewayPort := signGatewayPort.toUInt16
    sseHost := sseHost
    ssePort := ssePort
    threshold := threshold.toUInt16
    totalParticipants := totalParticipants.toUInt16
    logLevel := ((logging.get "level").bind Yaml.asStr).getD "info" }

/-- The key share file that the configuration at a path names. -/
def NamesKeyShareFile (configPath keyShareFile : String) : Prop :=
  ∃ yamlContent config localParticipant, readToString dir configPath = some yamlContent ∧
    reader.yaml yamlContent = .ok config ∧
    config.get "local_participant" = some localParticipant ∧
    (localParticipant.get "key_share_file").bind Yaml.asStr = some keyShareFile

end

/-- What an accepted configuration was read from. -/
structure ReadFrom (document : Yaml) (c : MpcConfig) : Prop where
  url : ∃ url, (document.at ["gateway", "url"]).bind Yaml.asStr = some url ∧
    sseAddress url = .ok (c.sseHost, c.ssePort)
  integers : ∀ e ∈ c.integers, ∃ n, (document.at e.1).bind Yaml.asU64 = some n ∧
    e.2 = n.toUInt16

/-- Where an accepted configuration has its parts from, its key shares from the file it names. -/
theorem loadMpcConfig_ok {reader : Reader T J} {dir : Dir T R}
    (h : loadMpcConfig reader dir configPath = .ok c)
    (hread : readToString dir configPath = some yamlContent)
    (hyaml : reader.yaml yamlContent = .ok document) : ReadFrom document c ∧ ∃ keyShareFile,
      (document.at ["local_participant", "key_share_file"]).bind Yaml.asStr = some keyShareFile ∧
      readKeyShares reader dir keyShareFile = .ok c.keyShares := by
  rw [loadMpcConfig] at h
  obtain ⟨yamlContent', hcontent, h⟩ := bind_eq_ok h
  cases hread.symm.trans (okOr_eq_ok hcontent)
  obtain ⟨config, hconfig, h⟩ := bind_eq_ok h
  cases hyaml.symm.trans (mapError_eq_ok hconfig)
  obtain ⟨gateway, hgateway, h⟩ := bind_eq_ok h
  obtain ⟨localParticipant, hlocal, h⟩ := bind_eq_ok h
  obtain ⟨remoteServices, hremote, h⟩ := bind_eq_ok h
  obtain ⟨signGateway, hsign, h⟩ := bind_eq_ok h
  obtain ⟨mpc, hmpc, h⟩ := bind_eq_ok h
  obtain ⟨logging, _, h⟩ := bind_eq_ok h
  obtain ⟨gatewayUrl, hurl, h⟩ := bind_eq_ok h
  obtain ⟨⟨sseHost, ssePort⟩, haddress, h⟩ := bind_eq_ok h
  obtain ⟨keyShareFile, hfile, h⟩ := bind_eq_ok h
  obtain ⟨participantIndex, hindex, h⟩ := bind_eq_ok h
  obtain ⟨keyShares, hshares, h⟩ := bind_eq_ok h
  obtain ⟨host, _, h⟩ := bind_eq_ok h
  obtain ⟨port, hport, h⟩ := bind_eq_ok h
  obtain ⟨signGatewayHost, _, h⟩ := bind_eq_ok h
  obtain ⟨signGatewayPort, hgatewayPort, h⟩ := bind_eq_ok h
  obtain ⟨threshold, hthreshold, h⟩ := bind_eq_ok h
  obtain ⟨totalParticipants, htotal, h⟩ := bind_eq_ok h
  cases h
  have hparticipant := Yaml.at_pair (okOr_eq_ok hlocal)
  have hservice := Yaml.at_triple (okOr_eq_ok hremote) (okOr_eq_ok hsign)
  have hquorum := Yaml.at_pair (okOr_eq_ok hmpc)
  refine ⟨⟨⟨gatewayUrl, ?_, haddress⟩, ?_⟩, keyShareFile, ?_, hshares⟩
  · rw [Yaml.at_pair (okOr_eq_ok hgateway)]
    exact okOr_eq_ok hurl
  · simp only [MpcConfig.integers, List.forall_mem_cons, hparticipant, hservice, hquorum]
    exact ⟨⟨port, okOr_eq_ok hport, rfl⟩, ⟨participantIndex, okOr_eq_ok hindex, rfl⟩,
      ⟨signGatewayPort, okOr_eq_ok hgatewayPort, rfl⟩, ⟨threshold, okOr_eq_ok hthreshold, rfl⟩,
      ⟨totalParticipants, okOr_eq_ok htotal, rfl⟩, List.forall_mem_nil _⟩
  · rw [hparticipant]
    exact okOr_eq_ok hfile

/-- A configuration that is accepted has the key shares of the file that it names. -/
theorem loadMpcConfig_keyShares {reader : Reader T J} {dir : Dir T R}
    (h : loadMpcConfig reader dir configPath = .ok c)
    (hf : NamesKeyShareFile reader dir configPath keyShareFile) :
    readKeyShares reader dir keyShareFile = .ok c.keyShares := by
  obtain ⟨yamlContent, document, localParticipant, hread, hyaml, hlocal, hfile⟩ := hf
  obtain ⟨_, file, hfile', hshares⟩ := loadMpcConfig_ok h hread hyaml
  rw [Yaml.at_pair hlocal] at hfile'
  cases hfile.symm.trans hfile'
  exact hshares

/-- The configuration of a client with a gateway on its own machine. -/
def sampleDocument (url : String) (threshold : UInt64) : Yaml :=
  .mapping [
    (.string "gateway", .mapping [(.string "url", .string url)]),
    (.string "local_participant", .mapping [
      (.string "host", .string "127.0.0.1"),
      (.string "port", .posInt 50051),
      (.string "index", .posInt 0),
      (.string "key_share_file", .string "key_shares_1.json")]),
    (.string "remote_services", .mapping [(.string "sign_gateway", .mapping [
      (.string "participant_host", .string "127.0.0.1"),
      (.string "participant_port", .posInt 50050)])]),
    (.string "mpc", .mapping [
      (.string "threshold", .posInt threshold),
      (.string "total_participants", .posInt 3)]),
    (.string "logging", .mapping [])]

end WalletMpc.Client
