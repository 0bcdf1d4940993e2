import WalletMpc.Quorum
import WalletMpc.ShareRuns

namespace WalletMpc.KeyGen
open Systems Proto Ecdsa Participant MpcClient
set_option autoImplicit true

/-- `load_key_shares` of the sign service. -/
def SerdeJson.loadKeyShares (json : SerdeJson c T R J) (dir : Dir T R) (keyShareFile : String) :
    Except String (Accounts (KeyShare c)) :=
  match Client.readToString dir keyShareFile with
  | none => .error ("Failed to read key share file " ++ keyShareFile)
  | some keyShareJson => (json.parseKeyShares keyShareJson).mapError fun _ =>
      "Key shares deserialization failed for " ++ keyShareFile

section
variable {c : Curve} {json : SerdeJson c T R J} {m : Accounts (KeyShare c)}

/-- The list that the client makes of the dictionary gives back the shares. -/
theorem keyShareList_ok (entries : List (Sigma fun _ : String => J))
    (h : ∀ e ∈ entries, (m.lookup e.1).map json.toValue = some e.2) :
    ∃ keyShares, Client.keyShareList json.reader entries = .ok keyShares ∧
      keyShares.length = entries.length ∧
      ∀ loaded, ∃ loaded', loadKeyShares json.platform
        (keyShares.map fun ks => ⟨ks.accountId, ks.keyShareData⟩) loaded = .ok loaded' ∧
        ∀ a, loaded'.lookup a =
          if a ∈ entries.map Sigma.fst then m.lookup a else loaded.lookup a := by
  induction entries with
  | nil => exact ⟨[], rfl, rfl, fun loaded => ⟨loaded, rfl, fun _ => rfl⟩⟩
  | cons e rest ih =>
    obtain ⟨accountId, value⟩ := e
    obtain ⟨keyShares, hlist, hlength, hload⟩ := ih fun e he => h e (List.mem_cons_of_mem _ he)
    obtain ⟨keyShare, hlookup, rfl⟩ := Option.map_eq_some_iff.1 (h _ List.mem_cons_self)
    obtain ⟨text, htext, hparse⟩ := json.parse_valueToString keyShare
    refine ⟨⟨accountId, text⟩ :: keyShares, ?_, congrArg Nat.succ hlength, ?_⟩
    · rw [Client.keyShareList]
      rw [htext, hlist]
      rfl
    · intro loaded
      obtain ⟨loaded', hok, hlookup'⟩ := hload (loaded.insert accountId keyShare)
      refine ⟨loaded', ?_, ?_⟩
      · rw [List.map_cons, loadKeyShares]
        rw [hparse]
        exact hok
      · intro a
        rw [hlookup' a, List.map_cons]
        by_cases hrest : a ∈ rest.map Sigma.fst
        · rw [if_pos hrest, if_pos (List.mem_cons_of_mem _ hrest)]
        · rw [if_neg hrest]
          by_cases ha : a = accountId
          · subst ha
            rw [Finmap.lookup_insert, if_pos List.mem_cons_self]
            exact hlookup.symm
          · have hcons : a ∉ accountId :: rest.map Sigma.fst :=
              fun hmem => (List.mem_cons.1 hmem).elim ha hrest
            rw [Finmap.lookup_insert_of_ne _ ha, if_neg hcons]

/-- The configuration of a client whose key share file has this content. -/
def ConfiguredWith (json : SerdeJson c T R J) (file : Content T R) (config : Client.MpcConfig) :
    Prop :=
  ∃ dir configPath keyShareFile, dir keyShareFile = some file ∧
    Client.NamesKeyShareFile json.reader dir configPath keyShareFile ∧
    Client.loadMpcConfig json.reader dir configPath = .ok config

/-- Both programs that read a key share file find these shares in it. -/
structure ReadAs (json : SerdeJson c T R J) (file : Content T R) (m : Accounts (KeyShare c)) :
    Prop where
  service : ∀ dir path, dir path = some file → json.loadKeyShares dir path = .ok m
  client : ∀ dir path, dir path = some file →
    ∃ keyShares, Client.readKeyShares json.reader dir path = .ok keyShares
  participant : ∀ config, ConfiguredWith json file config →
    loadKeyShares json.platform config.toSignerConfig.keyShares ∅ = .ok m
  nonempty : m.keys ≠ ∅

/-- A sign request for the account passes the check of the signer and those of a handler. -/
def Passes (config : SignerConfig) (m : Accounts (KeyShare c)) (accountId : String) : Prop :=
  ∀ (signer : Signer) (handler : ParticipantHandler c), signer.config = config →
    handler.keyShares = m → ∀ signTx executionId data,
      signer.sign signTx executionId data accountId = (signer.nextTxId.1,
        collect (signer.results signTx (signer.message executionId data accountId))) ∧
      ∃ keyShare, m.lookup accountId = some keyShare ∧
        handler.prepare (signer.message executionId data accountId) =
          .ok (.ethereum, keyShare, keyShare.i)

theorem readToString_text {dir : Dir T R} (h : dir path = some (.text t)) :
    Client.readToString dir path = some t := by
  rw [Client.readToString]
  rw [h]

theorem mem_entries_iff {accounts : Accounts J} (e : Sigma fun _ : String => J) :
    e ∈ json.reader.entries accounts ↔ accounts.lookup e.1 = some e.2 := by
  rw [← Multiset.mem_coe, json.reader.coe_entries, Finmap.lookup_eq_some_iff]

/-- The client reads the printed shares, and its participant gets them back. -/
theorem readKeyShares_print {dir : Dir T R} (henc : Encodes json.toValue m accounts)
    (hm : m.keys ≠ ∅) (hdir : dir path = some (.text (json.formats.print order accounts))) :
    ∃ keyShares, Client.readKeyShares json.reader dir path = .ok keyShares ∧
      loadKeyShares json.platform (keyShares.map fun ks => ⟨ks.accountId, ks.keyShareData⟩) ∅ =
        .ok m := by
  have hentries : ∀ e ∈ json.reader.entries accounts,
      (m.lookup e.1).map json.toValue = some e.2 := by
    intro e he
    exact (henc e.1).symm.trans ((mem_entries_iff e).1 he)
  obtain ⟨keyShares, hlist, hlength, hload⟩ := keyShareList_ok _ hentries
  obtain ⟨loaded, hok, hlookup⟩ := hload ∅
  have hloaded : loaded = m := by
    apply Finmap.ext_lookup
    intro a
    rw [hlookup a]
    split
    · rfl
    · rename_i ha
      cases hma : m.lookup a with
      | none => rfl
      | some keyShare =>
        have hvalue : accounts.lookup a = some (json.toValue keyShare) := by
          rw [henc a, hma]
          rfl
        exact absurd (List.mem_map_of_mem ((mem_entries_iff ⟨a, _⟩).2 hvalue)) ha
  subst hloaded
  have hsome : keyShares ≠ [] := by
    rintro rfl
    cases hok
    exact hm rfl
  refine ⟨keyShares, ?_, hok⟩
  rw [Client.readKeyShares]
  rw [readToString_text hdir]
  dsimp only
  rw [json.reader_dict, json.formats.parse_print]
  dsimp only
  rw [hlist]
  cases keyShares with
  | nil => exact absurd rfl hsome
  | cons first rest => rfl

theorem ReadAs.print (order : Nat) (henc : Encodes json.toValue m accounts) (hm : m.keys ≠ ∅) :
    ReadAs json (.text (json.formats.print order accounts)) m where
  service dir path hdir := by
    rw [SerdeJson.loadKeyShares]
    rw [readToString_text hdir]
    dsimp only
    rw [json.parseKeyShares_print order m accounts henc]
    rfl
  client dir path hdir := by
    obtain ⟨keyShares, hread, _⟩ := readKeyShares_print henc hm hdir
    exact ⟨keyShares, hread⟩
  participant config hc := by
    obtain ⟨dir, configPath, keyShareFile, hdir, hnames, hload⟩ := hc
    obtain ⟨keyShares, hread, hok⟩ := readKeyShares_print henc hm hdir
    cases hread.symm.trans (Client.loadMpcConfig_keyShares hload hnames)
    exact hok
  nonempty := hm

/-- Every account with a name that the participant has loaded can be signed for. -/
theorem passes_of_loaded {config : SignerConfig}
    (h : loadKeyShares json.platform config.keyShares ∅ = .ok m) (ha : a ∈ m) (hne : a ≠ "") :
    Passes config m a := by
  intro signer handler hsigner hhandler signTx executionId data
  subst hsigner hhandler
  obtain ⟨keyShare, hlookup⟩ := Finmap.mem_iff.1 ha
  have hknown := keyShare_known ((keyShare_of_loaded h a).symm.trans hlookup)
  apply And.intro
  · rw [Signer.sign, if_pos hknown]
  · exact ⟨keyShare, hlookup, ParticipantHandler.prepare_eq rfl hne hlookup⟩

/-- Both loaders get the shares last written, and can use all but one under the empty name. -/
theorem loaders_agree {trusted : Nat → TrustedDealer (KeyShare c)}
    (h : (dealtRuns json trusted isKeyOf p).Reachable s)
    (hf : s.dir (baseFilename p i) = some file) :
    ∃ m, (∀ a, m.lookup a = lastShare s.runs a i) ∧ ReadAs json file m ∧
      ∀ config, ConfiguredWith json file config →
        ∀ a ∈ m, a ≠ "" → Passes config.toSignerConfig m a := by
  obtain ⟨m, hm, hlast⟩ := holds_of_reachable h i
  exists m, hlast
  obtain ⟨hnone, _⟩ | ⟨order, accounts, henc, hne, htext⟩ := hm.plain
  · cases hf.symm.trans hnone
  · cases hf.symm.trans htext
    have hread := ReadAs.print order henc hne
    apply And.intro hread
    intro config hc a ha hname
    exact passes_of_loaded (hread.participant config hc) ha hname

end

/-- The texts of the small instance: a key share file, and the configuration of a client. -/
inductive Document where
  | keyShares (accounts : Accounts (KeyShare tiny))
  | config

def tinyFormats : Formats Document Unit (KeyShare tiny) where
  parse
    | .keyShares accounts => .ok accounts
    | .config => .error "expected value"
  print _ := .keyShares
  parse_print _ _ := rfl
  recipient _ := .ok ()

/-- A share as one number: its position and the discrete logarithm of its key. -/
def tinyNumber (keyShare : KeyShare tiny) : Nat :=
  31 * keyShare.i.toNat + ZMod.val (n := 31) keyShare.sharedPublicKey

def tinyPrint (keyShare : KeyShare tiny) : String :=
  String.ofList (Nat.toDigits 10 (tinyNumber keyShare))

def tinyParse (text : String) : Except String (KeyShare tiny) :=
  match Decimals.parse text.toList with
  | none => .error "expected value"
  | some n =>
    if h : ((n : ZMod 31) : tiny.Point) ≠ 0 then .ok ⟨UInt16.ofNat (n / 31), _, h⟩
    else .error "zero point"

theorem tinyParse_tinyPrint (keyShare : KeyShare tiny) :
    tinyParse (tinyPrint keyShare) = .ok keyShare := by
  obtain ⟨i, key, hkey⟩ := keyShare
  have hlt : ZMod.val (n := 31) key < 31 := ZMod.val_lt (n := 31) key
  have hposition : tinyNumber ⟨i, key, hkey⟩ / 31 = i.toNat := by
    change (31 * i.toNat + ZMod.val (n := 31) key) / 31 = i.toNat
    omega
  have hpoint : ((tinyNumber ⟨i, key, hkey⟩ : Nat) : ZMod 31) = key := by
    rw [tinyNumber, Nat.cast_add, Nat.cast_mul, ZMod.natCast_self, zero_mul, zero_add]
    exact ZMod.natCast_zmod_val (n := 31) key
  rw [tinyParse, tinyPrint, String.toList_ofList, Decimals.parse_toDigits]
  dsimp only
  have hne : ((tinyNumber ⟨i, key, hkey⟩ : ZMod 31) : tiny.Point) ≠ 0 := hpoint.symm ▸ hkey
  rw [dif_pos hne]
  simp only [hposition, UInt16.ofNat_toNat, hpoint]

noncomputable def tinyJson : SerdeJson tiny Document Unit (KeyShare tiny) where
  formats := tinyFormats
  platform := { tinyPlatform with parseKeyShare := tinyParse }
  reader :=
    { yaml := fun text =>
        match text with
        | .config => .ok (Client.sampleDocument "http://127.0.0.1:8080" 2)
        | .keyShares _ => .error "invalid type: map"
      dict := tinyFormats.parse
      valueToString := fun keyShare => .ok (tinyPrint keyShare)
      entries := fun m => m.entries.toList
      coe_entries := fun m => m.entries.coe_toList }
  toValue := id
  parseKeyShares := tinyFormats.parse
  reader_dict := rfl
  parse_valueToString keyShare := ⟨_, rfl, tinyParse_tinyPrint keyShare⟩
  parseKeyShares_print order m accounts henc := by
    have hm : accounts = m := Finmap.ext_lookup fun a => (henc a).trans Option.map_id_apply
    rw [hm]
    rfl

def accountConfig (a : String) : KeyGenConfig :=
  { tinyConfig 2 2 with accountId := a }

def tinyIsKey (childKey : Bytes) (keyShare : KeyShare tiny) : Bool :=
  keyShare.sharedPublicKey = (BigEndian.toNat childKey : tiny.Scalar) • tiny.gen

noncomputable abbrev tinyRuns : System (DealtFiles Document Unit (KeyShare tiny)) KeyGenConfig :=
  dealtRuns tinyJson (fun _ => tinyDealer) tinyIsKey "key_shares"

/-- The files after one run for an account. -/
theorem tinyRuns_account (a : String) : ∃ s, tinyRuns.Reachable s ∧
    s.runs = [(accountConfig a, tinyShares 2 tinyKey tinyKey_ne)] := by
  let keyShares := tinyShares 2 tinyKey tinyKey_ne
  let dealer : KeyShareDealer (KeyShare tiny) := ⟨accountConfig a, none, rfl⟩
  let files := saveFrom tinyFormats id (accountConfig a) 0 keyShares (fun _ => none)
  have hsaved : files.2 = .ok () := by
    rw [saveFrom_ok_iff]
    intro i _
    exact not_blocked rfl rfl keyShares[i]
  have hstart : tinyRuns.Reachable ⟨fun _ => none, []⟩ := .start ⟨fun _ => ⟨rfl, rfl⟩, rfl⟩
  have hdealt : dealer.generateShares tinyDealer 31 =
      .ok { dealer with keyShares := some keyShares } := rfl
  exact ⟨⟨files.1, _⟩, hstart.next ⟨rfl, rfl, dealer, _, keyShares, id, rfl, hdealt, rfl, rfl,
    Prod.ext rfl hsaved, rfl⟩, rfl⟩

/-- A disk with the configuration of the client and its key share file. -/
def tinyDisk (file : Content Document Unit) : Dir Document Unit
  | "config.yaml" => some (.text .config)
  | "key_shares_1.json" => some file
  | _ => none

theorem tinyDisk_configured {file : Content Document Unit} (h : ReadAs tinyJson file m) :
    ∃ config, ConfiguredWith tinyJson file config := by
  obtain ⟨keyShares, hread⟩ := h.client (tinyDisk file) "key_shares_1.json" rfl
  have hloaded : Client.loadMpcConfig tinyJson.reader (tinyDisk file) "config.yaml" =
      (Client.readKeyShares tinyJson.reader (tinyDisk file) "key_shares_1.json").map
        (⟨"127.0.0.1", 50051, 0, ·, "127.0.0.1", 50050, "127.0.0.1", 8080, 2, 3, "info"⟩) := by
    rfl
  rw [hread] at hloaded
  exact ⟨_, tinyDisk file, "config.yaml", "key_shares_1.json", rfl,
    ⟨.config, _, _, rfl, rfl, rfl, rfl⟩, hloaded⟩

theorem loaders_agree_alice : ∃ s file, tinyRuns.Reachable s ∧
    s.dir (baseFilename "key_shares" 0) = some file ∧
    ∃ m, (∀ a, m.lookup a = lastShare s.runs a 0) ∧ ReadAs tinyJson file m ∧
      ∀ config, ConfiguredWith tinyJson file config →
        ∀ a ∈ m, a ≠ "" → Passes config.toSignerConfig m a := by
  obtain ⟨s, hs, hruns⟩ := tinyRuns_account "alice"
  have hlast : lastShare s.runs "alice" 0 = some ⟨0, tinyKey, tinyKey_ne⟩ := by
    rw [hruns]
    rfl
  obtain ⟨file, hfile⟩ := file_of_lastShare hs hlast
  exact ⟨s, file, hs, hfile, loaders_agree hs hfile⟩

/-- A share dealt for the empty name is loaded on both sides, and no handler signs with it. -/
theorem unnamed_refused : ∃ s file m config, tinyRuns.Reachable s ∧
    s.dir (baseFilename "key_shares" 0) = some file ∧
    (∀ a, m.lookup a = lastShare s.runs a 0) ∧ ReadAs tinyJson file m ∧
    ConfiguredWith tinyJson file config ∧ "" ∈ m ∧
    (∀ handler : ParticipantHandler tiny, ∀ signer : Signer, ∀ executionId data,
      handler.prepare (signer.message executionId data "") =
        .error ⟨.invalidArgument, "account_id cannot be empty"⟩) ∧
    ¬Passes config.toSignerConfig m "" := by
  obtain ⟨s, hs, hruns⟩ := tinyRuns_account ""
  have hlast : lastShare s.runs "" 0 = some ⟨0, tinyKey, tinyKey_ne⟩ := by
    rw [hruns]
    rfl
  obtain ⟨m, hm, hlookup⟩ := holds_of_reachable hs 0
  obtain ⟨hnone, rfl⟩ | ⟨order, accounts, henc, hne, htext⟩ := hm.plain
  · cases (hlookup "").trans hlast
  · have hread := ReadAs.print order henc hne
    obtain ⟨config, hconfig⟩ := tinyDisk_configured hread
    have hrefused : ∀ handler : ParticipantHandler tiny, ∀ signer : Signer, ∀ executionId data,
        handler.prepare (signer.message executionId data "") =
          .error ⟨.invalidArgument, "account_id cannot be empty"⟩ :=
      fun handler signer executionId data => ParticipantHandler.prepare_unnamed rfl rfl
    refine ⟨s, _, m, config, hs, htext, hlookup, hread, hconfig,
      Finmap.mem_of_lookup_eq_some ((hlookup "").trans hlast), hrefused, ?_⟩
    intro hpasses
    let signer : Signer := ⟨config.toSignerConfig, none, none, [.gateway], 0, 0⟩
    obtain ⟨_, keyShare, _, hprepare⟩ := hpasses signer ⟨m, hne⟩ rfl rfl
      (fun _ _ _ => .ok ⟨[], [], 0⟩) [] []
    cases (hrefused ⟨m, hne⟩ signer [] []).symm.trans hprepare

end WalletMpc.KeyGen
