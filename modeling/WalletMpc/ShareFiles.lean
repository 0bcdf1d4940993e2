import WalletMpc.Fallible
import WalletMpc.Systems
import WalletMpc.LastWrites
import WalletMpc.Atomicity

namespace WalletMpc.KeyGen
open Fallible Systems Proto LastWrites
set_option autoImplicit true

def KeyShareDealer.verifyPublicKey (dealer : KeyShareDealer V) (isKeyOf : Bytes → V → Bool) :
    Except Failure Unit :=
  match dealer.keyShares with
  | none => .error (.error "Key shares not generated yet. Call generate_shares() first")
  | some keyShares =>
    match keyShares[0]? with
    | none => .error .panic
    | some keyShare =>
      if isKeyOf dealer.config.childKey keyShare then .ok ()
      else .error (.error "❌ MISMATCH: Public keys don't match! Key generation may have failed.")

theorem KeyShareDealer.verifyPublicKey_ok {dealer : KeyShareDealer V} {keyShares : List V}
    (hs : dealer.keyShares = some keyShares) (h0 : keyShares[0]? = some keyShare)
    (hk : isKeyOf dealer.config.childKey keyShare = true) :
    dealer.verifyPublicKey isKeyOf = .ok () := by
  rw [KeyShareDealer.verifyPublicKey]
  rw [hs]
  dsimp only
  rw [h0]
  exact if_pos hk

/-- What key-gen runs with: the dealer, the order of its group, the comparison of a child key
with the shared public key of a share, and the file formats. -/
structure Tools (T R V : Type) where
  trusted : TrustedDealer V
  groupOrder : Nat
  isKeyOf : Bytes → V → Bool
  formats : Formats T R V

/-- `main` from the configuration on. -/
def main (tools : Tools T R V) (order : Nat → Nat) (config : KeyGenConfig) (dir : Dir T R) :
    Dir T R × Except Failure Unit :=
  match KeyShareDealer.new config with
  | .error e => (dir, .error (.error e))
  | .ok dealer =>
    match dealer.generateShares tools.trusted tools.groupOrder with
    | .error e => (dir, .error (.error e))
    | .ok dealer =>
      match dealer.verifyPublicKey tools.isKeyOf with
      | .error failure => (dir, .error failure)
      | .ok () => dealer.saveToFiles tools.formats order dir

theorem KeyShareDealer.new_eq {config : KeyGenConfig} (h : validateConfig config = .ok ()) :
    (KeyShareDealer.new config : Except String (KeyShareDealer V)) = .ok ⟨config, none, h⟩ := by
  rw [KeyShareDealer.new]
  split
  · rename_i e he
    cases h.symm.trans he
  · rfl

theorem KeyShareDealer.new_ok {config : KeyGenConfig} {dealer : KeyShareDealer V}
    (h : KeyShareDealer.new config = .ok dealer) : dealer.config = config := by
  rw [KeyShareDealer.new] at h
  split at h
  · cases h
  · cases h
    rfl

/-- A run that returns Ok saved shares that were dealt for its configuration. -/
theorem main_ok {tools : Tools T R V} (h : main tools order config dir = (dir', .ok ())) :
    validateConfig config = .ok () ∧ ∃ secret keyShares,
      tools.trusted.generate config.nParties config.threshold secret = .ok keyShares ∧
      saveFrom tools.formats order config 0 keyShares dir = (dir', .ok ()) := by
  rw [main] at h
  cases hn : (KeyShareDealer.new config : Except String (KeyShareDealer V)) with
  | error e =>
    rw [hn] at h
    cases h
  | ok dealer =>
    rw [hn] at h
    dsimp only at h
    have hvalid := dealer.valid
    have hconfig := KeyShareDealer.new_ok hn
    cases hg : dealer.generateShares tools.trusted tools.groupOrder with
    | error e =>
      rw [hg] at h
      cases h
    | ok dealt =>
      obtain ⟨secret, keyShares, hdealt, rfl⟩ := KeyShareDealer.generateShares_ok hg
      rw [hg] at h
      dsimp only at h
      rw [hconfig] at hvalid hdealt
      apply And.intro hvalid
      exists secret, keyShares, hdealt
      split at h
      · cases h
      · rw [← hconfig]
        exact h

theorem main_eq (tools : Tools T R V) {config : KeyGenConfig} {dealer dealt : KeyShareDealer V}
    (hn : KeyShareDealer.new config = .ok dealer)
    (hg : dealer.generateShares tools.trusted tools.groupOrder = .ok dealt)
    (hv : dealt.verifyPublicKey tools.isKeyOf = .ok ()) (order : Nat → Nat) (dir : Dir T R) :
    main tools order config dir = dealt.saveToFiles tools.formats order dir := by
  rw [main]
  rw [hn]
  dsimp only
  rw [hg]
  dsimp only
  rw [hv]

/-- What the file of a party holds after a plain run. -/
theorem saveFrom_plain {formats : Formats T R V} (hp : config.pubkeys = none)
    (h : saveFrom formats order config 0 keyShares dir = (dir', .ok ()))
    (hread : existingAccounts formats config.outputPrefix dir i = .ok accounts) :
    existingAccounts formats config.outputPrefix dir' i =
      .ok (keyShares[i]?.elim accounts fun keyShare =>
        accounts.insert config.accountId keyShare) := by
  cases hk : keyShares[i]? with
  | none =>
    obtain ⟨hb, he⟩ := saveFrom_other h (List.getElem?_eq_none_iff.1 hk)
    rw [Nat.zero_add] at hb he
    rw [existingAccounts_congr hb he]
    exact hread
  | some keyShare =>
    obtain ⟨file, content, hw, hwritten, hother⟩ := saveFrom_party h hk
    rw [Nat.zero_add] at hw hother
    obtain ⟨henc, allAccounts, hall, ⟨_, rfl, rfl⟩ | ⟨_, _, _, hp', _⟩⟩ := partyFile_ok hw
    · cases hread.symm.trans hall
      have hne := baseFilename_ne_encryptedFilename config.outputPrefix i i
      rw [existingAccounts]
      rw [hother _ (.inr rfl) hne.symm, henc, hwritten]
      dsimp only
      rw [formats.parse_print]
      rfl
    · cases hp.symm.trans hp'

/-- A share and the number of the `generate_shares` call that it comes from. -/
structure Issued (S : Type) where
  call : Nat
  share : S

def TrustedDealer.issue (trusted : TrustedDealer S) (call : Nat) : TrustedDealer (Issued S) where
  generate n t secret := (trusted.generate n t secret).map fun shares => shares.map (.mk call)
  length_eq := by
    intro n t secret issued h
    obtain ⟨shares, hg, rfl⟩ := map_eq_ok h
    rw [List.length_map]
    exact trusted.length_eq hg

theorem TrustedDealer.call_of_issue {trusted : TrustedDealer S}
    (h : (trusted.issue call).generate n t secret = .ok issued) (hs : share ∈ issued) :
    share.call = call := by
  obtain ⟨shares, _, rfl⟩ := map_eq_ok h
  obtain ⟨s, _, rfl⟩ := List.mem_map.1 hs
  rfl

structure Prefix (T R : Type) where
  dir : Dir T R
  runs : List KeyGenConfig

/-- What each run on a prefix brings with it: what its dealer draws is its own, the group, the
comparison of keys and the formats are those of every run. -/
structure Runs (T R S : Type) where
  trusted : Nat → TrustedDealer S
  groupOrder : Nat
  isKeyOf : Bytes → Issued S → Bool
  formats : Formats T R (Issued S)

def Runs.tools (r : Runs T R S) (call : Nat) : Tools T R (Issued S) :=
  ⟨(r.trusted call).issue call, r.groupOrder, r.isKeyOf, r.formats⟩

/-- Runs in plain mode on one output prefix, from no files, that all return Ok. -/
def plainRuns (r : Runs T R S) (outputPrefix : String) : System (Prefix T R) KeyGenConfig where
  start s := (∀ i, s.dir (baseFilename outputPrefix i) = none ∧
    s.dir (encryptedFilename outputPrefix i) = none) ∧ s.runs = []
  step s config t := config.outputPrefix = outputPrefix ∧ config.pubkeys = none ∧
    t.runs = s.runs ++ [config] ∧
    ∃ order, main (r.tools s.runs.length) order config s.dir = (t.dir, .ok ())

def Stored (formats : Formats T R V) (outputPrefix : String) (dir : Dir T R) (accountId : String)
    (i : Nat) (keyShare : V) : Prop :=
  ∃ t accounts, dir (baseFilename outputPrefix i) = some (.text t) ∧
    formats.parse t = .ok accounts ∧ accounts.lookup accountId = some keyShare

/-- All the shares stored under an account come from one call. -/
def Together (formats : Formats T R (Issued S)) (outputPrefix : String) (dir : Dir T R)
    (accountId : String) : Prop :=
  ∃ call, ∀ i share, Stored formats outputPrefix dir accountId i share → share.call = call

def Writes (accountId : String) (config : KeyGenConfig) (i : Nat) : Prop :=
  config.accountId = accountId ∧ i < config.nParties.toNat

theorem stored_iff {formats : Formats T R V}
    (h : existingAccounts formats p dir i = .ok accounts) :
    Stored formats p dir a i keyShare ↔ accounts.lookup a = some keyShare := by
  rw [existingAccounts] at h
  rw [Stored]
  split at h
  · cases h
  · split at h
    · rename_i hb
      cases h
      rw [hb]
      apply Iff.intro
      · intro hs
        obtain ⟨_, _, ht, _⟩ := hs
        cases ht
      · intro hl
        cases hl
    · cases h
    · rename_i t hb
      rw [hb]
      cases hp : formats.parse t with
      | error e =>
        rw [hp] at h
        cases h
      | ok read =>
        rw [hp] at h
        cases h
        apply Iff.intro
        · intro hs
          obtain ⟨_, _, ht, hparse, hl⟩ := hs
          cases ht
          cases hp.symm.trans hparse
          exact hl
        · intro hl
          exact ⟨t, _, rfl, hp, hl⟩

/-- Every file can be read, and holds under an account a share of the last run for the account
that had a party of its number. -/
structure Prefix.Inv (r : Runs T R S) (outputPrefix : String) (s : Prefix T R) : Prop where
  accepted : ∀ config ∈ s.runs, 2 ≤ config.nParties.toNat
  readable : ∀ i, ∃ accounts, existingAccounts r.formats outputPrefix s.dir i = .ok accounts
  tracks : ∀ a, Tracks (Writes a) s.runs fun i k =>
    ∃ share, Stored r.formats outputPrefix s.dir a i share ∧ share.call = k

theorem inv_start {r : Runs T R S} (h : (plainRuns r p).start s) : s.Inv r p := by
  obtain ⟨hfresh, hruns⟩ := h
  have hread : ∀ i, existingAccounts r.formats p s.dir i = .ok ∅ := by
    intro i
    rw [existingAccounts]
    rw [(hfresh i).1, (hfresh i).2]
  have hnone : ∀ a i k,
      ¬∃ share, Stored r.formats p s.dir a i share ∧ share.call = k := by
    intro a i k hs
    obtain ⟨share, hs, _⟩ := hs
    rw [stored_iff (hread i)] at hs
    cases hs
  constructor
  case accepted =>
    rw [hruns]
    exact List.forall_mem_nil _
  case readable => exact fun i => ⟨∅, hread i⟩
  case tracks =>
    intro a
    rw [hruns]
    exact tracks_nil (hnone a)

theorem stored_of_writes {formats : Formats T R V} (hp : config.pubkeys = none)
    (h : saveFrom formats order config 0 keyShares dir = (dir', .ok ()))
    (hread : existingAccounts formats config.outputPrefix dir i = .ok accounts)
    (hi : keyShares[i]? = some keyShare) :
    Stored formats config.outputPrefix dir' config.accountId i share ↔ share = keyShare := by
  have hnew := saveFrom_plain hp h hread
  rw [hi] at hnew
  rw [stored_iff hnew, Option.elim_some, Finmap.lookup_insert, Option.some.injEq]
  exact eq_comm

theorem stored_of_not_writes {formats : Formats T R V} (hp : config.pubkeys = none)
    (h : saveFrom formats order config 0 keyShares dir = (dir', .ok ()))
    (hread : existingAccounts formats config.outputPrefix dir i = .ok accounts)
    (hw : ¬(config.accountId = a ∧ i < keyShares.length)) :
    Stored formats config.outputPrefix dir' a i share ↔
      Stored formats config.outputPrefix dir a i share := by
  rw [stored_iff (saveFrom_plain hp h hread), stored_iff hread]
  cases hi : keyShares[i]? with
  | none => exact Iff.rfl
  | some keyShare =>
    obtain ⟨hlt, _⟩ := List.getElem?_eq_some_iff.1 hi
    have hne : a ≠ config.accountId := fun he => hw ⟨he.symm, hlt⟩
    rw [Option.elim_some, Finmap.lookup_insert_of_ne _ hne]

theorem inv_step {r : Runs T R S} (hi : s.Inv r p) (h : (plainRuns r p).step s config t) :
    t.Inv r p := by
  obtain ⟨rfl, hplain, hruns, order, hmain⟩ := h
  obtain ⟨hvalid, secret, keyShares, hdealt, hsave⟩ := main_ok hmain
  have hlength := (r.tools s.runs.length).trusted.length_eq hdealt
  constructor
  case accepted =>
    obtain ⟨ht, hn⟩ := validateConfig_ok.1 hvalid
    rw [hruns, List.forall_mem_append, List.forall_mem_singleton]
    exact ⟨hi.accepted, Nat.le_trans ht hn⟩
  case readable =>
    intro i
    obtain ⟨accounts, ha⟩ := hi.readable i
    exact ⟨_, saveFrom_plain hplain hsave ha⟩
  case tracks =>
    intro a
    rw [hruns]
    apply (hi.tracks a).concat
    · intro i k hw
      obtain ⟨rfl, hlt⟩ := hw
      obtain ⟨accounts, ha⟩ := hi.readable i
      have hat : keyShares[i]? = some keyShares[i] := List.getElem?_eq_getElem (by omega)
      have hcall : keyShares[i].call = s.runs.length :=
        TrustedDealer.call_of_issue hdealt (List.getElem_mem _)
      have hnew : ∀ share, Stored r.formats config.outputPrefix t.dir config.accountId i share ↔
          share = keyShares[i] := fun share => stored_of_writes hplain hsave ha hat
      simp only [hnew, exists_eq_left, hcall]
      exact eq_comm
    · intro i k hw
      obtain ⟨accounts, ha⟩ := hi.readable i
      rw [Writes, ← hlength] at hw
      have hsame : ∀ share, Stored r.formats config.outputPrefix t.dir a i share ↔
          Stored r.formats config.outputPrefix s.dir a i share :=
        fun share => stored_of_not_writes hplain hsave ha hw
      simp only [hsame]

theorem inv_of_reachable {r : Runs T R S} (h : (plainRuns r p).Reachable s) : s.Inv r p :=
  h.invariant (fun _ h0 => inv_start h0) fun _ _ _ _ hi hst => inv_step hi hst

/-- The last run for an account has as many parties as any run for it, or more. -/
def LastLargest (runs : List KeyGenConfig) (accountId : String) : Prop :=
  ∀ (m : Nat) (config : KeyGenConfig), runs[m]? = some config → config.accountId = accountId →
    (∀ (m' : Nat) (config' : KeyGenConfig), m < m' → runs[m']? = some config' →
      config'.accountId ≠ accountId) →
    ∀ config' ∈ runs, config'.accountId = accountId → config'.nParties ≤ config.nParties

theorem latest_run_iff {runs : List KeyGenConfig} (h : ∀ config ∈ runs, 2 ≤ config.nParties.toNat) :
    Latest (fun config (_ : Unit) => ∃ i, Writes a config i) runs () m ↔
      ∃ config, runs[m]? = some config ∧ config.accountId = a ∧
        ∀ (m' : Nat) (config' : KeyGenConfig), m < m' → runs[m']? = some config' →
          config'.accountId ≠ a := by
  have hw : ∀ {k : Nat} {config : KeyGenConfig}, runs[k]? = some config →
      ((∃ i, Writes a config i) ↔ config.accountId = a) := by
    intro k config hk
    have hn := h config (List.mem_of_getElem? hk)
    exact ⟨fun ⟨_, ha, _⟩ => ha, fun ha => ⟨0, ha, by omega⟩⟩
  apply exists_congr
  intro config
  apply and_congr_right
  intro hm
  apply and_congr (hw hm)
  apply forall₄_congr
  intro m' config' _ hm'
  exact not_congr (hw hm')

/-- The shares of an account belong together when no larger sharing of it came before. -/
theorem Prefix.Inv.together_account_iff {r : Runs T R S} {s : Prefix T R} (hi : s.Inv r p) (a : String) :
    Together r.formats p s.dir a ↔ LastLargest s.runs a := by
  have htracks := (hi.tracks a).single_iff
  have htogether : Together r.formats p s.dir a ↔ ∃ call, ∀ i k,
      (∃ share, Stored r.formats p s.dir a i share ∧ share.call = k) → k = call := by
    apply exists_congr
    intro call
    apply Iff.intro
    · intro h i k hs
      obtain ⟨share, hs, rfl⟩ := hs
      exact h i share hs
    · intro h i share hs
      exact h i share.call ⟨share, hs, rfl⟩
  rw [htogether, htracks]
  apply Iff.intro
  · intro h m config hm ha hlater config' hconfig' ha'
    have hlast := (latest_run_iff hi.accepted).2 ⟨config, hm, ha, hlater⟩
    have hcovers := h m config hlast hm config' hconfig'
    rw [UInt16.le_iff_toNat_le]
    apply Nat.le_of_not_lt
    intro hlt
    obtain ⟨_, hirrefl⟩ := hcovers config.nParties.toNat ⟨ha', hlt⟩
    exact Nat.lt_irrefl _ hirrefl
  · intro h m config hlast hm config' hconfig' i hw
    obtain ⟨ha', hlt⟩ := hw
    obtain ⟨_, hm', ha, hlater⟩ := (latest_run_iff hi.accepted).1 hlast
    cases hm.symm.trans hm'
    have hle := h m config hm ha hlater config' hconfig' ha'
    rw [UInt16.le_iff_toNat_le] at hle
    exact ⟨ha, Nat.lt_of_lt_of_le hlt hle⟩

/-- After plain runs the shares of every account belong together just when the last run for
each account was one with the most parties. -/
theorem together_iff {r : Runs T R S} (h : (plainRuns r p).Reachable s) :
    (∀ a, Together r.formats p s.dir a) ↔ ∀ a, LastLargest s.runs a :=
  forall_congr' (inv_of_reachable h).together_account_iff

theorem not_blocked {formats : Formats T R V} (hp : config.pubkeys = none)
    (h : existingAccounts formats config.outputPrefix dir i = .ok accounts) (keyShare : V) :
    ¬Blocked formats config dir i := by
  intro hb
  have hok : partyFile formats id config dir i keyShare =
      .ok (baseFilename config.outputPrefix i,
        .text (formats.print i (accounts.insert config.accountId keyShare))) := by
    rw [partyFile]
    rw [h, hp]
    rfl
  exact hb.not_ok hok

/-- A further plain run whose shares are dealt and verified returns Ok. -/
theorem plainRuns_next {r : Runs T R S} (h : (plainRuns r p).Reachable s) {config : KeyGenConfig}
    {dealer dealt : KeyShareDealer (Issued S)} (hp : config.outputPrefix = p)
    (hplain : config.pubkeys = none) (hn : KeyShareDealer.new config = .ok dealer)
    (hg : dealer.generateShares (r.tools s.runs.length).trusted r.groupOrder = .ok dealt)
    (hv : dealt.verifyPublicKey r.isKeyOf = .ok ()) :
    ∃ t, (plainRuns r p).step s config t := by
  have hsave : (dealt.saveToFiles r.formats id s.dir).2 = .ok () := by
    obtain ⟨secret, keyShares, _, rfl⟩ := KeyShareDealer.generateShares_ok hg
    change (saveFrom r.formats id dealer.config 0 keyShares s.dir).2 = .ok ()
    rw [saveFrom_ok_iff, KeyShareDealer.new_ok hn]
    intro f hf
    obtain ⟨accounts, ha⟩ := (inv_of_reachable h).readable (0 + f)
    rw [← hp] at ha
    exact not_blocked hplain ha keyShares[f]
  have hmain := main_eq (r.tools s.runs.length) hn hg hv id s.dir
  cases hr : dealt.saveToFiles r.formats id s.dir with
  | mk dir' result =>
    rw [hr] at hsave
    dsimp only at hsave
    rw [hsave] at hr
    exact ⟨⟨dir', s.runs ++ [config]⟩, hp, hplain, rfl, id, hmain.trans hr⟩

/-- Runs in which every party is dealt the secret itself. -/
def copyRuns : Runs (Option (Accounts (Issued Nat))) String Nat where
  trusted _ :=
    { generate := fun n _ secret => .ok (List.replicate n.toNat secret)
      length_eq := by
        intro n t secret shares h
        cases h
        exact List.length_replicate }
  groupOrder := 2 ^ 256
  isKeyOf childKey share := BigEndian.toNat childKey == share.share
  formats := mapFormats

def aliceConfig (n : UInt16) : KeyGenConfig :=
  ⟨n, 2, "alice", List.replicate 32 1, "key_shares", none⟩

theorem copyRuns_next (h : (plainRuns copyRuns "key_shares").Reachable s) (n : UInt16)
    (hn : 2 ≤ n.toNat) : ∃ t, (plainRuns copyRuns "key_shares").Reachable t ∧
      t.runs = s.runs ++ [aliceConfig n] := by
  have hvalid : validateConfig (aliceConfig n) = .ok () :=
    validateConfig_ok.2 ⟨Nat.le_refl 2, hn⟩
  let secret := BigEndian.toNat (List.replicate 32 1)
  let keyShares := (List.replicate n.toNat secret).map (Issued.mk s.runs.length)
  have hfirst : keyShares[0]? = some ⟨s.runs.length, secret⟩ := by
    rw [List.getElem?_map, List.getElem?_replicate, if_pos (by omega)]
    rfl
  have hkey : copyRuns.isKeyOf (aliceConfig n).childKey ⟨s.runs.length, secret⟩ = true :=
    beq_self_eq_true secret
  have hverify : KeyShareDealer.verifyPublicKey ⟨aliceConfig n, some keyShares, hvalid⟩
      copyRuns.isKeyOf = .ok () := KeyShareDealer.verifyPublicKey_ok rfl hfirst hkey
  obtain ⟨t, ht⟩ := plainRuns_next h rfl rfl (KeyShareDealer.new_eq hvalid) rfl hverify
  exact ⟨t, h.next ht, ht.2.2.1⟩

theorem copyRuns_start : (plainRuns copyRuns "key_shares").Reachable ⟨fun _ => none, []⟩ :=
  .start ⟨fun _ => ⟨rfl, rfl⟩, rfl⟩

theorem copyRuns_runs (n m : UInt16) (hn : 2 ≤ n.toNat) (hm : 2 ≤ m.toNat) :
    ∃ s, (plainRuns copyRuns "key_shares").Reachable s ∧
      s.runs = [aliceConfig n, aliceConfig m] := by
  obtain ⟨s, hs, hruns⟩ := copyRuns_next copyRuns_start n hn
  obtain ⟨t, ht, hruns'⟩ := copyRuns_next hs m hm
  rw [hruns] at hruns'
  exact ⟨t, ht, hruns'⟩

theorem together_grown : ∃ s, (plainRuns copyRuns "key_shares").Reachable s ∧
    s.runs = [aliceConfig 2, aliceConfig 3] ∧
    ((∀ a, Together mapFormats "key_shares" s.dir a) ↔ ∀ a, LastLargest s.runs a) := by
  obtain ⟨s, hs, hruns⟩ := copyRuns_runs 2 3 (by decide) (by decide)
  exact ⟨s, hs, hruns, together_iff hs⟩

/-- A sharing among three parties and then one among two: the third file keeps its old share. -/
theorem not_together_shrunk : ∃ s, (plainRuns copyRuns "key_shares").Reachable s ∧
    s.runs = [aliceConfig 3, aliceConfig 2] ∧
    ¬Together mapFormats "key_shares" s.dir "alice" := by
  obtain ⟨s, hs, hruns⟩ := copyRuns_runs 3 2 (by decide) (by decide)
  exists s, hs, hruns
  intro h
  have hlast := ((inv_of_reachable hs).together_account_iff "alice").1 h
  rw [hruns] at hlast
  have hle := hlast 1 (aliceConfig 2) rfl rfl (by
    intro m' config' hlt hm'
    obtain ⟨hlt', _⟩ := List.getElem?_eq_some_iff.1 hm'
    exact absurd hlt (Nat.not_lt_of_le (Nat.le_of_lt_succ hlt'))) (aliceConfig 3)
    List.mem_cons_self rfl
  exact absurd hle (by decide)

end WalletMpc.KeyGen
