import WalletMpc.Systems
import WalletMpc.ShareFiles
import WalletMpc.ClientConfig

namespace WalletMpc.KeyGen
open Systems Proto Ecdsa Participant MpcClient
set_option autoImplicit true

/-- A map of JSON values that stands for a map of shares. -/
def Encodes (toValue : K → J) (m : Accounts K) (accounts : Accounts J) : Prop :=
  ∀ a, accounts.lookup a = (m.lookup a).map toValue

theorem Encodes.empty (toValue : K → J) : Encodes toValue ∅ ∅ := fun _ => rfl

theorem Encodes.insert {toValue : K → J} (h : Encodes toValue m accounts) (a : String)
    (keyShare : K) :
    Encodes toValue (m.insert a keyShare) (accounts.insert a (toValue keyShare)) := by
  intro b
  by_cases hb : b = a
  · subst hb
    rw [Finmap.lookup_insert, Finmap.lookup_insert]
    rfl
  · rw [Finmap.lookup_insert_of_ne _ hb, Finmap.lookup_insert_of_ne _ hb]
    exact h b

theorem keys_insert_ne (m : Accounts K) (a : String) (keyShare : K) :
    (m.insert a keyShare).keys ≠ ∅ :=
  Finset.ne_empty_of_mem (Finmap.mem_keys.2 (Finmap.mem_of_lookup_eq_some (Finmap.lookup_insert m)))

/-- `serde_json` as the three programs use it: it decodes what it encodes. -/
structure SerdeJson (c : Curve) (T R J : Type) where
  formats : Formats T R J
  platform : Platform c
  reader : Client.Reader T J
  toValue : KeyShare c → J
  parseKeyShares : T → Except String (Accounts (KeyShare c))
  reader_dict : reader.dict = formats.parse
  parse_valueToString : ∀ keyShare, ∃ text, reader.valueToString (toValue keyShare) = .ok text ∧
    platform.parseKeyShare text = .ok keyShare
  parseKeyShares_print : ∀ order m accounts, Encodes toValue m accounts →
    parseKeyShares (formats.print order accounts) = .ok m

def KeyShareDealer.encode (toValue : K → J) (dealer : KeyShareDealer K) : KeyShareDealer J :=
  ⟨dealer.config, dealer.keyShares.map (List.map toValue), dealer.valid⟩

/-- The files of a prefix and the runs that wrote them, each with the shares it dealt. -/
structure DealtFiles (T R K : Type) where
  dir : Dir T R
  runs : List (KeyGenConfig × List K)

/-- Runs of `main` in either mode on one output prefix, from no files, that all return Ok. -/
def keyGenRuns {c : Curve} (json : SerdeJson c T R J) (trusted : Nat → TrustedDealer (KeyShare c))
    (isKeyOf : Bytes → KeyShare c → Bool) (outputPrefix : String) :
    System (DealtFiles T R (KeyShare c)) KeyGenConfig where
  start s := (∀ i, s.dir (baseFilename outputPrefix i) = none ∧
    s.dir (encryptedFilename outputPrefix i) = none) ∧ s.runs = []
  step s config t := config.outputPrefix = outputPrefix ∧
    ∃ dealer dealt keyShares order, KeyShareDealer.new config = .ok dealer ∧
      dealer.generateShares (trusted s.runs.length) c.order = .ok dealt ∧
      dealt.verifyPublicKey isKeyOf = .ok () ∧ dealt.keyShares = some keyShares ∧
      (dealt.encode json.toValue).saveToFiles json.formats order s.dir = (t.dir, .ok ()) ∧
      t.runs = s.runs ++ [(config, keyShares)]

/-- Such runs that are all in plain mode. -/
def dealtRuns {c : Curve} (json : SerdeJson c T R J) (trusted : Nat → TrustedDealer (KeyShare c))
    (isKeyOf : Bytes → KeyShare c → Bool) (outputPrefix : String) :
    System (DealtFiles T R (KeyShare c)) KeyGenConfig :=
  (keyGenRuns json trusted isKeyOf outputPrefix).restrict fun _ config => config.pubkeys = none

/-- The share of a party that was last written for an account. -/
def lastShare (runs : List (KeyGenConfig × List K)) (a : String) (i : Nat) : Option K :=
  runs.reverse.findSome? fun run => if run.1.accountId = a then run.2[i]? else none

theorem lastShare_concat (runs : List (KeyGenConfig × List K)) (config : KeyGenConfig)
    (keyShares : List K) (a : String) (i : Nat) : lastShare (runs ++ [(config, keyShares)]) a i =
      if config.accountId = a then keyShares[i]? <|> lastShare runs a i else lastShare runs a i := by
  rw [lastShare, List.reverse_append, List.reverse_singleton, List.singleton_append,
    List.findSome?_cons]
  by_cases ha : config.accountId = a
  · rw [if_pos ha, if_pos ha]
    cases keyShares[i]? with
    | none => rfl
    | some keyShare => rfl
  · rw [if_neg ha, if_neg ha]
    rfl

/-- An account has a share of a party just when a run for it had that party. -/
theorem lastShare_iff {runs : List (KeyGenConfig × List K)} :
    (∃ keyShare, lastShare runs a i = some keyShare) ↔
      ∃ run ∈ runs, run.1.accountId = a ∧ i < run.2.length := by
  rw [← Option.isSome_iff_exists, lastShare, List.findSome?_isSome_iff]
  apply exists_congr
  intro run
  rw [List.mem_reverse]
  apply and_congr_right
  intro _
  split
  · rename_i ha
    rw [isSome_getElem?, and_iff_right ha]
  · rename_i ha
    exact ⟨fun h => (Bool.false_ne_true h).elim, fun h => absurd h.1 ha⟩

/-- The last run that dealt a share to the party of this number. -/
def lastRun (runs : List (KeyGenConfig × List K)) (i : Nat) : Option KeyGenConfig :=
  runs.reverse.findSome? fun run => if i < run.2.length then some run.1 else none

theorem lastRun_concat (runs : List (KeyGenConfig × List K)) (config : KeyGenConfig)
    (keyShares : List K) (i : Nat) : lastRun (runs ++ [(config, keyShares)]) i =
      if i < keyShares.length then some config else lastRun runs i := by
  rw [lastRun, List.reverse_append, List.reverse_singleton, List.singleton_append,
    List.findSome?_cons]
  by_cases hi : i < keyShares.length
  · rw [if_pos hi, if_pos hi]
  · rw [if_neg hi, if_neg hi]
    rfl

theorem mem_of_lastRun {runs : List (KeyGenConfig × List K)} (h : lastRun runs i = some config) :
    ∃ run ∈ runs, run.1 = config := by
  obtain ⟨run, hmem, hrun⟩ := List.exists_of_findSome?_eq_some h
  split at hrun
  · exact ⟨run, List.mem_reverse.1 hmem, Option.some.inj hrun⟩
  · cases hrun

section
variable {c : Curve} {json : SerdeJson c T R J}

/-- The plain file of a party is not there yet, or holds the JSON of these shares. -/
structure Holds (json : SerdeJson c T R J) (outputPrefix : String) (dir : Dir T R) (i : Nat)
    (m : Accounts (KeyShare c)) : Prop where
  unencrypted : dir (encryptedFilename outputPrefix i) = none
  plain : dir (baseFilename outputPrefix i) = none ∧ m = ∅ ∨
    ∃ order accounts, Encodes json.toValue m accounts ∧ m.keys ≠ ∅ ∧
      dir (baseFilename outputPrefix i) = some (.text (json.formats.print order accounts))

theorem Holds.existing (h : Holds json p dir i m)
    (he : existingAccounts json.formats p dir i = .ok accounts) :
    Encodes json.toValue m accounts := by
  rw [existingAccounts] at he
  rw [h.unencrypted] at he
  obtain ⟨hnone, rfl⟩ | ⟨order, accounts', henc, _, htext⟩ := h.plain
  · rw [hnone] at he
    cases he
    exact .empty json.toValue
  · rw [htext] at he
    dsimp only at he
    rw [json.formats.parse_print] at he
    cases he
    exact henc

theorem Holds.readable (h : Holds json p dir i m) :
    ∃ accounts, existingAccounts json.formats p dir i = .ok accounts := by
  rw [existingAccounts, h.unencrypted]
  obtain ⟨hnone, _⟩ | ⟨_, _, _, _, htext⟩ := h.plain
  · rw [hnone]
    exact ⟨∅, rfl⟩
  · rw [htext]
    dsimp only
    rw [json.formats.parse_print]
    exact ⟨_, rfl⟩

/-- The files of a party after the last run that dealt it a share. No run saves over an
encrypted file, so the two modes leave different files behind. -/
inductive PartyFiles (json : SerdeJson c T R J) (outputPrefix : String) (dir : Dir T R) (i : Nat) :
    Accounts (KeyShare c) → Option KeyGenConfig → Prop where
  | fresh : dir (baseFilename outputPrefix i) = none →
      dir (encryptedFilename outputPrefix i) = none → PartyFiles json outputPrefix dir i ∅ none
  | plain : config.outputPrefix = outputPrefix → config.pubkeys = none →
      dir (encryptedFilename outputPrefix i) = none → Encodes json.toValue m accounts →
      m.keys ≠ ∅ →
      dir (baseFilename outputPrefix i) = some (.text (json.formats.print order accounts)) →
      PartyFiles json outputPrefix dir i m (some config)
  | encrypted : config.outputPrefix = outputPrefix → config.pubkeys = some pubkeys →
      pubkeys[i]? = some pubkey → json.formats.recipient pubkey = .ok recipient →
      Encodes json.toValue m accounts →
      dir (encryptedFilename outputPrefix i) =
        some (.age recipient (json.formats.print order accounts)) →
      PartyFiles json outputPrefix dir i m (some config)

/-- Where no encrypted file stands the plain one holds all the shares. -/
theorem PartyFiles.holds (h : PartyFiles json p dir i m last)
    (he : dir (encryptedFilename p i) = none) : Holds json p dir i m := by
  cases h with
  | fresh hb _ => exact ⟨he, .inl ⟨hb, rfl⟩⟩
  | plain _ _ _ henc hne hb => exact ⟨he, .inr ⟨_, _, henc, hne, hb⟩⟩
  | encrypted _ _ _ _ _ hage => cases he.symm.trans hage

theorem PartyFiles.congr (h : PartyFiles json p dir i m last)
    (hb : dir' (baseFilename p i) = dir (baseFilename p i))
    (he : dir' (encryptedFilename p i) = dir (encryptedFilename p i)) :
    PartyFiles json p dir' i m last := by
  cases h with
  | fresh hb' he' => exact .fresh (hb.trans hb') (he.trans he')
  | plain hp hplain he' henc hne hb' =>
    exact .plain hp hplain (he.trans he') henc hne (hb.trans hb')
  | encrypted hp hpubkeys hk hr henc hage =>
    exact .encrypted hp hpubkeys hk hr henc (he.trans hage)

/-- A run that deals a party a share adds it to those of the plain file. -/
theorem PartyFiles.save {keyShares : List (KeyShare c)}
    (h : PartyFiles json config.outputPrefix dir i m last)
    (hs : saveFrom json.formats order config 0 (keyShares.map json.toValue) dir = (dir', .ok ()))
    (hi : keyShares[i]? = some keyShare) :
    PartyFiles json config.outputPrefix dir' i (m.insert config.accountId keyShare)
      (some config) := by
  have hi' : (keyShares.map json.toValue)[i]? = some (json.toValue keyShare) := by
    rw [List.getElem?_map, hi]
    rfl
  obtain ⟨file, content, hw, hwritten, hother⟩ := saveFrom_party hs hi'
  rw [Nat.zero_add] at hw hother
  obtain ⟨he, allAccounts, hall, hmode⟩ := partyFile_ok hw
  have henc := ((h.holds he).existing hall).insert config.accountId keyShare
  obtain ⟨hplain, rfl, rfl⟩ | ⟨pubkeys, pubkey, recipient, hpubkeys, hk, hr, rfl, rfl⟩ := hmode
  · have hother' := hother _ (.inr rfl) (baseFilename_ne_encryptedFilename _ i i).symm
    exact .plain rfl hplain (hother'.trans he) henc (keys_insert_ne m config.accountId keyShare)
      hwritten
  · exact .encrypted rfl hpubkeys hk hr henc hwritten

/-- A run leaves the files of the parties it does not have. -/
theorem PartyFiles.skip {keyShares : List (KeyShare c)}
    (h : PartyFiles json config.outputPrefix dir i m last)
    (hs : saveFrom json.formats order config 0 (keyShares.map json.toValue) dir = (dir', .ok ()))
    (hi : keyShares.length ≤ i) : PartyFiles json config.outputPrefix dir' i m last := by
  rw [← List.length_map json.toValue] at hi
  obtain ⟨hb, he⟩ := saveFrom_other hs hi
  rw [Nat.zero_add] at hb he
  exact h.congr hb he

/-- After plain runs alone no encrypted file stands. -/
theorem PartyFiles.unencrypted (h : PartyFiles json p dir i m last)
    (hplain : ∀ config, last = some config → config.pubkeys = none) :
    dir (encryptedFilename p i) = none := by
  cases h with
  | fresh _ he => exact he
  | plain _ _ he _ _ _ => exact he
  | encrypted _ hpubkeys _ _ _ _ => cases (hplain _ rfl).symm.trans hpubkeys

/-- The files of a party hold the share last dealt for each account. -/
structure Kept (json : SerdeJson c T R J) (outputPrefix : String) (s : DealtFiles T R (KeyShare c))
    (i : Nat) (m : Accounts (KeyShare c)) : Prop where
  files : PartyFiles json outputPrefix s.dir i m (lastRun s.runs i)
  lookup : ∀ a, m.lookup a = lastShare s.runs a i
  dealt : ∀ run ∈ s.runs, run.2.length = run.1.nParties.toNat

theorem kept_start {trusted : Nat → TrustedDealer (KeyShare c)}
    (h : (keyGenRuns json trusted isKeyOf p).start s) : Kept json p s i ∅ := by
  obtain ⟨hfresh, hruns⟩ := h
  obtain ⟨hb, he⟩ := hfresh i
  constructor
  case files =>
    rw [hruns]
    exact .fresh hb he
  case lookup =>
    intro a
    rw [hruns]
    rfl
  case dealt =>
    rw [hruns]
    exact List.forall_mem_nil _

/-- A run keeps what the files of a party hold under every account but its own. -/
theorem kept_step {trusted : Nat → TrustedDealer (KeyShare c)} (h : Kept json p s i m)
    (hst : (keyGenRuns json trusted isKeyOf p).step s config t) :
    ∃ m', Kept json p t i m' ∧ ∀ a ≠ config.accountId, m'.lookup a = m.lookup a := by
  obtain ⟨rfl, dealer, dealt, keyShares, order, hnew, hgen, _, hshares, hsave, hruns⟩ := hst
  obtain rfl := KeyShareDealer.new_ok hnew
  obtain ⟨_, dealtShares, hdealt, rfl⟩ := KeyShareDealer.generateShares_ok hgen
  cases hshares
  have hlength : ∀ run ∈ t.runs, run.2.length = run.1.nParties.toNat := by
    rw [hruns, List.forall_mem_append, List.forall_mem_singleton]
    exact ⟨h.dealt, (trusted s.runs.length).length_eq hdealt⟩
  have hrun : ∀ {keyShare : Option (KeyShare c)}, keyShares[i]? = keyShare →
      ∀ a, lastShare t.runs a i =
        if dealer.config.accountId = a then keyShare <|> m.lookup a else m.lookup a := by
    intro keyShare hk a
    rw [hruns, lastShare_concat, hk, h.lookup a]
  cases hk : keyShares[i]? with
  | none =>
    have hi := List.getElem?_eq_none_iff.1 hk
    refine ⟨m, ⟨?_, ?_, hlength⟩, fun _ _ => rfl⟩
    · rw [hruns, lastRun_concat, if_neg (Nat.not_lt.2 hi)]
      exact h.files.skip hsave hi
    · intro a
      rw [hrun hk a]
      split
      · rfl
      · rfl
  | some keyShare =>
    obtain ⟨hi, _⟩ := List.getElem?_eq_some_iff.1 hk
    refine ⟨m.insert dealer.config.accountId keyShare, ⟨?_, ?_, hlength⟩,
      fun a ha => Finmap.lookup_insert_of_ne _ ha⟩
    · rw [hruns, lastRun_concat, if_pos hi]
      exact h.files.save hsave hk
    · intro a
      rw [hrun hk a]
      split
      · rename_i ha
        rw [← ha, Finmap.lookup_insert]
        rfl
      · rename_i ha
        exact Finmap.lookup_insert_of_ne _ (Ne.symm ha)

theorem kept_of_reachable {trusted : Nat → TrustedDealer (KeyShare c)}
    (h : (keyGenRuns json trusted isKeyOf p).Reachable s) (i : Nat) : ∃ m, Kept json p s i m := by
  apply h.invariant (I := fun s => ∃ m, Kept json p s i m)
  · intro s h0
    exact ⟨∅, kept_start h0⟩
  · intro s config t _ hi hst
    obtain ⟨m, hm⟩ := hi
    obtain ⟨m', hm', _⟩ := kept_step hm hst
    exact ⟨m', hm'⟩

theorem dealtRuns_plain {trusted : Nat → TrustedDealer (KeyShare c)}
    (h : (dealtRuns json trusted isKeyOf p).Reachable s) :
    (keyGenRuns json trusted isKeyOf p).Reachable s ∧ ∀ run ∈ s.runs, run.1.pubkeys = none := by
  apply And.intro h.of_restrict
  apply h.invariant (I := fun s => ∀ run ∈ s.runs, run.1.pubkeys = none)
  · intro s h0
    rw [h0.2]
    exact List.forall_mem_nil _
  · intro s config t _ hplain hst
    obtain ⟨hpubkeys, _, _, _, _, _, _, _, _, _, _, hruns⟩ := hst
    rw [hruns, List.forall_mem_append, List.forall_mem_singleton]
    exact ⟨hplain, hpubkeys⟩

/-- After plain runs every plain file holds the share last written for each account. -/
theorem holds_of_reachable {trusted : Nat → TrustedDealer (KeyShare c)}
    (h : (dealtRuns json trusted isKeyOf p).Reachable s) (i : Nat) :
    ∃ m, Holds json p s.dir i m ∧ ∀ a, m.lookup a = lastShare s.runs a i := by
  obtain ⟨hmixed, hplain⟩ := dealtRuns_plain h
  obtain ⟨m, hm⟩ := kept_of_reachable hmixed i
  have he := hm.files.unencrypted fun config hlast => by
    obtain ⟨run, hmem, rfl⟩ := mem_of_lastRun hlast
    exact hplain run hmem
  exact ⟨m, hm.files.holds he, hm.lookup⟩

/-- A share that was written stands in a file. -/
theorem file_of_lastShare {trusted : Nat → TrustedDealer (KeyShare c)}
    (h : (dealtRuns json trusted isKeyOf p).Reachable s)
    (hl : lastShare s.runs a i = some keyShare) : ∃ file, s.dir (baseFilename p i) = some file := by
  obtain ⟨m, hm, hlookup⟩ := holds_of_reachable h i
  obtain ⟨_, rfl⟩ | ⟨_, _, _, _, htext⟩ := hm.plain
  · cases (hlookup a).trans hl
  · exact ⟨_, htext⟩

end

end WalletMpc.KeyGen
