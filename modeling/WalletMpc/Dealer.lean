import WalletMpc.Decimals
import WalletMpc.BigEndian
import WalletMpc.Proto

namespace WalletMpc.KeyGen
open Proto
set_option autoImplicit true

structure KeyGenConfig where
  nParties : UInt16
  threshold : UInt16
  accountId : String
  childKey : Bytes
  outputPrefix : String
  pubkeys : Option (List String)

def validateConfig (config : KeyGenConfig) : Except String Unit :=
  if config.nParties < 2 then .error "Number of parties must be at least 2"
  else if config.threshold < 2 then .error "Threshold must be at least 2"
  else if config.nParties < config.threshold then
    .error "Threshold cannot exceed number of parties"
  else .ok ()

/-- A dealer; it is only built from a configuration that passes its checks. -/
structure KeyShareDealer (V : Type) where
  config : KeyGenConfig
  keyShares : Option (List V)
  valid : validateConfig config = .ok ()

def KeyShareDealer.new (config : KeyGenConfig) : Except String (KeyShareDealer V) :=
  match h : validateConfig config with
  | .error e => .error e
  | .ok () => .ok ⟨config, none, h⟩

theorem validateConfig_ok :
    validateConfig config = .ok () ↔ 2 ≤ config.threshold.toNat ∧
      config.threshold.toNat ≤ config.nParties.toNat := by
  have hlt : ∀ a b : UInt16, a < b ↔ a.toNat < b.toNat := fun _ _ => UInt16.lt_iff_toNat_lt
  have h2 : (2 : UInt16).toNat = 2 := rfl
  rw [validateConfig]
  simp only [hlt, h2]
  split
  · simp; omega
  · split
    · simp; omega
    · split
      · simp; omega
      · simp; omega

/-- `trusted_dealer`: as many shares as there are parties. -/
structure TrustedDealer (V : Type) where
  generate : UInt16 → UInt16 → Nat → Except String (List V)
  length_eq : generate n t secret = .ok shares → shares.length = n.toNat

/-- The secret scalar of a child key, for a group of this order. -/
def createScalarFromBytes (order : Nat) (bytes : Bytes) : Except String Nat :=
  if order ≤ BigEndian.toNat bytes then .error "Invalid private key"
  else if BigEndian.toNat bytes = 0 then .error "Private key cannot be zero"
  else .ok (BigEndian.toNat bytes)

def KeyShareDealer.generateShares (dealer : KeyShareDealer V) (trusted : TrustedDealer V)
    (order : Nat) : Except String (KeyShareDealer V) :=
  match createScalarFromBytes order dealer.config.childKey with
  | .error e => .error e
  | .ok secret =>
    match trusted.generate dealer.config.nParties dealer.config.threshold secret with
    | .error e => .error e
    | .ok shares => .ok { dealer with keyShares := some shares }

theorem KeyShareDealer.generateShares_ok {dealer dealer' : KeyShareDealer V}
    (h : dealer.generateShares trusted order = .ok dealer') : ∃ secret shares,
      trusted.generate dealer.config.nParties dealer.config.threshold secret = .ok shares ∧
      dealer' = { dealer with keyShares := some shares } := by
  rw [KeyShareDealer.generateShares] at h
  split at h
  · cases h
  · rename_i secret _
    split at h
    · cases h
    · rename_i shares hs
      cases h
      exact ⟨secret, shares, hs, rfl⟩

inductive Content (T R : Type) where
  | text (t : T)
  | age (recipient : R) (t : T)

abbrev Dir (T R : Type) : Type := String → Option (Content T R)

/-- `serde_json` on the accounts map, whose order of iteration is not fixed, and the parser of
age recipients. -/
structure Formats (T R V : Type) where
  parse : T → Except String (Accounts V)
  print : Nat → Accounts V → T
  parse_print : ∀ order accounts, parse (print order accounts) = .ok accounts
  recipient : String → Except String R

/-- `save_to_files` returns an error or panics at an index out of bounds. -/
inductive Failure where
  | error (message : String)
  | panic

def baseFilename (outputPrefix : String) (i : Nat) : String :=
  outputPrefix ++ "_" ++ toString (i + 1) ++ ".json"

def encryptedFilename (outputPrefix : String) (i : Nat) : String :=
  baseFilename outputPrefix i ++ ".age"

theorem baseFilename_inj : baseFilename p i = baseFilename p j ↔ i = j := by
  rw [baseFilename, baseFilename, Decimals.numbered_inj]
  omega

theorem encryptedFilename_inj : encryptedFilename p i = encryptedFilename p j ↔ i = j := by
  rw [encryptedFilename, encryptedFilename, String.append_left_inj, baseFilename_inj]

theorem baseFilename_ne_encryptedFilename (p : String) (i j : Nat) :
    baseFilename p i ≠ encryptedFilename p j := by
  have hbase : (baseFilename p i).toList.getLast? = some 'n' := by
    rw [baseFilename, String.toList_append, List.getLast?_append]
    rfl
  have hage : (encryptedFilename p j).toList.getLast? = some 'e' := by
    rw [encryptedFilename, String.toList_append, List.getLast?_append]
    rfl
  intro h
  rw [h, hage] at hbase
  cases hbase

def existingAccounts (formats : Formats T R V) (outputPrefix : String) (dir : Dir T R) (i : Nat) :
    Except String (Accounts V) :=
  match dir (encryptedFilename outputPrefix i) with
  | some _ => .error ("Cannot append to encrypted file. Decryption for appending is not yet " ++
      "supported. Please decrypt manually first.")
  | none =>
    match dir (baseFilename outputPrefix i) with
    | none => .ok ∅
    | some (.age _ _) => .error ("Failed to read existing file: " ++ baseFilename outputPrefix i)
    | some (.text t) => (formats.parse t).mapError fun _ =>
        "Failed to parse existing file: " ++ baseFilename outputPrefix i

section
variable (formats : Formats T R V) (order : Nat → Nat) (config : KeyGenConfig)

/-- The file that the loop of `save_to_files` writes for a party, and what it writes. -/
def partyFile (dir : Dir T R) (i : Nat) (keyShare : V) : Except Failure (String × Content T R) :=
  match existingAccounts formats config.outputPrefix dir i with
  | .error message => .error (.error message)
  | .ok allAccounts =>
    let json := formats.print (order i) (allAccounts.insert config.accountId keyShare)
    match config.pubkeys with
    | none => .ok (baseFilename config.outputPrefix i, .text json)
    | some pubkeys =>
      match pubkeys[i]? with
      | none => .error .panic
      | some pubkey =>
        match formats.recipient pubkey with
        | .error e => .error (.error ("Invalid age public key '" ++ pubkey ++ "': " ++ e))
        | .ok recipient => .ok (encryptedFilename config.outputPrefix i, .age recipient json)

/-- The loop of `save_to_files` from a party on. -/
def saveFrom : Nat → List V → Dir T R → Dir T R × Except Failure Unit
  | _, [], dir => (dir, .ok ())
  | i, keyShare :: rest, dir =>
    match partyFile formats order config dir i keyShare with
    | .error failure => (dir, .error failure)
    | .ok (file, content) => saveFrom (i + 1) rest (Function.update dir file (some content))

end

def KeyShareDealer.saveToFiles (dealer : KeyShareDealer V) (formats : Formats T R V)
    (order : Nat → Nat) (dir : Dir T R) : Dir T R × Except Failure Unit :=
  match dealer.keyShares with
  | none => (dir, .error (.error "Key shares not generated yet. Call generate_shares() first"))
  | some keyShares => saveFrom formats order dealer.config 0 keyShares dir

theorem existingAccounts_congr {formats : Formats T R V} {dir dir' : Dir T R}
    (hb : dir' (baseFilename p i) = dir (baseFilename p i))
    (he : dir' (encryptedFilename p i) = dir (encryptedFilename p i)) :
    existingAccounts formats p dir' i = existingAccounts formats p dir i := by
  unfold existingAccounts
  rw [hb, he]

/-- What a party's step writes: its plain file in plain mode, else its encrypted one. -/
theorem partyFile_ok {formats : Formats T R V} {config : KeyGenConfig} {dir : Dir T R}
    (h : partyFile formats order config dir i keyShare = .ok (file, content)) :
    dir (encryptedFilename config.outputPrefix i) = none ∧
    ∃ allAccounts, existingAccounts formats config.outputPrefix dir i = .ok allAccounts ∧
      (config.pubkeys = none ∧ file = baseFilename config.outputPrefix i ∧ content =
          .text (formats.print (order i) (allAccounts.insert config.accountId keyShare)) ∨
        ∃ pubkeys pubkey recipient, config.pubkeys = some pubkeys ∧ pubkeys[i]? = some pubkey ∧
          formats.recipient pubkey = .ok recipient ∧
          file = encryptedFilename config.outputPrefix i ∧ content = .age recipient
            (formats.print (order i) (allAccounts.insert config.accountId keyShare))) := by
  rw [partyFile] at h
  cases ha : existingAccounts formats config.outputPrefix dir i with
  | error message =>
    rw [ha] at h
    cases h
  | ok allAccounts =>
    rw [ha] at h
    have henc : dir (encryptedFilename config.outputPrefix i) = none := by
      rw [existingAccounts] at ha
      cases he : dir (encryptedFilename config.outputPrefix i) with
      | none => rfl
      | some content =>
        rw [he] at ha
        cases ha
    apply And.intro henc
    exists allAccounts, rfl
    dsimp only at h
    split at h
    · rename_i hp
      cases h
      exact .inl ⟨hp, rfl, rfl⟩
    · rename_i pubkeys hp
      split at h
      · cases h
      · rename_i pubkey hk
        split at h
        · cases h
        · rename_i recipient hr
          cases h
          exact .inr ⟨pubkeys, pubkey, recipient, hp, hk, hr, rfl, rfl⟩

theorem partyFile_frame {formats : Formats T R V} {config : KeyGenConfig} {dir : Dir T R}
    (h : partyFile formats order config dir i keyShare = .ok (file, content)) (hj : j ≠ i) :
    baseFilename config.outputPrefix j ≠ file ∧ encryptedFilename config.outputPrefix j ≠ file := by
  obtain ⟨_, _, _, ⟨_, rfl, _⟩ | ⟨_, _, _, _, _, _, rfl, _⟩⟩ := partyFile_ok h
  · have hne := baseFilename_ne_encryptedFilename config.outputPrefix i j
    exact ⟨fun he => hj (baseFilename_inj.1 he), hne.symm⟩
  · have hne := baseFilename_ne_encryptedFilename config.outputPrefix j i
    exact ⟨hne, fun he => hj (encryptedFilename_inj.1 he)⟩

theorem saveFrom_frame (formats : Formats T R V) (order : Nat → Nat) (config : KeyGenConfig)
    (keyShares : List V) (dir : Dir T R) (hj : j < i) :
    (saveFrom formats order config i keyShares dir).1 (baseFilename config.outputPrefix j) =
        dir (baseFilename config.outputPrefix j) ∧
      (saveFrom formats order config i keyShares dir).1 (encryptedFilename config.outputPrefix j) =
        dir (encryptedFilename config.outputPrefix j) := by
  induction keyShares generalizing i dir with
  | nil => exact ⟨rfl, rfl⟩
  | cons keyShare rest ih =>
    rw [saveFrom]
    cases hp : partyFile formats order config dir i keyShare with
    | error failure => exact ⟨rfl, rfl⟩
    | ok written =>
      obtain ⟨file, content⟩ := written
      obtain ⟨hb, he⟩ := partyFile_frame hp (Nat.ne_of_lt hj)
      dsimp only
      obtain ⟨ihb, ihe⟩ := ih (Function.update dir file (some content)) (Nat.lt_succ_of_lt hj)
      rw [ihb, ihe, Function.update_of_ne hb, Function.update_of_ne he]
      exact ⟨rfl, rfl⟩

theorem partyFile_congr {formats : Formats T R V} {config : KeyGenConfig} {dir dir' : Dir T R}
    (hb : dir' (baseFilename config.outputPrefix i) = dir (baseFilename config.outputPrefix i))
    (he : dir' (encryptedFilename config.outputPrefix i) =
      dir (encryptedFilename config.outputPrefix i)) (keyShare : V) :
    partyFile formats order config dir' i keyShare = partyFile formats order config dir i keyShare := by
  rw [partyFile, partyFile, existingAccounts_congr hb he]

/-- A save that returns Ok wrote the file of its first party and went on with the others. -/
theorem saveFrom_cons {formats : Formats T R V} {config : KeyGenConfig} {dir dir' : Dir T R}
    (h : saveFrom formats order config i (first :: rest) dir = (dir', .ok ())) : ∃ file content,
      partyFile formats order config dir i first = .ok (file, content) ∧
      saveFrom formats order config (i + 1) rest (Function.update dir file (some content)) =
        (dir', .ok ()) := by
  rw [saveFrom] at h
  cases hw : partyFile formats order config dir i first with
  | error failure =>
    rw [hw] at h
    cases h
  | ok written =>
    rw [hw] at h
    exact ⟨written.1, written.2, rfl, h⟩

/-- What a save that returns Ok does for one party: it writes one of the two files of the party
from what was there before, and leaves the other. -/
theorem saveFrom_party {formats : Formats T R V} {config : KeyGenConfig} {dir dir' : Dir T R}
    (h : saveFrom formats order config i keyShares dir = (dir', .ok ()))
    (hj : keyShares[j]? = some keyShare) : ∃ file content,
      partyFile formats order config dir (i + j) keyShare = .ok (file, content) ∧
      dir' file = some content ∧ ∀ other, (other = baseFilename config.outputPrefix (i + j) ∨
        other = encryptedFilename config.outputPrefix (i + j)) → other ≠ file →
          dir' other = dir other := by
  induction keyShares generalizing i j dir with
  | nil => cases hj
  | cons first rest ih =>
    obtain ⟨file, content, hw, hrest⟩ := saveFrom_cons h
    cases j with
    | zero =>
      cases hj
      obtain ⟨hb, he⟩ := saveFrom_frame formats order config rest
        (Function.update dir file (some content)) (Nat.lt_succ_self i)
      rw [hrest] at hb he
      have hkept : ∀ other, (other = baseFilename config.outputPrefix i ∨
          other = encryptedFilename config.outputPrefix i) →
            dir' other = Function.update dir file (some content) other := by
        intro other ho
        obtain rfl | rfl := ho
        · exact hb
        · exact he
      have hfile : file = baseFilename config.outputPrefix i ∨
          file = encryptedFilename config.outputPrefix i := by
        obtain ⟨_, _, _, ⟨_, hf, _⟩ | ⟨_, _, _, _, _, _, hf, _⟩⟩ := partyFile_ok hw
        · exact .inl hf
        · exact .inr hf
      refine ⟨file, content, hw, ?_, ?_⟩
      · rw [hkept file hfile, Function.update_self]
      · intro other ho hne
        rw [hkept other ho, Function.update_of_ne hne]
    | succ j =>
      obtain ⟨file', content', hw', hwritten, hother⟩ := ih hrest hj
      rw [Nat.succ_add_eq_add_succ] at hw' hother
      obtain ⟨hb, he⟩ := partyFile_frame hw (show i + (j + 1) ≠ i by omega)
      have hb' := Function.update_of_ne hb (some content) dir
      have he' := Function.update_of_ne he (some content) dir
      rw [partyFile_congr hb' he'] at hw'
      refine ⟨file', content', hw', hwritten, ?_⟩
      intro other ho hne
      rw [hother other ho hne]
      obtain rfl | rfl := ho
      · exact hb'
      · exact he'

theorem saveFrom_other {formats : Formats T R V} {config : KeyGenConfig} {dir dir' : Dir T R}
    (h : saveFrom formats order config i keyShares dir = (dir', .ok ()))
    (hj : keyShares.length ≤ j) :
    dir' (baseFilename config.outputPrefix (i + j)) = dir (baseFilename config.outputPrefix (i + j)) ∧
      dir' (encryptedFilename config.outputPrefix (i + j)) =
        dir (encryptedFilename config.outputPrefix (i + j)) := by
  induction keyShares generalizing i j dir with
  | nil =>
    cases h
    exact ⟨rfl, rfl⟩
  | cons first rest ih =>
    obtain ⟨file, content, hw, hrest⟩ := saveFrom_cons h
    cases j with
    | zero => cases hj
    | succ j =>
      obtain ⟨hb, he⟩ := partyFile_frame hw (show i + (j + 1) ≠ i by omega)
      obtain ⟨ihb, ihe⟩ := ih hrest (Nat.le_of_succ_le_succ hj)
      rw [Nat.succ_add_eq_add_succ] at ihb ihe
      rw [ihb, ihe, Function.update_of_ne hb, Function.update_of_ne he]
      exact ⟨rfl, rfl⟩

end WalletMpc.KeyGen
