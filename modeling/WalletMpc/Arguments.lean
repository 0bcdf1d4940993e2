import Mathlib.Data.List.DropRight
import WalletMpc.Hexadecimals
import WalletMpc.Appending

namespace WalletMpc.KeyGen
open Proto
set_option autoImplicit true

/-- The command line of key-gen. -/
structure Args where
  childKey : String
  accountId : String
  nParties : UInt16
  threshold : UInt16
  output : String
  pubkeys : Option String

/-- The length of a text in UTF-8. -/
def len (cs : List Char) : Nat := (cs.map Char.utf8Size).sum

def parseChildKeyHex (hexStr : String) : Except String Bytes :=
  if len hexStr.toList ≠ 64 then .error "Child key must be 64 hex characters (32 bytes)"
  else
    match Hexadecimals.decode hexStr.toList with
    | none => .error "Failed to decode child key hex"
    | some bytes =>
      if bytes.length ≠ 32 then .error "Child key must be 32 bytes (64 hex characters)"
      else .ok bytes

/-- The characters that `trim` takes off. -/
def isWhitespace (c : Char) : Bool :=
  9 ≤ c.toNat && c.toNat ≤ 13 || 0x2000 ≤ c.toNat && c.toNat ≤ 0x200A ||
    [0x20, 0x85, 0xA0, 0x1680, 0x2028, 0x2029, 0x202F, 0x205F, 0x3000].contains c.toNat

def trim (cs : List Char) : List Char :=
  (cs.dropWhile isWhitespace).rdropWhile isWhitespace

/-- The keys between the commas. -/
def splitKeys (pubkeysStr : String) : List String :=
  ((pubkeysStr.toList.splitOn ',').map fun key => String.ofList (trim key)).filter (· ≠ "")

/-- Files are not encrypted when there is not one key for each party. -/
def Args.keys (args : Args) : Option (List String) :=
  match args.pubkeys with
  | none => none
  | some pubkeysStr =>
    if (splitKeys pubkeysStr).length ≠ args.nParties.toNat then none
    else some (splitKeys pubkeysStr)

def Args.config (args : Args) : Except String KeyGenConfig :=
  match parseChildKeyHex args.childKey with
  | .error e => .error e
  | .ok childKey =>
    .ok ⟨args.nParties, args.threshold, args.accountId, childKey, args.output, args.keys⟩

/-- `main` on a command line. -/
def Args.main (tools : Tools T R V) (order : Nat → Nat) (args : Args) (dir : Dir T R) :
    Dir T R × Except Failure Unit :=
  match args.config with
  | .error e => (dir, .error (.error e))
  | .ok config => KeyGen.main tools order config dir

theorem length_of_decode {cs : List Char} (h : Hexadecimals.decode cs = some bytes) :
    cs.length = 2 * bytes.length := by
  have hencode := congrArg List.length (Hexadecimals.decode_eq_some_iff.1 h)
  rw [Hexadecimals.length_encode, List.length_map] at hencode
  exact hencode.symm

/-- The child keys that are read are the 32 bytes that the text encodes, in either case, and the
second check of a length never fails. -/
theorem parseChildKeyHex_ok_iff (hexStr : String) (childKey : Bytes) :
    (parseChildKeyHex hexStr = .ok childKey ↔
      childKey.length = 32 ∧ Hexadecimals.encode childKey = hexStr.toList.map Char.toLower) ∧
    parseChildKeyHex hexStr ≠ .error "Child key must be 32 bytes (64 hex characters)" := by
  rw [← Hexadecimals.decode_eq_some_iff, parseChildKeyHex]
  cases hdecode : Hexadecimals.decode hexStr.toList with
  | none =>
    dsimp only
    apply And.intro
    · apply Iff.intro
      · intro h
        split at h <;> cases h
      · rintro ⟨_, h⟩
        cases h
    · split <;> decide
  | some bytes =>
    have hlen : len hexStr.toList = 2 * bytes.length :=
      (Hexadecimals.sum_utf8Size_of_decode hdecode).trans (length_of_decode hdecode)
    dsimp only
    rw [hlen]
    by_cases hbytes : bytes.length = 32
    · rw [if_neg (by omega), if_neg (by omega)]
      grind
    · rw [if_pos (by omega)]
      grind

section
variable {formats : Formats T R V} {config : KeyGenConfig} {dir dir' : Dir T R}

/-- What a save that gets to this party leaves: the files of the parties before it, each as it
would have been written first, and no other change. -/
structure Saved (formats : Formats T R V) (order : Nat → Nat) (config : KeyGenConfig)
    (keyShares : List V) (dir : Dir T R) (i f : Nat) (dir' : Dir T R) : Prop where
  written : ∀ j keyShare, j < f → keyShares[j]? = some keyShare → ∃ content,
    partyFile formats order config dir (i + j) keyShare =
        .ok (config.outputFilename (i + j), content) ∧
      dir' (config.outputFilename (i + j)) = some content
  kept : ∀ file, (∀ j < f, file ≠ config.outputFilename (i + j)) → dir' file = dir file

theorem outputFilename_inj (config : KeyGenConfig) :
    config.outputFilename i = config.outputFilename j ↔ i = j := by
  rw [KeyGenConfig.outputFilename, KeyGenConfig.outputFilename]
  cases config.pubkeys with
  | none => exact baseFilename_inj
  | some pubkeys => exact encryptedFilename_inj

theorem partyFile_outputFilename
    (h : partyFile formats order config dir i keyShare = .ok (file, content)) :
    file = config.outputFilename i := by
  obtain ⟨_, _, _, ⟨hp, rfl, _⟩ | ⟨_, _, _, hp, _, _, rfl, _⟩⟩ := partyFile_ok h
  · exact (outputFilename_plain hp).symm
  · exact (outputFilename_encrypted hp).symm

/-- The steps of the other parties find what they would have found first. -/
theorem partyFile_update (h : partyFile formats order config dir i keyShare = .ok (file, content))
    (hj : j ≠ i) (other : V) :
    partyFile formats order config (Function.update dir file (some content)) j other =
      partyFile formats order config dir j other := by
  obtain ⟨hb, he⟩ := partyFile_frame h hj
  exact partyFile_congr (Function.update_of_ne hb _ _) (Function.update_of_ne he _ _) other

theorem Saved.cons (h : partyFile formats order config dir i first = .ok (file, content))
    (hs : Saved formats order config rest (Function.update dir file (some content)) (i + 1) f dir') :
    Saved formats order config (first :: rest) dir i (f + 1) dir' := by
  obtain rfl := partyFile_outputFilename h
  constructor
  case written =>
    intro j keyShare hj hkeyShare
    cases j with
    | zero =>
      cases hkeyShare
      refine ⟨content, h, ?_⟩
      rw [hs.kept, Nat.add_zero, Function.update_self]
      intro j _ he
      have := (outputFilename_inj config).1 he
      omega
    | succ j =>
      obtain ⟨content', hw, hdir⟩ := hs.written j keyShare (Nat.lt_of_succ_lt_succ hj) hkeyShare
      rw [Nat.succ_add_eq_add_succ] at hw hdir
      rw [partyFile_update h (by omega)] at hw
      exact ⟨content', hw, hdir⟩
  case kept =>
    intro other ho
    have hfirst : other ≠ config.outputFilename i := ho 0 (Nat.zero_lt_succ f)
    rw [hs.kept, Function.update_of_ne hfirst]
    intro j hj
    rw [Nat.succ_add_eq_add_succ]
    exact ho (j + 1) (Nat.succ_lt_succ hj)

end

end WalletMpc.KeyGen
