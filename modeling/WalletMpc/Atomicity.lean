import WalletMpc.Dealer

namespace WalletMpc.KeyGen
open Proto
set_option autoImplicit true

section
variable (formats : Formats T R V) (config : KeyGenConfig) (dir : Dir T R)

/-- Why the share of a party cannot be saved. -/
inductive Blocked (i : Nat) : Prop where
  | encrypted : dir (encryptedFilename config.outputPrefix i) ≠ none → Blocked i
  | unreadable : dir (baseFilename config.outputPrefix i) = some (.age r t) → Blocked i
  | unparsable : dir (baseFilename config.outputPrefix i) = some (.text t) →
      formats.parse t = .error e → Blocked i
  | missing : config.pubkeys = some pubkeys → pubkeys[i]? = none → Blocked i
  | malformed : config.pubkeys = some pubkeys → pubkeys[i]? = some pubkey →
      formats.recipient pubkey = .error e → Blocked i

/-- The plain file of a party is already the text that saving this share writes. -/
def AlreadySaved (order : Nat → Nat) (i : Nat) (keyShare : V) : Prop :=
  config.pubkeys = none ∧ ∃ t accounts,
    dir (baseFilename config.outputPrefix i) = some (.text t) ∧ formats.parse t = .ok accounts ∧
    t = formats.print (order i) (accounts.insert config.accountId keyShare)

/-- The share of the first party that is blocked, if there is one, comes after shares that
were saved before. -/
def StopsClean (order : Nat → Nat) (i : Nat) (keyShares : List V) : Prop :=
  ∀ f, f < keyShares.length → Blocked formats config dir (i + f) →
    (∀ j < f, ¬Blocked formats config dir (i + j)) →
    ∀ j keyShare, j < f → keyShares[j]? = some keyShare →
      AlreadySaved formats config dir order (i + j) keyShare

end

def SameFiles (outputPrefix : String) (dir dir' : Dir T R) : Prop :=
  ∀ i, dir' (baseFilename outputPrefix i) = dir (baseFilename outputPrefix i) ∧
    dir' (encryptedFilename outputPrefix i) = dir (encryptedFilename outputPrefix i)

section
variable {formats : Formats T R V} {config : KeyGenConfig} {dir dir' : Dir T R}

theorem Blocked.congr
    (hb : dir' (baseFilename config.outputPrefix i) = dir (baseFilename config.outputPrefix i))
    (he : dir' (encryptedFilename config.outputPrefix i) =
      dir (encryptedFilename config.outputPrefix i))
    (h : Blocked formats config dir' i) : Blocked formats config dir i := by
  cases h with
  | encrypted h => exact .encrypted (he ▸ h)
  | unreadable h => exact .unreadable (hb ▸ h)
  | unparsable h hp => exact .unparsable (hb ▸ h) hp
  | missing h hk => exact .missing h hk
  | malformed h hk hr => exact .malformed h hk hr

theorem existingAccounts_error (h : existingAccounts formats config.outputPrefix dir i = .error message) :
    Blocked formats config dir i := by
  rw [existingAccounts] at h
  split at h
  · rename_i content hc
    exact .encrypted (by rw [hc]; exact Option.some_ne_none content)
  · split at h
    · cases h
    · rename_i ha
      exact .unreadable ha
    · rename_i t ht
      cases hp : formats.parse t with
      | error e => exact .unparsable ht hp
      | ok accounts =>
        rw [hp] at h
        cases h

theorem partyFile_error {failure : Failure}
    (h : partyFile formats order config dir i keyShare = .error failure) :
    Blocked formats config dir i := by
  rw [partyFile] at h
  split at h
  · rename_i message he
    exact existingAccounts_error he
  · dsimp only at h
    split at h
    · cases h
    · rename_i pubkeys hp
      split at h
      · rename_i hk
        exact .missing hp hk
      · rename_i pubkey hk
        split at h
        · rename_i e hr
          exact .malformed hp hk hr
        · cases h

theorem Blocked.not_ok (hb : Blocked formats config dir i) :
    partyFile formats order config dir i keyShare ≠ .ok (file, content) := by
  intro h
  obtain ⟨henc, allAccounts, hall, hmode⟩ := partyFile_ok h
  rw [existingAccounts] at hall
  rw [henc] at hall
  cases hb with
  | encrypted he => exact he henc
  | unreadable ha =>
    rw [ha] at hall
    cases hall
  | unparsable ht hp =>
    rw [ht] at hall
    dsimp only at hall
    rw [hp] at hall
    cases hall
  | missing hp hk =>
    obtain ⟨hp', _⟩ | ⟨_, _, _, hp', hk', _⟩ := hmode
    · cases hp.symm.trans hp'
    · cases hp.symm.trans hp'
      cases hk.symm.trans hk'
  | malformed hp hk hr =>
    obtain ⟨hp', _⟩ | ⟨_, _, _, hp', hk', hr', _⟩ := hmode
    · cases hp.symm.trans hp'
    · cases hp.symm.trans hp'
      cases hk.symm.trans hk'
      cases hr.symm.trans hr'

/-- Writing a share changes nothing just when that share was saved before. -/
theorem alreadySaved_iff (h : partyFile formats order config dir i keyShare = .ok (file, content)) :
    AlreadySaved formats config dir order i keyShare ↔ dir file = some content := by
  obtain ⟨henc, allAccounts, hall, hmode⟩ := partyFile_ok h
  rw [existingAccounts] at hall
  rw [henc] at hall
  apply Iff.intro
  · intro hs
    obtain ⟨hplain, t, accounts, ht, hparse, htext⟩ := hs
    rw [ht] at hall
    dsimp only at hall
    rw [hparse] at hall
    cases hall
    obtain ⟨_, rfl, rfl⟩ | ⟨_, _, _, hp, _⟩ := hmode
    · rw [ht, ← htext]
    · cases hplain.symm.trans hp
  · intro hd
    obtain ⟨hplain, rfl, rfl⟩ | ⟨_, _, _, _, _, _, rfl, _⟩ := hmode
    · rw [hd] at hall
      dsimp only at hall
      cases hparse : formats.parse
          (formats.print (order i) (allAccounts.insert config.accountId keyShare)) with
      | error e =>
        rw [hparse] at hall
        cases hall
      | ok accounts =>
        rw [hparse] at hall
        cases hall
        exact ⟨hplain, _, _, hd, hparse, rfl⟩
    · cases henc.symm.trans hd

theorem blocked_update (h : partyFile formats order config dir i keyShare = .ok (file, content))
    (hj : j ≠ i) : Blocked formats config (Function.update dir file (some content)) j ↔
      Blocked formats config dir j := by
  obtain ⟨hb, he⟩ := partyFile_frame h hj
  have hb' := Function.update_of_ne hb (some content) dir
  have he' := Function.update_of_ne he (some content) dir
  exact ⟨fun hB => hB.congr hb' he', fun hB => hB.congr hb'.symm he'.symm⟩

theorem saveFrom_ok_iff (formats : Formats T R V) (order : Nat → Nat) (config : KeyGenConfig)
    (i : Nat) (keyShares : List V) (dir : Dir T R) :
    (saveFrom formats order config i keyShares dir).2 = .ok () ↔
      ∀ f < keyShares.length, ¬Blocked formats config dir (i + f) := by
  induction keyShares generalizing i dir with
  | nil => exact ⟨fun _ f hf => absurd hf (Nat.not_lt_zero f), fun _ => rfl⟩
  | cons keyShare rest ih =>
    rw [saveFrom]
    cases hp : partyFile formats order config dir i keyShare with
    | error failure =>
      apply Iff.intro
      · intro h
        cases h
      · intro h
        exact absurd (partyFile_error hp) (h 0 (Nat.zero_lt_succ _))
    | ok written =>
      obtain ⟨file, content⟩ := written
      dsimp only
      rw [ih]
      apply Iff.intro
      · intro h f hf
        cases f with
        | zero => exact fun hb => hb.not_ok hp
        | succ f =>
          have hrest := h f (Nat.lt_of_succ_lt_succ hf)
          rw [blocked_update hp (by omega), Nat.succ_add_eq_add_succ] at hrest
          exact hrest
      · intro h f hf
        have hrest := h (f + 1) (Nat.succ_lt_succ hf)
        rw [blocked_update hp (by omega), Nat.succ_add_eq_add_succ]
        exact hrest

theorem stopsClean_of_blocked (hb : Blocked formats config dir i) :
    StopsClean formats config dir order i keyShares := by
  intro f _ _ hfirst j _ hj
  exact absurd hb (hfirst 0 (Nat.zero_lt_of_lt hj))

theorem unblocked_succ (hb : ¬Blocked formats config dir i) (f : Nat) :
    (∀ j < f + 1, ¬Blocked formats config dir (i + j)) ↔
      ∀ j < f, ¬Blocked formats config dir (i + 1 + j) := by
  rw [Nat.forall_lt_succ_left]
  apply Iff.intro
  · intro h j hj
    rw [Nat.succ_add_eq_add_succ]
    exact h.2 j hj
  · intro h
    apply And.intro hb
    intro j hj
    rw [← Nat.succ_add_eq_add_succ]
    exact h j hj

/-- A party that is not blocked must have been saved before if one after it is. -/
theorem stopsClean_cons (hb : ¬Blocked formats config dir i) :
    StopsClean formats config dir order i (keyShare :: rest) ↔
      ((∃ f < rest.length, Blocked formats config dir (i + 1 + f)) →
        AlreadySaved formats config dir order i keyShare) ∧
      StopsClean formats config dir order (i + 1) rest := by
  apply Iff.intro
  · intro h
    apply And.intro
    · intro hE
      -- the files written before the first blocked party are the ones that count
      classical
      obtain ⟨hlt, hfirst⟩ := Nat.find_spec hE
      have hbefore : ∀ j < Nat.find hE, ¬Blocked formats config dir (i + 1 + j) :=
        fun j hj hB => Nat.find_min hE hj ⟨by omega, hB⟩
      rw [Nat.succ_add_eq_add_succ] at hfirst
      exact h (Nat.find hE + 1) (Nat.succ_lt_succ hlt) hfirst ((unblocked_succ hb _).2 hbefore)
        0 keyShare (Nat.zero_lt_succ _) rfl
    · intro f hf hB hbefore j share hj hs
      rw [Nat.succ_add_eq_add_succ] at hB ⊢
      exact h (f + 1) (Nat.succ_lt_succ hf) hB ((unblocked_succ hb f).2 hbefore)
        (j + 1) share (Nat.succ_lt_succ hj) hs
  · intro h f hf hB hbefore j share hj hs
    obtain ⟨hsaved, hrest⟩ := h
    cases f with
    | zero => exact absurd hj (Nat.not_lt_zero j)
    | succ f =>
      rw [← Nat.succ_add_eq_add_succ] at hB
      have hf' := Nat.lt_of_succ_lt_succ hf
      cases j with
      | zero =>
        cases hs
        exact hsaved ⟨f, hf', hB⟩
      | succ j =>
        rw [← Nat.succ_add_eq_add_succ]
        exact hrest f hf' hB ((unblocked_succ hb f).1 hbefore) j share
          (Nat.lt_of_succ_lt_succ hj) hs

theorem saveFrom_written (h : partyFile formats order config dir i keyShare = .ok (file, content))
    (rest : List V) : (saveFrom formats order config (i + 1) rest
      (Function.update dir file (some content))).1 file = some content := by
  obtain ⟨hb, he⟩ := saveFrom_frame formats order config rest
    (Function.update dir file (some content)) (Nat.lt_succ_self i)
  obtain ⟨_, _, _, ⟨_, hfile, _⟩ | ⟨_, _, _, _, _, _, hfile, _⟩⟩ := partyFile_ok h
  · rw [← hfile] at hb
    rw [hb, Function.update_self]
  · rw [← hfile] at he
    rw [he, Function.update_self]

theorem saveFrom_same_iff (keyShares : List V) :
    ((saveFrom formats order config i keyShares dir).2 ≠ .ok () →
        SameFiles config.outputPrefix dir (saveFrom formats order config i keyShares dir).1) ↔
      StopsClean formats config dir order i keyShares := by
  induction keyShares generalizing i dir with
  | nil => exact ⟨fun _ f hf => absurd hf (Nat.not_lt_zero f), fun _ h => absurd rfl h⟩
  | cons keyShare rest ih =>
    rw [saveFrom]
    cases hp : partyFile formats order config dir i keyShare with
    | error failure =>
      have hb := partyFile_error hp
      exact ⟨fun _ => stopsClean_of_blocked hb, fun _ _ _ => ⟨rfl, rfl⟩⟩
    | ok written =>
      obtain ⟨file, content⟩ := written
      dsimp only
      rw [stopsClean_cons fun hb => hb.not_ok hp, alreadySaved_iff hp]
      by_cases hd : dir file = some content
      · have hsame : Function.update dir file (some content) = dir := by
          rw [← hd, Function.update_eq_self]
        rw [hsame, ih]
        exact ⟨fun h => ⟨fun _ => hd, h⟩, fun h => h.2⟩
      · have hnot : ¬SameFiles config.outputPrefix dir (saveFrom formats order config (i + 1) rest
            (Function.update dir file (some content))).1 := by
          intro hs
          have hw := saveFrom_written hp rest
          obtain ⟨hb, he⟩ := hs i
          obtain ⟨_, _, _, ⟨_, hfile, _⟩ | ⟨_, _, _, _, _, _, hfile, _⟩⟩ := partyFile_ok hp
          · rw [← hfile, hw] at hb
            exact hd hb.symm
          · rw [← hfile, hw] at he
            exact hd he.symm
        have hok := saveFrom_ok_iff formats order config (i + 1) rest
          (Function.update dir file (some content))
        apply Iff.intro
        · intro h
          have hfree := hok.1 (Classical.not_not.1 fun hne => hnot (h hne))
          apply And.intro
          · intro hE
            obtain ⟨f, hf, hB⟩ := hE
            exact absurd ((blocked_update hp (by omega)).2 hB) (hfree f hf)
          · intro f hf hB
            exact absurd ((blocked_update hp (by omega)).2 hB) (hfree f hf)
        · intro h hne
          apply absurd _ hne
          apply hok.2
          intro f hf hB
          exact hd (h.1 ⟨f, hf, (blocked_update hp (by omega)).1 hB⟩)

end

/-- A call that does not return Ok leaves the files of its prefix as they were just when the
first party that is blocked comes after no file that would have changed. -/
theorem saveToFiles_same_iff (dealer : KeyShareDealer V) (formats : Formats T R V)
    (order : Nat → Nat) (dir : Dir T R) :
    ((dealer.saveToFiles formats order dir).2 ≠ .ok () →
        SameFiles dealer.config.outputPrefix dir (dealer.saveToFiles formats order dir).1) ↔
      ∀ keyShares, dealer.keyShares = some keyShares →
        StopsClean formats dealer.config dir order 0 keyShares := by
  rw [KeyShareDealer.saveToFiles]
  cases dealer.keyShares with
  | none =>
    apply Iff.intro
    · intro _ keyShares h
      cases h
    · intro _ _ _
      exact ⟨rfl, rfl⟩
  | some keyShares =>
    dsimp only
    rw [saveFrom_same_iff]
    apply Iff.intro
    · intro h keyShares' hs
      cases hs
      exact h
    · intro h
      exact h keyShares rfl

/-- Text that is the map it stands for, or no JSON at all. -/
def mapFormats : Formats (Option (Accounts V)) String V where
  parse t := match t with
    | some accounts => .ok accounts
    | none => .error "expected value"
  print _ accounts := some accounts
  parse_print _ _ := rfl
  recipient pubkey :=
    if pubkey.toList.take 4 = ['a', 'g', 'e', '1'] then .ok pubkey else .error "invalid Bech32"

def malformedDealer : KeyShareDealer Nat where
  config := ⟨2, 2, "alice", List.replicate 32 1, "key_shares", some ["age1bob", "carol"]⟩
  keyShares := some [10, 11]
  valid := rfl

/-- On a fresh prefix the call fails and leaves the file of the first party behind. -/
theorem malformed_half_written :
    (malformedDealer.saveToFiles mapFormats id fun _ => none).2 ≠ .ok () ∧
      ¬SameFiles "key_shares" (fun _ => none)
        (malformedDealer.saveToFiles mapFormats id fun _ => none).1 := by
  have hfirst : partyFile mapFormats id malformedDealer.config (fun _ => none) 0 10 =
      .ok (encryptedFilename "key_shares" 0,
        .age "age1bob" (some ((∅ : Accounts Nat).insert "alice" 10))) := rfl
  have hsave : malformedDealer.saveToFiles mapFormats id (fun _ => none) =
      saveFrom mapFormats id malformedDealer.config 0 [10, 11] fun _ => none := rfl
  apply And.intro
  · intro h
    rw [hsave] at h
    apply (saveFrom_ok_iff mapFormats id malformedDealer.config 0 [10, 11] _).1 h 1 (by decide)
    exact .malformed rfl rfl rfl
  · intro h
    obtain ⟨_, he⟩ := h 0
    have hw := saveFrom_written hfirst [11]
    rw [hsave, saveFrom, hfirst] at he
    cases hw.symm.trans he

end WalletMpc.KeyGen
