import WalletMpc.Signer

namespace WalletMpc.MpcClient
open Proto
set_option autoImplicit true

/-- The clients that `sign` sends its message to. -/
def Signer.contacted (signer : Signer) : List Client :=
  signer.allParticipantClients.take signer.config.threshold.toNat

section
variable (signer : Signer) (signTx : Nat → Client → SignMessage → Reply) (message : SignMessage)

/-- The i-th client that is sent the message answers with this signature. -/
structure Signer.Answered (i : Nat) (client : Client) (sig : SignatureResult) : Prop where
  sent : signer.contacted[i]? = some client
  answer : signTx i client message = .ok sig

/-- As many participants as the threshold answered with this signature, and none with
another. -/
structure Signer.Enforced (sig : SignatureResult) : Prop where
  enough : ∃ participants : Finset Client,
    signer.config.threshold.toNat ≤ participants.card ∧
      ∀ client ∈ participants, ∃ i, signer.Answered signTx message i client sig
  alike : ∀ i client sig', signer.Answered signTx message i client sig' → sig' = sig

/-- There are enough clients, the first of them are different participants, none of these fails
and no two of them disagree. -/
structure Signer.Unanimous : Prop where
  enough : signer.config.threshold.toNat ≤ signer.allParticipantClients.length
  distinct : signer.contacted.Nodup
  answered : ∀ i client, signer.contacted[i]? = some client →
    ∃ sig, signTx i client message = .ok sig
  alike : ∀ i j client client' sig sig', signer.Answered signTx message i client sig →
    signer.Answered signTx message j client' sig' → sig = sig'

end

section
variable {signer : Signer} {signTx : Nat → Client → SignMessage → Reply} {message : SignMessage}

theorem Signer.length_contacted (signer : Signer) : signer.contacted.length =
    min signer.config.threshold.toNat signer.allParticipantClients.length :=
  List.length_take

theorem Signer.getElem?_results :
    (signer.results signTx message)[i]? = some (.ok sig) ↔
      ∃ client, signer.Answered signTx message i client sig := by
  rw [Signer.results]
  rw [List.getElem?_mapIdx, Option.map_eq_some_iff]
  apply exists_congr
  intro client
  exact ⟨fun h => ⟨h.1, h.2⟩, fun h => ⟨h.1, h.2⟩⟩

/-- An answer that is no error is enough for some signature. -/
theorem Signer.Answered.collect (h : signer.Answered signTx message i client sig) :
    ∃ first, collect (signer.results signTx message) = .ok first := by
  have hmem : sig ∈ (signer.results signTx message).filterMap Except.toOption :=
    List.mem_filterMap.2
      ⟨.ok sig, List.mem_of_getElem? (getElem?_results.2 ⟨client, h⟩), rfl⟩
  rw [MpcClient.collect]
  split
  · rename_i hnone
    rw [hnone] at hmem
    cases hmem
  · rename_i first _ _
    exact ⟨first, rfl⟩

theorem Signer.answered_of_collect (h : collect (signer.results signTx message) = .ok sig) :
    ∃ i client, signer.Answered signTx message i client sig := by
  obtain ⟨i, hfirst⟩ := (collect_ok_iff _).1 h
  exact ⟨i, getElem?_results.1 hfirst.answer⟩

theorem Signer.Unanimous.enforced (h : signer.Unanimous signTx message)
    (hsig : signer.Answered signTx message i client sig) :
    signer.Enforced signTx message sig where
  enough := by
    exists signer.contacted.toFinset
    apply And.intro
    · rw [List.toFinset_card_of_nodup h.distinct, signer.length_contacted]
      exact Nat.le_of_eq (Nat.min_eq_left h.enough).symm
    · intro client' hmem
      obtain ⟨j, hj⟩ := List.mem_iff_getElem?.1 (List.mem_toFinset.1 hmem)
      obtain ⟨sig', hsig'⟩ := h.answered j client' hj
      have heq := h.alike i j client client' sig sig' hsig ⟨hj, hsig'⟩
      exact ⟨j, hj, heq ▸ hsig'⟩
  alike := by
    intro j client' sig' hsig'
    exact h.alike j i client' client sig' sig hsig' hsig

/-- Threshold many participants among at most threshold many clients: they are all of them. -/
theorem Signer.Enforced.unanimous (h : signer.Enforced signTx message sig) :
    signer.Unanimous signTx message := by
  obtain ⟨⟨participants, hcard, hall⟩, halike⟩ := h
  have hsub : participants ⊆ signer.contacted.toFinset := by
    intro client hmem
    obtain ⟨i, hi⟩ := hall client hmem
    exact List.mem_toFinset.2 (List.mem_of_getElem? hi.sent)
  have hlength := signer.length_contacted
  have hle := Finset.card_le_card hsub
  have hbound : signer.contacted.toFinset.card ≤ signer.contacted.length :=
    List.toFinset_card_le _
  have hdistinct : signer.contacted.Nodup := by
    apply Multiset.coe_nodup.1
    apply Multiset.toFinset_card_eq_card_iff_nodup.1
    change signer.contacted.toFinset.card = signer.contacted.length
    omega
  have hparticipants : participants = signer.contacted.toFinset :=
    Finset.eq_of_subset_of_card_le hsub (by omega)
  constructor
  case enough => omega
  case distinct => exact hdistinct
  case answered =>
    intro i client hi
    have hmem : client ∈ participants := by
      rw [hparticipants]
      exact List.mem_toFinset.2 (List.mem_of_getElem? hi)
    obtain ⟨j, hj⟩ := hall client hmem
    have hij : j = i := by
      obtain ⟨hlt, hget⟩ := List.getElem?_eq_some_iff.1 hj.sent
      obtain ⟨hlt', hget'⟩ := List.getElem?_eq_some_iff.1 hi
      exact hdistinct.getElem_inj_iff.1 (hget.trans hget'.symm)
    exact ⟨sig, hij ▸ hj.answer⟩
  case alike =>
    intro i j client client' sig₁ sig₂ h₁ h₂
    rw [halike i client sig₁ h₁, halike j client' sig₂ h₂]

end

/-- The threshold is enforced just when `sign` fails anyway or every client that it asks
answers, enough of them and all alike. -/
theorem Signer.sign_enforced_iff (signer : Signer) (signTx : Nat → Client → SignMessage → Reply)
    (executionId data : Bytes) (accountId : String) :
    (∀ sig, (signer.sign signTx executionId data accountId).2 = .ok sig →
        signer.Enforced signTx (signer.message executionId data accountId) sig) ↔
      (signer.config.keyShares.any fun data => data.accountId = accountId) = false ∨
        (∀ i client sig, ¬signer.Answered signTx (signer.message executionId data accountId)
          i client sig) ∨
        signer.Unanimous signTx (signer.message executionId data accountId) := by
  rw [Signer.sign]
  cases signer.config.keyShares.any fun data => data.accountId = accountId with
  | false => exact ⟨fun _ => .inl rfl, fun _ _ => nofun⟩
  | true =>
    rw [if_pos rfl]
    dsimp only
    apply Iff.intro
    · intro h
      apply Or.inr
      by_cases hE : ∃ i client sig,
          signer.Answered signTx (signer.message executionId data accountId) i client sig
      · obtain ⟨i, client, sig, hsig⟩ := hE
        obtain ⟨first, hfirst⟩ := hsig.collect
        exact .inr (h first hfirst).unanimous
      · exact .inl fun i client sig hsig => hE ⟨i, client, sig, hsig⟩
    · intro h sig hsig
      obtain ⟨i, client, hanswer⟩ := Signer.answered_of_collect hsig
      obtain hunknown | hsilent | hunanimous := h
      · cases hunknown
      · exact absurd hanswer (hsilent i client sig)
      · exact hunanimous.enforced hanswer

/-- A signer that has started no local participant sends to the gateway alone, and is content
with what it answers. -/
theorem fresh_signer_below_threshold : ∃ signer sig,
    Signer.new aliceSignerConfig 0 0 (.ok ()) = .ok signer ∧
      signer.config.threshold = 2 ∧
      (signer.sign (fun _ _ _ => .ok sig) [] (List.replicate 32 7) "alice").2 = .ok sig ∧
      ¬signer.Enforced (fun _ _ _ => .ok sig)
        (signer.message [] (List.replicate 32 7) "alice") sig := by
  refine ⟨_, ⟨[], [], 0⟩, rfl, rfl, rfl, ?_⟩
  intro h
  exact absurd h.unanimous.enough (by decide)

end WalletMpc.MpcClient
