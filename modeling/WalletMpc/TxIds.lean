import WalletMpc.Signer

namespace WalletMpc.MpcClient
open Proto Participant
set_option autoImplicit true

/-- A call of `sign`, with the execution id that it draws and the answers that it gets. -/
structure SignCall where
  signTx : Nat → Client → SignMessage → Reply
  executionId : Bytes
  data : Bytes
  accountId : String

/-- The room of a call, which only a call for a known account has. -/
def Signer.room (signer : Signer) (call : SignCall) : Option String :=
  if signer.config.keyShares.any fun data => data.accountId = call.accountId then
    some (signingRoom (signer.message call.executionId call.data call.accountId).txId)
  else none

/-- The rooms of a run of calls, one after the other. -/
def Signer.rooms : Signer → List SignCall → List String
  | _, [] => []
  | signer, call :: rest =>
    (signer.room call).toList ++
      Signer.rooms (signer.sign call.signTx call.executionId call.data call.accountId).1 rest

/-- The transaction id that an instance draws at a value of its counter. -/
def txId (instanceId counter : UInt16) : Int32 :=
  (instanceId.toUInt32 <<< 16 ||| counter.toUInt32).toInt32

theorem toNat_txId (instanceId counter : UInt16) :
    (txId instanceId counter).toUInt32.toNat = instanceId.toNat * 65536 + counter.toNat := by
  have hinstance := instanceId.toNat_lt
  have hcounter : counter.toNat < 2 ^ 16 := counter.toNat_lt
  have hhigh : (instanceId.toUInt32 <<< 16).toNat = instanceId.toNat <<< 16 := by
    rw [UInt32.toNat_shiftLeft]
    change instanceId.toNat <<< 16 % 2 ^ 32 = instanceId.toNat <<< 16
    rw [Nat.shiftLeft_eq]
    omega
  rw [txId, UInt32.toUInt32_toInt32, UInt32.toNat_or, hhigh, UInt16.toNat_toUInt32,
    ← Nat.shiftLeft_add_eq_or_of_lt hcounter, Nat.shiftLeft_eq]

theorem txId_inj {a a' b b' : UInt16} : txId a b = txId a' b' ↔ a = a' ∧ b = b' := by
  apply Iff.intro
  · intro h
    have hnat := congrArg (fun id => id.toUInt32.toNat) h
    simp only [toNat_txId] at hnat
    have hb := b.toNat_lt
    have hb' := b'.toNat_lt
    exact ⟨UInt16.toNat_inj.1 (by omega), UInt16.toNat_inj.1 (by omega)⟩
  · intro h
    rw [h.1, h.2]

theorem Signer.sign_config (signer : Signer) (signTx : Nat → Client → SignMessage → Reply)
    (executionId data : Bytes) (accountId : String) :
    (signer.sign signTx executionId data accountId).1.config = signer.config ∧
      (signer.sign signTx executionId data accountId).1.instanceId = signer.instanceId := by
  rw [Signer.sign]
  split
  · exact ⟨rfl, rfl⟩
  · exact ⟨rfl, rfl⟩

/-- The counter counts the calls that have a room. -/
theorem Signer.sign_txCounter (signer : Signer) (call : SignCall) :
    (signer.sign call.signTx call.executionId call.data call.accountId).1.txCounter =
      signer.txCounter + UInt16.ofNat (signer.room call).toList.length := by
  rw [Signer.sign, Signer.room]
  split
  · rfl
  · exact (UInt16.add_zero _).symm

/-- The i-th room of a run is that of the i-th value of the counter. -/
theorem Signer.rooms_getElem {signer : Signer} {calls : List SignCall} {room : String}
    (h : (signer.rooms calls)[i]? = some room) :
    room = signingRoom (txId signer.instanceId (signer.txCounter + UInt16.ofNat i)) := by
  induction calls generalizing signer i with
  | nil => cases h
  | cons call rest ih =>
    obtain ⟨_, hinstance⟩ := signer.sign_config call.signTx call.executionId call.data call.accountId
    have hcounter := signer.sign_txCounter call
    rw [Signer.rooms] at h
    cases hr : signer.room call with
    | none =>
      rw [hr] at h hcounter
      rw [ih h, hinstance, hcounter]
      congr 2
      exact congrArg (· + UInt16.ofNat i) (UInt16.add_zero _)
    | some first =>
      rw [hr] at h hcounter
      cases i with
      | zero =>
        cases h
        rw [Signer.room] at hr
        split at hr
        · cases hr
          have hzero := UInt16.add_zero signer.txCounter
          exact congrArg (fun counter => signingRoom (txId signer.instanceId counter)) hzero.symm
        · cases hr
      | succ i =>
        rw [ih h, hinstance, hcounter]
        congr 2
        rw [UInt16.add_assoc, ← UInt16.ofNat_add]
        congr 2
        exact Nat.add_comm 1 i

theorem counter_eq_iff (counter : UInt16) (i j : Nat) :
    counter + UInt16.ofNat i = counter + UInt16.ofNat j ↔ i % 65536 = j % 65536 := by
  rw [UInt16.add_right_inj, ← UInt16.toNat_inj, UInt16.toNat_ofNat', UInt16.toNat_ofNat']

/-- Two calls of one signer have the same room just when they are a multiple of 65536 calls
apart, and two signers with different instance ids have no room in common. -/
theorem Signer.rooms_eq_iff (signer : Signer) (calls : List SignCall) :
    (∀ i j room room', (signer.rooms calls)[i]? = some room →
      (signer.rooms calls)[j]? = some room' → (room = room' ↔ i % 65536 = j % 65536)) ∧
    ∀ signer' calls', signer'.instanceId ≠ signer.instanceId →
      ∀ room ∈ signer.rooms calls, room ∉ Signer.rooms signer' calls' := by
  apply And.intro
  · intro i j room room' hi hj
    rw [Signer.rooms_getElem hi, Signer.rooms_getElem hj, signingRoom_inj, txId_inj, counter_eq_iff]
    exact and_iff_right rfl
  · intro signer' calls' hne room hroom hroom'
    obtain ⟨i, hi⟩ := List.mem_iff_getElem?.1 hroom
    obtain ⟨j, hj⟩ := List.mem_iff_getElem?.1 hroom'
    have heq := (Signer.rooms_getElem hj).symm.trans (Signer.rooms_getElem hi)
    exact hne (txId_inj.1 (signingRoom_inj.1 heq)).1

theorem Signer.length_rooms {signer : Signer} {calls : List SignCall}
    (h : ∀ call ∈ calls,
      (signer.config.keyShares.any fun data => data.accountId = call.accountId) = true) :
    (signer.rooms calls).length = calls.length := by
  induction calls generalizing signer with
  | nil => rfl
  | cons call rest ih =>
    obtain ⟨hconfig, _⟩ := signer.sign_config call.signTx call.executionId call.data call.accountId
    have hroom : (signer.room call).toList.length = 1 := by
      rw [Signer.room]
      rw [if_pos (h call List.mem_cons_self)]
      rfl
    have hrest : ∀ next ∈ rest, ((signer.sign call.signTx call.executionId call.data
        call.accountId).1.config.keyShares.any fun data => data.accountId = next.accountId) =
          true := by
      rw [hconfig]
      exact fun next hnext => h next (List.mem_cons_of_mem _ hnext)
    rw [Signer.rooms, List.length_append, hroom, ih hrest, List.length_cons, Nat.add_comm]

def aliceSignCall : SignCall := ⟨fun _ _ _ => .error ⟨.unavailable, ""⟩, [], [], "alice"⟩

/-- The call after 65536 others uses the room of the first one again. -/
theorem room_used_again : ∃ signer calls room,
    Signer.new aliceSignerConfig 0 0 (.ok ()) = .ok signer ∧ calls.length = 65537 ∧
      (signer.rooms calls)[0]? = some room ∧ (signer.rooms calls)[65536]? = some room := by
  refine ⟨⟨aliceSignerConfig, none, none, [.gateway], 0, 0⟩, List.replicate 65537 aliceSignCall,
    signingRoom (txId 0 0), rfl, List.length_replicate, ?_⟩
  have hknown : ∀ call ∈ List.replicate 65537 aliceSignCall,
      (aliceSignerConfig.keyShares.any fun data => data.accountId = call.accountId) = true := by
    intro call hcall
    rw [List.eq_of_mem_replicate hcall]
    rfl
  have hlength : (Signer.rooms ⟨aliceSignerConfig, none, none, [.gateway], 0, 0⟩
      (List.replicate 65537 aliceSignCall)).length = 65537 :=
    (Signer.length_rooms hknown).trans List.length_replicate
  have hget : ∀ i, i < 65537 → ∃ room, (Signer.rooms ⟨aliceSignerConfig, none, none, [.gateway],
      0, 0⟩ (List.replicate 65537 aliceSignCall))[i]? = some room := by
    intro i hi
    exact ⟨_, List.getElem?_eq_getElem (by rw [hlength]; exact hi)⟩
  obtain ⟨first, hfirst⟩ := hget 0 (by omega)
  obtain ⟨last, hlast⟩ := hget 65536 (by omega)
  rw [hfirst, hlast, Signer.rooms_getElem hfirst, Signer.rooms_getElem hlast]
  exact ⟨rfl, rfl⟩

end WalletMpc.MpcClient
