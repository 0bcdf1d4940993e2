import WalletMpc.Ecdsa

namespace Ecdsa
set_option autoImplicit true

variable {c : Curve}

/-- The point that an id of a signature tells from all others. -/
structure Signature.Names (sig : Signature c) (id : RecoveryId) (R : c.Point) : Prop where
  ne_zero : R ≠ 0
  x_eq : c.x R = if id.isXReduced then sig.r.val + c.order else sig.r.val
  yOdd_eq : c.yOdd R = id.isYOdd

/-- A point that some id of the signature names. -/
def Signature.Candidate (sig : Signature c) (R : c.Point) : Prop :=
  R ≠ 0 ∧ (c.x R = sig.r.val ∨ c.x R = sig.r.val + c.order)

instance (sig : Signature c) (R : c.Point) : Decidable (sig.Candidate R) :=
  inferInstanceAs (Decidable (_ ∧ _))

theorem Signature.candidate_iff {sig : Signature c} {R : c.Point} :
    sig.Candidate R ↔ ∃ id, sig.Names id R := by
  apply Iff.intro
  · intro h
    obtain ⟨hne, hx | hx⟩ := h
    · exact ⟨⟨c.yOdd R, false⟩, hne, hx, rfl⟩
    · exact ⟨⟨c.yOdd R, true⟩, hne, hx, rfl⟩
  · intro h
    obtain ⟨⟨odd, reduced⟩, hne, hx, _⟩ := h
    cases reduced with
    | false => exact ⟨hne, .inl hx⟩
    | true => exact ⟨hne, .inr hx⟩

theorem Signature.names_iff {sig : Signature c} {id : RecoveryId} {R : c.Point} :
    sig.Names id R ↔
      c.decompress (if id.isXReduced then sig.r.val + c.order else sig.r.val) id.isYOdd =
        some R := by
  rw [c.decompress_eq_some]
  exact ⟨fun h => ⟨h.ne_zero, h.x_eq, h.yOdd_eq⟩, fun h => ⟨h.1, h.2.1, h.2.2⟩⟩

theorem Signature.Names.point_eq {sig : Signature c} {id : RecoveryId} {R R' : c.Point}
    (h : sig.Names id R) (h' : sig.Names id R') : R = R' :=
  Option.some.inj ((Signature.names_iff.1 h).symm.trans (Signature.names_iff.1 h'))

theorem Signature.Names.id_eq {sig : Signature c} {id id' : RecoveryId} {R : c.Point}
    (h : sig.Names id R) (h' : sig.Names id' R) : id = id' := by
  obtain ⟨odd, reduced⟩ := id
  obtain ⟨odd', reduced'⟩ := id'
  obtain rfl : odd = odd' := h.yOdd_eq.symm.trans h'.yOdd_eq
  have hx := h.x_eq.symm.trans h'.x_eq
  have hpos := c.prime.pos
  cases reduced with
  | false =>
    cases reduced' with
    | false => rfl
    | true =>
      change sig.r.val = sig.r.val + c.order at hx
      omega
  | true =>
    cases reduced' with
    | false =>
      change sig.r.val + c.order = sig.r.val at hx
      omega
    | true => rfl

/-- The key is what the commitment gives back. -/
theorem Signature.recovered_commitment (sig : Signature c) (z : c.Scalar) (Q : c.Point) :
    (-(sig.r⁻¹ * z)) • c.gen + (sig.r⁻¹ * sig.s) • sig.commitment z Q = Q := by
  have hr := sig.r_ne
  have hs := sig.s_ne
  have hgen : -(sig.r⁻¹ * z) + sig.r⁻¹ * sig.s * (z / sig.s) = 0 := by
    field_simp
    ring
  have hQ : sig.r⁻¹ * sig.s * (sig.r / sig.s) = 1 := by
    field_simp
  rw [Signature.commitment, smul_add, smul_smul, smul_smul, ← add_assoc, ← add_smul, hgen, hQ,
    zero_smul, one_smul, zero_add]

/-- An id gives back a key just when it names the commitment under that key. -/
theorem Signature.recover_eq_some {sig : Signature c} {z : c.Scalar} {id : RecoveryId}
    {Q : c.Point} : sig.recover z id = some Q ↔ Q ≠ 0 ∧ sig.Names id (sig.commitment z Q) := by
  rw [Signature.recover, Option.bind_eq_some_iff]
  apply Iff.intro
  · intro h
    obtain ⟨R, hR, hQ⟩ := h
    dsimp only at hQ
    split at hQ
    · cases hQ
    · rename_i hne
      cases hQ
      rw [sig.commitment_recovered]
      exact ⟨hne, Signature.names_iff.2 hR⟩
  · intro h
    obtain ⟨hne, hnames⟩ := h
    refine ⟨_, Signature.names_iff.1 hnames, ?_⟩
    dsimp only
    rw [sig.recovered_commitment, if_neg hne]

theorem Signature.Names.x_lt {sig : Signature c} {id : RecoveryId} {R : c.Point}
    (h : sig.Names id R) (hx : id.isXReduced = false) : c.x R < c.order := by
  rw [h.x_eq, hx]
  exact sig.r.val_lt

theorem Signature.Valid.names {sig : Signature c} {z : c.Scalar} {Q : c.Point}
    (h : sig.Valid z Q) (hx : c.x (sig.commitment z Q) < c.order) :
    sig.Names ⟨c.yOdd (sig.commitment z Q), false⟩ (sig.commitment z Q) where
  ne_zero := h.1
  x_eq := by
    rw [← h.2]
    exact (ZMod.val_natCast_of_lt hx).symm
  yOdd_eq := rfl

/-- The scalar that a verifier derives from a digest. -/
def prehashScalar (c : Curve) (prehash : List UInt8) : Option c.Scalar :=
  (bits2field prehash).map fun bytes => (BigEndian.toNat bytes : c.Scalar)

theorem prehashScalar_of_length (h : prehash.length = 32) :
    prehashScalar c prehash = some (BigEndian.toNat prehash : c.Scalar) := by
  rw [prehashScalar, bits2field_of_length h, Option.map_some]

/-- A verifier takes a digest for its whole number just when it is long enough and what is cut
off does not matter. -/
theorem prehashScalar_eq_toNat_iff {prehash : List UInt8} :
    prehashScalar c prehash = some (BigEndian.toNat prehash : c.Scalar) ↔
      16 ≤ prehash.length ∧
        BigEndian.toNat (prehash.take 32) ≡ BigEndian.toNat prehash [MOD c.order] := by
  rw [prehashScalar, bits2field]
  split
  · rename_i hshort
    apply Iff.intro
    · intro h
      cases h
    · intro h
      omega
  · rename_i hlong
    rw [Option.map_some, Option.some_inj, BigEndian.toNat_zeros_append, ZMod.natCast_eq_natCast_iff]
    exact ⟨fun h => ⟨Nat.le_of_not_lt hlong, h⟩, fun h => h.2⟩

theorem prehashScalar_scalarBytes (z : c.Scalar) : prehashScalar c (scalarBytes z) = some z := by
  rw [prehashScalar_of_length (length_scalarBytes z), toNat_scalarBytes, ZMod.natCast_zmod_val]

theorem ne_zero_of_recoverFromPrehash {sig : Signature c} {id : RecoveryId} {Q : c.Point}
    (h : recoverFromPrehash prehash sig id = some Q) : Q ≠ 0 := by
  obtain ⟨_, _, hQ⟩ := Option.bind_eq_some_iff.1 h
  exact (Signature.recover_eq_some.1 (Option.filter_eq_some_iff.1 hQ).1).1

theorem recoverFromPrehash_eq_some {sig : Signature c} {id : RecoveryId} {Q : c.Point}
    (hs : ¬IsHigh sig.s) (hQ : Q ≠ 0) : recoverFromPrehash prehash sig id = some Q ↔
      ∃ h, prehashScalar c prehash = some h ∧ sig.Names id (sig.commitment h Q) := by
  rw [recoverFromPrehash, Option.bind_eq_some_iff]
  apply Iff.intro
  · intro h
    obtain ⟨bytes, hbytes, hQ'⟩ := h
    obtain ⟨hrec, _⟩ := Option.filter_eq_some_iff.1 hQ'
    refine ⟨BigEndian.toNat bytes, ?_, (Signature.recover_eq_some.1 hrec).2⟩
    rw [prehashScalar, hbytes, Option.map_some]
  · intro h
    obtain ⟨h, hh, hnames⟩ := h
    obtain ⟨bytes, hbytes, rfl⟩ := Option.map_eq_some_iff.1 hh
    have hrec := Signature.recover_eq_some.2 ⟨hQ, hnames⟩
    exact ⟨bytes, hbytes, Option.filter_eq_some_iff.2
      ⟨hrec, decide_eq_true ⟨hs, Signature.recover_valid hrec⟩⟩⟩

theorem RecoveryId.fromByte_eq_some {b : Nat} {id : RecoveryId} :
    fromByte b = some id ↔ id.toByte.toNat = b := by
  apply Iff.intro
  · intro h
    rw [fromByte] at h
    split at h
    · rename_i hb
      interval_cases b
      all_goals
        cases h
        rfl
    · cases h
  · intro h
    rw [← h]
    exact id.fromByte_toByte

theorem RecoveryId.mem_all (id : RecoveryId) : id ∈ all := by
  obtain ⟨odd, reduced⟩ := id
  revert odd reduced
  decide

theorem find?_eq_some_of_unique {l : List α} {p : α → Bool} (ha : a ∈ l) (hp : p a = true)
    (hu : ∀ b, p b = true → b = a) : l.find? p = some a := by
  cases hf : l.find? p with
  | none => exact absurd hp (List.find?_eq_none.1 hf a ha)
  | some b => rw [hu b (List.find?_some hf)]

/-- The trial finds the id that names the commitment to the hashed message. -/
theorem trialRecoveryFromMsg_eq_some {hash : List UInt8 → List UInt8} {sig : Signature c}
    {id : RecoveryId} {Q : c.Point} (hs : ¬IsHigh sig.s) (hQ : Q ≠ 0) :
    trialRecoveryFromMsg hash Q msg sig = some id ↔
      ∃ h, prehashScalar c (hash msg) = some h ∧ sig.Names id (sig.commitment h Q) := by
  rw [← recoverFromPrehash_eq_some hs hQ, trialRecoveryFromMsg]
  apply Iff.intro
  · intro h
    have hfound := List.find?_some h
    exact of_decide_eq_true hfound
  · intro h
    apply find?_eq_some_of_unique id.mem_all (decide_eq_true h)
    intro id' hid'
    obtain ⟨z, hz, hnames⟩ := (recoverFromPrehash_eq_some hs hQ).1 h
    obtain ⟨z', hz', hnames'⟩ := (recoverFromPrehash_eq_some hs hQ).1 (of_decide_eq_true hid')
    cases hz.symm.trans hz'
    exact hnames'.id_eq hnames

theorem trialRecoveryFromMsg_eq_none {hash : List UInt8 → List UInt8} {sig : Signature c}
    {Q : c.Point} (hs : ¬IsHigh sig.s) (hQ : Q ≠ 0) (ht : trialRecoveryFromMsg hash Q msg sig = none)
    (h : c.Scalar) (hh : prehashScalar c (hash msg) = some h) :
    ¬sig.Candidate (sig.commitment h Q) := by
  intro hc
  obtain ⟨id, hn⟩ := Signature.candidate_iff.1 hc
  cases ht.symm.trans ((trialRecoveryFromMsg_eq_some hs hQ).2 ⟨h, hh, hn⟩)

end Ecdsa
