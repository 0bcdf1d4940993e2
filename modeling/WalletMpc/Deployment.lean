import WalletMpc.SharedSigner

namespace WalletMpc.Wallet
open Systems Ecdsa Sse Proto Participant MpcClient
set_option autoImplicit true

/-- A message that one of several signers has sent. -/
structure Sent (signers : ν → MpcSigner ι) where
  signer : ν
  position : Nat
  message : SignMessage
  sent : (signers signer).sent[position]? = some message

/-- A participant serves the message with the index of its share. -/
def Sent.serving {signers : ν → MpcSigner ι} (x : Sent signers) (index : UInt16) : Serving :=
  ⟨x.message.txId, x.message.executionId, index⟩

/-- Whatever a session reads was posted by a session that serves the same message. -/
def Unmixed {signers : ν → MpcSigner ι} (served : σ → Sent signers) (s : Network σ M) : Prop :=
  ∀ a x, s.sessions a = some x → ∀ k item, (k, item) ∈ x.yielded →
    ∃ e, (s.history x.room)[k.toNat]? = some e ∧ served e.session = served a

theorem Sent.ext {signers : ν → MpcSigner ι} {x y : Sent signers} (hsigner : x.signer = y.signer)
    (hposition : x.position = y.position) : x = y := by
  obtain ⟨n, i, m, h⟩ := x
  obtain ⟨n', i', m', h'⟩ := y
  cases hsigner
  cases hposition
  cases h.symm.trans h'
  rfl

theorem Sent.ne_nil {signers : ν → MpcSigner ι} (x : Sent signers) :
    (signers x.signer).sent ≠ [] := by
  intro hnil
  have hsent := x.sent
  rw [hnil] at hsent
  cases hsent

theorem Sent.position_lt {signers : ν → MpcSigner ι} (x : Sent signers) :
    x.position < (signers x.signer).sent.length :=
  (List.getElem?_eq_some_iff.1 x.sent).1

/-- The message at a position. -/
theorem exists_sent (signers : ν → MpcSigner ι) (hi : i < (signers n).sent.length) :
    ∃ x : Sent signers, x.signer = n ∧ x.position = i :=
  ⟨⟨n, i, _, List.getElem?_eq_getElem hi⟩, rfl, rfl⟩

/-- The signers use no transaction id twice. -/
structure Fresh (signers : ν → MpcSigner ι) : Prop where
  few : ∀ n, (signers n).sent.length ≤ 65536
  apart : ∀ n m, (signers n).sent ≠ [] → (signers m).sent ≠ [] →
    (signers n).lifecycle.signer.instanceId = (signers m).lifecycle.signer.instanceId → n = m

section
variable {c : Curve} {platform : Platform c} {config : ν → SignerConfig} [DecidableEq ι]
variable {signers : ν → MpcSigner ι}

theorem Sent.txId_eq_iff (h : ∀ n, (mpcSigner platform (config n) ι).Reachable (signers n))
    (x y : Sent signers) : x.message.txId = y.message.txId ↔
      (signers x.signer).lifecycle.signer.instanceId =
        (signers y.signer).lifecycle.signer.instanceId ∧
      x.position % 65536 = y.position % 65536 := by
  obtain ⟨id, hn⟩ := MpcSigner.numbered (h x.signer)
  obtain ⟨id', hn'⟩ := MpcSigner.numbered (h y.signer)
  have hcounter := counter_eq_iff 0 x.position y.position
  rw [UInt16.zero_add, UInt16.zero_add] at hcounter
  rw [hn.txId_at x.sent, hn'.txId_at y.sent, txId_inj, hcounter, hn.instanceId, hn'.instanceId]

theorem txId_injective_iff (h : ∀ n, (mpcSigner platform (config n) ι).Reachable (signers n)) :
    (∀ x y : Sent signers, x.message.txId = y.message.txId → x = y) ↔ Fresh signers := by
  apply Iff.intro
  · intro hinj
    constructor
    · intro n
      by_contra hlong
      obtain ⟨x, hx, hi⟩ := exists_sent signers (n := n) (i := 0) (by omega)
      obtain ⟨y, hy, hj⟩ := exists_sent signers (n := n) (i := 65536) (by omega)
      have heq := hinj x y ((Sent.txId_eq_iff h x y).2 ⟨by rw [hx, hy], by rw [hi, hj]⟩)
      rw [heq, hj] at hi
      cases hi
    · intro n m hn hm hid
      obtain ⟨x, rfl, hi⟩ := exists_sent signers (List.length_pos_iff.2 hn)
      obtain ⟨y, rfl, hj⟩ := exists_sent signers (List.length_pos_iff.2 hm)
      rw [hinj x y ((Sent.txId_eq_iff h x y).2 ⟨hid, by rw [hi, hj]⟩)]
  · intro hfresh x y hid
    obtain ⟨hinstance, hposition⟩ := (Sent.txId_eq_iff h x y).1 hid
    have hx := x.position_lt.trans_le (hfresh.few _)
    have hy := y.position_lt.trans_le (hfresh.few _)
    rw [Nat.mod_eq_of_lt hx, Nat.mod_eq_of_lt hy] at hposition
    exact Sent.ext (hfresh.apart _ _ x.ne_nil y.ne_nil hinstance) hposition

end

/-- What a session reads was posted under the transaction id that it serves. -/
theorem serving_source [DecidableEq σ] {serde : Serde M} {request : σ → Serving} {s : Network σ M}
    (h : (serving p serde request).Reachable s) (ha : s.sessions a = some x)
    (hk : (k, item) ∈ x.yielded) : ∃ e, (s.history x.room)[k.toNat]? = some e ∧
      (request e.session).txId = (request a).txId := by
  have hi := Network.inv h.of_restrict
  obtain ⟨e, _, he, _⟩ := (hi.sound a x ha).yielded k item hk
  obtain ⟨y, hy, hroom, _⟩ := hi.posted x.room e (List.mem_of_getElem? he)
  refine ⟨e, he, signingRoom_inj.1 ?_⟩
  rw [← (serving_session h e.session y hy).1, ← (serving_session h a x ha).1, hroom]

theorem unmixed_of_injective [DecidableEq σ] {serde : Serde M} {signers : ν → MpcSigner ι}
    (hinj : ∀ x y : Sent signers, x.message.txId = y.message.txId → x = y)
    {served : σ → Sent signers} {index : σ → UInt16} {s : Network σ M}
    (h : (serving p serde fun a => (served a).serving (index a)).Reachable s) :
    Unmixed served s := by
  intro a x ha k item hk
  obtain ⟨e, he, htx⟩ := serving_source h ha hk
  exact ⟨e, he, hinj _ _ htx⟩

/-- One party serves a message, then another party a message with the same transaction id. -/
theorem mixed_of_collision (p : Profile) {serde : Serde M} {signers : ν → MpcSigner ι}
    (henc : outgoing serde 1 ⟨.allParties, m⟩ = .ok text) {x y : Sent signers}
    (htx : x.message.txId = y.message.txId) (hne : x ≠ y) :
    ∃ (served : Nat → Sent signers) (index : Nat → UInt16) (s : Network Nat M),
      (serving p serde fun a => (served a).serving (index a)).Reachable s ∧ ¬Unmixed served s := by
  let served : Nat → Sent signers := fun a => if a = 1 then x else y
  let index : Nat → UInt16 := fun a => if a = 1 then 1 else 0
  let request : Nat → Serving := fun a => (served a).serving (index a)
  have hrooms : (request 0).txId = (request 1).txId := htx.symm
  have hindex : (request 1).index ≠ (request 0).index := show (1 : UInt16) ≠ 0 by decide
  obtain ⟨s, z, e, item, hs, hz, hitem, he, hone⟩ := serving_leak p hrooms hindex henc
  refine ⟨served, index, s, hs, fun hunmixed => hne ?_⟩
  obtain ⟨e', he', hsame⟩ := hunmixed 0 z hz 0 item hitem
  cases he.symm.trans he'
  rw [hone] at hsame
  exact hsame

/-- Sessions that serve what the signers have sent keep to their messages in every run just when the
signers have used no transaction id twice. -/
theorem sessions_unmixed_iff {c : Curve} {platform : Platform c} {config : ν → SignerConfig}
    [DecidableEq ι] {signers : ν → MpcSigner ι} (p : Profile) (serde : Serde M)
    (henc : ∃ m text, outgoing serde 1 ⟨.allParties, m⟩ = .ok text)
    (h : ∀ n, (mpcSigner platform (config n) ι).Reachable (signers n)) :
    (∀ (served : Nat → Sent signers) (index : Nat → UInt16) (s : Network Nat M),
      (serving p serde fun a => (served a).serving (index a)).Reachable s → Unmixed served s) ↔
    Fresh signers := by
  rw [← txId_injective_iff h]
  apply Iff.intro
  · intro hunmixed x y htx
    by_contra hne
    obtain ⟨m, text, hout⟩ := henc
    obtain ⟨served, index, s, hs, hmixed⟩ := mixed_of_collision p hout htx hne
    exact hmixed (hunmixed served index s hs)
  · intro hinj served index s hs
    exact unmixed_of_injective hinj hs

/-- Two signers, each of which has sent two messages. -/
theorem sessions_unmixed_iff_alice : ∃ signers : Bool → MpcSigner Unit,
    (∀ n, (signers n).sent.length = 2) ∧ ∀ (served : Nat → Sent signers) (index : Nat → UInt16)
      (s : Network Nat Nat), (serving .dev numbers fun a =>
        (served a).serving (index a)).Reachable s → Unmixed served s := by
  have hsigner (randomPart : UInt8) : ∃ s : MpcSigner Unit,
      (mpcSigner tinyPlatform aliceSignerConfig Unit).Reachable s ∧ s.sent.length = 2 ∧
        s.lifecycle.signer.instanceId = generateInstanceId 0 randomPart := by
    have h0 : (mpcSigner tinyPlatform aliceSignerConfig Unit).Reachable
        (aliceMpcSigner Unit randomPart) := .start (aliceMpcSigner_start randomPart)
    have h1 := h0.next (.call (k := ()) (.signData [1] "alice") rfl)
    have h2 := h1.next (.send (k := ()) [] ⟨rfl, rfl, rfl⟩ rfl)
    have h3 := h2.next (.signed (k := ()) (fun _ _ _ => .error ⟨.unavailable, ""⟩) rfl)
    have h4 := h3.next (.call (k := ()) (.signData [2] "alice") rfl)
    exact ⟨_, h4.next (.send (k := ()) [] ⟨rfl, rfl, rfl⟩ rfl), rfl, rfl⟩
  choose signers h hlength hid using hsigner
  refine ⟨fun n => signers (if n then 1 else 0), fun n => hlength _,
    (sessions_unmixed_iff .dev numbers ⟨42, _, rfl⟩ fun n => h _).2 ⟨fun n => ?_, ?_⟩⟩
  · rw [hlength]
    decide
  · intro n m _ _ hsame
    rw [hid, hid] at hsame
    cases n with
    | false =>
      cases m with
      | false => rfl
      | true => exact absurd hsame (by decide)
    | true =>
      cases m with
      | false => exact absurd hsame (by decide)
      | true => rfl

end WalletMpc.Wallet
