import WalletMpc.Systems
import WalletMpc.Signer

namespace WalletMpc.Participant
open Systems Ecdsa MpcClient
set_option autoImplicit true

/-- How far a call of `ParticipantServer::start` has come. -/
inductive Stage where
  | begun
  | stored
  | listening
  | ended
  deriving DecidableEq

/-- What the receiver of a call waits for: its sender fires or is dropped. -/
inductive Signal where
  | waiting
  | fired
  | dropped
  deriving DecidableEq

structure StartCall where
  stage : Stage
  signal : Signal

def StartCall.Serving (call : StartCall) : Prop :=
  call.stage = .listening ∧ call.signal = .waiting

instance (call : StartCall) : Decidable call.Serving := inferInstanceAs (Decidable (_ ∧ _))

/-- A call that serves, or will once it has bound its address. -/
def StartCall.Live (call : StartCall) : Prop :=
  (call.stage = .stored ∨ call.stage = .listening) ∧ call.signal = .waiting

instance (call : StartCall) : Decidable call.Live := inferInstanceAs (Decidable (_ ∧ _))

def StartCall.to (stage : Stage) (call : StartCall) : StartCall := { call with stage := stage }

/-- A sender does something once. -/
def StartCall.signalled (signal : Signal) (call : StartCall) : StartCall :=
  if call.signal = .waiting then { call with signal := signal } else call

/-- The calls of `start` on the clones of one server, whose sender `server_handle` holds, and
whether a shutdown has returned since the last of them began. -/
structure ServerSlot where
  calls : Nat → StartCall
  begun : Nat
  serverHandle : Option Nat
  quiet : Bool

def ServerSlot.update (s : ServerSlot) (k : Nat) (f : StartCall → StartCall) : ServerSlot :=
  { s with calls := Function.update s.calls k (f (s.calls k)) }

def ServerSlot.begin (s : ServerSlot) : ServerSlot :=
  { s with
    calls := Function.update s.calls s.begun ⟨.begun, .waiting⟩
    begun := s.begun + 1
    quiet := false }

/-- What becomes of the sender in the slot when it is taken out. -/
def ServerSlot.release (s : ServerSlot) (signal : Signal) : ServerSlot :=
  match s.serverHandle with
  | none => s
  | some k => s.update k (.signalled signal)

/-- The new sender takes the place of the old one, which is dropped. -/
def ServerSlot.store (s : ServerSlot) (k : Nat) : ServerSlot :=
  { (s.release .dropped).update k (.to .stored) with serverHandle := some k }

def ServerSlot.shutdown (s : ServerSlot) : ServerSlot :=
  { s.release .fired with serverHandle := none, quiet := true }

inductive SlotEvent where
  | startRejected
  | begin
  | store (k : Nat)
  | listen (k : Nat)
  | addressTaken (k j : Nat)
  | ended (k : Nat)
  | shutdown

inductive ServerSlot.Step {c : Curve} (platform : Platform c) (server : ParticipantServer c) :
    ServerSlot → SlotEvent → ServerSlot → Prop where
  | startRejected : platform.parsesAddress server.serverAddress = false →
      Step platform server s .startRejected s
  | begin : platform.parsesAddress server.serverAddress = true →
      Step platform server s .begin s.begin
  | store : k < s.begun → (s.calls k).stage = .begun →
      Step platform server s (.store k) (s.store k)
  | listen : k < s.begun → (s.calls k).stage = .stored →
      (∀ j < s.begun, ¬(s.calls j).Serving) →
      Step platform server s (.listen k) (s.update k (.to .listening))
  -- whoever listens may hold the address until its call has ended
  | addressTaken : k < s.begun → j < s.begun → (s.calls k).stage = .stored →
      (s.calls j).stage = .listening →
      Step platform server s (.addressTaken k j) (s.update k (.to .ended))
  -- the end of a shutdown, another error, or a call that is given up
  | ended : k < s.begun → Step platform server s (.ended k) (s.update k (.to .ended))
  | shutdown : Step platform server s .shutdown s.shutdown

/-- All interleavings of calls on the clones of one server. -/
def slot {c : Curve} (platform : Platform c) (server : ParticipantServer c) :
    System ServerSlot SlotEvent where
  start s := s.begun = 0 ∧ s.serverHandle = none ∧ s.quiet = false
  step := ServerSlot.Step platform server

/-- Nothing serves once a shutdown has returned and no start has begun since; and a start that
finds the address taken leaves the holder serving and in the slot, if no shutdown stopped it. -/
structure ServerSlot.Tracked (s : ServerSlot) : Prop where
  gone : s.quiet = true → ∀ k < s.begun, ¬(s.calls k).Serving
  spared : ∀ (k j : Nat), k < s.begun → j < s.begun → (s.calls k).stage = .stored →
    (s.calls j).stage = .listening → (s.calls j).signal ≠ .fired →
    ((s.update k (.to .ended)).calls j).Serving ∧ s.serverHandle = some j

/-- A start stores its sender while no other call is live, and a shutdown comes while no call
has begun without having stored its own. -/
def ServerSlot.Careful (s : ServerSlot) : SlotEvent → Prop
  | .store k => ∀ j < s.begun, j ≠ k → ¬(s.calls j).Live
  | .shutdown => ∀ k < s.begun, (s.calls k).stage ≠ .begun
  | _ => True

theorem StartCall.Serving.live {call : StartCall} (h : call.Serving) : call.Live :=
  ⟨.inr h.1, h.2⟩

theorem StartCall.Live.stage_ne_begun {call : StartCall} (h : call.Live) : call.stage ≠ .begun := by
  obtain h | h := h.1
  · rw [h]
    exact nofun
  · rw [h]
    exact nofun

theorem StartCall.not_live_ended (call : StartCall) : ¬(call.to .ended).Live := by
  intro h
  obtain h | h := h.1
  · cases h
  · cases h

theorem StartCall.signalled_stage (signal : Signal) (call : StartCall) :
    (call.signalled signal).stage = call.stage := by
  rw [StartCall.signalled]
  split
  · rfl
  · rfl

/-- The signal of a call is the new one if it waited for one, and else what it was. -/
theorem StartCall.signalled_signal (signal : Signal) (call : StartCall) :
    (call.signalled signal).signal = if call.signal = .waiting then signal else call.signal := by
  rw [StartCall.signalled]
  split
  · rfl
  · rfl

theorem StartCall.not_waiting_signalled {signal : Signal} (h : signal ≠ .waiting)
    (call : StartCall) : (call.signalled signal).signal ≠ .waiting := by
  rw [StartCall.signalled_signal]
  split
  · exact h
  · assumption

section
variable {s t : ServerSlot}

theorem ServerSlot.release_calls (s : ServerSlot) (signal : Signal) (j : Nat) :
    (s.release signal).calls j =
      if s.serverHandle = some j then (s.calls j).signalled signal else s.calls j := by
  rw [ServerSlot.release]
  split
  · rename_i hnone
    rw [hnone]
    rfl
  · rename_i k hk
    rw [hk]
    by_cases hj : j = k
    · subst hj
      rw [if_pos rfl]
      exact Function.update_self ..
    · rw [if_neg fun h => hj (Option.some.inj h).symm]
      exact Function.update_of_ne hj ..

theorem ServerSlot.release_begun (s : ServerSlot) (signal : Signal) :
    (s.release signal).begun = s.begun := by
  rw [ServerSlot.release]
  split
  · rfl
  · rfl

theorem ServerSlot.release_quiet (s : ServerSlot) (signal : Signal) :
    (s.release signal).quiet = s.quiet := by
  rw [ServerSlot.release]
  split
  · rfl
  · rfl

theorem ServerSlot.release_stage (s : ServerSlot) (signal : Signal) (j : Nat) :
    ((s.release signal).calls j).stage = (s.calls j).stage := by
  rw [s.release_calls]
  split
  · exact StartCall.signalled_stage signal _
  · rfl

theorem ServerSlot.update_self (s : ServerSlot) (k : Nat) (f : StartCall → StartCall) :
    (s.update k f).calls k = f (s.calls k) :=
  Function.update_self ..

theorem ServerSlot.update_of_ne (s : ServerSlot) (f : StartCall → StartCall) (h : j ≠ k) :
    (s.update k f).calls j = s.calls j :=
  Function.update_of_ne h ..

theorem ServerSlot.forall_update {P : Nat → StartCall → Prop} (s : ServerSlot) (k : Nat)
    (f : StartCall → StartCall) :
    (∀ j, P j ((s.update k f).calls j)) ↔ P k (f (s.calls k)) ∧ ∀ j, j ≠ k → P j (s.calls j) :=
  Function.forall_update_iff s.calls P

/-- What holds whatever the calls: only the call whose sender is in the slot is live. -/
structure ServerSlot.Inv (s : ServerSlot) : Prop where
  known : ∀ k, s.serverHandle = some k → k < s.begun
  held : ∀ k, k < s.begun → (s.calls k).Live → s.serverHandle = some k
  fresh : ∀ k, k < s.begun → (s.calls k).stage = .begun →
    (s.calls k).signal = .waiting ∧ s.serverHandle ≠ some k

/-- No sender was dropped under a call that is still on its way, and after a shutdown no call
is. -/
structure ServerSlot.Tidy (s : ServerSlot) : Prop where
  undropped : ∀ k, k < s.begun → (s.calls k).stage ≠ .ended → (s.calls k).signal ≠ .dropped
  still : s.quiet = true → ∀ k, k < s.begun → (s.calls k).stage ≠ .begun ∧ ¬(s.calls k).Live

theorem ServerSlot.Inv.not_live_release (h : s.Inv) {signal : Signal} (hs : signal ≠ .waiting)
    (hj : j < s.begun) : ¬((s.release signal).calls j).Live := by
  intro hlive
  rw [s.release_calls] at hlive
  split at hlive
  · exact StartCall.not_waiting_signalled hs _ hlive.2
  · rename_i hslot
    exact hslot (h.held j hj hlive)

/-- A call that has not stored its sender is left alone. -/
theorem ServerSlot.Inv.release_fresh (h : s.Inv) (hk : k < s.begun)
    (hstage : (s.calls k).stage = .begun) (signal : Signal) :
    (s.release signal).calls k = ⟨.begun, .waiting⟩ := by
  obtain ⟨hwaiting, hslot⟩ := h.fresh k hk hstage
  rw [s.release_calls, if_neg hslot, ← hwaiting, ← hstage]

theorem ServerSlot.store_calls (s : ServerSlot) (k : Nat) : (s.store k).calls =
    ((s.release .dropped).update k (.to .stored)).calls :=
  rfl

theorem ServerSlot.store_begun (s : ServerSlot) (k : Nat) : (s.store k).begun = s.begun :=
  s.release_begun .dropped

theorem ServerSlot.shutdown_begun (s : ServerSlot) : s.shutdown.begun = s.begun :=
  s.release_begun .fired

theorem ServerSlot.shutdown_calls (s : ServerSlot) : s.shutdown.calls = (s.release .fired).calls :=
  rfl

theorem ServerSlot.Inv.store (h : s.Inv) (hk : k < s.begun) : (s.store k).Inv where
  known := by
    intro j hj
    cases hj
    rw [s.store_begun]
    exact hk
  held := by
    rw [s.store_begun, s.store_calls]
    apply (ServerSlot.forall_update _ _ _ (P := fun j call =>
      j < s.begun → call.Live → some k = some j)).2
    exact ⟨fun _ _ => rfl, fun j _ hj hlive => absurd hlive (h.not_live_release nofun hj)⟩
  fresh := by
    rw [s.store_begun, s.store_calls]
    apply (ServerSlot.forall_update _ _ _ (P := fun j call => j < s.begun → call.stage = .begun →
      call.signal = .waiting ∧ some k ≠ some j)).2
    apply And.intro
    · exact fun _ => nofun
    · intro j hj hlt hstage'
      rw [s.release_stage] at hstage'
      rw [h.release_fresh hlt hstage']
      exact ⟨rfl, fun heq => hj (Option.some.inj heq).symm⟩

theorem ServerSlot.Inv.update (h : s.Inv) (k : Nat) (hb : stage ≠ .begun)
    (hlive : k < s.begun → ((s.calls k).to stage).Live → (s.calls k).Live) :
    (s.update k (.to stage)).Inv where
  known := h.known
  held := by
    apply (ServerSlot.forall_update _ _ _ (P := fun j call =>
      j < s.begun → call.Live → s.serverHandle = some j)).2
    exact ⟨fun hk hl => h.held k hk (hlive hk hl), fun j _ => h.held j⟩
  fresh := by
    apply (ServerSlot.forall_update _ _ _ (P := fun j call => j < s.begun → call.stage = .begun →
      call.signal = .waiting ∧ s.serverHandle ≠ some j)).2
    exact ⟨fun _ hstage => absurd hstage hb, fun j _ => h.fresh j⟩

theorem ServerSlot.Tidy.update (h : s.Tidy) (k : Nat) (hb : stage ≠ .begun)
    (hd : k < s.begun → stage ≠ .ended → (s.calls k).signal ≠ .dropped)
    (hlive : k < s.begun → ((s.calls k).to stage).Live → (s.calls k).Live) :
    (s.update k (.to stage)).Tidy where
  undropped := by
    apply (ServerSlot.forall_update _ _ _ (P := fun j call =>
      j < s.begun → call.stage ≠ .ended → call.signal ≠ .dropped)).2
    exact ⟨hd, fun j _ => h.undropped j⟩
  still := by
    intro hquiet
    apply (ServerSlot.forall_update _ _ _ (P := fun j call =>
      j < s.begun → call.stage ≠ .begun ∧ ¬call.Live)).2
    exact ⟨fun hk => ⟨hb, fun hl => (h.still hquiet k hk).2 (hlive hk hl)⟩,
      fun j _ => h.still hquiet j⟩

theorem ServerSlot.Inv.begin (h : s.Inv) : s.begin.Inv where
  known k hk := Nat.lt_succ_of_lt (h.known k hk)
  held := by
    apply (Function.forall_update_iff s.calls fun j call =>
      j < s.begun + 1 → call.Live → s.serverHandle = some j).2
    apply And.intro
    · exact fun _ hl => absurd rfl hl.stage_ne_begun
    · exact fun j hj hlt => h.held j (Nat.lt_of_le_of_ne (Nat.le_of_lt_succ hlt) hj)
  fresh := by
    apply (Function.forall_update_iff s.calls fun j call => j < s.begun + 1 →
      call.stage = .begun → call.signal = .waiting ∧ s.serverHandle ≠ some j).2
    apply And.intro
    · intro _ _
      exact ⟨rfl, fun hslot => Nat.lt_irrefl _ (h.known _ hslot)⟩
    · exact fun j hj hlt => h.fresh j (Nat.lt_of_le_of_ne (Nat.le_of_lt_succ hlt) hj)

theorem ServerSlot.Inv.shutdown (h : s.Inv) : s.shutdown.Inv where
  known := nofun
  held := by
    rw [s.shutdown_begun]
    exact fun k hk hl => absurd hl (h.not_live_release nofun hk)
  fresh := by
    rw [s.shutdown_begun, s.shutdown_calls]
    intro k hk hstage
    rw [s.release_stage] at hstage
    rw [h.release_fresh hk hstage]
    exact ⟨rfl, nofun⟩

theorem ServerSlot.Tidy.begin (h : s.Tidy) : s.begin.Tidy where
  undropped := by
    apply (Function.forall_update_iff s.calls fun j call =>
      j < s.begun + 1 → call.stage ≠ .ended → call.signal ≠ .dropped).2
    apply And.intro
    · exact fun _ _ => nofun
    · exact fun j hj hlt => h.undropped j (Nat.lt_of_le_of_ne (Nat.le_of_lt_succ hlt) hj)
  still := nofun

/-- Storing over a call that waits would end it, and no such call is left when it is careful. -/
theorem ServerSlot.Tidy.store (h : s.Tidy) (hi : s.Inv) (hk : k < s.begun)
    (hstage : (s.calls k).stage = .begun) (hc : ∀ j < s.begun, j ≠ k → ¬(s.calls j).Live) :
    (s.store k).Tidy where
  undropped := by
    rw [s.store_begun, s.store_calls]
    apply (ServerSlot.forall_update _ _ _ (P := fun j call =>
      j < s.begun → call.stage ≠ .ended → call.signal ≠ .dropped)).2
    apply And.intro
    · intro _ _
      rw [hi.release_fresh hk hstage]
      exact nofun
    · intro j hj hlt hended
      rw [s.release_stage] at hended
      have hold := h.undropped j hlt hended
      rw [s.release_calls]
      split
      · rename_i hslot
        rw [StartCall.signalled_signal]
        split
        · rename_i hwaiting
          -- the holder of the slot waits, so it would be live or has not stored yet
          cases hstage' : (s.calls j).stage with
          | begun => exact absurd hslot (hi.fresh j hlt hstage').2
          | stored => exact absurd ⟨.inl hstage', hwaiting⟩ (hc j hlt hj)
          | listening => exact absurd ⟨.inr hstage', hwaiting⟩ (hc j hlt hj)
          | ended => exact absurd hstage' hended
        · exact hold
      · exact hold
  still := by
    intro hquiet
    have hquiet' : s.quiet = true := (s.release_quiet .dropped).symm.trans hquiet
    exact absurd hstage (h.still hquiet' k hk).1

theorem ServerSlot.Tidy.shutdown (h : s.Tidy) (hi : s.Inv)
    (hc : ∀ k < s.begun, (s.calls k).stage ≠ .begun) : s.shutdown.Tidy where
  undropped := by
    rw [s.shutdown_begun, s.shutdown_calls]
    intro k hk hended
    rw [s.release_stage] at hended
    rw [s.release_calls]
    split
    · rw [StartCall.signalled_signal]
      split
      · exact nofun
      · exact h.undropped k hk hended
    · exact h.undropped k hk hended
  still := by
    rw [s.shutdown_begun, s.shutdown_calls]
    intro _ k hk
    apply And.intro
    · rw [s.release_stage]
      exact hc k hk
    · exact hi.not_live_release nofun hk

section
variable {c : Curve} {platform : Platform c} {server : ParticipantServer c}

theorem ServerSlot.Step.inv (hs : Step platform server s a t) (h : s.Inv) : t.Inv := by
  cases hs with
  | startRejected => exact h
  | begin => exact h.begin
  | store hk => exact h.store hk
  | listen hk hstage => exact h.update _ nofun fun _ hl => ⟨.inl hstage, hl.2⟩
  | addressTaken => exact h.update _ nofun fun _ hl => absurd hl (StartCall.not_live_ended _)
  | ended => exact h.update _ nofun fun _ hl => absurd hl (StartCall.not_live_ended _)
  | shutdown => exact h.shutdown

theorem ServerSlot.Step.tidy (hs : Step platform server s a t) (hi : s.Inv) (hc : s.Careful a)
    (h : s.Tidy) : t.Tidy := by
  cases hs with
  | startRejected => exact h
  | begin => exact h.begin
  | store hk hstage => exact h.store hi hk hstage hc
  | listen hk hstage hnone =>
    rename_i k
    have hended : (s.calls k).stage ≠ .ended := by
      rw [hstage]
      exact nofun
    exact h.update k nofun (fun _ _ => h.undropped k hk hended) fun _ hl => ⟨.inl hstage, hl.2⟩
  | addressTaken =>
    exact h.update _ nofun (fun _ hne => absurd rfl hne)
      fun _ hl => absurd hl (StartCall.not_live_ended _)
  | ended =>
    exact h.update _ nofun (fun _ hne => absurd rfl hne)
      fun _ hl => absurd hl (StartCall.not_live_ended _)
  | shutdown => exact h.shutdown hi hc

theorem ServerSlot.inv_of_reachable (h : (slot platform server).Reachable s) : s.Inv := by
  apply h.invariant
  · intro s h0
    obtain ⟨hbegun, hslot, _⟩ := h0
    constructor
    case known =>
      rw [hslot]
      exact nofun
    case held =>
      rw [hbegun]
      exact nofun
    case fresh =>
      rw [hbegun]
      exact nofun
  · intro s a t _ hi hst
    exact ServerSlot.Step.inv hst hi

theorem ServerSlot.tidy_of_reachable
    (h : ((slot platform server).restrict ServerSlot.Careful).Reachable s) : s.Tidy := by
  apply h.invariant
  · intro s h0
    obtain ⟨hbegun, _, hquiet⟩ := h0
    constructor
    case undropped =>
      rw [hbegun]
      exact nofun
    case still =>
      rw [hquiet]
      exact nofun
  · intro s a t hr ht hst
    exact ServerSlot.Step.tidy hst.2 (ServerSlot.inv_of_reachable hr.of_restrict) hst.1 ht

theorem ServerSlot.Tidy.tracked (h : s.Tidy) (hi : s.Inv) : s.Tracked where
  gone hquiet k hk hserving := (h.still hquiet k hk).2 hserving.live
  spared := by
    intro k j _ hj hstored hlistening hfired
    have hdropped := h.undropped j hj (by rw [hlistening]; exact nofun)
    have hwaiting : (s.calls j).signal = .waiting := by
      cases hsignal : (s.calls j).signal with
      | waiting => rfl
      | fired => exact absurd hsignal hfired
      | dropped => exact absurd hsignal hdropped
    have hserving : (s.calls j).Serving := ⟨hlistening, hwaiting⟩
    have hne : j ≠ k := by
      rintro rfl
      rw [hstored] at hlistening
      cases hlistening
    apply And.intro
    · rw [s.update_of_ne _ hne]
      exact hserving
    · exact hi.held j hj hserving.live

/-- A start that has begun before a shutdown may serve after it. -/
theorem untracked_of_begun (hi : s.Inv) (hquiet : s.quiet = true) (hk : k < s.begun)
    (hstage : (s.calls k).stage = .begun) :
    ∃ as u, (slot platform server).Run s as u ∧ ¬u.Tracked := by
  by_cases hE : ∃ j < s.begun, (s.calls j).Serving
  · obtain ⟨j, hj, hserving⟩ := hE
    exact ⟨_, s, .refl s, fun h => h.gone hquiet j hj hserving⟩
  · have hself : (s.store k).calls k = ⟨.stored, .waiting⟩ := by
      rw [s.store_calls, ServerSlot.update_self, hi.release_fresh hk hstage]
      rfl
    have hnone : ∀ j < (s.store k).begun, ¬((s.store k).calls j).Serving := by
      rw [s.store_begun, s.store_calls]
      apply (ServerSlot.forall_update _ _ _ (P := fun j call => j < s.begun → ¬call.Serving)).2
      apply And.intro
      · intro _ hserving
        cases hserving.1
      · intro j _ hj hserving
        exact hi.not_live_release (show Signal.dropped ≠ .waiting from nofun) hj hserving.live
    have hstored : ((s.store k).calls k).stage = .stored := by
      rw [hself]
    have hlt : k < (s.store k).begun := by
      rw [s.store_begun]
      exact hk
    have hrun : (slot platform server).Run s [.store k, .listen k]
        ((s.store k).update k (.to .listening)) :=
      .head (.store hk hstage) (.single (.listen hlt hstored hnone))
    refine ⟨_, _, hrun, fun h => ?_⟩
    have hserving : (((s.store k).update k (.to .listening)).calls k).Serving := by
      rw [ServerSlot.update_self, hself]
      exact ⟨rfl, rfl⟩
    exact h.gone ((s.release_quiet .dropped).trans hquiet) k hlt hserving

/-- A call whose sender was dropped holds the address against the call that dropped it. -/
theorem untracked_of_dropped (hk : k < s.begun) (hj : j < s.begun)
    (hstored : (s.calls k).stage = .stored) (hlistening : (s.calls j).stage = .listening)
    (hdropped : (s.calls j).signal = .dropped) : ¬s.Tracked := by
  intro h
  have hne : j ≠ k := by
    rintro rfl
    rw [hstored] at hlistening
    cases hlistening
  have hfired : (s.calls j).signal ≠ .fired := by
    rw [hdropped]
    exact nofun
  obtain ⟨hserving, _⟩ := h.spared k j hk hj hstored hlistening hfired
  rw [s.update_of_ne _ hne] at hserving
  cases hdropped.symm.trans hserving.2

/-- A start that stores its sender over that of a live call ends it. -/
theorem untracked_of_overwritten (hi : s.Inv) (hk : k < s.begun) (hj : j < s.begun) (hne : j ≠ k)
    (hlive : (s.calls j).Live) :
    ∃ as u, (slot platform server).Run (s.store k) as u ∧ ¬u.Tracked := by
  have hself : ((s.store k).calls k).stage = .stored := by
    rw [s.store_calls, ServerSlot.update_self]
    rfl
  have hother : (s.store k).calls j = (s.calls j).signalled .dropped := by
    rw [s.store_calls, ServerSlot.update_of_ne _ _ hne, s.release_calls,
      if_pos (hi.held j hj hlive)]
  have hdropped : ((s.store k).calls j).signal = .dropped := by
    rw [hother, StartCall.signalled_signal, if_pos hlive.2]
  have hsame : ((s.store k).calls j).stage = (s.calls j).stage := by
    rw [hother, StartCall.signalled_stage]
  rw [← s.store_begun k] at hk hj
  obtain hstored | hlistening := hlive.1
  · -- the call that lost its sender comes first to the address
    have hnone : ∀ i < (s.store k).begun, ¬((s.store k).calls i).Serving := by
      intro i hi' hserving
      have hslot := (hi.store (s.store_begun k ▸ hk)).held i hi' hserving.live
      cases hslot
      cases hself.symm.trans hserving.1
    have hstep : (slot platform server).step (s.store k) (.listen j)
        ((s.store k).update j (.to .listening)) := .listen hj (hsame.trans hstored) hnone
    have hk' : k < ((s.store k).update j (.to .listening)).begun := hk
    refine ⟨_, _, .single hstep, ?_⟩
    apply untracked_of_dropped (j := j) hk' hj
    · rw [ServerSlot.update_of_ne _ _ hne.symm, hself]
    · rw [ServerSlot.update_self]
      rfl
    · rw [ServerSlot.update_self]
      exact hdropped
  · exact ⟨_, _, .refl _, untracked_of_dropped hk hj hself (hsame.trans hlistening) hdropped⟩

theorem untracked_of_careless (h : (slot platform server).Reachable s)
    (hst : (slot platform server).step s a t) (hc : ¬s.Careful a) :
    ∃ as u, (slot platform server).Run t as u ∧ ¬u.Tracked := by
  have hi := ServerSlot.inv_of_reachable h
  cases hst with
  | store hk =>
    obtain ⟨j, hj⟩ := not_forall.1 hc
    obtain ⟨hj, hj'⟩ := Classical.not_imp.1 hj
    obtain ⟨hne, hlive⟩ := Classical.not_imp.1 hj'
    exact untracked_of_overwritten hi hk hj hne (Classical.not_not.1 hlive)
  | shutdown =>
    obtain ⟨k, hk⟩ := not_forall.1 hc
    obtain ⟨hk, hstage⟩ := Classical.not_imp.1 hk
    apply untracked_of_begun (k := k) hi.shutdown rfl
    · rw [s.shutdown_begun]
      exact hk
    · rw [s.shutdown_calls, s.release_stage]
      exact Classical.not_not.1 hstage
  | _ => exact absurd trivial hc

end

end

/-- The slot tracks the running server while every sender is stored with no other call live and
every shutdown comes with none begun; and any other store or shutdown can be followed by a
state in which it does not. -/
theorem slot_tracked_iff {c : Curve} (platform : Platform c) (server : ParticipantServer c) :
    (∀ s, ((slot platform server).restrict ServerSlot.Careful).Reachable s → s.Tracked) ∧
    ∀ s a t, (slot platform server).Reachable s → (slot platform server).step s a t →
      ¬s.Careful a → ∃ as u, (slot platform server).Run t as u ∧ ¬u.Tracked := by
  apply And.intro
  · intro s h
    exact (ServerSlot.tidy_of_reachable h).tracked (ServerSlot.inv_of_reachable h.of_restrict)
  · intro s a t h hst hc
    exact untracked_of_careless h hst hc

def unstarted : ServerSlot := ⟨fun _ => ⟨.ended, .waiting⟩, 0, none, false⟩

/-- A server listens, and a second start stores its sender and finds the address taken. -/
def startedOver : List SlotEvent := [.begin, .store 0, .listen 0, .begin, .store 1]

/-- The second start returns an error, and has ended the server that was running. -/
theorem running_server_dropped : ∃ server s t,
    aliceSignerConfig.participantServer tinyPlatform = .ok server ∧
      (slot tinyPlatform server).start unstarted ∧
      (slot tinyPlatform server).Run unstarted startedOver s ∧
      (slot tinyPlatform server).step s (.addressTaken 1 0) t ∧
      ¬(t.calls 0).Serving ∧ t.serverHandle = some 1 ∧ ¬s.Tracked := by
  obtain ⟨server, hserver⟩ : ∃ server,
      aliceSignerConfig.participantServer tinyPlatform = .ok server := ⟨_, rfl⟩
  have hrun := System.Run.head (T := slot tinyPlatform server) (s := unstarted) (.begin rfl) <|
    .head (.store (k := 0) (by decide) rfl) <|
    .head (.listen (k := 0) (by decide) rfl (by decide)) <|
    .head (.begin rfl) <| .single (.store (k := 1) (by decide) rfl)
  refine ⟨server, _, _, hserver, ⟨rfl, rfl, rfl⟩, hrun,
    .addressTaken (by decide) (by decide) rfl rfl, by decide, rfl, ?_⟩
  exact untracked_of_dropped (k := 1) (j := 0) (by decide) (by decide) rfl rfl rfl

end WalletMpc.Participant
