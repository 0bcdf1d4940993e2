import WalletMpc.Lifecycle
import WalletMpc.Locks
import WalletMpc.TxIds

namespace WalletMpc.MpcClient
open Systems Locks Ecdsa Proto Participant
set_option autoImplicit true

inductive MpcError where
  | configError (msg : String)
  | networkError (msg : String)
  | signingError (msg : String)
  | initializationError (msg : String)

inductive Operation where
  | initializeSigner
  | signData (data : Bytes) (accountId : String)
  | shutdown

abbrev Outcome := Except MpcError (Option SignatureResult)

/-- What a call returns that finds no signer. -/
def Operation.refused : Operation → Outcome
  | .shutdown => .ok none
  | _ => .error (.initializationError "Signer not initialized")

/-- Where a thread stands in a call: at `lock().await`, or under the guard at the await of what
it has begun. -/
inductive Thread where
  | idle
  | waiting (op : Operation)
  | starting
  | signing (message : SignMessage)
  | stopping

def Thread.place : Thread → Place
  | .idle => .out
  | .waiting _ => .waiting
  | _ => .inside

def Thread.phase : Thread → Call
  | .starting => .starting
  | .stopping => .stopping
  | _ => .idle

/-- The mutex around the signer, whether it has been cleared, the signer with the servers that it
has spawned, and a record of the messages sent and the calls that returned. -/
structure MpcSigner (ι : Type) where
  lock : Mutex ι
  cleared : Bool
  lifecycle : Lifecycle
  threads : ι → Thread
  sent : List SignMessage
  returned : List (Operation × Outcome)

/-- A thread goes on by itself, or with the answer from the network that it awaits. -/
inductive MpcAction (ι : Type) where
  | call (k : ι) (op : Operation)
  | advance (k : ι)
  | answer (k : ι)
  | server (e : Event)

/-- What the tasks of the spawned servers do by themselves. -/
def Event.Background : Event → Prop
  | .store _ | .listen _ | .ended _ => True
  | _ => False

def Signer.knows (signer : Signer) (accountId : String) : Bool :=
  signer.config.keyShares.any fun data => data.accountId = accountId

/-- A call returns and drops the guard. -/
def MpcSigner.give [DecidableEq ι] (s : MpcSigner ι) (k : ι) (op : Operation) (outcome : Outcome) :
    MpcSigner ι :=
  { s with
    lock := s.lock.leave k
    threads := Function.update s.threads k .idle
    returned := s.returned ++ [(op, outcome)] }

def MpcSigner.move [DecidableEq ι] (s : MpcSigner ι) (k : ι) (thread : Thread)
    (lifecycle : Lifecycle) : MpcSigner ι :=
  { s with
    lifecycle := lifecycle
    threads := Function.update s.threads k thread }

/-- A thread has got the guard and finds a signer. -/
structure MpcSigner.Enters (s : MpcSigner ι) (k : ι) (op : Operation) : Prop where
  waiting : s.threads k = .waiting op
  holder : s.lock.holder = some k
  signer : s.cleared = false

section
variable {c : Curve} (platform : Platform c) [DecidableEq ι]

inductive MpcSigner.Step : MpcSigner ι → MpcAction ι → MpcSigner ι → Prop where
  | call (op : Operation) : s.threads k = .idle →
      Step s (.call k op)
        { s with
          lock := s.lock.lock k
          threads := Function.update s.threads k (.waiting op) }
  | refused : s.threads k = .waiting op → s.lock.holder = some k → s.cleared = true →
      Step s (.advance k) (s.give k op op.refused)
  | startRejected : s.Enters k .initializeSigner →
      s.lifecycle.signer.config.participantServer platform = .error e →
      Step s (.advance k) (s.give k .initializeSigner
        (.error (.initializationError ("Failed to start local participant: " ++ e))))
  | spawn : s.Enters k .initializeSigner →
      s.lifecycle.signer.config.participantServer platform = .ok server →
      Step s (.advance k) (s.move k .starting s.lifecycle.spawn)
  | connected : s.threads k = .starting → j < s.lifecycle.spawned →
      (s.lifecycle.servers j).Serving →
      Step s (.answer k)
        { s.give k .initializeSigner (.ok none) with lifecycle := s.lifecycle.connected }
  | connectFailed (e : String) : s.threads k = .starting →
      Step s (.answer k)
        { s.give k .initializeSigner
            (.error (.initializationError ("Failed to start local participant: " ++ e))) with
          lifecycle := { s.lifecycle with call := .idle } }
  | signRejected : s.Enters k (.signData data accountId) →
      s.lifecycle.signer.knows accountId = false →
      Step s (.advance k) (s.give k (.signData data accountId)
        (.error (.signingError ("Signing failed: " ++ ("Account ID '" ++ accountId ++
          "' not found in available key shares")))))
  | send (executionId : Bytes) : s.Enters k (.signData data accountId) →
      s.lifecycle.signer.knows accountId = true →
      Step s (.advance k)
        { s.move k (.signing (s.lifecycle.signer.message executionId data accountId))
            { s.lifecycle with signer := s.lifecycle.signer.nextTxId.1 } with
          sent := s.sent ++ [s.lifecycle.signer.message executionId data accountId] }
  -- all the peers that were asked have answered
  | signed (signTx : Nat → Client → SignMessage → Reply) : s.threads k = .signing message →
      Step s (.answer k) (s.give k (.signData message.data message.accountId)
        (((collect (s.lifecycle.signer.results signTx message)).map some).mapError
          fun e => .signingError ("Signing failed: " ++ e)))
  | stop : s.Enters k .shutdown →
      Step s (.advance k) (s.move k .stopping s.lifecycle.stop)
  | stopReturned : s.threads k = .stopping →
      Step s (.advance k)
        { s.give k .shutdown (.ok none) with
          lifecycle := s.lifecycle.stopReturned
          cleared := true }
  | server : e.Background → Lifecycle.Step platform s.lifecycle e lifecycle' →
      Step s (.server e) { s with lifecycle := lifecycle' }

/-- All uses of one `MpcSigner` by any threads. -/
def mpcSigner (config : SignerConfig) (ι : Type) [DecidableEq ι] :
    System (MpcSigner ι) (MpcAction ι) where
  start s := ∃ l, (lifecycle platform config).start l ∧
    s = ⟨.unlocked, false, l, fun _ => .idle, [], []⟩
  step := MpcSigner.Step platform

end

/-- The thread under the guard is where the signer is; there is none while the mutex is cleared. -/
structure MpcSigner.Inv (s : MpcSigner ι) : Prop where
  tracks : s.lock.Tracks (Thread.place ∘ s.threads)
  phase : ∀ k, (s.threads k).place = .inside → (s.threads k).phase = s.lifecycle.call
  outside : (∀ k, (s.threads k).place ≠ .inside) → s.lifecycle.call = .idle
  cleared : s.cleared = true → ∀ k, (s.threads k).place ≠ .inside

/-- Whoever has just got the guard finds nobody under it. -/
theorem MpcSigner.Inv.alone {s : MpcSigner ι} (hi : s.Inv) (hk : s.threads k = .waiting op)
    (hh : s.lock.holder = some k) (j : ι) : (s.threads j).place ≠ .inside := by
  intro hj
  cases hh.symm.trans (hi.tracks.holder j hj)
  rw [hk] at hj
  cases hj

theorem MpcSigner.Inv.others {s : MpcSigner ι} (hi : s.Inv) (hk : (s.threads k).place = .inside)
    (j : ι) (hj : j ≠ k) : (s.threads j).place ≠ .inside :=
  fun hplace => hj (hi.tracks.only hplace hk)

section
variable [DecidableEq ι] {s t : MpcSigner ι}

theorem MpcSigner.Inv.give (hi : s.Inv) (k : ι) (op : Operation) (outcome : Outcome)
    (hk : ∀ j, j ≠ k → (s.threads j).place ≠ .inside) {l : Lifecycle} (hl : l.call = .idle)
    (cleared : Bool) :
    MpcSigner.Inv { s.give k op outcome with lifecycle := l, cleared := cleared } := by
  have hout : ∀ j, (Function.update s.threads k .idle j).place ≠ .inside := by
    apply (Function.forall_update_iff s.threads fun _ thread => thread.place ≠ .inside).2
    exact ⟨nofun, hk⟩
  constructor
  case tracks =>
    change (s.lock.leave k).Tracks (Thread.place ∘ Function.update s.threads k .idle)
    rw [Function.comp_update]
    exact hi.tracks.leave k
  case phase => exact fun j hj => absurd hj (hout j)
  case outside => exact fun _ => hl
  case cleared => exact fun _ => hout

theorem MpcSigner.Inv.enter (hi : s.Inv) (he : s.Enters k op) (thread : Thread) (l : Lifecycle)
    (hp : thread.place = .inside) (hl : thread.phase = l.call) (sent : List SignMessage) :
    MpcSigner.Inv { s.move k thread l with sent := sent } := by
  constructor
  case tracks =>
    change s.lock.Tracks (Thread.place ∘ Function.update s.threads k thread)
    rw [Function.comp_update, hp]
    exact hi.tracks.enter he.holder
  case phase =>
    apply (Function.forall_update_iff s.threads fun _ thread =>
      thread.place = .inside → thread.phase = l.call).2
    exact ⟨fun _ => hl, fun j _ hj => absurd hj (hi.alone he.waiting he.holder j)⟩
  case outside =>
    intro hnone
    have hself := hnone k
    change (Function.update s.threads k thread k).place ≠ .inside at hself
    rw [Function.update_self] at hself
    exact absurd hp hself
  case cleared =>
    intro hcleared
    cases he.signer.symm.trans hcleared

theorem Event.Background.call {platform : Platform c} {l l' : Lifecycle} {e : Event}
    (h : e.Background) (hs : Lifecycle.Step platform l e l') :
    l'.call = l.call ∧ l'.signer = l.signer ∧ l'.spawned = l.spawned ∧ l'.stopped = l.stopped := by
  cases hs with
  | store | listen | ended => exact ⟨rfl, rfl, rfl, rfl⟩
  | _ => cases h

theorem Signer.sign_known {signer : Signer} (h : signer.knows accountId = true) :
    (signer.sign signTx executionId data accountId).1 = signer.nextTxId.1 := by
  rw [Signer.sign]
  exact congrArg Prod.fst (if_pos h)

theorem Lifecycle.stop_call (l : Lifecycle) : l.stop.call = .stopping := by
  rw [Lifecycle.stop]
  split
  · rfl
  · rfl

variable {platform : Platform c}

theorem MpcSigner.Step.inv (hs : Step platform s a t) (hi : s.Inv) : t.Inv := by
  have hentered : ∀ {k op}, s.threads k = .waiting op → s.lock.holder = some k →
      (∀ j, j ≠ k → (s.threads j).place ≠ .inside) ∧ s.lifecycle.call = .idle := by
    intro k op hk hh
    have hnone := hi.alone hk hh
    exact ⟨fun j _ => hnone j, hi.outside hnone⟩
  cases hs with
  | call op hk =>
    rename_i k
    have hinside : ∀ j, (Function.update s.threads k (.waiting op) j).place = .inside →
        j ≠ k ∧ (s.threads j).place = .inside := by
      apply (Function.forall_update_iff s.threads fun j thread =>
        thread.place = .inside → j ≠ k ∧ (s.threads j).place = .inside).2
      exact ⟨nofun, fun j hj hplace => ⟨hj, hplace⟩⟩
    constructor
    case tracks =>
      change (s.lock.lock k).Tracks (Thread.place ∘ Function.update s.threads k (.waiting op))
      rw [Function.comp_update]
      apply hi.tracks.lock k
      rw [Function.comp_apply, hk]
      rfl
    case phase =>
      intro j hj
      obtain ⟨hne, hplace⟩ := hinside j hj
      change (Function.update s.threads k (.waiting op) j).phase = s.lifecycle.call
      rw [Function.update_of_ne hne]
      exact hi.phase j hplace
    case outside =>
      intro hnone
      apply hi.outside
      intro j hj
      have hne : j ≠ k := by
        rintro rfl
        rw [hk] at hj
        cases hj
      apply hnone j
      change (Function.update s.threads k (.waiting op) j).place = .inside
      rw [Function.update_of_ne hne]
      exact hj
    case cleared => exact fun hcleared j hj => hi.cleared hcleared j (hinside j hj).2
  | refused hk hh _ =>
    obtain ⟨hnone, hcall⟩ := hentered hk hh
    exact hi.give _ _ _ hnone hcall s.cleared
  | startRejected he =>
    obtain ⟨hnone, hcall⟩ := hentered he.waiting he.holder
    exact hi.give _ _ _ hnone hcall s.cleared
  | signRejected he _ =>
    obtain ⟨hnone, hcall⟩ := hentered he.waiting he.holder
    exact hi.give _ _ _ hnone hcall s.cleared
  | spawn he _ => exact hi.enter he .starting s.lifecycle.spawn rfl rfl s.sent
  | stop he => exact hi.enter he .stopping _ rfl s.lifecycle.stop_call.symm s.sent
  | send executionId he _ =>
    obtain ⟨_, hcall⟩ := hentered he.waiting he.holder
    exact hi.enter he (.signing _) { s.lifecycle with signer := s.lifecycle.signer.nextTxId.1 } rfl
      hcall.symm _
  | connected hk _ _ => exact hi.give _ _ _ (hi.others (by rw [hk]; rfl)) rfl s.cleared
  | connectFailed e hk => exact hi.give _ _ _ (hi.others (by rw [hk]; rfl)) rfl s.cleared
  | signed signTx hk =>
    rename_i k message
    have hplace : (s.threads k).place = .inside := by
      rw [hk]
      rfl
    have hphase := hi.phase k hplace
    rw [hk] at hphase
    exact hi.give _ _ _ (hi.others hplace) hphase.symm s.cleared
  | stopReturned hk => exact hi.give _ _ _ (hi.others (by rw [hk]; rfl)) rfl true
  | server he hl =>
    obtain ⟨hcall, _⟩ := he.call hl
    exact ⟨hi.tracks, fun k hk => (hi.phase k hk).trans hcall.symm,
      fun hnone => hcall.trans (hi.outside hnone), hi.cleared⟩

theorem MpcSigner.inv (h : (mpcSigner platform config ι).Reachable s) : s.Inv := by
  apply h.invariant
  · rintro s ⟨l, ⟨_, _, hcall, _⟩, rfl⟩
    exact ⟨.unlocked fun _ => rfl, fun _ => nofun, fun _ => hcall, nofun⟩
  · intro s a t _ hi hs
    exact MpcSigner.Step.inv hs hi

/-- What the calls do to the signer and its servers is what some calls do to it one after the
other. -/
theorem MpcSigner.Step.lifecycle (hs : Step platform s a t) (hi : s.Inv) :
    t.lifecycle = s.lifecycle ∨ ∃ e, Lifecycle.Step platform s.lifecycle e t.lifecycle ∧
      (e = .spawn → ∃ k, a = .advance k ∧ s.Enters k .initializeSigner) ∧
      (e = .stop → ∃ k, a = .advance k ∧ s.Enters k .shutdown) := by
  have hcall : ∀ {k op}, s.Enters k op → s.lifecycle.call = .idle :=
    fun he => hi.outside (hi.alone he.waiting he.holder)
  have hphase : ∀ {k thread}, s.threads k = thread → thread.place = .inside →
      s.lifecycle.call = thread.phase := by
    rintro k thread rfl hplace
    exact (hi.phase k hplace).symm
  cases hs with
  | spawn he hserver => exact .inr ⟨_, .spawn (hcall he) hserver, fun _ => ⟨_, rfl, he⟩, nofun⟩
  | connected hk hj hserving => exact .inr ⟨_, .connected (hphase hk rfl) hj hserving, nofun, nofun⟩
  | connectFailed e hk => exact .inr ⟨_, .connectFailed (hphase hk rfl), nofun, nofun⟩
  | send executionId he hknown =>
    rename_i k data accountId
    have hsign : Lifecycle.Step platform s.lifecycle .sign _ :=
      .sign (fun _ _ _ => .error ⟨.unavailable, ""⟩) executionId data accountId (hcall he)
    rw [Signer.sign_known hknown] at hsign
    exact .inr ⟨_, hsign, nofun, nofun⟩
  | stop he => exact .inr ⟨_, .stop (hcall he), nofun, fun _ => ⟨_, rfl, he⟩⟩
  | stopReturned hk => exact .inr ⟨_, .stopReturned (hphase hk rfl), nofun, nofun⟩
  | server he hl =>
    refine .inr ⟨_, hl, ?_, ?_⟩
    · rintro rfl
      cases he
    · rintro rfl
      cases he
  | _ => exact .inl rfl

theorem simulates_lifecycle :
    Simulation (mpcSigner platform config ι) (lifecycle platform config)
      fun s l => s.lifecycle = l where
  start := by
    rintro s ⟨l, hl, rfl⟩
    exact ⟨l, hl, rfl⟩
  step := by
    rintro s l a t hs _ rfl hst
    obtain hsame | ⟨e, he, _⟩ := MpcSigner.Step.lifecycle hst (MpcSigner.inv hs)
    · exact .inl hsame
    · exact .inr ⟨e, _, he, rfl⟩

/-- The i-th message of all threads has the i-th transaction id of the signer. -/
structure MpcSigner.Numbered (s : MpcSigner ι) (id : UInt16) : Prop where
  instanceId : s.lifecycle.signer.instanceId = id
  counter : s.lifecycle.signer.txCounter = UInt16.ofNat s.sent.length
  ids : s.sent.map SignMessage.txId =
    (List.range s.sent.length).map fun i => txId id (UInt16.ofNat i)

theorem Lifecycle.stop_signer (l : Lifecycle) : l.stop.signer = l.signer := by
  rw [Lifecycle.stop]
  split
  · rfl
  · rfl

/-- A step sends nothing and keeps the counter, or sends one message with the next id. -/
theorem MpcSigner.Step.sent (hs : Step platform s a t) :
    t.lifecycle.signer.instanceId = s.lifecycle.signer.instanceId ∧
      (t.sent = s.sent ∧ t.lifecycle.signer.txCounter = s.lifecycle.signer.txCounter ∨
        ∃ m, t.sent = s.sent ++ [m] ∧ m.txId = s.lifecycle.signer.nextTxId.2 ∧
          t.lifecycle.signer.txCounter = s.lifecycle.signer.txCounter + 1) := by
  cases hs with
  | send executionId he hknown => exact ⟨rfl, .inr ⟨_, rfl, rfl, rfl⟩⟩
  | stop he =>
    change s.lifecycle.stop.signer.instanceId = _ ∧
      (_ ∧ s.lifecycle.stop.signer.txCounter = _ ∨ _)
    rw [Lifecycle.stop_signer]
    exact ⟨rfl, .inl ⟨rfl, rfl⟩⟩
  | server he hl =>
    obtain ⟨_, hsigner, _⟩ := he.call hl
    exact ⟨congrArg _ hsigner, .inl ⟨rfl, congrArg _ hsigner⟩⟩
  | _ => exact ⟨rfl, .inl ⟨rfl, rfl⟩⟩

theorem MpcSigner.Step.numbered {id : UInt16} (hs : Step platform s a t) (hn : s.Numbered id) :
    t.Numbered id := by
  obtain ⟨hinstance, ⟨hsent, hcounter⟩ | ⟨m, hsent, hid, hcounter⟩⟩ := MpcSigner.Step.sent hs
  · constructor
    · exact hinstance.trans hn.instanceId
    · rw [hcounter, hsent, hn.counter]
    · rw [hsent, hn.ids]
  · have hnext : m.txId = txId id (UInt16.ofNat s.sent.length) := by
      rw [hid, ← hn.instanceId, ← hn.counter]
      rfl
    constructor
    · exact hinstance.trans hn.instanceId
    · rw [hcounter, hsent, hn.counter, List.length_append, UInt16.ofNat_add]
      rfl
    · rw [hsent, List.map_append, hn.ids, List.length_append, List.length_singleton,
        List.range_succ, List.map_append, List.map_singleton, List.map_singleton, hnext]

theorem MpcSigner.numbered (h : (mpcSigner platform config ι).Reachable s) :
    ∃ id, s.Numbered id := by
  apply h.invariant (I := fun s => ∃ id, s.Numbered id)
  · rintro s ⟨l, ⟨⟨timestampMs, randomPart, hnew⟩, _⟩, rfl⟩
    have hsigner := Except.ok.inj hnew
    refine ⟨generateInstanceId timestampMs randomPart, ?_, ?_, rfl⟩
    · change l.signer.instanceId = _
      rw [← hsigner]
    · change l.signer.txCounter = _
      rw [← hsigner]
      rfl
  · rintro s a t _ ⟨id, hn⟩ hs
    exact ⟨id, MpcSigner.Step.numbered hs hn⟩

omit [DecidableEq ι] in
theorem MpcSigner.Numbered.txId_at {id : UInt16} (hn : s.Numbered id) (hm : s.sent[i]? = some m) :
    m.txId = txId id (UInt16.ofNat i) := by
  have hget := congrArg (fun ids => ids[i]?) hn.ids
  obtain ⟨hlt, _⟩ := List.getElem?_eq_some_iff.1 hm
  rw [List.getElem?_map, hm, List.getElem?_map, List.getElem?_range hlt] at hget
  exact Option.some.inj hget

/-- Once the mutex is cleared it stays so: nothing is sent, and every call is refused. -/
theorem MpcSigner.Step.cleared (hs : Step platform s a t) (hi : s.Inv) (hc : s.cleared = true) :
    t.cleared = true ∧ t.sent = s.sent ∧
      (t.returned = s.returned ∨ ∃ op : Operation, t.returned = s.returned ++ [(op, op.refused)]) := by
  have hinside : ∀ {k thread}, s.threads k = thread → thread.place ≠ .inside := by
    rintro k thread rfl
    exact hi.cleared hc k
  cases hs with
  | call | server => exact ⟨hc, rfl, .inl rfl⟩
  | refused => exact ⟨hc, rfl, .inr ⟨_, rfl⟩⟩
  | startRejected he | spawn he | signRejected he | send _ he | stop he =>
    cases he.signer.symm.trans hc
  | connected hk | connectFailed _ hk | signed _ hk | stopReturned hk => exact absurd rfl (hinside hk)

theorem MpcSigner.Step.shutdown (hs : Step platform s a t)
    (hc : ∀ outcome, (.shutdown, outcome) ∈ s.returned → outcome = .ok none ∧ s.cleared = true) :
    ∀ outcome, (.shutdown, outcome) ∈ t.returned → outcome = .ok none ∧ t.cleared = true := by
  intro outcome hmem
  cases hs with
  | call | server | spawn | send | stop => exact hc outcome hmem
  | refused _ _ hcleared =>
    obtain hmem | hmem := List.mem_append.1 hmem
    · exact hc outcome hmem
    · cases List.mem_singleton.1 hmem
      exact ⟨rfl, hcleared⟩
  | startRejected | connected | connectFailed | signRejected | signed =>
    obtain hmem | hmem := List.mem_append.1 hmem
    · exact hc outcome hmem
    · cases List.mem_singleton.1 hmem
  | stopReturned =>
    obtain hmem | hmem := List.mem_append.1 hmem
    · exact ⟨(hc outcome hmem).1, rfl⟩
    · cases List.mem_singleton.1 hmem
      exact ⟨rfl, rfl⟩

theorem MpcSigner.shutdown_cleared (h : (mpcSigner platform config ι).Reachable s) :
    ∀ outcome, (.shutdown, outcome) ∈ s.returned → outcome = .ok none ∧ s.cleared = true := by
  apply h.invariant
  · rintro s ⟨l, _, rfl⟩
    exact nofun
  · intro s a t _ hc hs
    exact MpcSigner.Step.shutdown hs hc

theorem MpcSigner.lifecycle_reachable (h : (mpcSigner platform config ι).Reachable s) :
    (WalletMpc.MpcClient.lifecycle platform config).Reachable s.lifecycle := by
  obtain ⟨l, hl, rfl⟩ := simulates_lifecycle.reachable h
  exact hl

/-- The signer is initialized once, and shut down after that has succeeded. -/
def MpcSigner.Once (s : MpcSigner ι) (a : MpcAction ι) : Prop := ∀ k, a = .advance k →
  (s.Enters k .initializeSigner → s.lifecycle.spawned = 0) ∧
    (s.Enters k .shutdown →
      s.lifecycle.spawned = 0 ∨ (Operation.initializeSigner, .ok none) ∈ s.returned)

/-- Alice's signer as it is created, with no calls so far; the random part is that of its id. -/
def aliceMpcSigner (ι : Type) (randomPart : UInt8) : MpcSigner ι where
  lock := .unlocked
  cleared := false
  lifecycle := { aliceLifecycle with
    signer := { aliceLifecycle.signer with instanceId := generateInstanceId 0 randomPart } }
  threads _ := .idle
  sent := []
  returned := []

theorem aliceMpcSigner_start (randomPart : UInt8) :
    (mpcSigner tinyPlatform aliceSignerConfig ι).start (aliceMpcSigner ι randomPart) :=
  ⟨_, ⟨⟨0, randomPart, rfl⟩, rfl, rfl, rfl⟩, rfl⟩

/-- A thread that starts the local participant and shuts down again. -/
theorem shut_down : ∃ s, ((mpcSigner tinyPlatform aliceSignerConfig Unit).restrict
    MpcSigner.Once).Reachable s ∧ (.shutdown, .ok none) ∈ s.returned ∧ s.lifecycle.spawned = 1 := by
  have hnever : ∀ {s : MpcSigner Unit} {a}, (∀ k, a ≠ .advance k) → s.Once a :=
    fun hne k hk => absurd hk (hne k)
  have honce : ∀ {s : MpcSigner Unit}, (∀ op, s.threads () ≠ .waiting op) → s.Once (.advance ()) :=
    fun hne _ _ => ⟨fun he => absurd he.waiting (hne _), fun he => absurd he.waiting (hne _)⟩
  have h0 : ((mpcSigner tinyPlatform aliceSignerConfig Unit).restrict MpcSigner.Once).Reachable
      (aliceMpcSigner Unit 0) := .start (aliceMpcSigner_start 0)
  have hnext : ∀ {s t} a, ((mpcSigner tinyPlatform aliceSignerConfig Unit).restrict
      MpcSigner.Once).Reachable s → s.Once a → MpcSigner.Step tinyPlatform s a t →
        ((mpcSigner tinyPlatform aliceSignerConfig Unit).restrict MpcSigner.Once).Reachable t :=
    fun _ h ho hs => h.next ⟨ho, hs⟩
  have h1 := hnext (.call () .initializeSigner) h0 (hnever nofun) (.call .initializeSigner rfl)
  have h2 := hnext (.advance ()) h1 (fun _ _ => ⟨fun _ => rfl, fun he => absurd he.waiting nofun⟩)
    (.spawn ⟨rfl, rfl, rfl⟩ rfl)
  have h3 := hnext (.server (.store 0)) h2 (hnever nofun)
    (.server trivial (.store (Nat.lt_succ_self 0) rfl rfl rfl))
  have h4 := hnext (.server (.listen 0)) h3 (hnever nofun)
    (.server trivial (.listen (Nat.lt_succ_self 0) rfl (by decide)))
  have h5 := hnext (.answer ()) h4 (hnever nofun)
    (.connected rfl (Nat.lt_succ_self 0) ⟨rfl, rfl⟩)
  have h6 := hnext (.call () .shutdown) h5 (hnever nofun) (.call .shutdown rfl)
  have h7 := hnext (.advance ()) h6
    (fun _ _ => ⟨fun he => absurd he.waiting nofun, fun _ => .inr List.mem_cons_self⟩)
    (.stop ⟨rfl, rfl, rfl⟩)
  have h8 := hnext (.advance ()) h7 (honce nofun) (.stopReturned rfl)
  exact ⟨_, h8, List.mem_cons_of_mem _ List.mem_cons_self, rfl⟩

/-- Calls of any threads are served one after the other: the signer goes through what it goes
through in one thread, and each message has a room of its own until the ids come round. -/
theorem calls_serialize (h : (mpcSigner platform config ι).Reachable s) :
    (lifecycle platform config).Reachable s.lifecycle ∧
      (∀ j k, (s.threads j).place = .inside → (s.threads k).place = .inside → j = k) ∧
      ∀ i j m m', s.sent[i]? = some m → s.sent[j]? = some m' →
        (m.txId = m'.txId ↔ i % 65536 = j % 65536) := by
  refine ⟨MpcSigner.lifecycle_reachable h, fun j k => (MpcSigner.inv h).tracks.only, ?_⟩
  obtain ⟨id, hn⟩ := MpcSigner.numbered h
  intro i j m m' hm hm'
  have hcounter := counter_eq_iff 0 i j
  rw [UInt16.zero_add, UInt16.zero_add] at hcounter
  rw [hn.txId_at hm, hn.txId_at hm', txId_inj, ← hcounter]
  exact and_iff_right rfl

theorem calls_serialize_shut_down : ∃ s : MpcSigner Unit, s.lifecycle.spawned = 1 ∧
    (lifecycle tinyPlatform aliceSignerConfig).Reachable s.lifecycle ∧
      (∀ j k, (s.threads j).place = .inside → (s.threads k).place = .inside → j = k) ∧
      ∀ i j m m', s.sent[i]? = some m → s.sent[j]? = some m' →
        (m.txId = m'.txId ↔ i % 65536 = j % 65536) := by
  obtain ⟨s, h, _, hspawned⟩ := shut_down
  exact ⟨s, hspawned, calls_serialize h.of_restrict⟩

/-- After a shutdown that returned no message leaves, and every call is refused. -/
theorem shutdown_final (h : (mpcSigner platform config ι).Reachable s)
    (hmem : (.shutdown, outcome) ∈ s.returned) :
    outcome = .ok none ∧ ∀ as t, (mpcSigner platform config ι).Run s as t → t.sent = s.sent ∧
      ∃ ops : List Operation, t.returned = s.returned ++ ops.map fun op => (op, op.refused) := by
  obtain ⟨houtcome, hcleared⟩ := MpcSigner.shutdown_cleared h outcome hmem
  refine ⟨houtcome, fun as t hr => ?_⟩
  clear hmem
  induction hr with
  | refl s => exact ⟨rfl, [], (List.append_nil _).symm⟩
  | head hst hr ih =>
    obtain ⟨hc, hsent, hret⟩ := MpcSigner.Step.cleared hst (MpcSigner.inv h) hcleared
    obtain ⟨hsent', ops, hops⟩ := ih (h.next hst) hc
    refine ⟨hsent'.trans hsent, ?_⟩
    obtain hret | ⟨op, hret⟩ := hret
    · exact ⟨ops, by rw [hops, hret]⟩
    · exact ⟨op :: ops, by rw [hops, hret, List.append_assoc, List.map_cons, List.singleton_append]⟩

theorem shutdown_final_shut_down : ∃ s outcome, (.shutdown, outcome) ∈ s.returned ∧
    outcome = .ok none ∧ ∀ as t, (mpcSigner tinyPlatform aliceSignerConfig Unit).Run s as t →
      t.sent = s.sent ∧
        ∃ ops : List Operation, t.returned = s.returned ++ ops.map fun op => (op, op.refused) := by
  obtain ⟨s, h, hmem, _⟩ := shut_down
  exact ⟨s, _, hmem, shutdown_final h.of_restrict hmem⟩

/-- There is one server at most, and once `initialize` has returned Ok it has stored its sender. -/
structure MpcSigner.Initialized (s : MpcSigner ι) : Prop where
  spawned_le : s.lifecycle.spawned ≤ 1
  stored : (Operation.initializeSigner, .ok none) ∈ s.returned →
    0 < s.lifecycle.spawned ∧ (s.lifecycle.servers 0).task ≠ .spawned

theorem Lifecycle.stop_task (l : Lifecycle) (k : Nat) :
    (l.stop.servers k).task = (l.servers k).task := by
  rw [Lifecycle.stop]
  split
  · rfl
  · rename_i j _
    change (Function.update l.servers j (l.servers j).shutdown k).task = _
    by_cases hk : k = j
    · subst hk
      rw [Function.update_self, LocalServer.shutdown]
      split
      · rfl
      · rfl
    · rw [Function.update_of_ne hk]

theorem Event.Background.task {platform : Platform c} {l l' : Lifecycle} {e : Event}
    (h : e.Background) (hs : Lifecycle.Step platform l e l') (k : Nat)
    (hk : (l.servers k).task ≠ .spawned) : (l'.servers k).task ≠ .spawned := by
  have hupdate : ∀ j f, (f (l.servers j)).task ≠ .spawned →
      ((l.update j f).servers k).task ≠ .spawned := by
    intro j f hf
    by_cases hj : k = j
    · subst hj
      change (Function.update l.servers k _ k).task ≠ .spawned
      rw [Function.update_self]
      exact hf
    · change (Function.update l.servers j _ k).task ≠ .spawned
      rw [Function.update_of_ne hj]
      exact hk
  cases hs with
  | store | listen | ended => exact hupdate _ _ nofun
  | _ => cases h

theorem MpcSigner.Step.initialized (hs : Step platform s a t) (ho : s.Once a)
    (hi : s.Initialized) : t.Initialized := by
  have hkeep : ∀ {t : MpcSigner ι}, t.lifecycle.spawned = s.lifecycle.spawned →
      ((s.lifecycle.servers 0).task ≠ .spawned → (t.lifecycle.servers 0).task ≠ .spawned) →
      ((Operation.initializeSigner, .ok none) ∈ t.returned →
        (Operation.initializeSigner, .ok none) ∈ s.returned) → t.Initialized := by
    intro t hspawned htask hret
    constructor
    · rw [hspawned]
      exact hi.spawned_le
    · intro hmem
      obtain ⟨hpos, hstored⟩ := hi.stored (hret hmem)
      rw [hspawned]
      exact ⟨hpos, htask hstored⟩
  have hother : ∀ {op : Operation} {outcome : Outcome},
      (op, outcome) ≠ (Operation.initializeSigner, .ok none) →
        (Operation.initializeSigner, .ok none) ∈ s.returned ++ [(op, outcome)] →
          (Operation.initializeSigner, .ok none) ∈ s.returned := by
    intro op outcome hne hmem
    obtain hmem | hmem := List.mem_append.1 hmem
    · exact hmem
    · exact absurd (List.mem_singleton.1 hmem).symm hne
  cases hs with
  | call => exact hkeep rfl id id
  | send => exact hkeep rfl id id
  | refused =>
    rename_i k op _ _ _
    have hne : (op, op.refused) ≠ (Operation.initializeSigner, .ok none) := by
      cases op with
      | _ => exact nofun
    exact hkeep rfl id (hother hne)
  | startRejected | connectFailed | signRejected | signed | stopReturned =>
    exact hkeep rfl id (hother nofun)
  | stop =>
    exact hkeep s.lifecycle.stop_spawned (s.lifecycle.stop_task 0).trans_ne id
  | server he hl =>
    obtain ⟨_, _, hspawned, _⟩ := he.call hl
    exact hkeep hspawned (he.task hl 0) id
  | spawn he =>
    have hzero := (ho _ rfl).1 he
    constructor
    · change s.lifecycle.spawned + 1 ≤ 1
      rw [hzero]
    · intro hmem
      exact absurd (hi.stored hmem).1 (by rw [hzero]; exact Nat.lt_irrefl 0)
  | connected hk hj hserving =>
    have hle := hi.spawned_le
    cases Nat.lt_one_iff.1 (Nat.lt_of_lt_of_le hj hle)
    refine ⟨hle, fun _ => ⟨hj, ?_⟩⟩
    change (s.lifecycle.servers 0).task ≠ .spawned
    rw [hserving.1]
    exact nofun

theorem MpcSigner.initialized
    (h : ((mpcSigner platform config ι).restrict MpcSigner.Once).Reachable s) : s.Initialized := by
  apply h.invariant
  · rintro s ⟨l, ⟨_, hspawned, _⟩, rfl⟩
    constructor
    · change l.spawned ≤ 1
      rw [hspawned]
      exact Nat.zero_le 1
    · exact nofun
  · intro s a t _ hi hs
    exact MpcSigner.Step.initialized hs.2 hs.1 hi

/-- Threads that use the signer so start and stop its servers with care. -/
theorem simulates_careful :
    Simulation ((mpcSigner platform config ι).restrict MpcSigner.Once)
      ((lifecycle platform config).restrict Lifecycle.Careful) fun s l => s.lifecycle = l where
  start := by
    rintro s ⟨l, hl, rfl⟩
    exact ⟨l, hl, rfl⟩
  step := by
    rintro s l a t hs _ rfl ⟨ho, hst⟩
    have hreach := hs.of_restrict
    have hinit := MpcSigner.initialized hs
    have hinv := inv_of_reachable (MpcSigner.lifecycle_reachable hreach)
    obtain hsame | ⟨e, he, hspawn, hstop⟩ := MpcSigner.Step.lifecycle hst (MpcSigner.inv hreach)
    · exact .inl hsame
    · refine .inr ⟨e, _, ⟨?_, he⟩, rfl⟩
      cases e with
      | spawn =>
        obtain ⟨k, rfl, henters⟩ := hspawn rfl
        change ∀ j < s.lifecycle.spawned, ¬(s.lifecycle.servers j).Live
        rw [(ho k rfl).1 henters]
        exact nofun
      | stop =>
        obtain ⟨k, rfl, henters⟩ := hstop rfl
        intro j hj _
        have hlt := hinv.known j hj
        obtain hzero | hmem := (ho k rfl).2 henters
        · rw [hzero] at hlt
          exact absurd hlt (Nat.not_lt_zero j)
        · cases Nat.lt_one_iff.1 (Nat.lt_of_lt_of_le hlt hinit.spawned_le)
          exact (hinit.stored hmem).2
      | _ => trivial

theorem MpcSigner.Step.stopped (hs : Step platform s a t) (hi : s.Inv)
    (hc : s.cleared = true → s.lifecycle.stopped = s.lifecycle.spawned) :
    t.cleared = true → t.lifecycle.stopped = t.lifecycle.spawned := by
  intro hcleared
  have hinside : ∀ {k thread}, s.threads k = thread → s.cleared = true →
      thread.place ≠ .inside := by
    rintro k thread rfl hc
    exact hi.cleared hc k
  cases hs with
  | stopReturned => rfl
  | call | refused | startRejected | signRejected => exact hc hcleared
  | server he hl =>
    obtain ⟨_, _, hspawned, hstopped⟩ := he.call hl
    exact hstopped.trans ((hc hcleared).trans hspawned.symm)
  | spawn he | send _ he | stop he => cases he.signer.symm.trans hcleared
  | connected hk | connectFailed _ hk | signed _ hk => exact absurd rfl (hinside hk hcleared)

theorem MpcSigner.stopped (h : (mpcSigner platform config ι).Reachable s) :
    s.cleared = true → s.lifecycle.stopped = s.lifecycle.spawned := by
  apply h.invariant
  · rintro s ⟨l, _, rfl⟩
    exact nofun
  · intro s a t hr hc hs
    exact MpcSigner.Step.stopped hs (MpcSigner.inv hr) hc

/-- Used so, a shutdown that returned leaves no server of the signer behind, whatever the threads
do meanwhile. A server whose sender has fired counts as gone: it takes no more requests. -/
theorem shutdown_stops (h : ((mpcSigner platform config ι).restrict MpcSigner.Once).Reachable s)
    (hmem : (.shutdown, outcome) ∈ s.returned) :
    ∀ k < s.lifecycle.spawned, ¬(s.lifecycle.servers k).Live := by
  obtain ⟨_, hcleared⟩ := MpcSigner.shutdown_cleared h.of_restrict outcome hmem
  obtain ⟨l, hl, rfl⟩ := simulates_careful.reachable h
  rw [← MpcSigner.stopped h.of_restrict hcleared]
  exact (tidy_of_reachable hl).gone

theorem shutdown_stops_shut_down : ∃ s, (mpcSigner tinyPlatform aliceSignerConfig Unit).Reachable s ∧
    s.lifecycle.spawned = 1 ∧ ∀ k < s.lifecycle.spawned, ¬(s.lifecycle.servers k).Live := by
  obtain ⟨s, h, hmem, hspawned⟩ := shut_down
  exact ⟨s, h.of_restrict, hspawned, shutdown_stops h hmem⟩

end

end WalletMpc.MpcClient
