import WalletMpc.Systems

namespace WalletMpc.Sse
open Systems
set_option autoImplicit true

/-- The task that a process spawns for `SseServer::start`; until the handle of the server is stored
it counts as spawned. -/
inductive SseTask where
  | spawned
  | serving
  | stopped
  | ended
  deriving DecidableEq

def SseTask.rank : SseTask → Nat
  | .spawned => 3
  | .serving => 2
  | .stopped => 1
  | .ended => 0

theorem SseTask.rank_pos {task : SseTask} (h : task ≠ .ended) : 0 < task.rank := by
  cases task with
  | ended => exact absurd rfl h
  | _ => exact Nat.succ_pos _

inductive MainStage where
  | waiting
  | stopping
  | awaitingStop
  | joining
  | returned
  deriving DecidableEq

def MainStage.rank : MainStage → Nat
  | .waiting => 4
  | .stopping => 3
  | .awaitingStop => 2
  | .joining => 1
  | .returned => 0

/-- The sse server as a process of its own: its task, the handle that this stores, whether the
server has been told to stop, where `main` is, and whether it could listen for the signal. -/
structure SseProcess where
  task : SseTask
  serverHandle : Bool
  told : Bool
  stage : MainStage
  listens : Bool

inductive SseAction where
  | task
  | fault
  | signal
  | main
  deriving DecidableEq

inductive SseProcess.Step : SseProcess → SseAction → SseProcess → Prop where
  -- the first poll of the task goes on till the server itself is awaited
  | bound : s.task = .spawned → Step s .task { s with task := .serving, serverHandle := true }
  | bindFailed : s.task = .spawned → Step s .task { s with task := .ended }
  | stopped : s.task = .serving → s.told = true → Step s .task { s with task := .stopped }
  -- the server ends without having been told
  | fault : s.task = .serving → Step s .fault { s with task := .stopped }
  | ended : s.task = .stopped → Step s .task { s with task := .ended }
  -- the one thread polls the task that is ready before it looks for signals
  | signal : s.stage = .waiting → s.task ≠ .spawned → Step s .signal { s with stage := .stopping }
  | stop : s.stage = .stopping → s.serverHandle = true →
      Step s .main { s with serverHandle := false, told := true, stage := .awaitingStop }
  | noServer : s.stage = .stopping → s.serverHandle = false →
      Step s .main { s with stage := .joining }
  | stopReturned : s.stage = .awaitingStop → s.task = .stopped ∨ s.task = .ended →
      Step s .main { s with stage := .joining }
  | join : s.stage = .joining → s.task = .ended → Step s .main { s with stage := .returned }

/-- The process after the first poll of `main`: the task is spawned, and `main` waits for the signal
or, where it cannot listen for it, for the task. -/
def standalone : System SseProcess SseAction where
  start s := ∃ listens : Bool,
    s = ⟨.spawned, false, false, if listens then .waiting else .joining, listens⟩
  step := SseProcess.Step

def SseProcess.rank (s : SseProcess) : Nat := s.task.rank + s.stage.rank

theorem SseProcess.Step.rank (hs : Step s a t) : t.rank < s.rank := by
  cases hs with
  | bound h | bindFailed h | stopped h _ | fault h | ended h =>
    simp only [SseProcess.rank, h, SseTask.rank]
    omega
  | signal h _ | stop h _ | noServer h _ | stopReturned h _ | join h _ =>
    simp only [SseProcess.rank, h, MainStage.rank]
    omega

/-- A `main` that listens for the signal finds the server bound when it comes, so the server that
it then waits for has been told to stop; one that does not listen tells it nothing. -/
structure SseProcess.Inv (s : SseProcess) : Prop where
  handle : s.task = .serving → s.serverHandle = true ∨ s.told = true
  polled : s.listens = true → s.task = .spawned → s.stage = .waiting
  served : s.listens = true → s.task = .serving →
    s.told = true ∨ s.stage = .waiting ∨ s.stage = .stopping
  deaf : s.listens = false → s.told = false ∧ (s.stage = .joining ∨ s.stage = .returned)
  joined : s.stage = .returned → s.task = .ended

/-- What the task does, as far as `main` sees it. -/
theorem SseProcess.Inv.task {s : SseProcess} {x : SseTask} {b : Bool} (hi : s.Inv)
    (hended : s.task ≠ .ended) (hx : x ≠ .spawned) (hb : x = .serving → b = true)
    (hserved : x = .serving → s.task = .spawned) : Inv { s with task := x, serverHandle := b } where
  handle h := .inl (hb h)
  polled _ h := absurd h hx
  served hlistens h := .inr (.inl (hi.polled hlistens (hserved h)))
  deaf := hi.deaf
  joined h := absurd (hi.joined h) hended

/-- A move of a `main` that has listened for the signal. -/
theorem SseProcess.Inv.main {s : SseProcess} {x : MainStage} {b c : Bool}
    (hlistens : s.listens = true) (hspawned : s.task ≠ .spawned) (hx : x ≠ .returned)
    (hhandle : s.task = .serving → b = true ∨ c = true)
    (hserved : s.task = .serving → c = true ∨ x = .waiting ∨ x = .stopping) :
    Inv { s with serverHandle := b, told := c, stage := x } where
  handle := hhandle
  polled _ h := absurd h hspawned
  served _ := hserved
  deaf h := absurd (hlistens.symm.trans h) nofun
  joined h := absurd h hx

theorem SseProcess.Inv.listens {s : SseProcess} (hi : s.Inv) (hjoining : s.stage ≠ .joining)
    (hreturned : s.stage ≠ .returned) : s.listens = true := by
  cases hlistens : s.listens with
  | true => rfl
  | false => exact ((hi.deaf hlistens).2.elim hjoining hreturned).elim

theorem SseProcess.Step.inv (hs : Step s a t) (hi : s.Inv) : t.Inv := by
  -- a stage of a main that has seen the signal
  have signalled {stage : MainStage} (h : s.stage = stage) (hwaiting : stage ≠ .waiting)
      (hjoining : stage ≠ .joining) (hreturned : stage ≠ .returned) :
      s.listens = true ∧ s.task ≠ .spawned := by
    subst h
    have hlistens := hi.listens hjoining hreturned
    exact ⟨hlistens, fun hspawned => hwaiting (hi.polled hlistens hspawned)⟩
  cases hs with
  | bound h => exact hi.task (by rw [h]; nofun) nofun (fun _ => rfl) fun _ => h
  | bindFailed h | stopped h _ | fault h | ended h =>
    exact hi.task (by rw [h]; nofun) nofun nofun nofun
  | signal h hspawned =>
    have hlistens := hi.listens (by rw [h]; nofun) (by rw [h]; nofun)
    exact .main hlistens hspawned nofun hi.handle fun _ => .inr (.inr rfl)
  | stop h _ =>
    obtain ⟨hlistens, hspawned⟩ := signalled h nofun nofun nofun
    exact .main hlistens hspawned nofun (fun _ => .inr rfl) fun _ => .inl rfl
  | noServer h hhandle =>
    obtain ⟨hlistens, hspawned⟩ := signalled h nofun nofun nofun
    refine .main hlistens hspawned nofun hi.handle fun hserving => .inl ?_
    obtain hheld | htold := hi.handle hserving
    · cases hhandle.symm.trans hheld
    · exact htold
  | stopReturned h hstopped =>
    obtain ⟨hlistens, hspawned⟩ := signalled h nofun nofun nofun
    refine .main hlistens hspawned nofun hi.handle fun hserving => ?_
    rw [hserving] at hstopped
    obtain h | h := hstopped
    · cases h
    · cases h
  | join h hended =>
    refine ⟨hi.handle, fun _ hspawned => ?_, fun _ hserving => ?_, fun hlistens => ?_,
      fun _ => hended⟩
    · cases hended.symm.trans hspawned
    · cases hended.symm.trans hserving
    · exact ⟨(hi.deaf hlistens).1, .inr rfl⟩

theorem SseProcess.inv (h : standalone.Reachable s) : s.Inv := by
  apply h.invariant
  · rintro s ⟨listens, rfl⟩
    cases listens with
    | true => exact ⟨nofun, fun _ _ => rfl, nofun, nofun, nofun⟩
    | false => exact ⟨nofun, nofun, nofun, fun _ => ⟨rfl, .inl rfl⟩, nofun⟩
  · intro s a t _ hi hs
    exact Step.inv hs hi

/-- The server is told to stop, or ends anyway. -/
def SseProcess.Stops (s : SseProcess) : Prop :=
  s.listens = true ∨ s.task = .stopped ∨ s.task = .ended

theorem SseProcess.Stops.listens (h : Stops s) (hstopped : s.task ≠ .stopped)
    (hended : s.task ≠ .ended) : s.listens = true := by
  apply h.resolve_right
  rintro (htask | htask)
  · exact hstopped htask
  · exact hended htask

theorem SseProcess.Step.stops (hs : Step s a t) (h : s.Stops) (hstage : s.stage ≠ .waiting) :
    t.Stops ∧ t.stage ≠ .waiting := by
  cases hs with
  | bound hspawned =>
    exact ⟨.inl (h.listens (by rw [hspawned]; nofun) (by rw [hspawned]; nofun)), hstage⟩
  | bindFailed | ended => exact ⟨.inr (.inr rfl), hstage⟩
  | stopped | fault => exact ⟨.inr (.inl rfl), hstage⟩
  | signal hwaiting => exact absurd hwaiting hstage
  | stop | noServer | stopReturned | join => exact ⟨h, nofun⟩

/-- Once `main` waits for the task, this can end. -/
theorem SseProcess.Inv.task_ends {s : SseProcess} (hi : s.Inv) (h : s.Stops)
    (hstage : s.stage ≠ .waiting ∧ s.stage ≠ .stopping) (hended : s.task ≠ .ended) :
    standalone.Enabled s .task := by
  cases htask : s.task with
  | ended => exact absurd htask hended
  | stopped => exact ⟨_, .ended htask⟩
  | spawned =>
    have hlistens := h.listens (by rw [htask]; nofun) hended
    exact absurd (hi.polled hlistens htask) hstage.1
  | serving =>
    have hlistens := h.listens (by rw [htask]; nofun) hended
    exact ⟨_, .stopped htask ((hi.served hlistens htask).resolve_right (not_or.2 hstage))⟩

theorem SseProcess.Inv.progress {s : SseProcess} (hi : s.Inv) (h : s.Stops)
    (hstage : s.stage ≠ .waiting) (hreturned : s.stage ≠ .returned) :
    ∃ a, a ≠ .fault ∧ standalone.Enabled s a := by
  cases hs : s.stage with
  | waiting => exact absurd hs hstage
  | stopping =>
    cases hhandle : s.serverHandle with
    | true => exact ⟨.main, nofun, _, .stop hs hhandle⟩
    | false => exact ⟨.main, nofun, _, .noServer hs hhandle⟩
  | awaitingStop =>
    by_cases hended : s.task = .ended
    · exact ⟨.main, nofun, _, .stopReturned hs (.inr hended)⟩
    · exact ⟨.task, nofun, hi.task_ends h (by rw [hs]; exact ⟨nofun, nofun⟩) hended⟩
  | joining =>
    by_cases hended : s.task = .ended
    · exact ⟨.main, nofun, _, .join hs hended⟩
    · exact ⟨.task, nofun, hi.task_ends h (by rw [hs]; exact ⟨nofun, nofun⟩) hended⟩
  | returned => exact absurd hs hreturned

/-- A server that nobody has told to stop serves on while `main` waits for it. -/
theorem SseProcess.deaf (htask : s.task = .serving) (htold : s.told = false)
    (hstage : s.stage = .joining) (ha : standalone.Enabled s a) : a = .fault := by
  obtain ⟨t, hs⟩ := ha
  cases hs with
  | fault => rfl
  | bound h | bindFailed h | ended h | join _ h => cases htask.symm.trans h
  | stopped _ h => cases htold.symm.trans h
  | signal h _ | stop h _ | noServer h _ | stopReturned h _ => cases hstage.symm.trans h

/-- `main` is sure to return after its task has ended, though the server does not end by itself. -/
def SseProcess.Returns (s : SseProcess) : Prop :=
  ∀ as t, standalone.Run s as t → .fault ∉ as → as.length ≤ s.rank ∧
    (t.stage = .returned ∧ t.task = .ended ∨ ∃ a, a ≠ .fault ∧ standalone.Enabled t a)

/-- A `main` that could not listen for the signal may come to wait for a server that serves on. -/
theorem SseProcess.not_returns (hrun : standalone.Run s as t) (has : .fault ∉ as) (hi : t.Inv)
    (hlistens : t.listens = false) (htask : t.task = .serving) : ¬ s.Returns := by
  intro hreturns
  obtain ⟨htold, hstage⟩ := hi.deaf hlistens
  have hjoining : t.stage = .joining := by
    apply hstage.resolve_right
    intro hreturned
    cases htask.symm.trans (hi.joined hreturned)
  obtain ⟨_, ⟨_, hended⟩ | ⟨a, ha, henabled⟩⟩ := hreturns as t hrun has
  · cases htask.symm.trans hended
  · exact ha (SseProcess.deaf htask htold hjoining henabled)

/-- From the signal on `main` is sure to return; where it could not listen for one it is so only
if the server has stopped already or has never been bound. -/
theorem standalone_returns_iff (h : standalone.Reachable s) (hstage : s.stage ≠ .waiting) :
    s.Returns ↔ s.listens = true ∨ s.task = .stopped ∨ s.task = .ended := by
  have hi := SseProcess.inv h
  apply Iff.intro
  · intro hreturns
    cases hlistens : s.listens with
    | true => exact .inl rfl
    | false =>
      cases htask : s.task with
      | stopped => exact .inr (.inl rfl)
      | ended => exact .inr (.inr rfl)
      | spawned =>
        have hbound := h.next (.bound htask)
        exact absurd hreturns (SseProcess.not_returns (.single (.bound htask)) (by decide)
          (SseProcess.inv hbound) hlistens rfl)
      | serving =>
        exact absurd hreturns (SseProcess.not_returns (.refl s) List.not_mem_nil hi hlistens htask)
  · intro hstops as t hrun _
    have hlen := hrun.length_le (I := fun _ => True)
      (fun s a t _ _ hs => ⟨trivial, SseProcess.Step.rank hs⟩) trivial
    obtain ⟨hstops', hstage'⟩ := hrun.invariant (I := fun s => s.Stops ∧ s.stage ≠ .waiting)
      (fun s a t _ hi hs => SseProcess.Step.stops hs hi.1 hi.2) ⟨hstops, hstage⟩
    have hi' := SseProcess.inv (h.run hrun)
    refine ⟨by omega, ?_⟩
    by_cases hreturned : t.stage = .returned
    · exact .inl ⟨hreturned, hi'.joined hreturned⟩
    · exact .inr (hi'.progress hstops' hstage' hreturned)

/-- The signal comes once the server has been bound; there is no listening for it. -/
theorem standalone_returns_bound : SseProcess.Returns ⟨.serving, true, false, .stopping, true⟩ ∧
    ¬ SseProcess.Returns ⟨.spawned, false, false, .joining, false⟩ :=
  ⟨(standalone_returns_iff (.next (.next (.start ⟨true, rfl⟩) (.bound rfl)) (.signal rfl nofun))
      nofun).mpr (.inl rfl),
    fun h => ((standalone_returns_iff (.start ⟨false, rfl⟩) nofun).mp h).elim nofun
      fun hstopped => hstopped.elim nofun nofun⟩

end WalletMpc.Sse
