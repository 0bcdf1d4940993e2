import WalletMpc.SseProcess

namespace WalletMpc.Gateway
open Systems Sse
set_option autoImplicit true

/-- The handle of a spawned task as `main` holds it in an `Option`, with a count of how often the
result has been taken: awaiting a handle again after that panics. -/
structure JoinHandle where
  held : Bool
  taken : Nat

def JoinHandle.join (handle : JoinHandle) : JoinHandle := ⟨false, handle.taken + 1⟩

/-- The result of a task has been taken once, after its end, unless the handle is still there. -/
structure JoinHandle.Once (handle : JoinHandle) (ended : Prop) : Prop where
  taken : handle.taken = if handle.held then 0 else 1
  ended : handle.held = false → ended

/-- The task that serves the gRPC services; after the shutdown it takes no more calls and waits for
those in flight. -/
inductive GrpcTask where
  | spawned
  | serving
  | draining
  | ended
  deriving DecidableEq

inductive MainStage where
  | selecting
  | notifying
  | stopping
  | awaitingStop
  | joiningSse
  | joiningGrpc
  | returned
  deriving DecidableEq

/-- The process of the gateway: its two tasks, the handle that the sse server stores, the gRPC calls
in flight, the value of the watch channel, and `main` with its handles. -/
structure GatewayProcess where
  sse : SseTask
  serverHandle : Bool
  grpc : GrpcTask
  inFlight : Nat
  shutdown : Bool
  stage : MainStage
  serverTask : JoinHandle
  grpcTask : JoinHandle

inductive ProcessAction where
  | sse
  | grpc
  | call
  | answer
  | signal
  | main
  deriving DecidableEq

inductive GatewayProcess.Step : GatewayProcess → ProcessAction → GatewayProcess → Prop where
  | bound : s.sse = .spawned → Step s .sse { s with sse := .serving, serverHandle := true }
  | bindFailed : s.sse = .spawned → Step s .sse { s with sse := .ended }
  -- on the command of its handle, or by itself
  | serverStopped : s.sse = .serving → Step s .sse { s with sse := .stopped }
  | sseEnded : s.sse = .stopped → Step s .sse { s with sse := .ended }
  | sseDropped : s.sse ≠ .ended → s.shutdown = true → Step s .sse { s with sse := .ended }
  | grpcBound : s.grpc = .spawned → Step s .grpc { s with grpc := .serving }
  | grpcFailed : s.grpc = .spawned → Step s .grpc { s with grpc := .ended }
  | drain : s.grpc = .serving → s.shutdown = true → Step s .grpc { s with grpc := .draining }
  | drained : s.grpc = .draining → s.inFlight = 0 → Step s .grpc { s with grpc := .ended }
  | call : s.grpc = .serving → Step s .call { s with inFlight := s.inFlight + 1 }
  | answer : s.inFlight = n + 1 → Step s .answer { s with inFlight := n }
  | signal : s.stage = .selecting → Step s .signal { s with stage := .notifying }
  | sseExited : s.stage = .selecting → s.sse = .ended →
      Step s .main { s with serverTask := s.serverTask.join, stage := .notifying }
  | grpcExited : s.stage = .selecting → s.grpc = .ended →
      Step s .main { s with grpcTask := s.grpcTask.join, stage := .notifying }
  | notify : s.stage = .notifying →
      Step s .main { s with shutdown := true, stage := .stopping }
  | stop : s.stage = .stopping → s.serverHandle = true →
      Step s .main { s with serverHandle := false, stage := .awaitingStop }
  | noServer : s.stage = .stopping → s.serverHandle = false →
      Step s .main { s with stage := .joiningSse }
  | stopReturned : s.stage = .awaitingStop → s.sse = .stopped ∨ s.sse = .ended →
      Step s .main { s with stage := .joiningSse }
  | joinSse : s.stage = .joiningSse → s.serverTask.held = true → s.sse = .ended →
      Step s .main { s with serverTask := s.serverTask.join, stage := .joiningGrpc }
  | skipSse : s.stage = .joiningSse → s.serverTask.held = false →
      Step s .main { s with stage := .joiningGrpc }
  | joinGrpc : s.stage = .joiningGrpc → s.grpcTask.held = true → s.grpc = .ended →
      Step s .main { s with grpcTask := s.grpcTask.join, stage := .returned }
  | skipGrpc : s.stage = .joiningGrpc → s.grpcTask.held = false →
      Step s .main { s with stage := .returned }

/-- The gateway from where `main` has spawned both tasks. -/
def process : System GatewayProcess ProcessAction where
  start s := s = ⟨.spawned, false, .spawned, 0, false, .selecting, ⟨true, 0⟩, ⟨true, 0⟩⟩
  step := GatewayProcess.Step

def GrpcTask.rank : GrpcTask → Nat
  | .spawned => 3
  | .serving => 2
  | .draining => 1
  | .ended => 0

def MainStage.rank : MainStage → Nat
  | .selecting => 6
  | .notifying => 5
  | .stopping => 4
  | .awaitingStop => 3
  | .joiningSse => 2
  | .joiningGrpc => 1
  | .returned => 0

/-- The most steps that are left when no more calls come. -/
def GatewayProcess.rank (s : GatewayProcess) : Nat :=
  s.sse.rank + s.grpc.rank + s.stage.rank + s.inFlight

/-- What the process keeps: `main` takes each result once, and goes past a task only when that has
ended. -/
structure GatewayProcess.Inv (s : GatewayProcess) : Prop where
  sse : s.serverTask.Once (s.sse = .ended)
  grpc : s.grpcTask.Once (s.grpc = .ended)
  idle : s.grpc = .spawned ∨ s.grpc = .ended → s.inFlight = 0
  notified : s.stage.rank < 5 → s.shutdown = true
  selecting : s.stage = .selecting → s.serverTask.held = true ∧ s.grpcTask.held = true
  sseJoined : s.stage.rank < 2 → s.serverTask.held = false
  grpcJoined : s.stage = .returned → s.grpcTask.held = false

theorem JoinHandle.Once.join {handle : JoinHandle} (h : handle.Once p) (hheld : handle.held = true)
    (hp : p) : handle.join.Once p where
  taken := by
    have htaken := h.taken
    rw [if_pos hheld] at htaken
    simp [JoinHandle.join, htaken]
  ended _ := hp

theorem JoinHandle.Once.mono {handle : JoinHandle} (h : handle.Once p) (hq : p → q) :
    handle.Once q :=
  ⟨h.taken, fun hheld => hq (h.ended hheld)⟩

/-- Only a call that comes in adds to what is left to do. -/
theorem GatewayProcess.Step.rank (hs : Step s a t) :
    t.rank + 1 ≤ s.rank + if a = .call then 2 else 0 := by
  cases hs with
  | bound h | bindFailed h | serverStopped h | sseEnded h =>
    simp only [GatewayProcess.rank, h, SseTask.rank]
    omega
  | sseDropped h _ =>
    have hpos := SseTask.rank_pos h
    have hended : SseTask.rank .ended = 0 := rfl
    simp only [GatewayProcess.rank, hended]
    omega
  | grpcBound h | grpcFailed h | drain h _ | drained h _ =>
    simp only [GatewayProcess.rank, h, GrpcTask.rank]
    omega
  | call h =>
    simp only [GatewayProcess.rank, if_true]
    omega
  | answer h =>
    simp only [GatewayProcess.rank, h]
    omega
  | signal h | sseExited h _ | grpcExited h _ | notify h | stop h _ | noServer h _
    | stopReturned h _ | joinSse h _ _ | skipSse h _ | joinGrpc h _ _ | skipGrpc h _ =>
    simp only [GatewayProcess.rank, h, MainStage.rank]
    omega

theorem GatewayProcess.run_rank (h : process.Run s as t) :
    as.length + t.rank ≤ s.rank + 2 * as.count .call := by
  induction h with
  | refl s => simp
  | @head s a t as u hs hr ih =>
    have hstep := GatewayProcess.Step.rank hs
    rw [List.length_cons, List.count_cons]
    by_cases ha : a = .call
    · simp only [ha, if_true, beq_self_eq_true] at hstep ⊢
      omega
    · simp only [ha, if_false, beq_iff_eq] at hstep ⊢
      omega

/-- What the tasks and their callers do, as far as `main` sees it. -/
theorem GatewayProcess.Inv.tasks {s : GatewayProcess} {x : SseTask} {y : GrpcTask} {n : Nat}
    (hi : s.Inv) (hsse : s.sse = .ended → x = .ended) (hgrpc : s.grpc = .ended → y = .ended)
    (hidle : y = .spawned ∨ y = .ended → n = 0) :
    Inv { s with sse := x, serverHandle := b, grpc := y, inFlight := n } where
  sse := hi.sse.mono hsse
  grpc := hi.grpc.mono hgrpc
  idle := hidle
  notified := hi.notified
  selecting := hi.selecting
  sseJoined := hi.sseJoined
  grpcJoined := hi.grpcJoined

/-- A move of `main`. -/
theorem GatewayProcess.Inv.main {s : GatewayProcess} {x : MainStage} {a b : JoinHandle}
    (hi : s.Inv) (ha : a.Once (s.sse = .ended)) (hb : b.Once (s.grpc = .ended))
    (hx : x ≠ .selecting) (hshutdown : x.rank < 5 → c = true)
    (hsseJoined : x.rank < 2 → a.held = false) (hgrpcJoined : x = .returned → b.held = false) :
    Inv { s with serverHandle := d, shutdown := c, stage := x, serverTask := a, grpcTask := b } where
  sse := ha
  grpc := hb
  idle := hi.idle
  notified := hshutdown
  selecting h := absurd h hx
  sseJoined := hsseJoined
  grpcJoined := hgrpcJoined

theorem GatewayProcess.Step.inv (hs : Step s a t) (hi : s.Inv) : t.Inv := by
  have below {n : Nat} {stage : MainStage} (h : s.stage = stage) (hn : stage.rank < n := by decide) :
      s.stage.rank < n := h ▸ hn
  cases hs with
  | bound h | bindFailed h | serverStopped h | sseEnded h =>
    exact hi.tasks (fun he => absurd (h.symm.trans he) nofun) id hi.idle
  | sseDropped h _ => exact hi.tasks (fun _ => rfl) id hi.idle
  | grpcBound h => exact hi.tasks id (fun he => absurd (h.symm.trans he) nofun) nofun
  | grpcFailed h => exact hi.tasks id (fun _ => rfl) fun _ => hi.idle (.inl h)
  | drain h _ => exact hi.tasks id (fun he => absurd (h.symm.trans he) nofun) nofun
  | drained _ h => exact hi.tasks id (fun _ => rfl) fun _ => h
  | call h =>
    refine hi.tasks id id fun hgrpc => ?_
    rw [h] at hgrpc
    exact absurd hgrpc nofun
  | answer h =>
    refine hi.tasks id id fun hgrpc => ?_
    have hidle := hi.idle hgrpc
    omega
  | signal h =>
    exact hi.main hi.sse hi.grpc nofun (fun h => absurd h (by decide))
      (fun h => absurd h (by decide)) nofun
  | sseExited h hended =>
    exact hi.main (hi.sse.join (hi.selecting h).1 hended) hi.grpc nofun
      (fun h => absurd h (by decide)) (fun _ => rfl) nofun
  | grpcExited h hended =>
    exact hi.main hi.sse (hi.grpc.join (hi.selecting h).2 hended) nofun
      (fun h => absurd h (by decide)) (fun h => absurd h (by decide)) nofun
  | notify h =>
    exact hi.main hi.sse hi.grpc nofun (fun _ => rfl) (fun h => absurd h (by decide)) nofun
  | stop h _ | noServer h _ | stopReturned h _ =>
    exact hi.main hi.sse hi.grpc nofun (fun _ => hi.notified (below h))
      (fun h => absurd h (by decide)) nofun
  | joinSse h hheld hended =>
    exact hi.main (hi.sse.join hheld hended) hi.grpc nofun (fun _ => hi.notified (below h))
      (fun _ => rfl) nofun
  | skipSse h hheld =>
    exact hi.main hi.sse hi.grpc nofun (fun _ => hi.notified (below h)) (fun _ => hheld) nofun
  | joinGrpc h hheld hended =>
    exact hi.main hi.sse (hi.grpc.join hheld hended) nofun (fun _ => hi.notified (below h))
      (fun _ => hi.sseJoined (below h)) fun _ => rfl
  | skipGrpc h hheld =>
    exact hi.main hi.sse hi.grpc nofun (fun _ => hi.notified (below h))
      (fun _ => hi.sseJoined (below h)) fun _ => hheld

theorem GatewayProcess.inv (h : process.Reachable s) : s.Inv := by
  apply h.invariant
  · intro s hs
    subst hs
    exact ⟨⟨rfl, nofun⟩, ⟨rfl, nofun⟩, fun _ => rfl, fun h => absurd h (by decide),
      fun _ => ⟨rfl, rfl⟩, fun h => absurd h (by decide), nofun⟩
  · intro s a t _ hi hs
    exact Step.inv hs hi

theorem GatewayProcess.Step.selected (hs : Step s a t) (h : s.stage ≠ .selecting) :
    t.stage ≠ .selecting := by
  cases hs with
  | signal | sseExited | grpcExited | notify | stop | noServer | stopReturned | joinSse | skipSse
    | joinGrpc | skipGrpc => nofun
  | _ => exact h

/-- After the shutdown has been told, the sse task can end. -/
theorem GatewayProcess.sse_ends (hshutdown : s.shutdown = true) (h : s.sse ≠ .ended) :
    process.Enabled s .sse :=
  ⟨_, .sseDropped h hshutdown⟩

/-- After the shutdown has been told, the gRPC task can end, or a call in flight be answered. -/
theorem GatewayProcess.grpc_ends (hshutdown : s.shutdown = true) (h : s.grpc ≠ .ended) :
    process.Enabled s .grpc ∨ process.Enabled s .answer := by
  cases hgrpc : s.grpc with
  | spawned => exact .inl ⟨_, .grpcBound hgrpc⟩
  | serving => exact .inl ⟨_, .drain hgrpc hshutdown⟩
  | draining =>
    cases hflight : s.inFlight with
    | zero => exact .inl ⟨_, .drained hgrpc hflight⟩
    | succ n => exact .inr ⟨_, .answer hflight⟩
  | ended => exact absurd hgrpc h

/-- From the end of the select on, `main` can go on or what it waits for can. -/
theorem GatewayProcess.progress (hi : s.Inv) (hselecting : s.stage ≠ .selecting)
    (hreturned : s.stage ≠ .returned) :
    process.Enabled s .main ∨ process.Enabled s .sse ∨ process.Enabled s .grpc ∨
      process.Enabled s .answer := by
  cases hstage : s.stage with
  | selecting => exact absurd hstage hselecting
  | notifying => exact .inl ⟨_, .notify hstage⟩
  | stopping =>
    cases hhandle : s.serverHandle with
    | true => exact .inl ⟨_, .stop hstage hhandle⟩
    | false => exact .inl ⟨_, .noServer hstage hhandle⟩
  | awaitingStop =>
    by_cases hsse : s.sse = .ended
    · exact .inl ⟨_, .stopReturned hstage (.inr hsse)⟩
    · exact .inr (.inl (sse_ends (hi.notified (hstage ▸ by decide)) hsse))
  | joiningSse =>
    cases hheld : s.serverTask.held with
    | false => exact .inl ⟨_, .skipSse hstage hheld⟩
    | true =>
      by_cases hsse : s.sse = .ended
      · exact .inl ⟨_, .joinSse hstage hheld hsse⟩
      · exact .inr (.inl (sse_ends (hi.notified (hstage ▸ by decide)) hsse))
  | joiningGrpc =>
    cases hheld : s.grpcTask.held with
    | false => exact .inl ⟨_, .skipGrpc hstage hheld⟩
    | true =>
      by_cases hgrpc : s.grpc = .ended
      · exact .inl ⟨_, .joinGrpc hstage hheld hgrpc⟩
      · exact .inr (.inr (grpc_ends (hi.notified (hstage ▸ by decide)) hgrpc))
  | returned => exact absurd hstage hreturned

/-- When `main` returns, both tasks have ended and no call is in flight, and it has taken the result
of each task once. -/
structure GatewayProcess.Done (s : GatewayProcess) : Prop where
  sse : s.sse = .ended
  grpc : s.grpc = .ended
  answered : s.inFlight = 0
  serverTask : s.serverTask.taken = 1
  grpcTask : s.grpcTask.taken = 1

theorem GatewayProcess.Inv.done {s : GatewayProcess} (hi : s.Inv) (h : s.stage = .returned) : s.Done := by
  have hsse := hi.sseJoined (h ▸ by decide)
  have hgrpc := hi.grpcJoined h
  have hended := hi.grpc.ended hgrpc
  exact {
    sse := hi.sse.ended hsse
    grpc := hended
    answered := hi.idle (.inr hended)
    serverTask := by rw [hi.sse.taken, hsse]; rfl
    grpcTask := by rw [hi.grpc.taken, hgrpc]; rfl }

/-- Once the select of `main` has ended, in whichever way and with either task in whatever state,
no more steps are left till `main` returns than these, and there is a next one: of the process, or
the answer of the sign-service to a call in flight, which the gRPC task waits for. -/
theorem shuts_down (h : process.Reachable s) (hselected : s.stage ≠ .selecting)
    (hrun : process.Run s as t) :
    as.length ≤ s.rank + 2 * as.count .call ∧
      (t.stage = .returned → t.Done) ∧
      (t.stage ≠ .returned → process.Enabled t .main ∨ process.Enabled t .sse ∨
        process.Enabled t .grpc ∨ process.Enabled t .answer) := by
  have hrank := GatewayProcess.run_rank hrun
  have hi := GatewayProcess.inv (h.run hrun)
  have hstage : t.stage ≠ .selecting :=
    hrun.invariant (fun _ _ _ _ hs hst => GatewayProcess.Step.selected hst hs) hselected
  refine ⟨by omega, hi.done, ?_⟩
  exact GatewayProcess.progress hi hstage

/-- A signal comes before either server is bound, and the gRPC server then fails to bind. -/
theorem shuts_down_signalled :
    GatewayProcess.Done ⟨.ended, false, .ended, 0, true, .returned, ⟨false, 1⟩, ⟨false, 1⟩⟩ :=
  have hsignalled : process.Reachable
      ⟨.spawned, false, .spawned, 0, false, .notifying, ⟨true, 0⟩, ⟨true, 0⟩⟩ :=
    .next (.start rfl) (.signal rfl)
  have hrun : process.Run _ [.main, .main, .sse, .main, .grpc, .main] _ :=
    .head (.notify rfl) <| .head (.noServer rfl rfl) <| .head (.sseDropped (by decide) rfl) <|
      .head (.joinSse rfl rfl rfl) <| .head (.grpcFailed rfl) <| .single (.joinGrpc rfl rfl rfl)
  (shuts_down hsignalled nofun hrun).2.1 rfl

end WalletMpc.Gateway
