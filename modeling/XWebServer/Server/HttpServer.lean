import XWebServer.Http.Conn
import XWebServer.Lib.Transition
import XWebServer.Server.Kernel
import XWebServer.Timer.HeapTimer

/-! # The class `HttpServer`

The handlers of the main thread, the callbacks of the timer, and the tasks of the pool, as the steps
of one machine. Every step is atomic. What the kernel, the clock and a task's system calls answer is
part of the step's label. An `HttpConn *` is the key of its object in `m_users`, which never erases. The
calls of the log are left out, and so is memory that runs out.
-/

namespace XWebServer

open Transition HeapTimer

/-- The arguments of the constructor that the handlers depend on. -/
structure Config where
  trigMode : ℤ
  timeoutMS : ℤ

namespace Config

/-- `InitEventMode` puts `EPOLLET` into `listenEvent`. -/
def listenET (config : Config) : Bool := config.trigMode ≠ 0 ∧ config.trigMode ≠ 1

/-- `InitEventMode` puts `EPOLLET` into `connEvent`. -/
def connET (config : Config) : Bool := config.trigMode ≠ 0 ∧ config.trigMode ≠ 2

end Config

inductive TaskKind where
  | onRead
  | onWrite
deriving DecidableEq, Repr

/-- A task of the pool: which function it runs on which object, and, recorded when it was queued, the
latest accept of the object's descriptor. -/
structure Task where
  kind : TaskKind
  object : ℤ
  accept : Option Accept
deriving DecidableEq, Repr

/-- The server between two steps. `clock` records the latest reading of the clock, and `active`, for
each object, the reading made by its latest `AddClient`, `DealRead` or `DealWrite`. -/
structure Server where
  users : ℤ → Option HttpConn
  userCount : ℤ
  timer : HeapTimer ℤ
  pending : List Task
  kernel : Kernel
  clock : ℤ
  active : ℤ → ℤ

/-- A descriptor that `accept` returns, and what else `AddClient` finds for it: the reading of the
clock, the comparison past the end of the heap, and the memory of a new object. -/
structure Arrival where
  fd : ℤ
  now : ℤ
  wild : Except Fault Bool
  iovCnt : ℕ
  iov0 : Iovec
  iov1 : Iovec

/-- What a task finds outside the server, and the signal that ends the process in it, if any does. -/
structure TaskIo where
  host : Host
  reads : List ReadvOutcome
  writes : List WriteOutcome
  signal : Option Signal

namespace Server

def maxFd : ℤ := 65536

/-- The object a pointer points to; `Start` asserts that it exists. -/
def client (server : Server) (object : ℤ) : Except Fault HttpConn :=
  match server.users object with
  | some client => .ok client
  | none => .error .assertion

/-- Whether the object exists with `m_isClose == false`. -/
def connected (server : Server) (object : ℤ) : Bool :=
  match server.users object with
  | some client => !client.isClose
  | none => false

def setUser (object : ℤ) (client : HttpConn) (server : Server) : Server :=
  { server with users := Function.update server.users object (some client) }

/-! ## Closing -/

/-- Without the `send`, which raises `SIGPIPE` when the peer is gone already. -/
def sendError (fd : ℤ) (server : Server) : Except Fault Server := do
  assert (0 < fd)
  .ok { server with kernel := server.kernel.close none fd }

/-- `HttpConn::Close`. -/
def close (object : ℤ) (client : HttpConn) (server : Server) : Server :=
  let closed := server.setUser object client.close
  if client.isClose then closed
  else
    { closed with
      userCount := server.userCount - 1
      kernel := server.kernel.close (some object) client.sockFd }

def closeConn (object : ℤ) (server : Server) : Except Fault Server := do
  let client ← server.client object
  .ok (close object client { server with kernel := server.kernel.delFd client.sockFd })

/-! ## Accepting -/

/-- The timer after `AddClient`. -/
def addTimer (config : Config) (arrival : Arrival) (timer : HeapTimer ℤ) :
    Except Fault (HeapTimer ℤ) :=
  if 0 < config.timeoutMS then
    timer.add arrival.wild arrival.fd config.timeoutMS arrival.now arrival.fd
  else .ok timer

def addClient (config : Config) (arrival : Arrival) (server : Server) : Except Fault Server := do
  assert (0 < arrival.fd)
  let object := (server.users arrival.fd).getD
    (.new arrival.iovCnt arrival.iov0 arrival.iov1)
  let client ← object.init arrival.fd
  let timer ← addTimer config arrival server.timer
  .ok { server with
    users := Function.update server.users arrival.fd (some client)
    userCount := server.userCount + 1
    timer
    kernel := (server.kernel.initialise arrival.fd arrival.fd).addFd arrival.fd .input
    clock := arrival.now
    active := Function.update server.active arrival.fd arrival.now }

/-- The loop of `DealListen`. The list holds the descriptors that `accept` returns before it fails. -/
def dealListen (config : Config) : List Arrival → Server → Except Fault Server
  | [], server => .ok server
  | arrival :: rest, server =>
      let server := { server with kernel := server.kernel.accept arrival.fd }
      if arrival.fd ≤ 0 then .ok server
      else if maxFd ≤ server.userCount then server.sendError arrival.fd
      else do
        let server ← server.addClient config arrival
        if config.listenET then dealListen config rest server else .ok server

/-! ## Reading and writing -/

/-- The timer after `ExtentTime`. -/
def extentTime (config : Config) (client : HttpConn) (now : ℤ) (timer : HeapTimer ℤ) :
    Except Fault (HeapTimer ℤ) :=
  if 0 < config.timeoutMS then timer.adjust client.sockFd config.timeoutMS now else .ok timer

/-- `DealRead` and `DealWrite`, which differ in the task they queue. -/
def deal (kind : TaskKind) (config : Config) (object now : ℤ) (server : Server) :
    Except Fault Server := do
  let client ← server.client object
  let timer ← extentTime config client now server.timer
  .ok { server with
    timer
    pending := server.pending ++ [⟨kind, object, server.kernel.latest client.sockFd⟩]
    clock := now
    active := Function.update server.active object now }

def dealRead : Config → (object now : ℤ) → Server → Except Fault Server := deal .onRead

def dealWrite : Config → (object now : ℤ) → Server → Except Fault Server := deal .onWrite

/-- The branches of `Start` for a client's descriptor. -/
def dispatch (config : Config) (fd : ℤ) (events : Events) (now : ℤ) (server : Server) :
    Except Fault Server :=
  if events.hangUp then server.closeConn fd
  else if events.input then server.dealRead config fd now
  else if events.output then server.dealWrite config fd now
  else .ok server

/-- epoll reports events of a descriptor, and its registration is disarmed. -/
def disarm (fd : ℤ) (server : Server) : Server :=
  { server with kernel := server.kernel.modFd fd .disarmed }

/-! ## The timer and the tasks -/

/-- Run the callbacks that rounds of `tick` fire. -/
def expire (ticked : Ticked ℤ) (server : Server) : Except Fault Server := do
  let server ← ticked.fired.foldlM (fun server entry => server.closeConn entry.1.cb) server
  .ok { server with
    timer := ticked.timer
    clock := ticked.readings.getLast?.getD server.clock }

def tick (source : ℕ → Round) (server : Server) : Except Fault Server := do
  server.expire (← server.timer.tick source)

/-- One round of `tick`, after which the workers may run. -/
def tickRound (round : Round) (server : Server) : Except Fault Server := do
  server.expire (← server.timer.rounds 1 fun _ => round)

/-- How `OnRead` and `OnWrite` hand the connection back. -/
def handBack (object : ℤ) (decision : HttpConn.Decision) (client : HttpConn) (server : Server) :
    Except Fault Server :=
  let stored := server.setUser object client
  match decision with
  | .armIn => .ok { stored with kernel := stored.kernel.modFd client.sockFd .input }
  | .armOut => .ok { stored with kernel := stored.kernel.modFd client.sockFd .output }
  | .close => stored.closeConn object

def runTask (config : Config) (task : Task) (io : TaskIo) (client : HttpConn) :
    Except Fault (HttpConn.Decision × HttpConn) :=
  match io.signal with
  | some signal => .error (.killed signal)
  | none =>
      match task.kind with
      | .onRead => client.onRead config.connET io.host io.reads
      | .onWrite => client.onWrite config.connET io.host io.writes

/-- A worker takes a task from the pool and runs it. -/
def run (config : Config) (index : ℕ) (io : TaskIo) (server : Server) : Except Fault Server :=
  match server.pending[index]? with
  | none => .ok server
  | some task => do
      let client ← server.client task.object
      let (decision, next) ← runTask config task io client
      { server with pending := server.pending.eraseIdx index }.handBack task.object decision next

/-! ## The machine -/

inductive Action where
  | listen (arrivals : List Arrival)
  | tick (source : ℕ → Round)
  | tickRound (round : Round)
  | event (fd : ℤ) (events : Events) (now : ℤ)
  | run (index : ℕ) (io : TaskIo)

/-- What the kernel can answer and the pool can run: `accept` returns descriptors that are not open,
epoll reports what is registered, and a worker takes a pending task. -/
def Admits (config : Config) (server : Server) : Action → Prop
  | .listen arrivals =>
      (∀ arrival ∈ arrivals, 0 ≤ arrival.fd ∧ server.kernel.isOpen arrival.fd = false) ∧
        (arrivals.map (·.fd)).Nodup
  | .tick _ | .tickRound _ => 0 < config.timeoutMS
  | .event fd events _ => ∃ interest, server.kernel.epoll fd = some interest ∧
      interest.Reports events
  | .run index _ => index < server.pending.length

def step (config : Config) : Action → Server → Except Fault Server
  | .listen arrivals, server => server.dealListen config arrivals
  | .tick source, server => server.tick source
  | .tickRound round, server => server.tickRound round
  | .event fd events now, server => (server.disarm fd).dispatch config fd events now
  | .run index io, server => server.run config index io

/-- The server after a step, or as it was when the step breaks off. -/
def next (config : Config) (action : Action) (server : Server) : Server :=
  match server.step config action with
  | .ok target => target
  | .error _ => server

/-- The server before its first event, with some descriptors open. -/
def start (isOpen : ℤ → Bool) (clock : ℤ) : Server where
  users _ := none
  userCount := 0
  timer := .new
  pending := []
  kernel := ⟨isOpen, fun _ => none, 0, fun _ => none, []⟩
  clock := clock
  active _ := 0

def machine (config : Config) : System Server Action where
  Init server := ∃ isOpen clock, server = start isOpen clock
  Step source action target := source.Admits config action ∧ source.step config action = .ok target

theorem step_next {config : Config} {action : Action} {server : Server}
    (admits : server.Admits config action) (completes : (server.step config action).isOk = true) :
    (machine config).Step server action (server.next config action) := by
  refine ⟨admits, ?_⟩
  rw [next]
  cases outcome : server.step config action with
  | error fault =>
    rw [outcome] at completes
    cases completes
  | ok target => rfl

/-- The readings of the clock in a step do not go back. -/
def Timely (server : Server) : Action → Prop
  | .listen arrivals => (server.clock :: arrivals.map (·.now)).Pairwise (· ≤ ·)
  | .tick source => (∀ n, server.clock ≤ (source n).now) ∧
      ∀ m n, m ≤ n → (source m).now ≤ (source n).now
  | .tickRound round => server.clock ≤ round.now
  | .event _ _ now => server.clock ≤ now
  | .run _ _ => True

end Server

end XWebServer
