import XWebServer.Server.Effects

/-! # Every step is a path of effects

`step_path` takes a step of the server apart. Two properties of a whole step pass to its effects: that
its readings of the clock do not go back, and that no callback of the timer meets a pending task.
-/

namespace XWebServer

open Transition System HeapTimer HttpConn

namespace Server

/-- At no reading that rounds of `tick` make is the entry of an object with a pending task expired. -/
def Spared (server : Server) (ticked : Ticked ℤ) : Prop :=
  ∀ task ∈ server.pending, ∀ node ∈ server.timer.heap, node.id = task.object →
    ∀ now ∈ ticked.readings, 0 < node.remaining now

/-- No timer callback of the step finds a pending task for its object. -/
def Spares (server : Server) : Action → Prop
  | .tick source => ∀ ticked, server.timer.tick source = .ok ticked → server.Spared ticked
  | .tickRound round =>
      ∀ ticked, server.timer.rounds 1 (fun _ => round) = .ok ticked → server.Spared ticked
  | _ => True

/-- An effect's reading of the clock does not go back. -/
def Effect.Timely (server : Server) : Effect → Prop
  | .join arrival => server.clock ≤ arrival.now
  | .deal _ _ now => server.clock ≤ now
  | .retime clock => server.clock ≤ clock
  | _ => True

/-- A callback finds no pending task for its object. -/
def Effect.Spares (server : Server) : Effect → Prop
  | .callback object => ∀ task ∈ server.pending, task.object ≠ object
  | _ => True

/-- The effects of `DealListen`; no other handler, callback or task has one of them. -/
def Effect.listens : Effect → Bool
  | .leak _ | .refuse _ | .join _ => true
  | _ => false

def Action.listens : Action → Bool
  | .listen _ => true
  | _ => false

/-- What is asked of an effect, when the runs considered are timely or spare the pending tasks. -/
def Allowed (timely spares : Prop) (server : Server) (effect : Effect) : Prop :=
  (timely → effect.Timely server) ∧ (spares → effect.Spares server)

/-- An allowed effect of `DealListen`, or of anything else. -/
def Fits (timely spares : Prop) (listens : Bool) (server : Server) (effect : Effect) : Prop :=
  effect.listens = listens ∧ Allowed timely spares server effect

section

variable {config : Config} {timely spares : Prop}

/-- One effect is a path. -/
theorem effect_path {listens : Bool} {source target : Server} {effect : Effect}
    (move : Effects config source effect target) (fits : Fits timely spares listens source effect) :
    ((effects config).restrict (Fits timely spares listens)).Path source target :=
  have step : ((effects config).restrict (Fits timely spares listens)).Step source effect target :=
    ⟨move, fits⟩
  .single step

/-! ## Closing -/

theorem closeConn_eq {server : Server} {object : ℤ} {client : HttpConn}
    (known : server.users object = some client) (owns : client.sockFd = object)
    (unregistered : server.connected object = false → server.kernel.epoll object = none) :
    server.closeConn object = .ok (server.closing object client) := by
  have status := connected_of known
  simp only [closeConn, client_ok.mpr known, ok_bind, close, setUser, closing, owns]
  cases isClose : client.isClose with
  | true =>
    rw [isClose] at status
    have removed : server.kernel.delFd object = server.kernel := by
      rw [Kernel.delFd, ← unregistered status, Function.update_eq_self]
    simp only [status, removed, if_true, Bool.not_true, Bool.false_eq_true, if_false]
  | false =>
    rw [isClose] at status
    simp only [status, Bool.false_eq_true, if_false, Bool.not_false, if_true, Kernel.delFd,
      Kernel.close_update]

theorem Sound.unregistered {server : Server} (sound : server.Sound) {object : ℤ}
    (idle : server.connected object = false) : server.kernel.epoll object = none := by
  by_contra registered
  obtain ⟨interest, found⟩ := Option.ne_none_iff_exists'.mp registered
  rw [sound.registered object interest found] at idle
  cases idle

theorem Sound.closeConn {server : Server} (sound : server.Sound) {object : ℤ} {client : HttpConn}
    (known : server.users object = some client) :
    server.closeConn object = .ok (server.closing object client) := by
  exact closeConn_eq known (sound.sockFd object client known) sound.unregistered

/-- A pointer that is followed points to an object. -/
theorem known_of_closeConn {server target : Server} {object : ℤ}
    (run : server.closeConn object = .ok target) :
    ∃ client, server.users object = some client := by
  obtain ⟨client, looked, _⟩ := bind_ok run
  exact ⟨client, client_ok.mp looked⟩

/-- The callbacks of these entries have run, and nothing else. -/
structure CalledBack (entries : List (TimerNode ℤ × ℤ)) (server target : Server) : Prop where
  timer : target.timer = server.timer
  pending : target.pending = server.pending
  clock : target.clock = server.clock
  active : target.active = server.active
  connected : ∀ object, target.connected object = true ↔
    server.connected object = true ∧ ∀ entry ∈ entries, entry.1.cb ≠ object

variable (config timely) in
/-- Callbacks close their objects one by one. -/
theorem callbacks_path {entries : List (TimerNode ℤ × ℤ)} {server target : Server}
    (sound : server.Sound)
    (quiet : spares → ∀ entry ∈ entries, ∀ task ∈ server.pending, task.object ≠ entry.1.cb)
    (run : entries.foldlM (fun server entry => server.closeConn entry.1.cb) server = .ok target) :
    ((effects config).restrict (Fits timely spares false)).Path server target ∧
      CalledBack entries server target := by
  induction entries generalizing server with
  | nil =>
    cases run
    exact ⟨.refl _, rfl, rfl, rfl, rfl, by simp⟩
  | cons entry rest ih =>
    rw [List.foldlM_cons] at run
    obtain ⟨next, closes, run⟩ := bind_ok run
    obtain ⟨client, known⟩ := known_of_closeConn closes
    rw [sound.closeConn known] at closes
    cases closes
    have effect : Effects config server (.callback entry.1.cb)
      (server.closing entry.1.cb client) := .callback known
    obtain ⟨path, called⟩ := ih (effect.sound sound)
      (fun spare other there => quiet spare other (List.mem_cons_of_mem _ there)) run
    have fits : Fits timely spares false server (.callback entry.1.cb) :=
      ⟨rfl, fun _ => trivial, fun spare => quiet spare entry List.mem_cons_self⟩
    refine ⟨(effect_path effect fits).trans path, called.timer, called.pending, called.clock,
      called.active, fun object => ?_⟩
    rw [called.connected, connected_closing, Function.update_apply, List.forall_mem_cons]
    split_ifs with same
    · exact iff_of_false (fun closed => by cases closed.1) fun others => others.2.1 same.symm
    · exact and_congr_right fun _ => (and_iff_right (Ne.symm same)).symm

/-- Rounds of `tick` fire callbacks, and then the timer has lost what they fired. -/
theorem expire_path {server target : Server} {source : ℕ → Round} {ticked : Ticked ℤ}
    (sound : server.Sound) (expires : Expires server.timer source ticked)
    (isTimely : timely → ∀ n, server.clock ≤ (source n).now)
    (isSpared : spares → server.Spared ticked) (run : server.expire ticked = .ok target) :
    ((effects config).restrict (Fits timely spares false)).Path server target := by
  obtain ⟨closed, callbacks, run⟩ := bind_ok run
  cases run
  have quiet (spare : spares) : ∀ entry ∈ ticked.fired, ∀ task ∈ server.pending,
      task.object ≠ entry.1.cb := by
    rintro ⟨node, now⟩ fired task queued same
    obtain ⟨present, expired⟩ := expires.fired node now fired
    have made : now ∈ ticked.readings :=
      List.mem_append_left _ (List.mem_map.mpr ⟨(node, now), fired, rfl⟩)
    have isObject : node.id = task.object := (sound.entries node present).1.symm.trans same.symm
    exact absurd (isSpared spare task queued node present isObject now made)
      (Int.not_lt.mpr expired)
  obtain ⟨path, called⟩ := callbacks_path config timely sound quiet callbacks
  have retimed : Effects config closed (.retime (ticked.readings.getLast?.getD closed.clock))
      { closed with timer := ticked.timer, clock := ticked.readings.getLast?.getD closed.clock } := by
    refine .retime expires.indexed ?_ ?_ ?_
    · rw [called.timer]
      exact expires.ordered
    · intro node present
      rw [called.timer]
      exact ((expires.mem node).mp present).1
    · intro node present isConnected
      rw [called.timer] at present
      refine (expires.mem node).mpr ⟨present, fun entry fired same => ?_⟩
      have there := (expires.fired entry.1 entry.2 fired).1
      have isCb := (sound.entries entry.1 there).1
      exact ((called.connected node.id).mp isConnected).2 entry fired (isCb.trans same)
  refine path.trans (effect_path retimed ⟨rfl, fun time => ?_, fun _ => trivial⟩)
  cases last : ticked.readings.getLast? with
  | none => exact le_rfl
  | some now =>
    obtain ⟨n, isReading⟩ := expires.readings now (List.mem_of_getLast? last)
    rw [Effect.Timely, called.clock, Option.getD_some, isReading]
    exact isTimely time n

/-! ## A delivered event -/

theorem deal_eq {server target : Server} {kind : TaskKind} {fd now : ℤ} {interest : Interest}
    {client : HttpConn} (registered : server.kernel.epoll fd = some interest)
    (known : server.users fd = some client) (owns : client.sockFd = fd)
    (run : (server.disarm fd).deal kind config fd now = .ok target) :
    ∃ timer, extentTime config client now server.timer = .ok timer ∧
      target = server.dealt kind fd now timer := by
  obtain ⟨found, looked, run⟩ := bind_ok run
  obtain ⟨timer, extended, run⟩ := bind_ok run
  obtain rfl : client = found := Option.some.inj (known.symm.trans (client_ok.mp looked))
  refine ⟨timer, extended, ?_⟩
  rw [← Except.ok.inj run]
  simp only [dealt, disarm, owns, Kernel.modFd_of _ registered]

/-- A hang-up closes the connection that was armed. -/
theorem hangUp_eq {server : Server} (sound : server.Sound) {fd : ℤ} {interest : Interest}
    {client : HttpConn} (registered : server.kernel.epoll fd = some interest)
    (known : server.users fd = some client) :
    (server.disarm fd).closeConn fd = .ok (server.closing fd client) := by
  have isConnected := sound.registered fd interest registered
  have disarmed : (server.disarm fd).connected = server.connected := connected_congr rfl
  have closes : (server.disarm fd).closeConn fd = .ok ((server.disarm fd).closing fd client) := by
    refine closeConn_eq known (sound.sockFd fd client known) fun idle => ?_
    rw [disarmed, isConnected] at idle
    cases idle
  have same : (server.disarm fd).closing fd client = server.closing fd client := by
    simp only [closing, disarmed, isConnected, if_true]
    simp only [disarm, Kernel.modFd_of _ registered, Kernel.close_update]
  rw [closes, same]

theorem event_path {server target : Server} {fd now : ℤ} {events : Events} (sound : server.Sound)
    (admits : server.Admits config (.event fd events now))
    (isTimely : timely → server.clock ≤ now)
    (run : (server.disarm fd).dispatch config fd events now = .ok target) :
    ((effects config).restrict (Fits timely spares false)).Path server target := by
  obtain ⟨interest, registered, reports⟩ := admits
  have armed : interest ≠ .disarmed := by
    rintro rfl
    exact reports
  have isConnected := sound.registered fd interest registered
  obtain ⟨client, known⟩ := exists_client isConnected
  have owns := sound.sockFd fd client known
  have dealing (kind : TaskKind)
      (deals : (server.disarm fd).deal kind config fd now = .ok target) :
      ((effects config).restrict (Fits timely spares false)).Path server target := by
    obtain ⟨timer, extended, rfl⟩ := deal_eq registered known owns deals
    exact effect_path (.deal registered armed known extended) ⟨rfl, isTimely, fun _ => trivial⟩
  rw [dispatch] at run
  split_ifs at run with hangUp input output
  · rw [hangUp_eq sound registered known] at run
    rw [← Except.ok.inj run]
    exact effect_path (.hangUp registered armed known) ⟨rfl, fun _ => trivial, fun _ => trivial⟩
  · exact dealing .onRead run
  · exact dealing .onWrite run
  · cases interest with
    | disarmed => exact absurd rfl armed
    | input => exact absurd reports.1 (by simp [hangUp, input])
    | output => exact absurd reports.1 (by simp [hangUp, output])

/-! ## Accepting -/

theorem addClient_ok {server target : Server} {arrival : Arrival}
    (idle : server.kernel.epoll arrival.fd = none)
    (run : addClient config arrival { server with kernel := server.kernel.accept arrival.fd } =
      .ok target) :
    ∃ client timer, client.sockFd = arrival.fd ∧ client.isClose = false ∧
      addTimer config arrival server.timer = .ok timer ∧
      target = server.joined arrival client timer := by
  obtain ⟨_, _, run⟩ := bind_ok run
  obtain ⟨client, init, run⟩ := bind_ok run
  obtain ⟨timer, added, run⟩ := bind_ok run
  obtain ⟨_, _, init⟩ := bind_ok init
  refine ⟨client, timer, ?_, ?_, added, ?_⟩
  · rw [← Except.ok.inj init]
  · rw [← Except.ok.inj init]
  · rw [← Except.ok.inj run]
    simp only [joined, Kernel.addFd, Kernel.initialise, Kernel.accept, idle, Function.update_self,
      Function.update_idem, Option.map_some]

/-- What the loop of `DealListen` does with the first connection of the queue: descriptor 0 ends it, a
full server refuses the connection and ends it, and otherwise the connection joins. -/
theorem dealListen_cases {arrival : Arrival} {rest : List Arrival} {server target : Server}
    (idle : server.kernel.epoll arrival.fd = none)
    (run : server.dealListen config (arrival :: rest) = .ok target) :
    (arrival.fd ≤ 0 ∧ target = { server with kernel := server.kernel.accept arrival.fd }) ∨
      (0 < arrival.fd ∧ maxFd ≤ server.userCount ∧
        target = { server with kernel := (server.kernel.accept arrival.fd).close none arrival.fd }) ∨
      (0 < arrival.fd ∧ server.userCount < maxFd ∧ ∃ client timer, client.sockFd = arrival.fd ∧
        client.isClose = false ∧ addTimer config arrival server.timer = .ok timer ∧
        (if config.listenET then dealListen config rest (server.joined arrival client timer)
          else .ok (server.joined arrival client timer)) = .ok target) := by
  rw [dealListen] at run
  dsimp only at run
  by_cases negative : arrival.fd ≤ 0
  · rw [if_pos negative] at run
    cases run
    exact .inl ⟨negative, rfl⟩
  rw [if_neg negative] at run
  by_cases full : maxFd ≤ server.userCount
  · rw [if_pos full] at run
    obtain ⟨_, _, run⟩ := bind_ok run
    cases run
    exact .inr (.inl ⟨not_le.mp negative, full, rfl⟩)
  rw [if_neg full] at run
  obtain ⟨next, joins, run⟩ := bind_ok run
  obtain ⟨client, timer, owns, isOpen, added, rfl⟩ := addClient_ok idle joins
  exact .inr (.inr ⟨not_le.mp negative, not_le.mp full, client, timer, owns, isOpen, added, run⟩)

/-- The descriptors of the connections behind the first are still free when that has joined. -/
theorem Admits.joined {arrival : Arrival} {rest : List Arrival} {server : Server}
    (admits : server.Admits config (.listen (arrival :: rest))) (client : HttpConn)
    (timer : HeapTimer ℤ) : (server.joined arrival client timer).Admits config (.listen rest) := by
  obtain ⟨free, distinct⟩ := admits
  obtain ⟨new, distinct⟩ := List.nodup_cons.mp distinct
  refine ⟨fun other there => ?_, distinct⟩
  have apart : other.fd ≠ arrival.fd := fun same => new (List.mem_map.mpr ⟨other, there, same⟩)
  have before := free other (List.mem_cons_of_mem _ there)
  refine ⟨before.1, ?_⟩
  simp only [Server.joined, Function.update_of_ne apart]
  exact before.2

theorem listen_path {arrivals : List Arrival} {server target : Server} (sound : server.Sound)
    (admits : server.Admits config (.listen arrivals))
    (isTimely : timely → server.Timely (.listen arrivals))
    (run : server.dealListen config arrivals = .ok target) :
    ((effects config).restrict (Fits timely spares true)).Path server target := by
  induction arrivals generalizing server with
  | nil =>
    cases run
    exact .refl _
  | cons arrival rest ih =>
    have closed := (admits.1 arrival List.mem_cons_self).2
    rcases dealListen_cases (sound.idle closed).2 run with ⟨_, rfl⟩ | ⟨_, _, rfl⟩ |
      ⟨_, room, client, timer, owns, isOpen, added, run⟩
    · exact effect_path (.leak closed) ⟨rfl, fun _ => trivial, fun _ => trivial⟩
    · exact effect_path (.refuse closed) ⟨rfl, fun _ => trivial, fun _ => trivial⟩
    have effect : Effects config server (.join arrival) (server.joined arrival client timer) :=
      .join closed room owns isOpen added
    have inOrder (time : timely) := List.pairwise_cons.mp (isTimely time)
    have fits : Fits timely spares true server (.join arrival) :=
      ⟨rfl, fun time => (inOrder time).1 _ List.mem_cons_self, fun _ => trivial⟩
    apply (effect_path effect fits).trans
    split_ifs at run
    · exact ih (effect.sound sound) (admits.joined client timer) (fun time => (inOrder time).2) run
    · cases run
      exact .refl _

/-! ## A task -/

/-- A task that comes to its end is not killed. -/
theorem runTask_ok {task : Task} {io : TaskIo} {client : HttpConn} {result : Decision × HttpConn}
    (run : runTask config task io client = .ok result) : io.signal = none ∧
      (match task.kind with
        | .onRead => client.onRead config.connET io.host io.reads
        | .onWrite => client.onWrite config.connET io.host io.writes) = .ok result := by
  rw [runTask] at run
  cases raised : io.signal with
  | none =>
    rw [raised] at run
    exact ⟨rfl, run⟩
  | some signal =>
    rw [raised] at run
    cases run

theorem runTask_same {task : Task} {io : TaskIo} {client next : HttpConn} {decision : Decision}
    (run : runTask config task io client = .ok (decision, next)) : SameClient client next := by
  obtain ⟨_, run⟩ := runTask_ok run
  split at run
  · exact onRead_same run
  · exact onWrite_same run

/-- A worker that closes the connection it was given closes the object it has just stored. -/
theorem handBack_close {server : Server} (sound : server.Sound) {object : ℤ} {client next : HttpConn}
    (known : server.users object = some client) (same : SameClient client next) :
    server.handBack object .close next = .ok (server.closing object next) := by
  let stored := server.setUser object next
  have status : stored.connected object = server.connected object := by
    rw [connected_update (show stored.users = Function.update server.users object (some next) from rfl),
      Function.update_self, same.isClose, connected_of known]
  have closes : stored.closeConn object = .ok (stored.closing object next) := by
    have owns : next.sockFd = object := same.sockFd.trans (sound.sockFd _ _ known)
    refine closeConn_eq (Function.update_self ..) owns fun idle => ?_
    rw [status] at idle
    exact sound.unregistered idle
  have overwritten : stored.closing object next = server.closing object next := by
    simp only [closing, status]
    simp only [stored, setUser, Function.update_idem]
  rw [← overwritten]
  exact closes

theorem run_path {server target : Server} {index : ℕ} {io : TaskIo} (sound : server.Sound)
    (run : server.run config index io = .ok target) :
    ((effects config).restrict (Fits timely spares false)).Path server target := by
  rw [Server.run] at run
  cases queued : server.pending[index]? with
  | none =>
    rw [queued] at run
    cases run
    exact .refl _
  | some task =>
    simp only [queued] at run
    obtain ⟨client, looked, run⟩ := bind_ok run
    obtain ⟨⟨decision, next⟩, ran, run⟩ := bind_ok run
    have known := client_ok.mp looked
    have same := runTask_same ran
    have owns : next.sockFd = task.object := same.sockFd.trans (sound.sockFd _ _ known)
    cases decision with
    | armIn =>
      rw [← Except.ok.inj run, owns]
      exact effect_path (.rearm queued (by decide : Interest.input ≠ .disarmed) known same)
        ⟨rfl, fun _ => trivial, fun _ => trivial⟩
    | armOut =>
      rw [← Except.ok.inj run, owns]
      exact effect_path (.rearm queued (by decide : Interest.output ≠ .disarmed) known same)
        ⟨rfl, fun _ => trivial, fun _ => trivial⟩
    | close =>
      rw [handBack_close (sound.erase index) known same] at run
      rw [← Except.ok.inj run]
      exact effect_path (.finish queued known same) ⟨rfl, fun _ => trivial, fun _ => trivial⟩

/-! ## The machine -/

theorem step_path {server target : Server} {action : Action} (sound : server.Sound)
    (move : (machine config).Step server action target) (isTimely : timely → server.Timely action)
    (isSpared : spares → server.Spares action) :
    ((effects config).restrict (Fits timely spares action.listens)).Path server target := by
  obtain ⟨admits, run⟩ := move
  cases action with
  | listen arrivals => exact listen_path sound admits isTimely run
  | tick source =>
    obtain ⟨ticked, rounds, run⟩ := bind_ok run
    exact expire_path sound (rounds_ok sound.indexed rounds) (fun time => (isTimely time).1)
      (fun spare => isSpared spare ticked rounds) run
  | tickRound round =>
    obtain ⟨ticked, rounds, run⟩ := bind_ok run
    exact expire_path sound (rounds_ok sound.indexed rounds) (fun time _ => isTimely time)
      (fun spare => isSpared spare ticked rounds) run
  | event fd events now => exact event_path sound admits isTimely run
  | run index io => exact run_path sound run

end

variable {config : Config}

/-- Every reachable state of the server is reached by effects, timely or sparing ones where the steps
were. -/
theorem reachable_effects {timely spares : Prop} {guard : Server → Action → Prop}
    (isTimely : ∀ server action, guard server action → timely → server.Timely action)
    (isSpared : ∀ server action, guard server action → spares → server.Spares action)
    {server : Server} (reached : ((machine config).restrict guard).Reachable server) :
    ((effects config).restrict (Allowed timely spares)).Reachable server := by
  refine Reachable.of_paths ?_ ?_ reached
  · exact fun start init => init
  · intro source action target before move
    have path := step_path (sound_of_effects before.of_restrict) move.1
      (isTimely source action move.2) (isSpared source action move.2)
    exact path.weaken fun state effect fits => fits.2

/-- Every reachable state of the server is reached by effects. -/
theorem effects_of_reachable {server : Server} (reached : (machine config).Reachable server) :
    (effects config).Reachable server := by
  refine Reachable.of_paths ?_ ?_ reached
  · exact fun start init => init
  · intro source action target before move
    have path : ((effects config).restrict (Fits False False action.listens)).Path source target :=
      step_path (sound_of_effects before) move False.elim False.elim
    exact path.of_restrict

/-- One more step of a guarded run, by evaluation. -/
theorem next_reachable {config : Config} {guard : Server → Action → Prop} {server : Server}
    (reached : ((machine config).restrict guard).Reachable server) (action : Action)
    (admits : server.Admits config action) (allowed : guard server action)
    (completes : (server.step config action).isOk = true) :
    ((machine config).restrict guard).Reachable (server.next config action) := by
  have move : ((machine config).restrict guard).Step server action (server.next config action) :=
    ⟨step_next admits completes, allowed⟩
  exact .step reached move

end Server

end XWebServer
