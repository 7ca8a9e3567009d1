import Mathlib.Data.Set.Card
import XWebServer.Server.Steps

/-! # Connection accounting

`m_user_count` is the number of objects with `m_isClose == false`, every call of `close` finds an open
descriptor that its caller owns, and no accept is closed twice.
-/

namespace XWebServer

open Transition System HeapTimer HttpConn

/-- The call found its descriptor open. An `HttpConn` makes it on the descriptor whose latest accept
initialised that object, and `SendError` on one that initialised none, before any other accept. -/
def CloseCall.Proper (call : CloseCall) : Prop :=
  call.wasOpen = true ∧ ∃ serial, call.latest = some ⟨serial, call.caller⟩ ∧
    (call.caller = none → serial + 1 = call.accepts)

namespace Server

/-- The objects with `m_isClose == false`. -/
def connections (server : Server) : Set ℤ := {object | server.connected object = true}

theorem mem_connections {server : Server} {object : ℤ} :
    object ∈ server.connections ↔ server.connected object = true :=
  Iff.rfl

structure Accounted (server : Server) : Prop where
  finite : server.connections.Finite
  count : server.userCount = server.connections.ncard
  bounded : server.userCount ≤ maxFd
  proper : ∀ call ∈ server.kernel.closeCalls, call.Proper

theorem start_accounted (isOpen : ℤ → Bool) (clock : ℤ) : (start isOpen clock).Accounted := by
  have none : (start isOpen clock).connections = ∅ :=
    Set.eq_empty_of_forall_notMem fun object isConnected => by cases isConnected
  refine ⟨?_, ?_, ?_, fun call made => by cases made⟩
  · rw [none]
    exact Set.finite_empty
  · rw [none, Set.ncard_empty]
    rfl
  · show (0 : ℤ) ≤ maxFd
    decide

/-- The same connections, count and calls. -/
theorem Accounted.congr {server server' : Server} (accounted : server.Accounted)
    (connected : server'.connected = server.connected) (count : server'.userCount = server.userCount)
    (calls : server'.kernel.closeCalls = server.kernel.closeCalls) : server'.Accounted := by
  have same : server'.connections = server.connections := by
    unfold connections
    rw [connected]
  refine ⟨?_, ?_, ?_, ?_⟩
  · rw [same]
    exact accounted.finite
  · rw [same, count]
    exact accounted.count
  · rw [count]
    exact accounted.bounded
  · rw [calls]
    exact accounted.proper

theorem Accounted.joined {server : Server} (accounted : server.Accounted) {arrival : Arrival}
    {client : HttpConn} {timer : HeapTimer ℤ} (isOpen : client.isClose = false)
    (idle : server.connected arrival.fd = false) (room : server.userCount < maxFd) :
    (server.joined arrival client timer).Accounted := by
  have grown : (server.joined arrival client timer).connections =
      insert arrival.fd server.connections := by
    ext object
    rw [mem_connections, connected_joined arrival timer server isOpen, Function.update_apply,
      Set.mem_insert_iff, mem_connections]
    split_ifs with same
    · exact iff_of_true rfl (.inl same)
    · exact ⟨.inr, fun either => either.resolve_left same⟩
  have absent : arrival.fd ∉ server.connections := fun isConnected => by
    rw [mem_connections, idle] at isConnected
    cases isConnected
  refine ⟨?_, ?_, ?_, accounted.proper⟩
  · rw [grown]
    exact accounted.finite.insert _
  · rw [grown, Set.ncard_insert_of_notMem absent accounted.finite, Nat.cast_add, Nat.cast_one,
      ← accounted.count]
    rfl
  · exact Int.add_one_le_of_lt room

theorem Accounted.closing {server : Server} (accounted : server.Accounted) (sound : server.Sound)
    (object : ℤ) (client : HttpConn) : (server.closing object client).Accounted := by
  have connected := connected_closing object client server
  cases status : server.connected object with
  | false =>
    apply accounted.congr
    · rw [connected, ← status, Function.update_eq_self]
    · simp only [Server.closing, status, Bool.false_eq_true, if_false]
    · simp only [Server.closing, status, Bool.false_eq_true, if_false]
  | true =>
    have shrunk : (server.closing object client).connections =
        server.connections \ {object} := by
      ext other
      rw [mem_connections, connected, Function.update_apply, Set.mem_sdiff, Set.mem_singleton_iff,
        mem_connections]
      split_ifs with same
      · exact iff_of_false id fun both => both.2 same
      · exact ⟨fun still => ⟨still, same⟩, And.left⟩
    have present : object ∈ server.connections := status
    have less := Set.ncard_sdiff_singleton_add_one present accounted.finite
    have bounded := accounted.bounded
    have count := accounted.count
    refine ⟨?_, ?_, ?_, ?_⟩
    · rw [shrunk]
      exact accounted.finite.sdiff
    · rw [shrunk]
      simp only [Server.closing, status, if_true]
      omega
    · simp only [Server.closing, status, if_true]
      omega
    · simp only [Server.closing, status, if_true, Kernel.close]
      intro call made
      rcases List.mem_append.mp made with before | new
      · exact accounted.proper call before
      · rw [List.mem_singleton.mp new]
        obtain ⟨serial, latest⟩ := sound.owner object status
        exact ⟨sound.isOpen object status, serial, latest, fun anonymous => by cases anonymous⟩

theorem Effects.accounted {config : Config} {source target : Server} {effect : Effect}
    (move : Effects config source effect target) (sound : source.Sound)
    (accounted : source.Accounted) : target.Accounted := by
  cases move with
  | leak free => exact accounted.congr rfl rfl rfl
  | @refuse fd free =>
    refine ⟨accounted.finite, accounted.count, accounted.bounded, fun call made => ?_⟩
    rcases List.mem_append.mp made with before | new
    · exact accounted.proper call before
    · rw [List.mem_singleton.mp new]
      exact ⟨Function.update_self .., source.kernel.accepts, Function.update_self .., fun _ => rfl⟩
  | join free room owns isOpen added => exact accounted.joined isOpen (sound.idle free).1 room
  | hangUp registered armed known => exact accounted.closing sound _ _
  | callback known => exact accounted.closing sound _ _
  | deal registered armed known extended => exact accounted.congr (connected_congr rfl) rfl rfl
  | retime indexed ordered fewer left => exact accounted.congr (connected_congr rfl) rfl rfl
  | @rearm index task interest client next queued armed known same =>
    exact accounted.congr (connected_rearmed index interest known same) rfl
      (Kernel.modFd_closeCalls ..)
  | @finish index task client next queued known same =>
    have erased : Accounted { source with pending := source.pending.eraseIdx index } :=
      accounted.congr (connected_congr rfl) rfl rfl
    exact erased.closing (sound.erase index) _ _

theorem accounted_of_effects {config : Config} {server : Server}
    (reached : (effects config).Reachable server) : server.Accounted := by
  have unguarded : ((effects config).restrict fun _ _ => True).Reachable server :=
    reached.to_restrict fun _ _ _ _ => trivial
  refine effects_invariant start_accounted ?_ unguarded
  intro source effect target sound accounted _ move
  exact move.accounted sound accounted

/-! ## The calls of one step -/

/-- The calls of `close` that a step adds: an object makes one if the step closes it, else none. -/
def Tallied (source target : Server) : Prop :=
  ∃ calls, target.kernel.closeCalls = source.kernel.closeCalls ++ calls ∧
    ∀ object, calls.countP (·.caller = some object) =
      if source.connected object = true ∧ target.connected object = false then 1 else 0

/-- The effects of `DealListen` close no object. -/
def Opens (source target : Server) : Prop :=
  (∃ calls, target.kernel.closeCalls = source.kernel.closeCalls ++ calls ∧
    ∀ call ∈ calls, call.caller = none) ∧
  ∀ object, source.connected object = true → target.connected object = true

/-- All other effects open none. -/
def Shuts (source target : Server) : Prop :=
  Tallied source target ∧
  ∀ object, target.connected object = true → source.connected object = true

theorem Opens.refl (server : Server) : Opens server server :=
  ⟨⟨[], by simp⟩, fun _ => id⟩

theorem Opens.trans {first middle last : Server} (before : Opens first middle)
    (after : Opens middle last) : Opens first last := by
  obtain ⟨⟨calls, added, anonymous⟩, opened⟩ := before
  obtain ⟨⟨calls', added', anonymous'⟩, opened'⟩ := after
  refine ⟨⟨calls ++ calls', by rw [added', added, List.append_assoc], fun call made => ?_⟩,
    fun object isConnected => opened' object (opened object isConnected)⟩
  rcases List.mem_append.mp made with early | late
  · exact anonymous call early
  · exact anonymous' call late

theorem Opens.tallied {source target : Server} (opens : Opens source target) :
    Tallied source target := by
  obtain ⟨⟨calls, added, anonymous⟩, opened⟩ := opens
  refine ⟨calls, added, fun object => ?_⟩
  have never : ¬ (source.connected object = true ∧ target.connected object = false) := by
    rintro ⟨before, after⟩
    rw [opened object before] at after
    cases after
  rw [if_neg never, List.countP_eq_zero]
  intro call made isCaller
  rw [anonymous call made] at isCaller
  simp at isCaller

theorem Shuts.refl (server : Server) : Shuts server server := by
  refine ⟨⟨[], by simp, fun object => ?_⟩, fun _ => id⟩
  rw [if_neg, List.countP_nil]
  rintro ⟨before, after⟩
  rw [before] at after
  cases after

theorem Shuts.trans {first middle last : Server} (before : Shuts first middle)
    (after : Shuts middle last) : Shuts first last := by
  obtain ⟨⟨calls, added, count⟩, shut⟩ := before
  obtain ⟨⟨calls', added', count'⟩, shut'⟩ := after
  refine ⟨⟨calls ++ calls', by rw [added', added, List.append_assoc], fun object => ?_⟩,
    fun object isConnected => shut object (shut' object isConnected)⟩
  have once : ∀ a b c : Bool, (b = true → a = true) → (c = true → b = true) →
      (if a = true ∧ b = false then 1 else 0) + (if b = true ∧ c = false then 1 else 0) =
        if a = true ∧ c = false then 1 else 0 := by decide
  rw [List.countP_append, count, count']
  exact once _ _ _ (shut object) (shut' object)

theorem Opens.of_kernel {source target : Server} {calls : List CloseCall}
    (opened : ∀ object, source.connected object = true → target.connected object = true)
    (added : target.kernel.closeCalls = source.kernel.closeCalls ++ calls)
    (anonymous : ∀ call ∈ calls, call.caller = none) : Opens source target :=
  ⟨⟨calls, added, anonymous⟩, opened⟩

/-- Nothing closed and no call made. -/
theorem Shuts.congr {source target : Server} (connected : target.connected = source.connected)
    (calls : target.kernel.closeCalls = source.kernel.closeCalls) : Shuts source target := by
  have same := Shuts.refl source
  refine ⟨?_, fun object => ?_⟩
  · obtain ⟨added, isAdded, count⟩ := same.1
    exact ⟨added, by rw [calls, ← isAdded], by rwa [connected]⟩
  · rw [connected]
    exact id

theorem shuts_closing (server : Server) (object : ℤ) (client : HttpConn) :
    Shuts server (server.closing object client) := by
  have connected := connected_closing object client server
  cases status : server.connected object with
  | false =>
    refine .congr ?_ ?_
    · rw [connected, ← status, Function.update_eq_self]
    · simp only [closing, status, Bool.false_eq_true, if_false]
  | true =>
    refine ⟨⟨[⟨object, some object, server.kernel.isOpen object, server.kernel.latest object,
      server.kernel.accepts⟩], ?_, fun other => ?_⟩, fun other => ?_⟩
    · simp only [closing, status, if_true, Kernel.close]
    · rw [connected, List.countP_singleton, Function.update_apply]
      rcases eq_or_ne other object with rfl | apart
      · simp [status]
      · simp only [Option.some.injEq, Ne.symm apart, decide_false, if_neg apart]
        cases server.connected other <;> rfl
    · rw [connected, Function.update_apply]
      split_ifs
      · exact fun still => by cases still
      · exact id

theorem Effects.opens {config : Config} {source target : Server} {effect : Effect}
    (move : Effects config source effect target) (listens : effect.listens = true) :
    Opens source target := by
  cases move with
  | leak free => exact .of_kernel (fun _ => id) (List.append_nil _).symm (by simp)
  | refuse free => exact .of_kernel (fun _ => id) rfl (by simp)
  | @join arrival client timer free room owns isOpen added =>
    refine .of_kernel (fun object isConnected => ?_) (List.append_nil _).symm (by simp)
    rw [connected_joined arrival timer source isOpen, Function.update_apply, isConnected]
    split_ifs <;> rfl
  | hangUp | callback | deal | retime | rearm | finish => cases listens

theorem Effects.shuts {config : Config} {source target : Server} {effect : Effect}
    (move : Effects config source effect target) (listens : effect.listens = false) :
    Shuts source target := by
  cases move with
  | leak | refuse | join => cases listens
  | hangUp registered armed known => exact shuts_closing _ _ _
  | callback known => exact shuts_closing _ _ _
  | deal registered armed known extended => exact .congr (connected_congr rfl) rfl
  | retime indexed ordered fewer left => exact .congr (connected_congr rfl) rfl
  | @rearm index task interest client next queued armed known same =>
    exact .congr (connected_rearmed index interest known same) (Kernel.modFd_closeCalls ..)
  | @finish index task client next queued known same =>
    have erased : Shuts source { source with pending := source.pending.eraseIdx index } :=
      .congr (connected_congr rfl) rfl
    exact erased.trans (shuts_closing _ _ _)

theorem tallied_of_step {config : Config} {source target : Server} {action : Action}
    (sound : source.Sound) (move : (machine config).Step source action target) :
    Tallied source target := by
  have path : ((effects config).restrict (Fits False False action.listens)).Path source target :=
    step_path sound move False.elim False.elim
  cases listens : action.listens with
  | true =>
    rw [listens] at path
    refine (path.relates (P := Sound) Opens.refl (fun _ _ _ => Opens.trans) ?_ sound).2.tallied
    rintro first effect last known ⟨change, fits⟩
    have change : Effects config first effect last := change
    exact ⟨change.sound known, change.opens fits.1⟩
  | false =>
    rw [listens] at path
    refine (path.relates (P := Sound) Shuts.refl (fun _ _ _ => Shuts.trans) ?_ sound).2.1
    rintro first effect last known ⟨change, fits⟩
    have change : Effects config first effect last := change
    exact ⟨change.sound known, change.shuts fits.1⟩

/-- The counter is right and bounded, no accept has been closed twice, every call of `close` was proper,
and every step closes the descriptors of exactly the objects that it sets to `m_isClose == true`. -/
structure Account (config : Config) (server : Server) : Prop where
  finite : server.connections.Finite
  count : server.userCount = server.connections.ncard
  bounded : server.userCount ≤ maxFd
  once : (server.kernel.closeCalls.map (·.latest.map (·.serial))).Nodup
  proper : ∀ call ∈ server.kernel.closeCalls, call.Proper
  tallied : ∀ action target, (machine config).Step server action target → Tallied server target

/-- In every reachable state the connections are accounted for. -/
theorem account_of_reachable (config : Config) (server : Server)
    (reached : (machine config).Reachable server) : Account config server := by
  have path := effects_of_reachable reached
  have sound := sound_of_effects path
  have accounted := accounted_of_effects path
  exact ⟨accounted.finite, accounted.count, accounted.bounded, sound.kernel.once, accounted.proper,
    fun _ _ move => tallied_of_step sound move⟩

private def greeted : Server :=
  (start (fun _ => false) 0).next ⟨3, 0⟩ (.listen [⟨5, 0, .ok true, 0, ⟨0, 0⟩, ⟨0, 0⟩⟩])

private def hungUp : Server := greeted.next ⟨3, 0⟩ (.event 5 ⟨true, true, false⟩ 0)

/-- A client comes and hangs up. -/
theorem account_after_hangUp :
    hungUp.kernel.closeCalls = [⟨5, some 5, true, some ⟨0, some 5⟩, 1⟩] ∧ Account ⟨3, 0⟩ hungUp := by
  have joined : (machine ⟨3, 0⟩).Reachable greeted :=
    .step (.init ⟨_, _, rfl⟩) (step_next ⟨by decide +kernel, by decide +kernel⟩ (by decide +kernel))
  have left : (machine ⟨3, 0⟩).Reachable hungUp :=
    .step joined (step_next ⟨.input, by decide +kernel, by decide⟩ (by decide +kernel))
  exact ⟨by decide +kernel, account_of_reachable ⟨3, 0⟩ hungUp left⟩

end Server

end XWebServer
