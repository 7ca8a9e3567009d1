import XWebServer.Lib.CString
import XWebServer.Server.HttpServer

/-! # The constructor of `HttpServer`

`InitEventMode` with the masks of epoll, `InitSocket` with what the system answers to its calls, and the
array of 256 bytes in which the constructor puts the name of the served directory together. `InitSocket`
closes the listening descriptor where it fails, and the destructor closes it again.
-/

namespace XWebServer

/-! ## The masks of epoll -/

/-- `uint32_t events`. -/
abbrev Mask := BitVec 32

def epollIn : Mask := 0x001
def epollOut : Mask := 0x004
def epollErr : Mask := 0x008
def epollHup : Mask := 0x010
def epollRdHup : Mask := 0x2000
def epollOneShot : Mask := 0x40000000
def epollET : Mask := 0x80000000

structure EventMode where
  listenEvent : Mask
  connEvent : Mask
deriving DecidableEq, Repr

def initEventMode (trigMode : ℤ) : EventMode :=
  let listenEvent := epollRdHup
  let connEvent := epollOneShot ||| epollRdHup
  match trigMode with
  | 0 => ⟨listenEvent, connEvent⟩
  | 1 => ⟨listenEvent, connEvent ||| epollET⟩
  | 2 => ⟨listenEvent ||| epollET, connEvent⟩
  | _ => ⟨listenEvent ||| epollET, connEvent ||| epollET⟩

/-- Both masks by their triggers. -/
theorem initEventMode_eq (config : Config) : initEventMode config.trigMode =
    ⟨if config.listenET then epollRdHup ||| epollET else epollRdHup,
      if config.connET then epollOneShot ||| epollRdHup ||| epollET else epollOneShot ||| epollRdHup⟩ := by
  obtain ⟨trigMode, timeoutMS⟩ := config
  by_cases zero : trigMode = 0
  · subst zero
    rfl
  by_cases one : trigMode = 1
  · subst one
    rfl
  by_cases two : trigMode = 2
  · subst two
    rfl
  have edge : initEventMode trigMode =
      ⟨epollRdHup ||| epollET, epollOneShot ||| epollRdHup ||| epollET⟩ := by
    rw [initEventMode]
    · exact zero
    · exact one
    · exact two
  rw [edge]
  simp [Config.listenET, Config.connET, zero, one, two]

/-- The condition of the loop in `DealListen`. -/
theorem listenET_eq (config : Config) :
    ((initEventMode config.trigMode).listenEvent &&& epollET != 0) = config.listenET := by
  rw [initEventMode_eq]
  dsimp only
  cases config.listenET <;> decide

/-- `HttpConn::isET`. -/
theorem connET_eq (config : Config) :
    ((initEventMode config.trigMode).connEvent &&& epollET != 0) = config.connET := by
  rw [initEventMode_eq]
  dsimp only
  cases config.connET <;> decide

/-- The events of a mask, as the branches of `Start` test them. -/
def Events.ofMask (events : Mask) : Events where
  hangUp := events &&& (epollRdHup ||| epollHup ||| epollErr) ≠ 0
  input := events &&& epollIn ≠ 0
  output := events &&& epollOut ≠ 0

/-- The flags of a registration that are no events. -/
def epollFlags : Mask := epollOneShot ||| epollET

/-- The mask of a client's registration. The kernel always adds errors and hang-ups, and a one-shot
registration that has been reported keeps only its flags. -/
def Interest.mask (connEvent : Mask) : Interest → Mask
  | .disarmed => connEvent &&& epollFlags
  | .input => epollIn ||| connEvent ||| (epollErr ||| epollHup)
  | .output => connEvent ||| epollOut ||| (epollErr ||| epollHup)

/-- What `epoll_wait` may report of a registration: at least one event, and only those of its mask. -/
structure Delivers (registered events : Mask) : Prop where
  nonzero : events ≠ 0
  within : events &&& registered = events
  noFlags : events &&& epollFlags = 0

instance (registered events : Mask) : Decidable (Delivers registered events) :=
  decidable_of_iff (events ≠ 0 ∧ events &&& registered = events ∧ events &&& epollFlags = 0)
    ⟨fun ⟨nonzero, within, noFlags⟩ => ⟨nonzero, within, noFlags⟩,
      fun ⟨nonzero, within, noFlags⟩ => ⟨nonzero, within, noFlags⟩⟩

section

variable {registered events : Mask}

theorem Delivers.excludes (delivers : Delivers registered events) {other : Mask}
    (apart : registered &&& other = 0) : events &&& other = 0 := by
  rw [← delivers.within, BitVec.and_assoc, apart]
  exact BitVec.and_zero

/-- A registration that consists of two masks and flags reports an event of one of the two. -/
theorem Delivers.either (delivers : Delivers registered events) {first second : Mask} (flags : Mask)
    (parts : registered = first ||| second ||| (epollFlags &&& flags)) :
    events &&& first ≠ 0 ∨ events &&& second ≠ 0 := by
  by_contra neither
  obtain ⟨noFirst, noSecond⟩ := not_or.mp neither
  apply delivers.nonzero
  rw [← delivers.within, parts, BitVec.and_or_distrib_left, BitVec.and_or_distrib_left,
    not_not.mp noFirst, not_not.mp noSecond, ← BitVec.and_assoc, delivers.noFlags]
  simp

/-- The reports of a client's descriptor are the ones its registration allows. -/
theorem Interest.reports_of_delivers (config : Config) {interest : Interest}
    (delivers : Delivers (interest.mask (initEventMode config.trigMode).connEvent) events) :
    interest.Reports (Events.ofMask events) := by
  rw [initEventMode_eq] at delivers
  dsimp only at delivers
  cases interest with
  | disarmed =>
    have none : events = 0 := by
      have within := delivers.within
      rw [mask, BitVec.and_comm _ epollFlags, ← BitVec.and_assoc, delivers.noFlags] at within
      rw [← within]
      exact BitVec.zero_and
    exact absurd none delivers.nonzero
  | input =>
    have noOutput : events &&& epollOut = 0 := by
      cases triggers : config.connET <;> rw [triggers] at delivers <;> exact delivers.excludes (by decide)
    have either : events &&& (epollRdHup ||| epollHup ||| epollErr) ≠ 0 ∨ events &&& epollIn ≠ 0 := by
      cases triggers : config.connET <;> rw [triggers] at delivers
      · exact delivers.either epollOneShot (by decide)
      · exact delivers.either epollFlags (by decide)
    exact ⟨by simpa [Events.ofMask] using either, by simp [Events.ofMask, noOutput]⟩
  | output =>
    have noInput : events &&& epollIn = 0 := by
      cases triggers : config.connET <;> rw [triggers] at delivers <;> exact delivers.excludes (by decide)
    have either : events &&& (epollRdHup ||| epollHup ||| epollErr) ≠ 0 ∨ events &&& epollOut ≠ 0 := by
      cases triggers : config.connET <;> rw [triggers] at delivers
      · exact delivers.either epollOneShot (by decide)
      · exact delivers.either epollFlags (by decide)
    exact ⟨by simpa [Events.ofMask] using either, by simp [Events.ofMask, noInput]⟩

end

/-! ## The constructor and the destructor -/

/-- The open descriptors of the process, and every call of `close` with what it found. -/
structure Descriptors where
  isOpen : ℤ → Bool
  closes : List (ℤ × Bool)

namespace Descriptors

def opened (fd : ℤ) (table : Descriptors) : Descriptors :=
  { table with isOpen := Function.update table.isOpen fd true }

def close (fd : ℤ) (table : Descriptors) : Descriptors where
  isOpen := Function.update table.isOpen fd false
  closes := table.closes ++ [(fd, table.isOpen fd)]

end Descriptors

/-- The arguments of the constructor, and what it finds: the name of the working directory, the memory
that `getcwd` allocates, the number in `listenFd` before it is assigned, and the results of the system's
calls in their order. -/
structure Setup extends Config where
  port : ℤ
  threadNum : ℕ
  cwd : Bytes
  cwd_name : 0 ∉ cwd
  memory : Bytes
  memory_size : memory.length = 256
  garbage : ℤ
  epollFd : ℤ
  socket : ℤ
  setLinger : ℤ
  setReuse : ℤ
  bound : ℤ
  listened : ℤ
  added : ℤ

/-- The object, after the constructor. -/
structure HttpServer where
  config : Config
  mode : EventMode
  isClose : Bool
  listenFd : ℤ
  epollFd : ℤ
  srcDir : Bytes
  table : Descriptors

/-- Whether `InitSocket` succeeds, `listenFd`, and the descriptors. -/
def Setup.initSocket (setup : Setup) (table : Descriptors) : Except Fault (Bool × ℤ × Descriptors) :=
  if 65535 < setup.port ∨ setup.port < 1024 then .ok (false, setup.garbage, table)
  else if setup.socket < 0 then .ok (false, setup.socket, table)
  else
    let table := table.opened setup.socket
    let failed := .ok (false, setup.socket, table.close setup.socket)
    if setup.setLinger < 0 then failed
    else if setup.setReuse = -1 then failed
    else if setup.bound < 0 then failed
    else if setup.listened < 0 then failed
    else if setup.added ≠ 0 then failed
    else do
      -- `SetFdNonblock`
      assert (0 < setup.socket)
      .ok (true, setup.socket, table)

/-- `getcwd(nullptr, 256)` and `strncat`: the array that holds the name of the served directory. -/
def Setup.srcDir (setup : Setup) : Except Fault Bytes :=
  match CString.strcpy setup.memory setup.cwd with
  | none => .error .assertion
  | some array =>
      match CString.strcat array (ascii "/resources/") with
      | none => .error .outOfRange
      | some array => .ok array

def Setup.construct (setup : Setup) (isOpen : ℤ → Bool) : Except Fault HttpServer := do
  assert (0 < setup.threadNum)
  assert (0 ≤ setup.epollFd)
  let srcDir ← setup.srcDir
  let (up, listenFd, table) ← setup.initSocket (Descriptors.opened setup.epollFd ⟨isOpen, []⟩)
  .ok ⟨setup.toConfig, initEventMode setup.trigMode, !up, listenFd, setup.epollFd, srcDir, table⟩

/-- The descriptors after the destructor: it closes `listenFd`, and then that of the `Epoller`. -/
def HttpServer.destroy (http : HttpServer) : Descriptors :=
  (http.table.close http.listenFd).close http.epollFd

/-- The array suffices exactly for the directories whose name has at most 244 bytes; a name of up to 255
bytes fits by itself and is then appended to beyond the end. -/
theorem Setup.srcDir_eq (setup : Setup) :
    (setup.cwd.length ≤ 244 → ∃ array, setup.srcDir = .ok array ∧
      CString.value array = some (setup.cwd ++ ascii "/resources/")) ∧
    (244 < setup.cwd.length → setup.cwd.length < 256 → setup.srcDir = .error .outOfRange) ∧
    (256 ≤ setup.cwd.length → setup.srcDir = .error .assertion) := by
  have copies (fits : setup.cwd.length < 256) : ∃ named, CString.strcpy setup.memory setup.cwd = some named ∧
      CString.value named = some setup.cwd ∧ named.length = 256 := by
    rw [← setup.memory_size] at fits
    obtain ⟨named, copied, holds⟩ := CString.strcpy_of setup.cwd_name fits
    exact ⟨named, copied, holds, (CString.length_of_strcpy copied).trans setup.memory_size⟩
  refine ⟨fun short => ?_, fun long fits => ?_, fun long => ?_⟩
  · obtain ⟨named, copied, holds, length⟩ := copies (by omega)
    obtain ⟨array, appended, value⟩ := CString.strcat_of holds (by decide : 0 ∉ ascii "/resources/")
      (show setup.cwd.length + 11 < named.length by omega)
    refine ⟨array, ?_, value⟩
    simp only [srcDir, copied, appended]
  · obtain ⟨named, copied, holds, length⟩ := copies fits
    have beyond : CString.strcat named (ascii "/resources/") = none := by
      rw [CString.strcat, holds, Option.bind_some, CString.write, if_neg]
      show ¬ setup.cwd.length + 12 ≤ named.length
      omega
    simp only [srcDir, copied, beyond]
  · have missing : CString.strcpy setup.memory setup.cwd = none := by
      rw [CString.strcpy, CString.write, if_neg]
      rw [List.length_append, List.length_singleton, setup.memory_size]
      omega
    simp only [srcDir, missing]

/-- What `socket` and `epoll_create` return is not open before. -/
structure Setup.Fresh (setup : Setup) (isOpen : ℤ → Bool) : Prop where
  epollFd : isOpen setup.epollFd = false
  socket : isOpen setup.socket = false
  apart : 0 ≤ setup.socket → setup.socket ≠ setup.epollFd

/-- A server that came up listens, and nothing has been closed. -/
structure HttpServer.Up (http : HttpServer) (setup : Setup) : Prop where
  config : http.config = setup.toConfig
  mode : http.mode = initEventMode setup.trigMode
  positive : 0 < http.listenFd
  listens : http.table.isOpen http.listenFd = true
  polls : http.table.isOpen http.epollFd = true
  closes : http.table.closes = []
  named : CString.value http.srcDir = some (setup.cwd ++ ascii "/resources/")

/-- `InitSocket` has failed behind `socket`, and has closed the descriptor. -/
def HttpServer.GaveUp (http : HttpServer) (isOpen : ℤ → Bool) : Prop :=
  http.destroy.isOpen = isOpen ∧ http.destroy.closes =
    (if http.listenFd < 0 then [] else [(http.listenFd, true)]) ++
      [(http.listenFd, false), (http.epollFd, true)]

theorem Setup.value_srcDir (setup : Setup) {array : Bytes} (run : setup.srcDir = .ok array) :
    CString.value array = some (setup.cwd ++ ascii "/resources/") := by
  obtain ⟨short, long, longer⟩ := setup.srcDir_eq
  by_cases fits : setup.cwd.length ≤ 244
  · obtain ⟨other, ends, value⟩ := short fits
    obtain rfl := Except.ok.inj (ends.symm.trans run)
    exact value
  · by_cases alone : setup.cwd.length < 256
    · cases (long (by omega) alone).symm.trans run
    · cases (longer (by omega)).symm.trans run

theorem Setup.initSocket_cases {setup : Setup} {table after : Descriptors} {up : Bool} {listenFd : ℤ}
    (run : setup.initSocket table = .ok (up, listenFd, after)) :
    (up = false ∧ (65535 < setup.port ∨ setup.port < 1024) ∧ listenFd = setup.garbage ∧ after = table) ∨
    (listenFd = setup.socket ∧
      ((up = false ∧ listenFd < 0 ∧ after = table) ∨
        (up = false ∧ 0 ≤ listenFd ∧ after = (table.opened listenFd).close listenFd) ∨
        (up = true ∧ 0 < listenFd ∧ after = table.opened listenFd))) := by
  have failed (created : ¬ setup.socket < 0)
      (run : Except.ok (false, setup.socket, (table.opened setup.socket).close setup.socket) =
        (.ok (up, listenFd, after) : Except Fault _)) :
      listenFd = setup.socket ∧ up = false ∧ 0 ≤ listenFd ∧
        after = (table.opened listenFd).close listenFd := by
    cases run
    exact ⟨rfl, rfl, not_lt.mp created, rfl⟩
  rw [initSocket] at run
  dsimp only at run
  split_ifs at run with badPort missing
  · cases run
    exact .inl ⟨rfl, badPort, rfl, rfl⟩
  · cases run
    exact .inr ⟨rfl, .inl ⟨rfl, missing, rfl⟩⟩
  all_goals try exact .inr ((failed missing run).imp_right fun closed => .inr (.inl closed))
  obtain ⟨_, positive, run⟩ := bind_ok run
  rw [assert] at positive
  split_ifs at positive with above
  cases run
  exact .inr ⟨rfl, .inr (.inr ⟨rfl, above, rfl⟩)⟩

/-- When the constructor comes to its end, the server is up, or `InitSocket` has failed: on a bad port the
destructor closes whatever number `listenFd` holds, and otherwise a descriptor that is closed already. -/
theorem Setup.construct_cases {setup : Setup} {isOpen : ℤ → Bool} {http : HttpServer}
    (fresh : setup.Fresh isOpen) (run : setup.construct isOpen = .ok http) :
    (http.isClose = false ∧ http.Up setup) ∨
    (http.isClose = true ∧ (65535 < setup.port ∨ setup.port < 1024) ∧ http.listenFd = setup.garbage ∧
      http.destroy.closes.head? =
        some (setup.garbage, Function.update isOpen setup.epollFd true setup.garbage)) ∨
    (http.isClose = true ∧ http.GaveUp isOpen) := by
  obtain ⟨_, threads, run⟩ := bind_ok run
  obtain ⟨_, polls, run⟩ := bind_ok run
  rw [assert] at polls
  split_ifs at polls with created
  obtain ⟨array, named, run⟩ := bind_ok run
  obtain ⟨⟨up, listenFd, table⟩, inits, run⟩ := bind_ok run
  obtain rfl := Except.ok.inj run
  rcases initSocket_cases inits with ⟨rfl, badPort, rfl, rfl⟩ | ⟨rfl, outcome⟩
  · exact .inr (.inl ⟨rfl, badPort, rfl, rfl⟩)
  have epollClosed : isOpen setup.epollFd = false := fresh.epollFd
  have socketClosed : isOpen setup.socket = false := fresh.socket
  rcases outcome with ⟨rfl, missing, rfl⟩ | ⟨rfl, created, rfl⟩ | ⟨rfl, positive, rfl⟩
  · have apart : setup.socket ≠ setup.epollFd := by omega
    refine .inr (.inr ⟨rfl, ?_, ?_⟩)
    · funext fd
      simp only [HttpServer.destroy, Descriptors.close, Descriptors.opened, Function.update_apply]
      split_ifs with first second
      · rw [first, epollClosed]
      · rw [second, socketClosed]
      · rfl
    · rw [if_pos missing]
      simp [HttpServer.destroy, Descriptors.close, Descriptors.opened, Function.update_of_ne apart,
        Function.update_of_ne apart.symm, socketClosed]
  · have apart := fresh.apart created
    refine .inr (.inr ⟨rfl, ?_, ?_⟩)
    · funext fd
      simp only [HttpServer.destroy, Descriptors.close, Descriptors.opened, Function.update_apply]
      split_ifs with first second
      · rw [first, epollClosed]
      · rw [second, socketClosed]
      · rfl
    · rw [if_neg (not_lt.mpr created)]
      simp [HttpServer.destroy, Descriptors.close, Descriptors.opened, Function.update_of_ne apart.symm]
  · refine .inl ⟨rfl, rfl, rfl, positive, Function.update_self .., ?_, rfl, setup.value_srcDir named⟩
    exact (Function.update_of_ne (fresh.apart positive.le).symm _ _).trans (Function.update_self ..)

end XWebServer
