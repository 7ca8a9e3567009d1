import Mathlib.Algebra.BigOperators.Group.List.Basic
import Mathlib.Data.List.Nodup
import Mathlib.Data.List.Perm.Subperm
import XWebServer.Lib.Transition
import XWebServer.Webbench.Bench

/-! # The processes of `webbench`

`bench` forks the clients, each of which runs `benchcore` and writes one line into a pipe, and adds the
lines up as they come. Whatever the order in which the clients come to their end, the report is the sum
over all of them, as an `int` holds it; and because the parent never closes its own end for writing, it
waits for ever for the line of a client that does not write one.
-/

namespace XWebServer

open Transition System

namespace Webbench

/-- What the clients do: the request is the same for all, and each has attempts of its own. -/
structure Workload where
  http10 : Fin 3
  force : Bool
  rlen : ℕ
  attempts : ℕ → List Attempt

/-- What a client's `benchcore` comes to. -/
def Workload.result (load : Workload) (client : ℕ) : Option Tally :=
  benchcore load.http10 load.force load.rlen (load.attempts client) ⟨0, 0, 0⟩

/-- The line that a client writes. -/
def Tally.line (tally : Tally) : Bytes :=
  Decimal.numeral tally.speed ++ ascii " " ++ Decimal.numeral tally.failed ++ ascii " " ++
    Decimal.numeral tally.bytes ++ ascii "\n"

/-- Where the process is that calls `bench`. With no client to fork it takes itself for one. -/
inductive Parent where
  | forking
  | working
  | reading
  | reported (complete : Bool)
  | failed
deriving DecidableEq, Repr

/-- The processes: the variables of the parent, how many clients it has forked, which have ended, and what
is in the pipe. -/
structure Bench where
  parent : Parent
  clients : ℤ
  i : ℤ
  j : ℤ
  k : ℤ
  total : Tally
  forked : ℕ
  ended : List ℕ
  pipe : Bytes

inductive Action where
  | fork (succeeds : Bool)
  | openPipe (succeeds : Bool)
  | finish (client : ℕ) (opens : Bool)
  | scan
deriving DecidableEq, Repr

namespace Bench

/-- `bench` behind `pipe`. -/
def start (clients : ℤ) : Bench where
  parent := if 0 < clients then .forking else .working
  clients := clients
  i := 0
  j := 0
  k := 0
  total := ⟨0, 0, 0⟩
  forked := if 0 < clients then 0 else 1
  ended := []
  pipe := []

def Admits (bench : Bench) : Action → Prop
  | .fork _ => bench.parent = .forking ∧ bench.i < bench.clients
  | .openPipe _ => bench.parent = .forking ∧ bench.clients ≤ bench.i
  | .finish client _ => client < bench.forked ∧ client ∉ bench.ended
  | .scan => bench.parent = .reading

/-- A pass of the loop that reads, with the numbers that `fscanf` has assigned. -/
def add (values : List ℤ) (rest : Bytes) (bench : Bench) : Bench :=
  let read := { bench with
    i := values[0]?.getD bench.i
    j := values[1]?.getD bench.j
    k := values[2]?.getD bench.k
    pipe := rest }
  if values.length < 2 then { read with parent := .reported false }
  else
    let total : Tally := ⟨intAdd read.total.speed read.i, intAdd read.total.failed read.j,
      intAdd read.total.bytes read.k⟩
    let read := { read with total, clients := read.clients - 1 }
    if read.clients = 0 then { read with parent := .reported true } else read

/-- Missing where the process waits: the parent for a line, or a client for the system. -/
def step (load : Workload) (action : Action) (bench : Bench) : Option Bench :=
  match action with
  | .fork true => some { bench with i := bench.i + 1, forked := bench.forked + 1 }
  | .openPipe true => some { bench with parent := .reading, total := ⟨0, 0, 0⟩ }
  | .fork false | .openPipe false => some { bench with parent := .failed }
  | .finish client opens => do
      let tally ← load.result client
      some { bench with
        ended := bench.ended ++ [client]
        pipe := if opens then bench.pipe ++ tally.line else bench.pipe }
  | .scan => do
      let (values, rest) ← CString.scanInts 3 bench.pipe
      some (bench.add values rest)

end Bench

def bench (load : Workload) (clients : ℤ) : System Bench Action where
  Init bench := bench = .start clients
  Step source action target := source.Admits action ∧ source.step load action = some target

instance (bench : Bench) (action : Action) : Decidable (bench.Admits action) := by
  cases action <;> unfold Bench.Admits <;> infer_instance

/-- The processes after a step, or as they were when it waits. -/
def Bench.next (load : Workload) (bench : Bench) (action : Action) : Bench :=
  (bench.step load action).getD bench

/-- The step is possible, and comes to its end. -/
def Bench.Passes (load : Workload) (bench : Bench) (action : Action) : Prop :=
  bench.Admits action ∧ (bench.step load action).isSome = true

instance (load : Workload) (bench : Bench) (action : Action) : Decidable (bench.Passes load action) :=
  inferInstanceAs (Decidable (_ ∧ _))

theorem Bench.Passes.step {load : Workload} {bench : Bench} {action : Action}
    (passes : bench.Passes load action) : bench.step load action = some (bench.next load action) := by
  obtain ⟨target, run⟩ := Option.isSome_iff_exists.mp passes.2
  rw [Bench.next, run, Option.getD_some]

/-! ## The lines -/

/-- A line is read back, up to the end of the line. -/
theorem scan_line (tally : Tally) {blanks : Bytes} (blank : ∀ char ∈ blanks, CString.isspace char = true)
    (rest : Bytes) : CString.scanInts 3 (blanks ++ (tally.line ++ rest)) =
      some ([tally.speed, tally.failed, tally.bytes], ascii "\n" ++ rest) := by
  have space : ∀ char ∈ ([32] : Bytes), CString.isspace char = true := by
    intro char member
    rw [List.mem_singleton.mp member]
    rfl
  have line : tally.line ++ rest = Decimal.numeral tally.speed ++ 32 :: (Decimal.numeral tally.failed ++
      32 :: (Decimal.numeral tally.bytes ++ 10 :: rest)) := by
    simp only [Tally.line, List.append_assoc]
    rfl
  have others (n : ℤ) (mark : UInt8) (ends : CString.isdigit mark = false) (rest : Bytes) :
      CString.scanInt (32 :: (Decimal.numeral n ++ mark :: rest)) = some (some n, mark :: rest) :=
    CString.scanInt_numeral space n ends rest
  rw [line, CString.scanInts, CString.scanInt_numeral blank tally.speed (by decide)]
  dsimp only
  rw [CString.scanInts, others tally.failed 32 (by decide)]
  dsimp only
  rw [CString.scanInts, others tally.bytes 10 (by decide)]
  rfl

theorem Bench.add_line (i j k : ℤ) (rest : Bytes) (bench : Bench) :
    let total : Tally := ⟨intAdd bench.total.speed i, intAdd bench.total.failed j, intAdd bench.total.bytes k⟩
    bench.add [i, j, k] rest =
      if bench.clients - 1 = 0 then
        { bench with parent := .reported true, clients := bench.clients - 1, i, j, k, total, pipe := rest }
      else { bench with clients := bench.clients - 1, i, j, k, total, pipe := rest } := rfl

/-! ## The sum -/

/-- The counters of a client that comes to its end. -/
def Workload.tally (load : Workload) (client : ℕ) : Tally := (load.result client).getD ⟨0, 0, 0⟩

theorem Workload.tally_of {load : Workload} {client : ℕ} {tally : Tally}
    (run : load.result client = some tally) : load.tally client = tally := by
  rw [Workload.tally, run, Option.getD_some]

/-- What some clients have counted together, as the parent's counters hold it. -/
def Workload.sum (load : Workload) (clients : List ℕ) : Tally where
  speed := int (clients.map fun client => (load.tally client).speed).sum
  failed := int (clients.map fun client => (load.tally client).failed).sum
  bytes := int (clients.map fun client => (load.tally client).bytes).sum

theorem Workload.sum_perm (load : Workload) {first second : List ℕ} (perm : first.Perm second) :
    load.sum first = load.sum second := by
  simp only [Workload.sum, (perm.map _).sum_eq]

theorem Workload.sum_append (load : Workload) (clients : List ℕ) (client : ℕ) :
    load.sum (clients ++ [client]) =
      ⟨intAdd (load.sum clients).speed (load.tally client).speed,
        intAdd (load.sum clients).failed (load.tally client).failed,
        intAdd (load.sum clients).bytes (load.tally client).bytes⟩ := by
  simp only [Workload.sum, intAdd_int, List.map_append, List.map_cons, List.map_nil, List.sum_append,
    List.sum_cons, List.sum_nil, add_zero]

/-- The lines of these clients, one after the other. -/
def Workload.lines (load : Workload) (clients : List ℕ) : Bytes :=
  clients.flatMap fun client => (load.tally client).line

/-- Where the parent is, when it has read the lines of these clients. -/
def Phase (load : Workload) (clients : ℤ) (bench : Bench) (read : List ℕ) : Prop :=
  match bench.parent with
  | .forking => read = [] ∧ bench.clients = clients ∧ bench.i = bench.forked
  | .reading => bench.clients = clients - read.length ∧ 0 < bench.clients ∧ bench.forked = clients
  | .reported complete => complete = true ∧ read.length = clients ∧ bench.forked = clients ∧
      ∃ client, read.getLast? = some client ∧ bench.i = (load.tally client).speed
  | .failed => True
  | .working => False

/-- What a line that has been read leaves in the pipe is white space. -/
theorem isspace_of_left (read : List ℕ) :
    ∀ char ∈ (if read = [] then [] else ascii "\n"), CString.isspace char = true := by
  intro char member
  split_ifs at member
  · cases member
  · have member : char ∈ ([10] : Bytes) := member
    rw [List.mem_singleton.mp member]
    rfl

/-- Each line is that of a client that has ended, and it is in the pipe or has been added, in the order in
which the clients ended. -/
structure Accounts (load : Workload) (clients : ℤ) (bench : Bench) (read unread : List ℕ) : Prop where
  positive : 0 < clients
  order : (read ++ unread).Sublist bench.ended
  once : bench.ended.Nodup
  results : ∀ client ∈ bench.ended, client < bench.forked ∧
    load.result client = some (load.tally client)
  pipe : bench.pipe = (if read = [] then [] else ascii "\n") ++ load.lines unread
  total : bench.total = load.sum read
  forked : bench.forked ≤ clients
  phase : Phase load clients bench read

variable {load : Workload} {clients : ℤ} {bench target : Bench} {read unread : List ℕ}

/-- Only clients that were to be forked come to their end. -/
theorem Accounts.inside (accounts : Accounts load clients bench read unread) {client : ℕ}
    (there : client ∈ bench.ended) : client < clients.toNat := by
  have forked := accounts.forked
  have below := (accounts.results client there).1
  omega

theorem Accounts.length_ended (accounts : Accounts load clients bench read unread) :
    bench.ended.length ≤ clients.toNat := by
  have subset : bench.ended ⊆ List.range clients.toNat := fun client there =>
    List.mem_range.mpr (accounts.inside there)
  have length := (List.subperm_of_subset accounts.once subset).length_le
  rwa [List.length_range] at length

/-- A client's end adds a line to the pipe, or none. -/
theorem Accounts.finish (accounts : Accounts load clients bench read unread) {client : ℕ} {opens : Bool}
    (admits : bench.Admits (.finish client opens))
    (run : bench.step load (.finish client opens) = some target) :
    Accounts load clients target read (if opens then unread ++ [client] else unread) := by
  obtain ⟨inside, running⟩ := admits
  obtain ⟨tally, ends, run⟩ := Option.bind_eq_some_iff.mp run
  obtain rfl := Option.some.inj run
  have isTally : load.tally client = tally := Workload.tally_of ends
  have results : ∀ other ∈ bench.ended ++ [client], other < bench.forked ∧
      load.result other = some (load.tally other) := by
    intro other member
    rcases List.mem_append.mp member with before | new
    · exact accounts.results other before
    · rw [List.mem_singleton.mp new, isTally]
      exact ⟨inside, ends⟩
  have once : (bench.ended ++ [client]).Nodup :=
    List.Nodup.append accounts.once (List.nodup_singleton _) (by simpa using running)
  cases opens with
  | false =>
    have order : (read ++ unread).Sublist (bench.ended ++ [client]) :=
      accounts.order.trans (List.sublist_append_left ..)
    exact { accounts with order := order, once := once, results := results }
  | true =>
    refine { accounts with order := ?_, once := once, results := results, pipe := ?_ }
    · rw [if_pos rfl, ← List.append_assoc]
      exact accounts.order.append_right [client]
    · simp only [if_true, accounts.pipe, Workload.lines, List.flatMap_append, List.flatMap_singleton, isTally,
        List.append_assoc]

/-- A pass of the loop adds the next line. -/
theorem Accounts.scan (accounts : Accounts load clients bench read unread)
    (admits : bench.Admits .scan) (run : bench.step load .scan = some target) :
    target.forked = bench.forked ∧ target.ended = bench.ended ∧
      ((target.parent = .reading ∧ target.clients = bench.clients - 1) ∨ target.parent = .reported true) ∧
      ∃ client rest, unread = client :: rest ∧ Accounts load clients target (read ++ [client]) rest := by
  have reading : bench.parent = .reading := admits
  have phase := accounts.phase
  rw [Phase, reading] at phase
  obtain ⟨left, more, all⟩ := phase
  rw [Bench.step, accounts.pipe] at run
  cases unread with
  | nil =>
    rw [Workload.lines, List.flatMap_nil, List.append_nil, CString.scanInts,
      CString.scanInt_blank (isspace_of_left read)] at run
    cases run
  | cons client rest =>
    rw [Workload.lines, List.flatMap_cons, scan_line _ (isspace_of_left read)] at run
    obtain rfl := Option.some.inj run
    have moved : read ++ [client] ++ rest = read ++ client :: rest := (List.append_cons ..).symm
    have order := accounts.order
    rw [← moved] at order
    have lines : ascii "\n" ++ load.lines rest =
        (if read ++ [client] = [] then [] else ascii "\n") ++ load.lines rest := by
      rw [if_neg (by simp)]
    have total : (⟨intAdd bench.total.speed (load.tally client).speed,
        intAdd bench.total.failed (load.tally client).failed,
        intAdd bench.total.bytes (load.tally client).bytes⟩ : Tally) = load.sum (read ++ [client]) := by
      rw [load.sum_append, accounts.total]
    have length : (read ++ [client]).length = read.length + 1 := by
      rw [List.length_append, List.length_singleton]
    rw [Bench.add_line, total]
    split_ifs with done
    · refine ⟨rfl, rfl, .inr rfl, client, rest, rfl, ?_⟩
      exact ⟨accounts.positive, order, accounts.once, accounts.results, lines, rfl, accounts.forked,
        rfl, by omega, all, client, List.getLast?_concat, rfl⟩
    · refine ⟨rfl, rfl, .inl ⟨reading, rfl⟩, client, rest, rfl, ?_⟩
      refine ⟨accounts.positive, order, accounts.once, accounts.results, lines, rfl, accounts.forked, ?_⟩
      dsimp only [Phase]
      rw [reading]
      exact ⟨by omega, by omega, all⟩

/-- Forking, and opening the pipe, keeps what has been read. -/
theorem Accounts.fork (accounts : Accounts load clients bench read unread) {succeeds : Bool}
    (admits : bench.Admits (.fork succeeds)) (run : bench.step load (.fork succeeds) = some target) :
    Accounts load clients target read unread := by
  obtain ⟨forking, more⟩ := admits
  have phase := accounts.phase
  rw [Phase, forking] at phase
  obtain ⟨none, all, counter⟩ := phase
  cases succeeds with
  | false =>
    obtain rfl := Option.some.inj run
    exact { accounts with phase := trivial }
  | true =>
    obtain rfl := Option.some.inj run
    have results : ∀ client ∈ bench.ended, client < bench.forked + 1 ∧
        load.result client = some (load.tally client) := fun client member =>
      (accounts.results client member).imp_left fun inside => by omega
    refine { accounts with results := results, forked := ?_, phase := ?_ }
    · push_cast
      omega
    · rw [Phase, forking]
      exact ⟨none, all, by push_cast; omega⟩

theorem Accounts.openPipe (accounts : Accounts load clients bench read unread) {succeeds : Bool}
    (admits : bench.Admits (.openPipe succeeds)) (run : bench.step load (.openPipe succeeds) = some target) :
    Accounts load clients target read unread := by
  obtain ⟨forking, enough⟩ := admits
  have phase := accounts.phase
  rw [Phase, forking] at phase
  obtain ⟨none, all, counter⟩ := phase
  cases succeeds with
  | false =>
    obtain rfl := Option.some.inj run
    exact { accounts with phase := trivial }
  | true =>
    obtain rfl := Option.some.inj run
    have forked := accounts.forked
    have positive := accounts.positive
    refine { accounts with total := by rw [none]; rfl, phase := ?_ }
    rw [Phase, none, List.length_nil]
    exact ⟨by push_cast; omega, by dsimp only; omega, by dsimp only; omega⟩

/-- Every step keeps the accounts. -/
theorem Accounts.step (accounts : Accounts load clients bench read unread) {action : Action}
    (admits : bench.Admits action) (run : bench.step load action = some target) :
    ∃ read unread, Accounts load clients target read unread := by
  cases action with
  | fork succeeds => exact ⟨read, unread, accounts.fork admits run⟩
  | openPipe succeeds => exact ⟨read, unread, accounts.openPipe admits run⟩
  | finish client opens => exact ⟨read, _, accounts.finish admits run⟩
  | scan =>
    obtain ⟨_, _, _, client, rest, _, after⟩ := accounts.scan admits run
    exact ⟨_, rest, after⟩

theorem accounts_start (positive : 0 < clients) : Accounts load clients (.start clients) [] [] := by
  refine ⟨positive, .slnil, .nil, by simp [Bench.start], rfl, rfl, ?_, ?_⟩
  · simp only [Bench.start, if_pos positive]
    exact positive.le
  · rw [Phase, Bench.start, if_pos positive, if_pos positive]
    exact ⟨rfl, rfl, rfl⟩

theorem accounts_of_reachable (positive : 0 < clients)
    (reached : (Webbench.bench load clients).Reachable bench) :
    ∃ read unread, Accounts load clients bench read unread := by
  induction reached with
  | init start =>
    obtain rfl := start
    exact ⟨[], [], accounts_start positive⟩
  | step _ move ih =>
    obtain ⟨read, unread, accounts⟩ := ih
    exact accounts.step move.1 move.2

/-- Without a client to fork there is no report. -/
theorem working_of_reachable (none : clients ≤ 0)
    (reached : (Webbench.bench load clients).Reachable bench) : bench.parent = .working := by
  induction reached with
  | init start =>
    obtain rfl := start
    exact if_neg (not_lt.mpr none)
  | @step source target action _ move ih =>
    obtain ⟨admits, run⟩ := move
    cases action with
    | fork => cases ih.symm.trans admits.1
    | openPipe => cases ih.symm.trans admits.1
    | finish client opens =>
      obtain ⟨tally, _, run⟩ := Option.bind_eq_some_iff.mp run
      obtain rfl := Option.some.inj run
      exact ih
    | scan => cases ih.symm.trans admits

/-- Whatever the order in which the clients end: the parent reports only when it has read a line of each,
the report is the sum of what they counted, and the process returns the number of pages of the client it
read last, which is the one that ended last. -/
theorem report_adds_up {complete : Bool} (reached : (Webbench.bench load clients).Reachable bench)
    (reported : bench.parent = .reported complete) :
    complete = true ∧ 0 < clients ∧
      (∀ client : ℕ, client < clients → load.result client = some (load.tally client)) ∧
      bench.total = load.sum (List.range clients.toNat) ∧
      bench.ended.Perm (List.range clients.toNat) ∧
      ∃ last, bench.ended.getLast? = some last ∧ bench.i = (load.tally last).speed := by
  by_cases positive : 0 < clients
  · obtain ⟨read, unread, accounts⟩ := accounts_of_reachable positive reached
    have phase := accounts.phase
    rw [Phase, reported] at phase
    obtain ⟨whole, length, all, last, isLast, code⟩ := phase
    have few := accounts.length_ended
    have order : read.Sublist bench.ended := (List.sublist_append_left ..).trans accounts.order
    have same : read = bench.ended := order.eq_of_length_le (by omega)
    have perm : bench.ended.Perm (List.range clients.toNat) := by
      have subset : bench.ended ⊆ List.range clients.toNat := fun client there =>
        List.mem_range.mpr (accounts.inside there)
      refine (List.subperm_of_subset accounts.once subset).perm_of_length_le ?_
      rw [List.length_range, ← same]
      omega
    refine ⟨whole, positive, fun client below => ?_, ?_, perm, last, same ▸ isLast, code⟩
    · have there : client ∈ bench.ended := perm.mem_iff.mpr (List.mem_range.mpr (by omega))
      exact (accounts.results client there).2
    · rw [accounts.total, same, load.sum_perm perm]
  · cases (working_of_reachable (not_lt.mp positive) reached).symm.trans reported

/-- Two pages for the first client, and one for the second; nothing is read. -/
private def twoClients : Workload :=
  ⟨Fin.last 2, true, 5, fun client => List.replicate (2 - client) ⟨.connected, 5, true, [], true⟩⟩

/-- The second client ends before the first. -/
private def twoActions : List Action :=
  [.fork true, .fork true, .openPipe true, .finish 1 true, .scan, .finish 0 true, .scan]

private def twoReported : Bench := twoActions.foldl (Bench.next twoClients) (.start 2)

private theorem twoReported_reachable : (Webbench.bench twoClients 2).Reachable twoReported := by
  have along : Along (Bench.next twoClients) (Bench.Passes twoClients) (.start 2) twoActions := by
    decide +kernel
  exact Reachable.run along (fun _ _ passes => ⟨passes.1, passes.step⟩) (.init rfl)

theorem report_adds_up_two : twoReported.total = ⟨3, 0, 0⟩ ∧ twoReported.i = 2 ∧
    twoClients.result 0 = some (twoClients.tally 0) := by
  have reported : twoReported.parent = .reported true := by decide +kernel
  obtain ⟨_, _, ends, total, _, last, isLast, code⟩ := report_adds_up twoReported_reachable reported
  have first : last = 0 := Option.some.inj (isLast.symm.trans (by decide +kernel))
  rw [total, code, first]
  exact ⟨by decide +kernel, by decide +kernel, ends 0 (by decide)⟩

/-! ## The report comes -/

/-- No call of `fork` or `fdopen` fails. -/
def Action.Smooth : Action → Prop
  | .fork succeeds | .openPipe succeeds | .finish _ succeeds => succeeds = true
  | .scan => True

instance (action : Action) : Decidable action.Smooth := by
  cases action <;> unfold Action.Smooth <;> infer_instance

/-- Nothing has failed, and every client that has ended has written its line. -/
structure Going (load : Workload) (clients : ℤ) (bench : Bench) (read unread : List ℕ) : Prop
    extends Accounts load clients bench read unread where
  healthy : bench.parent ≠ .failed
  written : ∀ client ∈ bench.ended, client ∈ read ++ unread

/-- What is still to be done: clients to fork, clients to end, and lines to read. -/
def rank (clients : ℤ) (bench : Bench) : ℕ :=
  (clients.toNat - bench.forked) + (clients.toNat - bench.ended.length) +
    match bench.parent with
    | .forking => clients.toNat + 1
    | .reading => bench.clients.toNat
    | _ => 0

/-- A step on which nothing fails does a part of it. -/
theorem Going.step (going : Going load clients bench read unread) {action : Action}
    (smooth : action.Smooth) (admits : bench.Admits action) (run : bench.step load action = some target) :
    (∃ read unread, Going load clients target read unread) ∧ rank clients target < rank clients bench := by
  have phase := going.phase
  rw [Phase] at phase
  cases action with
  | fork succeeds =>
    obtain rfl : succeeds = true := smooth
    have after := going.toAccounts.fork admits run
    have forked := after.forked
    obtain ⟨forking, _⟩ := admits
    obtain rfl := Option.some.inj run
    refine ⟨⟨read, unread, { after with healthy := going.healthy, written := going.written }⟩, ?_⟩
    push_cast at forked
    simp only [rank, forking]
    omega
  | openPipe succeeds =>
    obtain rfl : succeeds = true := smooth
    have after := going.toAccounts.openPipe admits run
    obtain ⟨forking, _⟩ := admits
    rw [forking] at phase
    obtain ⟨_, all, _⟩ := phase
    obtain rfl := Option.some.inj run
    refine ⟨⟨read, unread, { after with healthy := by simp, written := going.written }⟩, ?_⟩
    simp only [rank, forking, all]
    omega
  | finish client opens =>
    obtain rfl : opens = true := smooth
    have after := going.toAccounts.finish admits run
    have length := after.length_ended
    obtain ⟨tally, _, run⟩ := Option.bind_eq_some_iff.mp run
    obtain rfl := Option.some.inj run
    rw [if_pos rfl] at after
    refine ⟨⟨read, unread ++ [client], { after with healthy := going.healthy, written := ?_ }⟩, ?_⟩
    · intro other member
      rw [← List.append_assoc]
      exact List.mem_append.mpr ((List.mem_append.mp member).imp_left (going.written other))
    · simp only [rank, List.length_append, List.length_singleton] at length ⊢
      omega
  | scan =>
    obtain ⟨forked, ended, parent, client, rest, rfl, after⟩ := going.toAccounts.scan admits run
    have moved : read ++ [client] ++ rest = read ++ client :: rest := (List.append_cons ..).symm
    have reading : bench.parent = .reading := admits
    rw [reading] at phase
    obtain ⟨_, more, _⟩ := phase
    have written : ∀ other ∈ target.ended, other ∈ read ++ [client] ++ rest := by
      rw [ended, moved]
      exact going.written
    rcases parent with ⟨still, fewer⟩ | done
    · refine ⟨⟨_, rest, { after with healthy := by simp [still], written := written }⟩, ?_⟩
      simp only [rank, still, reading, fewer, forked, ended]
      omega
    · refine ⟨⟨_, rest, { after with healthy := by simp [done], written := written }⟩, ?_⟩
      simp only [rank, done, reading, forked, ended]
      omega

/-- All clients come to their end. -/
def Workload.Ends (load : Workload) (clients : ℤ) : Prop :=
  ∀ client : ℕ, client < clients → load.result client = some (load.tally client)

/-- Until the report something can go on. -/
theorem Going.goes_on (going : Going load clients bench read unread) (ends : load.Ends clients) :
    bench.parent = .reported true ∨
      ∃ action target, action.Smooth ∧ bench.Admits action ∧ bench.step load action = some target := by
  have phase := going.phase
  rw [Phase] at phase
  cases parent : bench.parent with
  | forking =>
    by_cases more : bench.i < bench.clients
    · exact .inr ⟨.fork true, _, rfl, ⟨parent, more⟩, rfl⟩
    · exact .inr ⟨.openPipe true, _, rfl, ⟨parent, not_lt.mp more⟩, rfl⟩
  | working =>
    rw [parent] at phase
    exact phase.elim
  | failed => exact absurd parent going.healthy
  | reported complete =>
    rw [parent] at phase
    rw [phase.1]
    exact .inl rfl
  | reading =>
    rw [parent] at phase
    obtain ⟨left, more, all⟩ := phase
    right
    cases waits : unread with
    | cons client rest =>
      have line : ∃ target, bench.step load .scan = some target := by
        rw [Bench.step, going.pipe, waits, Workload.lines, List.flatMap_cons,
          scan_line _ (isspace_of_left read)]
        exact ⟨_, rfl⟩
      obtain ⟨target, run⟩ := line
      exact ⟨.scan, target, trivial, parent, run⟩
    | nil =>
      obtain ⟨client, inside, running⟩ : ∃ client < bench.forked, client ∉ bench.ended := by
        by_contra none
        have subset : List.range bench.forked ⊆ read := fun client there => by
          have below := List.mem_range.mp there
          have ended : client ∈ bench.ended := by
            by_contra running
            exact none ⟨client, below, running⟩
          have written := going.written client ended
          rwa [waits, List.append_nil] at written
        have length := (List.subperm_of_subset List.nodup_range subset).length_le
        rw [List.length_range] at length
        omega
      have done : ∃ target, bench.step load (.finish client true) = some target := by
        rw [Bench.step, ends client (by omega)]
        exact ⟨_, rfl⟩
      obtain ⟨target, run⟩ := done
      exact ⟨.finish client true, target, rfl, ⟨inside, running⟩, run⟩

/-- When no call fails and the clients come to their end, the report comes, in whatever order the processes go
on: a run has at most three steps for each client and one more, and until the report has been made some
process can take one. -/
theorem report_comes {count : ℕ} (positive : 0 < clients) (ends : load.Ends clients)
    (run : ((Webbench.bench load clients).restrict fun _ action => action.Smooth).Steps (.start clients)
      count bench) :
    count ≤ 3 * clients.toNat + 1 ∧ (bench.parent = .reported true ∨
      ∃ action target, action.Smooth ∧ bench.Admits action ∧ bench.step load action = some target) := by
  have begins : ∃ read unread, Going load clients (.start clients) read unread := by
    refine ⟨[], [], { accounts_start positive with healthy := ?_, written := by simp [Bench.start] }⟩
    rw [Bench.start, if_pos positive]
    simp
  have lowers (source : Bench) (action : Action) (target : Bench)
      (held : ∃ read unread, Going load clients source read unread)
      (move : ((Webbench.bench load clients).restrict fun _ action => action.Smooth).Step source action
        target) :
      (∃ read unread, Going load clients target read unread) ∧ rank clients target < rank clients source := by
    obtain ⟨read, unread, going⟩ := held
    exact going.step move.2 move.1.1 move.1.2
  obtain ⟨⟨read, unread, going⟩, bound⟩ := Steps.ranked lowers begins run
  refine ⟨?_, going.goes_on ends⟩
  have first : rank clients (.start clients) = 3 * clients.toNat + 1 := by
    rw [rank, Bench.start, if_pos positive, if_pos positive]
    simp only [List.length_nil]
    omega
  omega

/-- The second client has been counted, and the first has not ended. -/
private def twoHalf : Bench := (twoActions.take 5).foldl (Bench.next twoClients) (.start 2)

theorem report_comes_half : 5 ≤ 3 * (2 : ℤ).toNat + 1 ∧ (twoHalf.parent = .reported true ∨
    ∃ action target, action.Smooth ∧ twoHalf.Admits action ∧
      twoHalf.step twoClients action = some target) := by
  have ends : twoClients.Ends 2 := by
    intro client inside
    obtain rfl | rfl : client = 0 ∨ client = 1 := by omega
    · decide +kernel
    · decide +kernel
  have along : Along (Bench.next twoClients)
      (fun bench action => bench.Passes twoClients action ∧ action.Smooth) (.start 2)
      (twoActions.take 5) := by decide +kernel
  have run : ((Webbench.bench twoClients 2).restrict fun _ action => action.Smooth).Steps (.start 2)
      (0 + (twoActions.take 5).length) twoHalf :=
    Steps.run along (fun _ _ passes => ⟨⟨passes.1.1, passes.1.step⟩, passes.2⟩) (.refl _)
  exact report_comes (by decide) ends run

end Webbench

end XWebServer
