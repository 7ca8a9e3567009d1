import XWebServer.Http.Faithful
import XWebServer.Http.Tasks
import XWebServer.Lib.Ledger
import XWebServer.Lib.Transition

/-! # Who holds descriptors and mappings

The calls on files are replayed as acquisitions and releases. Between the operations of a connection
nothing should be held but the mapping that `mmFile` records, under the length that `FileLen()` returns.
Only the early return of `AddContent` behind `mmap` breaks this: it leaves both the descriptor and the
mapping behind.
-/

namespace XWebServer

open Transition System Ledger

/-- What a call on a file acquires or releases. -/
inductive Resource where
  | descriptor
  | mapping (addr len : ℕ)
deriving DecidableEq, Repr

/-- The effect of a call at its place in the record, which is the address of what it maps. -/
def FileCall.event (place : ℕ) : FileCall → Event Resource
  | .opened => .acquire .descriptor
  | .closed => .release .descriptor
  | .mapped len => .acquire (.mapping place len)
  | .unmapped addr len => .release (.mapping addr len)

namespace HttpResponse

/-- The effects of calls that stand in the record from a place on. -/
def eventsFrom (place : ℕ) (calls : List FileCall) : List (Event Resource) :=
  (calls.zipIdx place).map fun call => call.1.event call.2

/-- What is held, unless something was given back that was not held. -/
def held (resp : HttpResponse) : Option (List Resource) := replay (eventsFrom 0 resp.calls) []

/-- The mapping that `mmFile` and `mmFileStat` record. -/
def recorded (resp : HttpResponse) : List Resource :=
  resp.mmFile.toList.map fun mapping => .mapping mapping.addr resp.mmFileStat.size

/-- What is recorded is held, and nothing else, and nothing was given back twice or in part. -/
def Owns (resp : HttpResponse) : Prop := resp.held = some resp.recorded

/-- More calls act on what is held. -/
theorem held_append {resp later : HttpResponse} {more : List FileCall} {before : List Resource}
    (holds : resp.held = some before) (calls : later.calls = resp.calls ++ more) :
    later.held = replay (eventsFrom resp.calls.length more) before := by
  rw [held, eventsFrom] at holds ⊢
  rw [calls, List.zipIdx_append, List.map_append, replay_append, holds, Nat.zero_add]
  rfl

/-! ## Init and UnmapFile -/

theorem Owns.unmapFile {resp : HttpResponse} (owns : resp.Owns) :
    resp.unmapFile.Owns ∧ resp.unmapFile.mmFile = none := by
  cases mapped : resp.mmFile with
  | none =>
    rw [HttpResponse.unmapFile, mapped]
    exact ⟨owns, mapped⟩
  | some mapping =>
    have recorded : resp.recorded = [.mapping mapping.addr resp.mmFileStat.size] := by
      rw [HttpResponse.recorded, mapped]
      rfl
    rw [Owns, recorded] at owns
    rw [HttpResponse.unmapFile, mapped]
    refine ⟨?_, rfl⟩
    rw [Owns, held_append owns rfl]
    change replay [.release (Resource.mapping mapping.addr resp.mmFileStat.size)] _ = some []
    rw [replay_release (List.mem_singleton_self _), List.erase_cons_head, replay_nil]

theorem held_of_calls {first second : HttpResponse} (same : first.calls = second.calls) :
    first.held = second.held := by
  rw [held, same, held]

/-- Without a mapped file nothing is to be held. -/
theorem owns_iff_of_unmapped {resp : HttpResponse} (unmapped : resp.mmFile = none) :
    resp.Owns ↔ resp.held = some [] := by
  rw [Owns, recorded, unmapped]
  rfl

/-! ## AddContent -/

/-- The calls that `AddContent` makes. -/
inductive AcquiresContent (resp : HttpResponse) (files : FileSystem) (made : HttpResponse) : Prop
  | absent (opened : files.openFile resp.fileName = none) (same : made = resp)
  | discarded {node : Node} (opened : files.openFile resp.fileName = some node)
      (regular : node.kind = .regular)
      (failure : node.content.take 4 = [255, 255, 255, 255])
      (same : made = resp.withCalls
        (resp.calls ++ [.opened, .mapped resp.mmFileStat.size]))
  | mapped {node : Node} (opened : files.openFile resp.fileName = some node)
      (sound : node.content.take 4 ≠ [255, 255, 255, 255]) (bytes : Bytes)
      (same : made = { resp with
        calls := resp.calls ++ [.opened, .mapped resp.mmFileStat.size, .closed]
        mmFile := some ⟨resp.calls.length + 1, bytes⟩ })

theorem addContent_acquires {resp made : HttpResponse} {files : FileSystem} {buff out : ByteBuffer}
    (sized : ∀ node, files.openFile resp.fileName = some node →
      resp.mmFileStat.size = node.content.length)
    (run : resp.addContent files buff = .ok (made, out)) : AcquiresContent resp files made := by
  rw [addContent] at run
  cases opened : files.openFile resp.fileName with
  | none =>
    rw [opened] at run
    cases run
    exact .absent opened rfl
  | some node =>
    have size := sized node opened
    simp only [opened, record, size] at run
    by_cases fails : node.content = [] ∨ node.kind ≠ .regular
    · rw [(mmap_none_iff node).mpr fails] at run
      cases run
    · rw [mmap_eq_some fails] at run
      dsimp only at run
      split_ifs at run with failure
      · cases run
        refine .discarded opened (not_not.mp (not_or.mp fails).2) failure ?_
        rw [withCalls, size, List.append_assoc]
        rfl
      · cases run
        refine .mapped opened failure node.content ?_
        rw [size, List.length_append]
        simp

/-- Behind `AddContent` nothing but the recorded mapping is held, unless the mapping was discarded. -/
theorem AcquiresContent.owns_iff {resp made : HttpResponse} {files : FileSystem}
    (acquires : AcquiresContent resp files made) (owns : resp.held = some [])
    (unmapped : resp.mmFile = none) :
    made.Owns ↔ ∀ node, files.openFile resp.fileName = some node → node.kind = .regular →
      node.content.take 4 ≠ [255, 255, 255, 255] := by
  cases acquires with
  | absent opened same =>
    subst same
    apply iff_of_true
    · exact (owns_iff_of_unmapped unmapped).mpr owns
    · intro node found
      rw [opened] at found
      cases found
  | discarded opened regular failure same =>
    have noFile : made.mmFile = none := by
      rw [same]
      exact unmapped
    apply iff_of_false
    · rw [owns_iff_of_unmapped noFile, held_append owns (congrArg HttpResponse.calls same)]
      simp [eventsFrom, FileCall.event]
    · intro sound
      exact sound _ opened regular failure
  | mapped opened sound bytes same =>
    subst same
    apply iff_of_true
    · rw [Owns, held_append owns rfl]
      simp only [eventsFrom, List.zipIdx_cons, List.zipIdx_nil, List.map_cons, List.map_nil,
        FileCall.event, replay_acquire]
      rw [replay_release (by simp)]
      rfl
    · intro node found _
      obtain rfl := Option.some.inj (opened.symm.trans found)
      exact sound

theorem makeResponse_owns_iff {resp made : HttpResponse} (owns : resp.held = some [])
    (unmapped : resp.mmFile = none) {files : FileSystem} {buff out : ByteBuffer}
    (run : resp.makeResponse files buff = .ok (made, out)) :
    made.Owns ↔ ∀ node, files.openFile resp.fileName = some node → node.kind = .regular →
      node.content.take 4 ≠ [255, 255, 255, 255] := by
  have name := resp.stated_fileName files buff
  have sized : ∀ node, files.openFile ((resp.decideStatus files).addStateLine buff).1.fileName =
      some node → ((resp.decideStatus files).addStateLine buff).1.mmFileStat.size =
        node.content.length := fun node opened => stated_size buff (name ▸ opened)
  have acquires := addContent_acquires sized run
  obtain ⟨code, stated⟩ := resp.stated_eq files buff
  rw [← name]
  apply acquires.owns_iff
  · rw [held_of_calls (show ((resp.decideStatus files).addStateLine buff).1.calls = resp.calls by
      rw [stated]), owns]
  · rw [stated]
    exact unmapped

end HttpResponse

namespace HttpConn

open HttpRequest

/-! ## Runs -/

/-- The path of the input names a regular file that opens, and the mapping of it is taken for a
failure. -/
def Discards (host : Host) (input : Bytes) : Prop :=
  ∃ node, host.files.openFile (host.fileName (requestPath input)) = some node ∧
    node.kind = .regular ∧ node.content.take 4 = [255, 255, 255, 255]

/-- Whatever was held before, `Process` holds what it records exactly when it does not discard a
mapping. -/
theorem process_owns_iff {conn next : HttpConn} {host : Host} (owns : conn.response.Owns)
    (run : conn.process host = .ok (true, next)) :
    next.response.Owns ↔ ¬ Discards host conn.readBuff.content := by
  obtain ⟨nonempty, _⟩ := prepares_of_process run
  obtain ⟨success, _⟩ := makeResponse_of_process run
  obtain ⟨unmaps, unmapped⟩ := owns.unmapFile
  have released : (startedFor host conn).held = some [] := by
    rw [HttpResponse.held_of_calls (show (startedFor host conn).calls =
      conn.response.unmapFile.calls from rfl)]
    exact (HttpResponse.owns_iff_of_unmapped unmapped).mp unmaps
  have name : (startedFor host conn).fileName =
      host.fileName (requestPath conn.readBuff.content) := by
    rw [← (parse_init nonempty).2]
    rfl
  rw [HttpResponse.makeResponse_owns_iff released rfl success, name, Discards]
  push Not
  rfl

/-- The operations on a connection. -/
inductive Operation where
  | init (sockFd : ℤ)
  | read (isET : Bool) (outcomes : List ReadvOutcome)
  | process (host : Host)
  | write (isET : Bool) (outcomes : List WriteOutcome)
  | close

def operate (conn : HttpConn) : Operation → Except Fault HttpConn
  | .init sockFd => conn.init sockFd
  | .read isET outcomes => .ok (conn.read isET outcomes).2
  | .process host => (conn.process host).map (·.2)
  | .write isET outcomes => (conn.write isET outcomes).map (·.conn)
  | .close => .ok conn.close

/-- The connections that operations build, as long as they return. -/
def operations : System HttpConn Operation where
  Init conn := ∃ iovCnt iov0 iov1, conn = new iovCnt iov0 iov1
  Step source operation target := source.operate operation = .ok target

/-- `Process` does not come upon a file whose mapping it discards. -/
def Keeping (conn : HttpConn) : Operation → Prop
  | .process host => ¬ Discards host conn.readBuff.content
  | .init _ | .read _ _ | .write _ _ | .close => True

theorem operate_owns {conn target : HttpConn} {operation : Operation} (owns : conn.response.Owns)
    (keeping : conn.Keeping operation) (run : conn.operate operation = .ok target) :
    target.response.Owns := by
  cases operation with
  | init sockFd =>
    obtain ⟨_, _, run⟩ := bind_ok run
    cases run
    exact owns
  | read isET outcomes =>
    obtain ⟨buff, same⟩ := read_only isET outcomes conn
    cases run
    rw [same]
    exact owns
  | process host =>
    obtain ⟨⟨ready, next⟩, success, rfl⟩ := map_ok run
    cases ready with
    | true => exact (process_owns_iff owns success).mpr keeping
    | false =>
      have unchanged : next.response = conn.response := by
        by_cases empty : conn.readBuff.content = []
        · rw [process_empty empty] at success
          cases success
          rfl
        · rcases process_cases empty host with ⟨_, crash⟩ | ⟨_, _, _, _, other, _⟩
          · cases crash.symm.trans success
          · cases other.symm.trans success
      rw [unchanged]
      exact owns
  | write isET outcomes =>
    obtain ⟨written, success, rfl⟩ := map_ok run
    rw [(write_keeps success).response]
    exact owns
  | close =>
    cases run
    exact owns.unmapFile.1

/-- In every run in which `Process` discards no mapping, the live resources are always the one mapping
that is recorded, under its length; none is live after `Close`; and the next `Process` goes on like
this exactly when it discards none either. -/
theorem owns_of_reachable {conn : HttpConn}
    (reached : (operations.restrict Keeping).Reachable conn) :
    conn.response.Owns ∧ conn.close.response.held = some [] ∧
      ∀ host next, conn.process host = .ok (true, next) →
        (next.response.Owns ↔ ¬ Discards host conn.readBuff.content) := by
  have owns : conn.response.Owns := by
    apply reached.invariant
    · rintro start ⟨iovCnt, iov0, iov1, rfl⟩
      rfl
    · rintro source operation target owns ⟨run, keeping⟩
      exact operate_owns owns keeping run
  obtain ⟨unmaps, unmapped⟩ := owns.unmapFile
  refine ⟨owns, (HttpResponse.owns_iff_of_unmapped unmapped).mp unmaps, fun host next run => ?_⟩
  exact process_owns_iff owns run

/-- A new object that has read the request for the one file of a host. -/
theorem fresh_reachable {guard : HttpConn → Operation → Prop} (passes : ∀ conn isET outcomes,
    guard conn (.read isET outcomes)) : (operations.restrict guard).Reachable (fresh fileRequest) := by
  have reads : (new 0 ⟨0, 0⟩ ⟨0, 0⟩).operate (.read false [.data fileRequest]) =
      .ok (fresh fileRequest) := by
    rw [operate, read, if_neg (by decide), if_neg (by decide)]
    rfl
  exact .step (.init ⟨_, _, _, rfl⟩) ⟨reads, passes _ _ _⟩

/-- A file is served and unmapped again. -/
theorem owns_of_reachable_hello : ∃ next,
    (fresh fileRequest).process (publicHost (ascii "hello")) = .ok (true, next) ∧
      next.response.Owns ∧ next.close.response.held = some [] := by
  have found := publicHost_found (ascii "hello")
  obtain ⟨next, run, _⟩ := process_serves fileRequest_accepted found rfl rfl rfl
    (show ascii "hello" ≠ [] by decide) (show (ascii "hello").take 4 ≠ _ by decide)
  have keeping : (fresh fileRequest).Keeping (.process (publicHost (ascii "hello"))) := by
    rintro ⟨node, opened, _, failure⟩
    obtain rfl := Option.some.inj ((openFile_of_openable found rfl).symm.trans opened)
    revert failure
    decide
  have moves : (fresh fileRequest).operate (.process (publicHost (ascii "hello"))) = .ok next := by
    rw [operate, run]
    rfl
  obtain ⟨owns, closed, _⟩ := owns_of_reachable (.step (fresh_reachable fun _ _ _ => trivial) ⟨moves, keeping⟩)
  exact ⟨next, run, owns, closed⟩

/-- A file of four bytes 255 is opened and mapped for nobody. -/
theorem not_forall_owns : ¬ ∀ conn, operations.Reachable conn → conn.response.Owns := by
  intro owns
  have found := publicHost_found [255, 255, 255, 255]
  have opened := openFile_of_openable found rfl
  have nonempty : (fresh fileRequest).readBuff.content ≠ [] := by
    rw [fresh_content]
    decide
  have guarded : (operations.restrict Keeping).Reachable (fresh fileRequest) :=
    fresh_reachable fun _ _ _ => trivial
  have start := guarded.of_restrict
  rcases process_cases nonempty (publicHost [255, 255, 255, 255]) with
    ⟨⟨node, again, fails⟩, _⟩ | ⟨_, _, next, _, run, _⟩
  · obtain rfl := Option.some.inj (opened.symm.trans again)
    revert fails
    decide
  · have moves : (fresh fileRequest).operate (.process (publicHost [255, 255, 255, 255])) =
        .ok next := by
      rw [operate, run]
      rfl
    have kept := (process_owns_iff (owns _ start) run).mp (owns next (.step start moves))
    exact kept ⟨_, opened, rfl, rfl⟩

end HttpConn

end XWebServer
