import XWebServer.Http.Response
import Mathlib.Data.Option.Basic
import Mathlib.Data.List.Basic

/-! # What `MakeResponse` appends and maps

`answer` is the response a request gets: the bytes appended to an empty buffer and the bytes of the file
mapped for it. `makeResponse_outcome` says that an initialised response object with any history appends
and maps exactly that, and `makeResponse_cases` when the process does not survive it.
-/

namespace XWebServer

/-- A prepared response: the bytes for the write buffer, and the bytes of the mapped file. -/
structure Answer where
  text : Bytes
  file : Option Bytes
deriving DecidableEq, Repr

/-- What a buffer held before comes first. -/
def Answer.behind (front : Bytes) (answer : Answer) : Answer := ⟨front ++ answer.text, answer.file⟩

namespace HttpResponse

/-- The part of a result that a client can see. -/
def outcome (made : HttpResponse × ByteBuffer) : Answer := ⟨made.2.content, made.1.file?.map (·.bytes)⟩

/-- The response of a fresh object to an empty buffer. -/
def answer (host : Host) (path : Bytes) (isKeepAlive : Bool) (code : ℤ) : Except Fault Answer := do
  let resp ← new.init host.srcDir path isKeepAlive code
  (resp.makeResponse host.files (.new 0)).map outcome

/-- `Init` succeeds on a host, and only the record of calls tells the old object. -/
theorem init_ok (resp : HttpResponse) (host : Host) (path : Bytes) (isKeepAlive : Bool) (code : ℤ) :
    resp.init host.srcDir path isKeepAlive code =
      .ok ⟨code, isKeepAlive, path, host.srcDir, none, .zero, resp.unmapFile.calls⟩ := by
  rw [init, assert_of host.srcDir_ne_nil]
  rfl

/-! ## Every part appends its own text -/

theorem addHeader_content (resp : HttpResponse) (buff : ByteBuffer) :
    (resp.addHeader buff).content = buff.content ++ (resp.addHeader (.new 0)).content := by
  unfold addHeader
  split
  · simp
  · simp

theorem errorContent_content (resp : HttpResponse) (buff : ByteBuffer) (message : Bytes) :
    (resp.errorContent buff message).content =
      buff.content ++ (resp.errorContent (.new 0) message).content := by
  simp [errorContent]

theorem addStateLine_content (resp : HttpResponse) (buff : ByteBuffer) :
    (resp.addStateLine buff).2.content =
      buff.content ++ (resp.addStateLine (.new 0)).2.content := by
  simp [addStateLine]

/-- The response object with another record of calls. -/
def withCalls (resp : HttpResponse) (calls : List FileCall) : HttpResponse := { resp with calls := calls }

theorem decideStatus_withCalls (resp : HttpResponse) (calls : List FileCall) (files : FileSystem) :
    (resp.withCalls calls).decideStatus files = (resp.decideStatus files).withCalls calls := by
  have name : (resp.withCalls calls).fileName = resp.fileName := rfl
  unfold decideStatus
  rw [name]
  cases files.stat resp.fileName with
  | none => rfl
  | some stat =>
    dsimp only
    rw [apply_ite (withCalls · calls), apply_ite (withCalls · calls), apply_ite (withCalls · calls)]
    rfl

theorem addStateLine_withCalls (resp : HttpResponse) (calls : List FileCall) (buff : ByteBuffer) :
    (resp.withCalls calls).addStateLine buff =
      ((resp.addStateLine (.new 0)).1.withCalls calls, (resp.addStateLine buff).2) := by
  unfold addStateLine withCalls
  cases List.lookup resp.resCode codeStatus <;> rfl

theorem outcome_behind {first second : HttpResponse} {long short : ByteBuffer} {front : Bytes}
    (text : long.content = front ++ short.content)
    (file : first.file?.map (·.bytes) = second.file?.map (·.bytes)) :
    outcome (first, long) = (outcome (second, short)).behind front := by
  rw [outcome, outcome, Answer.behind, text, file]

theorem addContent_withCalls (resp : HttpResponse) (calls : List FileCall) (files : FileSystem)
    (buff : ByteBuffer) :
    ((resp.withCalls calls).addContent files buff).map outcome =
      ((resp.addContent files (.new 0)).map outcome).map (.behind buff.content) := by
  have name : (resp.withCalls calls).fileName = resp.fileName := rfl
  unfold addContent
  rw [name]
  have page : ∀ first second : HttpResponse, first.resCode = second.resCode → ∀ message,
      (first.errorContent buff message).content =
        buff.content ++ (second.errorContent (.new 0) message).content := by
    intro first second same message
    rw [errorContent_content, errorContent, same]
    rfl
  cases files.openFile resp.fileName with
  | none =>
    exact congrArg Except.ok (outcome_behind (page (resp.withCalls calls) resp rfl _) rfl)
  | some node =>
    dsimp only [withCalls, record]
    cases node.mmap resp.mmFileStat.size with
    | none => rfl
    | some bytes =>
      dsimp only
      by_cases corrupt : bytes.take 4 = [255, 255, 255, 255]
      · rw [if_pos corrupt, if_pos corrupt]
        exact congrArg Except.ok (outcome_behind (page _ _ rfl _) rfl)
      · rw [if_neg corrupt, if_neg corrupt]
        refine congrArg Except.ok (outcome_behind (by simp) ?_)
        unfold file?
        dsimp only
        split_ifs <;> rfl

/-- A response object set up by `Init` appends and maps `answer`, whatever it did before. -/
theorem makeResponse_outcome (host : Host) (path : Bytes) (isKeepAlive : Bool) (code : ℤ)
    (calls : List FileCall) (buff : ByteBuffer) :
    ((⟨code, isKeepAlive, path, host.srcDir, none, .zero, calls⟩ : HttpResponse).makeResponse
        host.files buff).map outcome =
      (answer host path isKeepAlive code).map (.behind buff.content) := by
  let start : HttpResponse := ⟨code, isKeepAlive, path, host.srcDir, none, .zero, []⟩
  let stated := ((start.decideStatus host.files).addStateLine (.new 0)).1
  -- the buffer once the state line and the header are appended
  have front : ∀ buff : ByteBuffer, (stated.addHeader
      ((start.decideStatus host.files).addStateLine buff).2).content =
        buff.content ++ (stated.addHeader
          ((start.decideStatus host.files).addStateLine (.new 0)).2).content := by
    intro buff
    rw [addHeader_content, addHeader_content stated (addStateLine _ _).2, addStateLine_content,
      List.append_assoc]
  have general : ∀ (calls : List FileCall) (buff : ByteBuffer),
      ((start.withCalls calls).makeResponse host.files buff).map outcome =
        ((stated.addContent host.files (.new 0)).map outcome).map (.behind (buff.content ++
          (stated.addHeader ((start.decideStatus host.files).addStateLine (.new 0)).2).content)) := by
    intro calls buff
    rw [makeResponse, decideStatus_withCalls, addStateLine_withCalls]
    rw [← front]
    exact addContent_withCalls ..
  have made : answer host path isKeepAlive code =
      ((start.withCalls []).makeResponse host.files (.new 0)).map outcome := by
    rw [answer, init_ok]
    rfl
  rw [made, general [] (.new 0)]
  apply (general calls buff).trans
  cases (stated.addContent host.files (.new 0)).map outcome with
  | error fault => rfl
  | ok answer => simp [Except.map, Answer.behind]

/-! ## Which file is mapped, and when that fails -/

theorem mmap_none_iff (node : Node) :
    node.mmap node.content.length = none ↔ node.content = [] ∨ node.kind ≠ .regular := by
  simp only [Node.mmap, List.length_eq_zero_iff]
  split_ifs with fails
  · exact iff_of_true rfl fails
  · exact iff_of_false (by simp) fails

theorem mmap_eq_some {node : Node} (maps : ¬ (node.content = [] ∨ node.kind ≠ .regular)) :
    node.mmap node.content.length = some node.content := by
  rw [Node.mmap, if_neg, List.take_length]
  rwa [List.length_eq_zero_iff]

/-- A node that opens is the node that was looked at. -/
theorem stat_of_openFile {files : FileSystem} {name : Bytes} {node : Node}
    (opened : files.openFile name = some node) : files.stat name = some node.stat := by
  have found := (Option.filter_eq_some_iff.mp opened).1
  rw [FileSystem.stat, found]
  rfl

/-- In front of `AddContent` only the code and the `stat` result have changed. -/
theorem stated_eq (resp : HttpResponse) (files : FileSystem) (buff : ByteBuffer) :
    ∃ code, ((resp.decideStatus files).addStateLine buff).1 = { resp with
      resCode := code
      mmFileStat := (files.stat resp.fileName).getD resp.mmFileStat } := by
  have decided : ∃ code, resp.decideStatus files = { resp with
      resCode := code
      mmFileStat := (files.stat resp.fileName).getD resp.mmFileStat } := by
    rw [decideStatus]
    cases files.stat resp.fileName with
    | none => exact ⟨_, rfl⟩
    | some stat =>
      dsimp only
      split_ifs <;> exact ⟨_, rfl⟩
  obtain ⟨code, decided⟩ := decided
  rw [decided, addStateLine]
  cases List.lookup code codeStatus <;> exact ⟨_, rfl⟩

theorem stated_fileName (resp : HttpResponse) (files : FileSystem) (buff : ByteBuffer) :
    ((resp.decideStatus files).addStateLine buff).1.fileName = resp.fileName := by
  obtain ⟨code, stated⟩ := resp.stated_eq files buff
  rw [stated]
  rfl

/-- The length noted for a file that opens is its length. -/
theorem stated_size {resp : HttpResponse} {files : FileSystem} {node : Node} (buff : ByteBuffer)
    (opened : files.openFile resp.fileName = some node) :
    ((resp.decideStatus files).addStateLine buff).1.mmFileStat.size = node.content.length := by
  obtain ⟨code, stated⟩ := resp.stated_eq files buff
  rw [stated, stat_of_openFile opened]
  rfl

/-- How `AddContent` ends when the length noted for a file is its length. -/
inductive AddsContent (resp : HttpResponse) (files : FileSystem) (buff : ByteBuffer) :
    Except Fault (HttpResponse × ByteBuffer) → Prop
  | absent (opened : files.openFile resp.fileName = none) :
      AddsContent resp files buff (.ok (resp, resp.errorContent buff (ascii "File NotFound!")))
  | unmappable {node : Node} (opened : files.openFile resp.fileName = some node)
      (fails : node.content = [] ∨ node.kind ≠ .regular) :
      AddsContent resp files buff (.error .badMapping)
  | discarded {node : Node} (opened : files.openFile resp.fileName = some node)
      (maps : ¬ (node.content = [] ∨ node.kind ≠ .regular))
      (failure : node.content.take 4 = [255, 255, 255, 255]) (calls : List FileCall) :
      AddsContent resp files buff (.ok (resp.withCalls calls,
        (resp.withCalls calls).errorContent buff (ascii "File NotFound!")))
  | mapped {node : Node} (opened : files.openFile resp.fileName = some node)
      (maps : ¬ (node.content = [] ∨ node.kind ≠ .regular))
      (sound : node.content.take 4 ≠ [255, 255, 255, 255]) (addr : ℕ) (calls : List FileCall) :
      AddsContent resp files buff (.ok ({ resp with calls, mmFile := some ⟨addr, node.content⟩ },
        buff.append (ascii "Content-length: " ++ ascii (toString node.content.length) ++
          ascii "\r\n\r\n")))

theorem addContent_adds {resp : HttpResponse} {files : FileSystem}
    (sized : ∀ node, files.openFile resp.fileName = some node →
      resp.mmFileStat.size = node.content.length) (buff : ByteBuffer) :
    AddsContent resp files buff (resp.addContent files buff) := by
  rw [addContent]
  cases opened : files.openFile resp.fileName with
  | none => exact .absent opened
  | some node =>
    simp only [record, sized node opened]
    by_cases fails : node.content = [] ∨ node.kind ≠ .regular
    · rw [(mmap_none_iff node).mpr fails]
      exact .unmappable opened fails
    · rw [mmap_eq_some fails]
      dsimp only
      split_ifs with failure
      · exact .discarded opened fails failure _
      · exact .mapped opened fails failure _ _

/-- The end of `MakeResponse` in terms of its start. -/
theorem makeResponse_adds (resp : HttpResponse) (files : FileSystem) (buff : ByteBuffer) :
    AddsContent ((resp.decideStatus files).addStateLine buff).1 files
      (((resp.decideStatus files).addStateLine buff).1.addHeader
        ((resp.decideStatus files).addStateLine buff).2) (resp.makeResponse files buff) := by
  apply addContent_adds
  intro node opened
  rw [stated_fileName] at opened
  exact stated_size buff opened

/-- The three ways `MakeResponse` ends: no file opens and none is recorded; one opens and cannot be
mapped; one opens and is mapped, and then recorded unless it looks like a failure. -/
theorem makeResponse_cases {resp : HttpResponse} (unmapped : resp.mmFile = none) (files : FileSystem)
    (buff : ByteBuffer) :
    (files.openFile resp.fileName = none ∧
        ∃ made, resp.makeResponse files buff = .ok made ∧ made.1.file? = none) ∨
      ∃ node, files.openFile resp.fileName = some node ∧
        ((node.content = [] ∨ node.kind ≠ .regular) ∧
            resp.makeResponse files buff = .error .badMapping ∨
          ¬ (node.content = [] ∨ node.kind ≠ .regular) ∧
            ∃ made, resp.makeResponse files buff = .ok made ∧
              made.1.mmFileStat.size = node.content.length ∧
              (∀ mapping, made.1.file? = some mapping → mapping.bytes = node.content) ∧
              (node.content.take 4 ≠ [255, 255, 255, 255] → made.1.file?.isSome)) := by
  have adds := resp.makeResponse_adds files buff
  have name := resp.stated_fileName files buff
  have empty : ∀ other : HttpResponse, other.mmFile = none → other.file? = none := by
    intro other none
    rw [file?, none, ite_self]
  have file : ((resp.decideStatus files).addStateLine buff).1.mmFile = none := by
    obtain ⟨code, stated⟩ := resp.stated_eq files buff
    rw [stated]
    exact unmapped
  generalize resp.makeResponse files buff = result at adds
  cases adds with
  | absent opened => exact Or.inl ⟨name ▸ opened, _, rfl, empty _ file⟩
  | unmappable opened fails => exact Or.inr ⟨_, name ▸ opened, Or.inl ⟨fails, rfl⟩⟩
  | discarded opened maps failure calls =>
    rw [name] at opened
    refine Or.inr ⟨_, opened, Or.inr ⟨maps, _, rfl, stated_size buff opened, ?_, ?_⟩⟩
    · intro mapping found
      cases (empty _ file).symm.trans found
    · exact fun sound => absurd failure sound
  | @mapped node opened maps sound addr calls =>
    rw [name] at opened
    have size := stated_size buff opened
    have positive : 0 < node.content.length :=
      List.length_pos_iff.mpr fun none => maps (Or.inl none)
    refine Or.inr ⟨node, opened, Or.inr ⟨maps, _, rfl, size, ?_, ?_⟩⟩
    · intro mapping found
      rw [file?, size, if_pos positive] at found
      rw [← Option.some.inj found]
    · intro _
      rw [file?, size, if_pos positive]
      rfl

/-- What opens and does not begin like a failed mapping is mapped, unless it crashes the process. -/
theorem answer_file {host : Host} {path : Bytes} {isKeepAlive : Bool} {code : ℤ} {made : Answer}
    (opens : host.Opens path) (success : answer host path isKeepAlive code = .ok made) :
    made.file.isSome := by
  obtain ⟨node, opened, sound⟩ := opens
  let start : HttpResponse := ⟨code, isKeepAlive, path, host.srcDir, none, .zero, []⟩
  have run : answer host path isKeepAlive code =
      (start.makeResponse host.files (.new 0)).map outcome := by
    rw [answer, init_ok]
    rfl
  have unmapped : start.mmFile = none := rfl
  rcases makeResponse_cases unmapped host.files (.new 0) with
    ⟨absent, _⟩ | ⟨other, found, ⟨_, crash⟩ | ⟨_, pair, again, _, _, file⟩⟩
  · cases absent.symm.trans opened
  · rw [run, crash] at success
    cases success
  · obtain rfl := Option.some.inj (opened.symm.trans found)
    rw [run, again] at success
    obtain rfl := Except.ok.inj success
    rw [outcome, Option.isSome_map]
    exact file sound

end HttpResponse

end XWebServer
