import XWebServer.Http.Process

/-! # When `Process` reads through a failed mapping

`AddContent` compares the first word of the mapping with -1 instead of comparing the pointer with
`MAP_FAILED`, and neither the status decision nor a failed parse keeps it from opening and mapping.
-/

namespace XWebServer

namespace HttpConn

open HttpRequest

/-- `Process` survives exactly the inputs whose path does not name something that opens but cannot be
mapped. The path of an input whose first line is no request line is empty, so it names `srcDir`. -/
theorem process_survives_iff (host : Host) (conn : HttpConn) :
    conn.process host ≠ .error .badMapping ↔
      conn.readBuff.content = [] ∨ ¬ host.Unmappable (requestPath conn.readBuff.content) := by
  by_cases empty : conn.readBuff.content = []
  · refine iff_of_true ?_ (Or.inl empty)
    rw [process_empty empty]
    simp
  · rcases process_cases empty host with ⟨fails, crash⟩ | ⟨maps, made, next, _, success, _⟩
    · exact iff_of_false (not_not.mpr crash) (not_or.mpr ⟨empty, not_not.mpr fails⟩)
    · refine iff_of_true ?_ (Or.inr maps)
      rw [success]
      simp

/-- A host that serves a directory which, as directories do, can be opened but not mapped. -/
def plainHost : Host where
  cwd := bareHost.cwd
  cwd_name := bareHost.cwd_name
  files name :=
    if name = ascii "/srv/resources/" then some ⟨.directory, List.replicate 4096 0, true, true⟩
    else none

/-- One line that is no request line takes the server down. -/
theorem process_crashes_on_garbage :
    ¬ ∀ (host : Host) (conn : HttpConn), conn.process host ≠ .error .badMapping := by
  intro safe
  have some : (fresh (ascii "x")).readBuff.content ≠ [] := by simp [ascii]
  have directory : plainHost.Unmappable (requestPath (fresh (ascii "x")).readBuff.content) := by
    rw [fresh_content]
    exact ⟨⟨.directory, List.replicate 4096 0, true, true⟩, rfl, Or.inr (by decide)⟩
  rcases process_cases some plainHost with ⟨_, crash⟩ | ⟨maps, _⟩
  · exact safe _ _ crash
  · exact maps directory

end HttpConn

end XWebServer
