import XWebServer.Http.Process
import XWebServer.Lib.LexicalPath

/-! # Which file names a request can reach

The name `Process` hands to `stat` and `open` is resolved lexically, component by component. The path of
the request line is appended to `srcDir` as it came, so a request stays inside exactly when its path,
brought into normal form, does not climb above `srcDir`, or climbs and comes back down the same way.
-/

namespace XWebServer

open LexicalPath

/-- One component of a path. -/
def component (name : Bytes) : Move Bytes :=
  if name = [] ∨ name = ascii "." then .stay
  else if name = ascii ".." then .up
  else .enter name

def components (name : Bytes) : List (Move Bytes) := (name.splitOn 47).map component

/-- What an absolute name resolves to, as the names from the root. -/
def resolve (name : Bytes) : List Bytes := walk [] (components name)

/-- A path behind a slash is walked from the directory in front of it. -/
theorem resolve_append_slash (front path : Bytes) :
    resolve (front ++ 47 :: path) = walk (resolve front) (components path) := by
  rw [resolve, components, List.splitOn_append_cons_self, List.map_append, walk_append]
  rfl

namespace Host

/-- `srcDir` ends in a slash. -/
theorem srcDir_eq (host : Host) : host.srcDir = (host.cwd ++ ascii "/resources") ++ [47] := by
  simp [srcDir, ascii]

theorem resolve_srcDir (host : Host) : resolve host.srcDir = resolve (host.cwd ++ ascii "/resources") := by
  rw [srcDir_eq, resolve_append_slash]
  rfl

/-- The name of a path ends where the path has its first NUL. -/
theorem fileName_eq (host : Host) (path : Bytes) : host.fileName path = host.srcDir ++ cString path := by
  have free : ∀ char ∈ host.srcDir, (char != 0) = true := by
    intro char member
    rcases List.mem_append.mp member with inCwd | inTail
    · exact bne_iff_ne.mpr fun zero => host.cwd_name (zero ▸ inCwd)
    · have named : (ascii "/resources/").all (· != 0) = true := rfl
      exact List.all_eq_true.mp named char inTail
  exact List.takeWhile_append_of_pos free

theorem resolve_fileName (host : Host) (path : Bytes) :
    resolve (host.fileName path) = walk (resolve host.srcDir) (components (cString path)) := by
  rw [fileName_eq, resolve_srcDir, srcDir_eq, List.append_assoc]
  exact resolve_append_slash ..

/-- The path stays below `srcDir`, or climbs some levels and comes back through the very directories it
left. -/
def StaysInside (host : Host) (path : Bytes) : Prop :=
  let climbed := climb (components (cString path))
  let base := resolve host.srcDir
  base.drop (base.length - climbed.levels) <+: climbed.names

instance (host : Host) (path : Bytes) : Decidable (host.StaysInside path) :=
  inferInstanceAs (Decidable (_ <+: _))

theorem staysInside_iff (host : Host) (path : Bytes) :
    host.StaysInside path ↔ resolve host.srcDir <+: resolve (host.fileName path) := by
  rw [resolve_fileName, prefix_walk_iff]
  rfl

/-- A path that never climbs stays inside. -/
theorem staysInside_of_low {host : Host} {path : Bytes}
    (low : (climb (components (cString path))).levels = 0) : host.StaysInside path := by
  rw [staysInside_iff, resolve_fileName]
  exact prefix_walk_of_levels_zero _ _ low

/-- The fixed pages that `ParsePath` rewrites stay inside before and after. -/
theorem staysInside_rewritePath (host : Host) (path : Bytes) :
    host.StaysInside (HttpRequest.rewritePath path) ↔ host.StaysInside path := by
  rw [HttpRequest.rewritePath]
  split_ifs with root page
  · subst root
    exact iff_of_true (staysInside_of_low (by decide)) (staysInside_of_low (by decide))
  · have low : ∀ page ∈ HttpRequest.defaultHtml,
        (climb (components (cString page))).levels = 0 ∧
          (climb (components (cString (page ++ ascii ".html")))).levels = 0 := by decide
    exact iff_of_true (staysInside_of_low (low path page).2) (staysInside_of_low (low path page).1)
  · rfl

end Host

namespace HttpConn

open HttpRequest

/-- The names `MakeResponse` hands to `stat` and to `open`. -/
def handedNames (host : Host) (buff : ByteBuffer) (started : HttpResponse) : List Bytes :=
  [started.fileName, ((started.decideStatus host.files).addStateLine buff).1.fileName]

/-- Every name `Process` hands to `stat` and `open` resolves to `srcDir` or below. -/
def Confined (host : Host) (conn : HttpConn) : Prop :=
  ∀ next started, conn.readBuff.readableBytes ≠ 0 →
    startResponse host { conn with request := .init } = .ok (next, started) →
      ∀ name ∈ handedNames host conn.writeBuff started, resolve host.srcDir <+: resolve name

/-- The path as it stands in the first line, and the empty path when that is no request line. -/
def rawPath (input : Bytes) : Bytes := (linePath? (cutLine input).1).getD []

theorem staysInside_requestPath (host : Host) (input : Bytes) :
    host.StaysInside (requestPath input) ↔ host.StaysInside (rawPath input) := by
  unfold requestPath rawPath
  cases linePath? (cutLine input).1 with
  | none => rfl
  | some path => exact host.staysInside_rewritePath path

/-- Both calls get the name of the request path. -/
theorem handedNames_eq (host : Host) (conn : HttpConn) (some : conn.readBuff.content ≠ []) :
    ∃ next started, startResponse host { conn with request := .init } = .ok (next, started) ∧
      handedNames host conn.writeBuff started =
        [host.fileName (requestPath conn.readBuff.content),
          host.fileName (requestPath conn.readBuff.content)] := by
  obtain ⟨left, _, started⟩ :=
    startResponse_ok (show { conn with request := HttpRequest.init }.request = .init from rfl) host
  refine ⟨_, _, started, ?_⟩
  rw [handedNames, HttpResponse.stated_fileName]
  rw [HttpResponse.fileName, startedFor, (parse_init some).2]
  rfl

/-- The names handed over stay inside `srcDir` exactly when the path of the request line does. -/
theorem confined_iff (host : Host) (conn : HttpConn) :
    Confined host conn ↔
      conn.readBuff.content = [] ∨ host.StaysInside (rawPath conn.readBuff.content) := by
  rw [← staysInside_requestPath, host.staysInside_iff]
  by_cases empty : conn.readBuff.content = []
  · refine iff_of_true (fun _ _ readable => absurd ?_ readable) (Or.inl empty)
    rw [← conn.readBuff.content_length, empty]
    rfl
  · obtain ⟨next, started, run, names⟩ := handedNames_eq host conn empty
    have readable : conn.readBuff.readableBytes ≠ 0 := by
      rw [← conn.readBuff.content_length]
      exact mt List.length_eq_zero_iff.mp empty
    constructor
    · intro confined
      exact Or.inr (confined next started readable run _ (by rw [names]; exact List.mem_cons_self))
    · rintro (absurdity | inside) other response _ again name member
      · exact absurd absurdity empty
      · obtain ⟨rfl, rfl⟩ := Prod.mk.inj (Except.ok.inj (run.symm.trans again))
        rw [names, List.mem_cons, List.mem_singleton, or_self] at member
        rw [member]
        exact inside

/-- `GET /../../etc/passwd` asks for `/etc/passwd` when the server is started in `/srv`. -/
theorem not_confined_of_dots :
    ¬ ∀ (host : Host) (conn : HttpConn), Confined host conn := by
  intro confined
  let input := ascii "GET /../../etc/passwd HTTP/1.1\r\n\r\n"
  have content := fresh_content input
  have some : (fresh input).readBuff.content ≠ [] := by
    rw [content]
    decide
  obtain ⟨next, started, run, names⟩ := handedNames_eq bareHost (fresh input) some
  have readable : (fresh input).readBuff.readableBytes ≠ 0 := by
    rw [← (fresh input).readBuff.content_length]
    exact mt List.length_eq_zero_iff.mp some
  have inside := confined bareHost (fresh input) next started readable run (bareHost.fileName (requestPath input))
    (by rw [names, content]; exact List.mem_cons_self)
  rw [← bareHost.staysInside_iff, staysInside_requestPath] at inside
  revert inside
  decide

end HttpConn

end XWebServer
