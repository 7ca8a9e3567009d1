import XWebServer.Http.Grammar
import XWebServer.Http.RoundTrip
import XWebServer.Webbench.Request

/-! # The server reads the requests of `webbench`

A request in the style of HTTP/1.0 or HTTP/1.1 is a well-formed head: `ParseRequest` reads it back field
by field, and it never asks to keep the connection. A request in the style of HTTP/0.9 has no version, and
the server takes it for a bad one.
-/

namespace XWebServer

open Regex HttpRequest

namespace HttpRequest

/-- Two words are no request line. -/
theorem requestLinePattern_short {method path : Bytes} (methodOk : 32 ∉ method) (pathOk : 32 ∉ path) :
    requestLinePattern.matches? (method ++ ascii " " ++ path) = none := by
  have class_of : ∀ {word : Bytes}, 32 ∉ word → ∀ char ∈ word, notSpace char = true := by
    intro word free char member
    have differs : char ≠ 32 := fun same => free (same ▸ member)
    simpa [notSpace] using differs
  have line : method ++ ascii " " ++ path = method ++ 32 :: ([] ++ path) := by simp [ascii]
  rw [line, requestLinePattern, Pattern.matches?, show ascii " " = [32] from rfl,
    show ascii " HTTP/" = 32 :: [72, 84, 84, 80, 47] from rfl, run_group_until (class_of methodOk) rfl,
    Pattern.run, run_group_many, List.dropWhile_eq_nil_iff.mpr (class_of pathOk)]
  · rfl
  · intro captures char rest member
    have differs : char ≠ 32 := by
      rintro rfl
      cases member
    rw [Pattern.run]
    exact literal_rejects differs

end HttpRequest

namespace Webbench

def versionNumber : Fin 3 → Bytes
  | 0 => []
  | 1 => ascii "1.0"
  | 2 => ascii "1.1"

/-- The header fields of a request. -/
def Options.headers (options : Options) (host : Bytes) : List (Bytes × Bytes) :=
  (ascii "User-Agent", ascii "WebBench 1.5") ::
    ((if options.proxyhost = none then [(ascii "Host", host)] else []) ++
      (if options.forceReload ∧ options.proxyhost ≠ none then [(ascii "Pragma", ascii "no-cache")]
        else []) ++
      (if 1 < options.raised.val then [(ascii "Connection", ascii "close")] else []))

/-- With a version, a request is its request line and its header fields. -/
theorem text_render (options : Options) (versioned : options.raised ≠ 0) (host target : Bytes) :
    options.text host target =
      render options.method.name target (versionNumber options.raised) (options.headers host) := by
  have positive : 0 < options.raised := Fin.pos_iff_ne_zero.mpr versioned
  have version : ∀ http10 : Fin 3, http10 ≠ 0 →
      versionText http10 = ascii " HTTP/" ++ versionNumber http10 := by decide
  rw [Options.text, Options.fields, version _ versioned, render, renderHeaders, Options.headers]
  have newer : 1 < options.raised ↔ 1 < options.raised.val := Iff.rfl
  simp only [positive, newer, and_true, if_true]
  split_ifs <;> simp [ascii]

/-- None of them asks to keep the connection. -/
theorem headers_connection (options : Options) (host : Bytes) :
    headerTable (options.headers host) (ascii "Connection") =
      if 1 < options.raised.val then some (ascii "close") else none := by
  rw [Options.headers]
  split_ifs <;> rfl

private theorem isHeader_of_mem_ite {condition : Prop} [Decidable condition] {field : Bytes × Bytes}
    (proper : IsHeader field) : ∀ header ∈ if condition then [field] else [], IsHeader header := by
  intro header member
  split_ifs at member
  · rw [List.mem_singleton.mp member]
    exact proper
  · cases member

theorem isHeader_of_mem (options : Options) {host : Bytes} (line : 13 ∉ host ∧ 10 ∉ host) :
    ∀ header ∈ options.headers host, IsHeader header := by
  rw [Options.headers, List.forall_mem_cons, List.forall_mem_append, List.forall_mem_append]
  refine ⟨⟨by decide, by decide, by decide⟩, ⟨isHeader_of_mem_ite ?_, ?_⟩, ?_⟩
  · exact ⟨show 58 ∉ ascii "Host" by decide, show 13 ∉ ascii "Host" ∧ 10 ∉ ascii "Host" by decide, line⟩
  · exact isHeader_of_mem_ite ⟨by decide, by decide, by decide⟩
  · exact isHeader_of_mem_ite ⟨by decide, by decide, by decide⟩

theorem name_word (method : Method) : IsWord method.name := by cases method <;> decide

theorem versionNumber_word : ∀ http10 : Fin 3, IsWord (versionNumber http10) := by decide

/-- The request as a head. -/
def Options.head (options : Options) {host target : Bytes} (line : 13 ∉ host ∧ 10 ∉ host)
    (word : IsWord target) : RequestHead where
  method := options.method.name
  target := target
  version := versionNumber options.raised
  fields := (options.headers host).pmap HeaderField.ofHeader (isHeader_of_mem options line)
  method_word := name_word options.method
  target_word := word
  version_word := versionNumber_word options.raised

variable {options : Options} {host target : Bytes} {line : 13 ∉ host ∧ 10 ∉ host} {word : IsWord target}

theorem bytes_head (versioned : options.raised ≠ 0) :
    (options.head line word).bytes = options.text host target := by
  rw [text_render options versioned, RequestHead.bytes, RequestHead.requestLine, Options.head,
    fieldBytes_ofHeader, render]
  simp [ascii]

/-- What the server has read at the end of the request. -/
theorem request_head : (options.head line word).request =
    { parsePath { init with
        method := options.method.name
        path := target
        version := versionNumber options.raised
        state := .headers } with
      header := headerTable (options.headers host) } := by
  rw [RequestHead.request, Options.head]
  apply (readFields_ofHeader (isHeader_of_mem options line) _).trans
  congr 1
  funext name
  exact Option.or_none

theorem isKeepAlive_head : (options.head line word).request.isKeepAlive = false := by
  rw [request_head, isKeepAlive]
  dsimp only
  rw [headers_connection]
  split_ifs <;> rfl

/-- In the style of HTTP/0.9 there is no request line. -/
theorem not_accepts_short (unversioned : options.raised = 0) (word : IsWord target) {buff : ByteBuffer}
    (holds : buff.content = options.text host target) : ¬ Accepts buff := by
  have method := name_word options.method
  have text : options.text host target = (options.method.name ++ ascii " " ++ target) ++ 13 :: 10 ::
      (if options.forceReload ∧ options.proxyhost ≠ none then ascii "Pragma: no-cache\r\n" else []) := by
    rw [Options.text, Options.fields, unversioned]
    simp [versionText, ascii]
  have free : 13 ∉ options.method.name ++ ascii " " ++ target := by
    simp [ascii, method.2.1, word.2.1]
  rw [accepts_iff (by rw [holds, text]; simp), holds, text, cutLine, Lines.cut_append free, IsRequestLine,
    requestLinePattern_short method.1 word.1]
  exact Bool.false_ne_true

theorem word_subset {part whole : Bytes} (word : IsWord whole) (subset : part ⊆ whole) : IsWord part :=
  ⟨fun member => word.1 (subset member), fun member => word.2.1 (subset member),
    fun member => word.2.2 (subset member)⟩

theorem target_subset (options : Options) (url : Bytes) (start : ℕ) :
    options.target url start ⊆ url := by
  rw [Options.target]
  split_ifs
  · exact List.Subset.trans (List.dropWhile_suffix _).subset (List.drop_subset ..)
  · exact List.Subset.refl _

theorem hostName_subset (url : Bytes) (start : ℕ) : hostName (authority url start) ⊆ url := by
  intro char member
  have inside : char ∈ authority url start := (List.takeWhile_prefix _).subset member
  exact List.mem_of_mem_drop ((List.takeWhile_prefix _).subset inside)

/-- The request for a URL without a space and a line end, in a read buffer of the server: with a version
`ParseRequest` reads back the method, the path, the version and the fields, consumes all of it, and does
not keep the connection; without one it fails. -/
theorem request_understood (options : Options) {url : Bytes} (string : 0 ∉ url) (word : IsWord url)
    {start : ℕ} (accepted : options.checkUrl url = .ok start) {built : Built}
    (run : buildRequest options url = .ok built) :
    ∃ text, CString.value built.request = some text ∧ ∀ buff : ByteBuffer, buff.content = text →
      (built.http10 = 0 → ¬ Accepts buff) ∧
      (built.http10 ≠ 0 → ∃ req left, init.parseRequest buff = .ok (true, req, left) ∧
        req.method = options.method.name ∧ req.path = rewritePath (options.target url start) ∧
        req.version = versionNumber built.http10 ∧
        (∀ name, req.header name =
          headerTable (options.headers (hostName (authority url start))) name) ∧
        req.isKeepAlive = false ∧ req.state = .finish ∧ left.content = []) := by
  obtain ⟨version, holds⟩ := built_of_run options string accepted run
  refine ⟨_, holds.value, fun buff content => ?_⟩
  rw [version]
  have asked : IsWord (options.target url start) := word_subset word (target_subset options url start)
  have named : IsWord (hostName (authority url start)) := word_subset word (hostName_subset url start)
  refine ⟨fun unversioned => not_accepts_short unversioned asked content, fun versioned => ?_⟩
  let head := options.head named.2 asked
  have bytes : head.bytes = _ := bytes_head versioned
  obtain ⟨left, parsed, consumed⟩ := parseRequest_eq init buff
  rw [content, ← bytes, head.parse_bytes] at parsed consumed
  have request : head.request = _ := request_head
  refine ⟨_, left, parsed, ?_, ?_, ?_, fun name => ?_, isKeepAlive_head, rfl, consumed⟩
  · rw [request]
    rfl
  · rw [request]
    rfl
  · rw [request]
    rfl
  · rw [request]

/-- The server reads the request for its own start page. -/
theorem request_understood_plain : ∃ built text,
    buildRequest plainGet (ascii "http://localhost:12345/") = .ok built ∧
      CString.value built.request = some text ∧
      ∀ buff : ByteBuffer, buff.content = text → ∃ req left,
        init.parseRequest buff = .ok (true, req, left) ∧ req.path = ascii "/index.html" ∧
          req.header (ascii "Host") = some (ascii "localhost") ∧ left.content = [] := by
  have string : 0 ∉ ascii "http://localhost:12345/" := by decide
  have accepted : plainGet.checkUrl (ascii "http://localhost:12345/") = .ok 7 := by decide
  obtain ⟨built, run, version, _⟩ := (buildRequest_direct plainGet string accepted rfl).1 (by decide)
  obtain ⟨text, holds, reads⟩ := request_understood plainGet string (by decide) accepted run
  refine ⟨built, text, run, holds, fun buff content => ?_⟩
  obtain ⟨req, left, parsed, _, path, _, header, _, _, consumed⟩ :=
    (reads buff content).2 (by rw [version]; decide)
  refine ⟨req, left, parsed, ?_, ?_, consumed⟩
  · rw [path]
    decide
  · rw [header]
    decide

end Webbench

end XWebServer
