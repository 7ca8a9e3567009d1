import XWebServer.Basic
import XWebServer.Lib.CString
import Mathlib.Data.Fin.Basic

/-! # `webbench`: the request it sends

`build_request` of the load generator that comes with the server. It writes into three arrays: `host`,
`request`, and `tmp` for the digits of the port. The URL and the name of a proxy are strings of the
command line; every access to the arrays is checked, and one behind their end ends the run.
`buildRequest_completes` says for which URLs there is none, and what the request then is.
-/

namespace XWebServer

namespace Webbench

open CString

/-- `MAXHOSTNAMELEN`, as `sys/param.h` has it on Linux. -/
def maxHostNameLen : ℕ := 64

/-- `REQUEST_SIZE`. -/
def requestSize : ℕ := 2048

/-- `METHOD_GET` and the others. -/
inductive Method where
  | get
  | head
  | options
  | trace
deriving DecidableEq, Repr

def Method.name : Method → Bytes
  | .get => ascii "GET"
  | .head => ascii "HEAD"
  | .options => ascii "OPTIONS"
  | .trace => ascii "TRACE"

/-- What the command line sets. `http10` is 0 for HTTP/0.9, 1 for HTTP/1.0 and 2 for HTTP/1.1. -/
structure Options where
  method : Method
  http10 : Fin 3
  forceReload : Bool
  proxyhost : Option Bytes
  proxyport : ℤ

/-- The ends of a run: an exit code with what was printed, or an access that leaves an array. -/
inductive Abort where
  | exit (status : ℕ) (message : Bytes)
  | outOfBounds
deriving DecidableEq, Repr

def inBounds {α : Type} : Option α → Except Abort α
  | some value => .ok value
  | none => .error .outOfBounds

/-- What `build_request` leaves in the global variables. -/
structure Built where
  http10 : Fin 3
  host : Bytes
  proxyport : ℤ
  request : Bytes

/-- The version that the other options force. -/
def Options.raised (options : Options) : Fin 3 :=
  let http10 := options.http10
  let http10 := if options.forceReload ∧ options.proxyhost ≠ none ∧ http10 < 1 then 1 else http10
  let http10 := if options.method = .head ∧ http10 < 1 then 1 else http10
  let http10 := if options.method = .options ∧ http10 < 2 then 2 else http10
  if options.method = .trace ∧ http10 < 2 then 2 else http10

/-- The checks of the URL, and the offset behind its `://`. -/
def Options.checkUrl (options : Options) (url : Bytes) : Except Abort ℕ :=
  match strstr url (ascii "://") with
  | none => .error (.exit 2 (ascii "\n" ++ url ++ ascii ": is not a valid URL.\n"))
  | some found =>
      if 1500 < url.length then .error (.exit 2 (ascii "URL is too long.\n"))
      else if options.proxyhost = none ∧ ¬ startsWith (ascii "http://") url then
        .error (.exit 2
          (ascii "\nOnly HTTP protocol is directly supported, set --proxy for others.\n"))
      else if strchr (url.drop (found + 3)) 47 = none then
        .error (.exit 2 (ascii "\nInvalid URL syntax - hostname don't ends with '/'.\n"))
      else .ok (found + 3)

/-- The offsets of the colon and of the slash, where a port is given. -/
def portAt (rest : Bytes) : Option (ℕ × ℕ) := do
  let colon ← strchr rest 58
  let slash ← strchr rest 47
  if colon < slash then some (colon, slash) else none

/-- The array `host` and the port. `atoi` is asked for a string: a `tmp` without a NUL byte counts as an access
behind its end, also where a character that is no digit would stop `atoi` in it. -/
def Options.takeHost (options : Options) (rest : Bytes) : Except Abort (Bytes × ℤ) :=
  match portAt rest with
  | some (colon, slash) => do
      let host ← inBounds (strncpy (List.replicate maxHostNameLen 0) rest colon)
      let tmp ← inBounds (strncpy (List.replicate 10 0) (rest.drop (colon + 1)) (slash - colon - 1))
      let port := atoi (← inBounds (value tmp))
      .ok (host, if port = 0 then 80 else port)
  | none => do
      let host ← inBounds (strncpy (List.replicate maxHostNameLen 0) rest (strcspn rest 47))
      .ok (host, options.proxyport)

/-- `strcat` under a condition. -/
def appendIf (condition : Prop) [Decidable condition] (request text : Bytes) : Except Abort Bytes :=
  if condition then inBounds (strcat request text) else .ok request

/-- The line `Host: `, where no proxy is asked. -/
def Options.appendHost (options : Options) (http10 : Fin 3) (request host : Bytes) :
    Except Abort Bytes :=
  if options.proxyhost = none ∧ 0 < http10 then do
    let request ← inBounds (strcat request (ascii "Host: "))
    let request ← inBounds (strcat request (← inBounds (value host)))
    inBounds (strcat request (ascii "\r\n"))
  else .ok request

/-- The rest of the first line, and the line `User-Agent: `. -/
def appendLine (http10 : Fin 3) (request : Bytes) : Except Abort Bytes := do
  let request ← appendIf (http10 = 1) request (ascii " HTTP/1.0")
  let request ← appendIf (http10 = 2) request (ascii " HTTP/1.1")
  let request ← inBounds (strcat request (ascii "\r\n"))
  appendIf (0 < http10) request (ascii "User-Agent: WebBench 1.5\r\n")

/-- The last lines. -/
def Options.appendEnd (options : Options) (http10 : Fin 3) (request : Bytes) : Except Abort Bytes := do
  let request ← appendIf (options.forceReload ∧ options.proxyhost ≠ none) request
    (ascii "Pragma: no-cache\r\n")
  let request ← appendIf (1 < http10) request (ascii "Connection: close\r\n")
  appendIf (0 < http10) request (ascii "\r\n")

/-- What follows the target. -/
def Options.appendFields (options : Options) (http10 : Fin 3) (host request : Bytes) :
    Except Abort Bytes := do
  let request ← appendLine http10 request
  let request ← options.appendHost http10 request host
  options.appendEnd http10 request

def buildRequest (options : Options) (url : Bytes) : Except Abort Built := do
  let http10 := options.raised
  let request ← inBounds (strcpy (List.replicate requestSize 0) options.method.name)
  let request ← inBounds (strcat request (ascii " "))
  let start ← options.checkUrl url
  let rest := url.drop start
  if options.proxyhost = none then
    let (host, proxyport) ← options.takeHost rest
    let request ← inBounds (strcat request (rest.drop (strcspn rest 47)))
    .ok ⟨http10, host, proxyport, ← options.appendFields http10 host request⟩
  else
    let host := List.replicate maxHostNameLen 0
    let request ← inBounds (strcat request url)
    .ok ⟨http10, host, options.proxyport, ← options.appendFields http10 host request⟩

/-! ## What it stands for -/

/-- What stands between `://` and the next slash. -/
def authority (url : Bytes) (start : ℕ) : Bytes := (url.drop start).takeWhile (· ≠ 47)

def hostName (authority : Bytes) : Bytes := authority.takeWhile (· ≠ 58)

/-- The port, where there is a colon. -/
def portText (authority : Bytes) : Option Bytes :=
  if 58 ∈ authority then some ((authority.dropWhile (· ≠ 58)).drop 1) else none

/-- What is asked for: the path of the URL, or the URL where a proxy is asked. -/
def Options.target (options : Options) (url : Bytes) (start : ℕ) : Bytes :=
  if options.proxyhost = none then (url.drop start).dropWhile (· ≠ 47) else url

/-- The arrays `host` and `tmp` take the host and the port with a NUL byte behind them. The host needs
none when it is not written into the request. -/
def Fits (http10 : Fin 3) (authority : Bytes) : Prop :=
  ((hostName authority).length < maxHostNameLen ∨
      (hostName authority).length = maxHostNameLen ∧ http10 = 0) ∧
    ∀ port ∈ portText authority, port.length < 10

instance (http10 : Fin 3) (authority : Bytes) : Decidable (Fits http10 authority) :=
  inferInstanceAs (Decidable (_ ∧ _))

def versionText : Fin 3 → Bytes
  | 0 => []
  | 1 => ascii " HTTP/1.0"
  | 2 => ascii " HTTP/1.1"

/-- What follows the target. -/
def Options.fields (options : Options) (host : Bytes) : Bytes :=
  versionText options.raised ++ ascii "\r\n" ++
    (if 0 < options.raised then ascii "User-Agent: WebBench 1.5\r\n" else []) ++
    (if options.proxyhost = none ∧ 0 < options.raised then ascii "Host: " ++ host ++ ascii "\r\n"
      else []) ++
    (if options.forceReload ∧ options.proxyhost ≠ none then ascii "Pragma: no-cache\r\n" else []) ++
    (if 1 < options.raised then ascii "Connection: close\r\n" else []) ++
    (if 0 < options.raised then ascii "\r\n" else [])

/-- The request as one text. -/
def Options.text (options : Options) (host target : Bytes) : Bytes :=
  options.method.name ++ ascii " " ++ target ++ options.fields host

/-- The port that the benchmark connects to. -/
def Options.port (options : Options) (authority : Bytes) : ℤ :=
  match portText authority with
  | none => options.proxyport
  | some text => if atoi text = 0 then 80 else atoi text

/-! ## The arrays -/

theorem bind_of {ε α β : Type} {first : Except ε α} {value : α} (run : first = .ok value)
    (next : α → Except ε β) : (first >>= next) = next value := by
  rw [run]
  rfl

theorem bind_error {ε α β : Type} {first : Except ε α} {error : ε} (run : first = .error error)
    (next : α → Except ε β) : (first >>= next) = .error error := by
  rw [run]
  rfl

/-- `request` holds a text of at most so many bytes. -/
structure Holds (array text : Bytes) (limit : ℕ) : Prop where
  value : value array = some text
  length : array.length = requestSize
  short : text.length ≤ limit

namespace Holds

variable {array text : Bytes} {limit : ℕ}

theorem append (holds : Holds array text limit) (more : Bytes) (size : ℕ) (free : 0 ∉ more)
    (short : more.length ≤ size) (room : limit + size < requestSize) :
    ∃ next, inBounds (strcat array more) = .ok next ∧ Holds next (text ++ more) (limit + size) := by
  have before := holds.short
  have fits : text.length + more.length < array.length := by
    rw [holds.length]
    omega
  obtain ⟨next, run, value⟩ := strcat_of holds.value free fits
  refine ⟨next, by rw [run]; rfl, value, (length_of_strcat run).trans holds.length, ?_⟩
  rw [List.length_append]
  omega

theorem appendIf (holds : Holds array text limit) (condition : Prop) [Decidable condition]
    (more : Bytes) (size : ℕ) (free : 0 ∉ more) (short : more.length ≤ size)
    (room : limit + size < requestSize) :
    ∃ next, appendIf condition array more = .ok next ∧
      Holds next (text ++ if condition then more else []) (limit + size) := by
  rw [Webbench.appendIf]
  split_ifs with met
  · exact holds.append more size free short room
  · refine ⟨array, rfl, ?_, holds.length, ?_⟩
    · rw [List.append_nil]
      exact holds.value
    · rw [List.append_nil]
      exact holds.short.trans (Nat.le_add_right ..)

/-- Where the name of the host is needed, the array `host` has to end it. -/
theorem appendHost (holds : Holds array text limit) (options : Options) (http10 : Fin 3) (size : ℕ)
    {host name : Bytes}
    (held : options.proxyhost = none ∧ 0 < http10 → CString.value host = some name)
    (short : name.length ≤ size) (room : limit + size + 8 < requestSize) :
    ∃ next, options.appendHost http10 array host = .ok next ∧
      Holds next (text ++ if options.proxyhost = none ∧ 0 < http10 then
        ascii "Host: " ++ name ++ ascii "\r\n" else []) (limit + size + 8) := by
  rw [Options.appendHost]
  split_ifs with needed
  · have found := held needed
    obtain ⟨first, label, holds1⟩ := holds.append (ascii "Host: ") 6 (by decide) (by decide)
      (by omega)
    obtain ⟨second, named, holds2⟩ := holds1.append name size (eq_of_value found).1 short
      (by omega)
    obtain ⟨third, ended, holds3⟩ := holds2.append (ascii "\r\n") 2 (by decide) (by decide)
      (by omega)
    have read : inBounds (CString.value host) = .ok name := by
      rw [found]
      rfl
    refine ⟨third, ?_, ?_⟩
    · rw [bind_of label, bind_of read, bind_of named, ended]
    · have limits : limit + 6 + size + 2 = limit + size + 8 := by omega
      rw [← limits]
      simpa only [List.append_assoc] using holds3
  · refine ⟨array, rfl, ?_, holds.length, ?_⟩
    · rw [List.append_nil]
      exact holds.value
    · rw [List.append_nil]
      exact holds.short.trans (by omega)

end Holds

theorem versionText_eq : ∀ http10 : Fin 3, versionText http10 =
    (if http10 = 1 then ascii " HTTP/1.0" else []) ++ (if http10 = 2 then ascii " HTTP/1.1" else []) := by
  decide

theorem appendLine_of (http10 : Fin 3) {array text : Bytes} (holds : Holds array text 1508) :
    ∃ next, appendLine http10 array = .ok next ∧
      Holds next (text ++ (versionText http10 ++ ascii "\r\n" ++
        if 0 < http10 then ascii "User-Agent: WebBench 1.5\r\n" else [])) 1554 := by
  obtain ⟨_, version, holds⟩ := holds.appendIf (http10 = 1) (ascii " HTTP/1.0") 9
    (by decide) (by decide) (by decide)
  obtain ⟨_, version', holds⟩ := holds.appendIf (http10 = 2) (ascii " HTTP/1.1") 9
    (by decide) (by decide) (by decide)
  obtain ⟨_, line, holds⟩ := holds.append (ascii "\r\n") 2 (by decide) (by decide) (by decide)
  obtain ⟨last, agent, holds⟩ := holds.appendIf (0 < http10) (ascii "User-Agent: WebBench 1.5\r\n") 26
    (by decide) (by decide) (by decide)
  refine ⟨last, ?_, ?_⟩
  · rw [appendLine, bind_of version, bind_of version', bind_of line, agent]
  · rw [versionText_eq]
    simpa only [List.append_assoc] using holds

theorem appendEnd_of (options : Options) (http10 : Fin 3) {array text : Bytes}
    (holds : Holds array text 1626) :
    ∃ next, options.appendEnd http10 array = .ok next ∧
      Holds next (text ++ ((if options.forceReload ∧ options.proxyhost ≠ none then
          ascii "Pragma: no-cache\r\n" else []) ++
        (if 1 < http10 then ascii "Connection: close\r\n" else []) ++
        (if 0 < http10 then ascii "\r\n" else []))) 1665 := by
  obtain ⟨_, pragma, holds⟩ := holds.appendIf (options.forceReload ∧ options.proxyhost ≠ none)
    (ascii "Pragma: no-cache\r\n") 18 (by decide) (by decide) (by decide)
  obtain ⟨_, connection, holds⟩ := holds.appendIf (1 < http10) (ascii "Connection: close\r\n") 19
    (by decide) (by decide) (by decide)
  obtain ⟨last, ended, holds⟩ := holds.appendIf (0 < http10) (ascii "\r\n") 2
    (by decide) (by decide) (by decide)
  refine ⟨last, ?_, ?_⟩
  · rw [Options.appendEnd, bind_of pragma, bind_of connection, ended]
  · simpa only [List.append_assoc] using holds

/-- The fields follow where the array `host` ends the name that they need. -/
theorem appendFields_of (options : Options) {array text : Bytes} (holds : Holds array text 1508)
    {host name : Bytes} (held : options.proxyhost = none ∧ 0 < options.raised → value host = some name)
    (short : name.length ≤ maxHostNameLen) :
    ∃ next, options.appendFields options.raised host array = .ok next ∧
      Holds next (text ++ options.fields name) 1665 := by
  obtain ⟨_, line, holds⟩ := appendLine_of options.raised holds
  obtain ⟨_, named, holds⟩ := holds.appendHost options options.raised 64 held short (by decide)
  obtain ⟨last, ended, holds⟩ := appendEnd_of options options.raised holds
  refine ⟨last, ?_, ?_⟩
  · rw [Options.appendFields, bind_of line, bind_of named, ended]
  · rw [Options.fields]
    simpa only [List.append_assoc] using holds

/-- Else the name is read past the end of the array. -/
theorem appendFields_unterminated (options : Options) {array text : Bytes} (holds : Holds array text 1508)
    {host : Bytes} (needed : options.proxyhost = none ∧ 0 < options.raised) (endless : value host = none) :
    options.appendFields options.raised host array = .error .outOfBounds := by
  obtain ⟨_, line, holds⟩ := appendLine_of options.raised holds
  obtain ⟨_, label, _⟩ := holds.append (ascii "Host: ") 6 (by decide) (by decide) (by decide)
  have unread : inBounds (value host) = .error .outOfBounds := by
    rw [endless]
    rfl
  rw [Options.appendFields, bind_of line, Options.appendHost, if_pos needed, bind_of label,
    bind_error unread]
  rfl

/-! ## The host and the port -/

/-- The authority is the name of the host, or that, a colon and the port. -/
theorem portText_cases (authority : Bytes) :
    (58 ∉ authority ∧ hostName authority = authority ∧ portText authority = none) ∨
      ∃ port, portText authority = some port ∧ authority = hostName authority ++ 58 :: port := by
  by_cases colon : 58 ∈ authority
  · right
    obtain ⟨port, split⟩ := exists_eq_append colon
    have text : portText authority = some port := by
      rw [portText, if_pos colon, split, dropWhile_of_notMem (notMem_takeWhile authority 58)]
      rfl
    exact ⟨port, text, split⟩
  · left
    refine ⟨colon, ?_, if_neg colon⟩
    rw [hostName, List.takeWhile_eq_self_iff]
    intro char member
    have differs : char ≠ 58 := fun same => colon (same ▸ member)
    exact decide_eq_true differs

/-- There is a port when the colon stands in front of the slash. -/
theorem portAt_append {authority : Bytes} (free : 47 ∉ authority) (path : Bytes) :
    portAt (authority ++ 47 :: path) =
      (portText authority).map fun _ => ((hostName authority).length, authority.length) := by
  rw [portAt, strchr_append free]
  rcases portText_cases authority with ⟨noColon, _, none⟩ | ⟨port, found, split⟩
  · rw [none, strchr]
    split_ifs
    · have differs : ∀ char ∈ authority, decide (char ≠ 58) = true := fun char member =>
        decide_eq_true fun same => noColon (same ▸ member)
      rw [List.takeWhile_append_of_pos differs]
      exact if_neg (by simp)
    · rfl
  · have colon : strchr (authority ++ 47 :: path) 58 = some (hostName authority).length := by
      have clean : 58 ∉ hostName authority := notMem_takeWhile authority 58
      have whole : authority ++ 47 :: path = hostName authority ++ 58 :: (port ++ 47 :: path) := by
        rw [← List.cons_append, ← List.append_assoc, ← split]
      rw [whole, strchr_append clean]
    have before : (hostName authority).length < authority.length := by
      have length := congrArg List.length split
      rw [List.length_append, List.length_cons] at length
      omega
    rw [colon, found]
    exact if_pos before

/-- `tmp` holds the port and a NUL byte behind it, or there is none of the two. -/
theorem tmp_cases {port : Bytes} (clean : 0 ∉ port) (path : Bytes) :
    (port.length < 10 ∧ ∃ tmp,
        inBounds (strncpy (List.replicate 10 0) (port ++ 47 :: path) port.length) = .ok tmp ∧
          inBounds (value tmp) = .ok port) ∨
      10 ≤ port.length ∧
        ((∃ tmp, inBounds (strncpy (List.replicate 10 0) (port ++ 47 :: path) port.length) = .ok tmp ∧
            inBounds (value tmp) = .error .outOfBounds) ∨
          inBounds (strncpy (List.replicate 10 0) (port ++ 47 :: path) port.length) =
            .error .outOfBounds) := by
  have copied := strncpy_cleared (show port.length ≤ (port ++ 47 :: path).length by simp) 10
  have ended := value_cleared clean (10 - port.length)
  rw [List.take_left] at copied
  rw [copied]
  by_cases fits : port.length ≤ 10
  · rw [if_pos fits]
    by_cases few : port.length < 10
    · rw [if_neg (by omega)] at ended
      exact .inl ⟨few, _, rfl, by rw [ended]; rfl⟩
    · rw [if_pos (by omega)] at ended
      exact .inr ⟨by omega, .inl ⟨_, rfl, by rw [ended]; rfl⟩⟩
  · rw [if_neg fits]
    exact .inr ⟨by omega, .inr rfl⟩

/-- The arrays take the host and the port unless these are too long. -/
theorem takeHost_append (options : Options) {authority : Bytes} (free : 47 ∉ authority)
    (string : 0 ∉ authority) (path : Bytes) :
    options.takeHost (authority ++ 47 :: path) =
      if (hostName authority).length ≤ maxHostNameLen ∧ ∀ port ∈ portText authority, port.length < 10 then
        .ok (hostName authority ++
          List.replicate (maxHostNameLen - (hostName authority).length) 0, options.port authority)
      else .error .outOfBounds := by
  have long : (hostName authority).length ≤ (authority ++ 47 :: path).length := by
    rw [List.length_append]
    exact (List.takeWhile_prefix _).length_le.trans (Nat.le_add_right ..)
  have front : (authority ++ 47 :: path).take (hostName authority).length = hostName authority :=
    List.prefix_iff_eq_take.mp ((List.takeWhile_prefix _).trans (List.prefix_append ..)) |>.symm
  have copied := strncpy_cleared long maxHostNameLen
  rw [front] at copied
  rw [Options.takeHost, portAt_append free]
  rcases portText_cases authority with ⟨_, same, none⟩ | ⟨port, found, split⟩
  · have span : strcspn (authority ++ 47 :: path) 47 = (hostName authority).length := by
      rw [strcspn_append free, same]
    simp only [none, Option.map_none, span, copied, Options.port, Option.not_mem_none, false_imp_iff,
      implies_true, and_true]
    split_ifs <;> rfl
  · have clean : 0 ∉ port := fun member => string (split ▸ by simp [member])
    have whole : authority ++ 47 :: path = (hostName authority ++ [58]) ++ (port ++ 47 :: path) := by
      simpa using congrArg (· ++ 47 :: path) split
    have behind : (authority ++ 47 :: path).drop ((hostName authority).length + 1) =
        port ++ 47 :: path := by
      rw [whole, List.drop_left' (by simp)]
    have count : authority.length - (hostName authority).length - 1 = port.length := by
      have length := congrArg List.length split
      rw [List.length_append, List.length_cons] at length
      omega
    simp only [found, Option.map_some, behind, count, copied, Options.port, Option.mem_def,
      Option.some.injEq, forall_eq']
    by_cases short : (hostName authority).length ≤ maxHostNameLen
    · rw [if_pos short]
      rcases tmp_cases clean path with ⟨few, tmp, run, read⟩ | ⟨many, ⟨tmp, run, unread⟩ | fails⟩
      · rw [if_pos ⟨short, few⟩, bind_of (show inBounds (some _) = .ok _ from rfl), bind_of run, bind_of read]
      · rw [if_neg (by omega), bind_of (show inBounds (some _) = .ok _ from rfl), bind_of run,
          bind_error unread]
      · rw [if_neg (by omega), bind_of (show inBounds (some _) = .ok _ from rfl), bind_error fails]
    · rw [if_neg short, if_neg (by omega)]
      rfl

/-! ## The whole request -/

theorem checkUrl_ok {options : Options} {url : Bytes} {start : ℕ}
    (accepted : options.checkUrl url = .ok start) : url.length ≤ 1500 ∧ 47 ∈ url.drop start := by
  rw [Options.checkUrl] at accepted
  split at accepted
  · cases accepted
  · split_ifs at accepted with long scheme slash
    obtain rfl := Except.ok.inj accepted
    refine ⟨by omega, ?_⟩
    rw [strchr] at slash
    split_ifs at slash with member
    · exact member
    · exact absurd rfl slash

/-- `request` with the method and a space. -/
theorem method_of (method : Method) :
    ∃ first next, inBounds (strcpy (List.replicate requestSize 0) method.name) = .ok first ∧
      inBounds (strcat first (ascii " ")) = .ok next ∧ Holds next (method.name ++ ascii " ") 8 := by
  have proper : 0 ∉ method.name ∧ method.name.length ≤ 7 := by cases method <;> decide
  have room : method.name.length < (List.replicate requestSize (0 : UInt8)).length := by
    rw [List.length_replicate]
    exact proper.2.trans_lt (by decide)
  obtain ⟨first, run, value⟩ := strcpy_of proper.1 room
  have holds : Holds first method.name 7 :=
    ⟨value, (length_of_strcpy run).trans (List.length_replicate ..), proper.2⟩
  obtain ⟨next, spaced, holds⟩ := holds.append (ascii " ") 1 (by decide) (by decide) (by decide)
  exact ⟨first, next, by rw [run]; rfl, spaced, holds⟩

/-- A URL that passes the checks has a path. -/
theorem authority_split {url : Bytes} {start : ℕ} (slash : 47 ∈ url.drop start) :
    ∃ path, url.drop start = authority url start ++ 47 :: path ∧
      (url.drop start).dropWhile (· ≠ 47) = 47 :: path := by
  obtain ⟨path, split⟩ := exists_eq_append slash
  refine ⟨path, split, ?_⟩
  rw [split, dropWhile_of_notMem (notMem_takeWhile (url.drop start) 47)]

/-- Asked directly, the request is built when the host and the port fit. -/
theorem buildRequest_direct (options : Options) {url : Bytes} (string : 0 ∉ url) {start : ℕ}
    (accepted : options.checkUrl url = .ok start) (direct : options.proxyhost = none) :
    (Fits options.raised (authority url start) → ∃ built, buildRequest options url = .ok built ∧
      built.http10 = options.raised ∧ built.proxyport = options.port (authority url start) ∧
      Holds built.request
        (options.text (hostName (authority url start)) (options.target url start)) 1665) ∧
    (¬ Fits options.raised (authority url start) → buildRequest options url = .error .outOfBounds) := by
  obtain ⟨short, slash⟩ := checkUrl_ok accepted
  obtain ⟨path, split, target⟩ := authority_split slash
  have free : 47 ∉ authority url start := notMem_takeWhile _ _
  have clean : 0 ∉ authority url start ∧ 0 ∉ 47 :: path := by
    rw [← not_or, ← List.mem_append, ← split]
    exact fun member => string (List.mem_of_mem_drop member)
  have few : (47 :: path).length ≤ 1500 := by
    have length := congrArg List.length split
    rw [List.length_drop, List.length_append] at length
    omega
  have rest : (url.drop start).drop (strcspn (url.drop start) 47) = 47 :: path := by
    rw [split, strcspn_append free, List.drop_left]
  have asked : options.target url start = 47 :: path := by rw [Options.target, if_pos direct, target]
  have name : 0 ∉ hostName (authority url start) := fun member =>
    clean.1 ((List.takeWhile_prefix _).subset member)
  have taken := takeHost_append options free clean.1 path
  obtain ⟨first, next, method, spaced, holds⟩ := method_of options.method
  obtain ⟨array, path', holds⟩ := holds.append (47 :: path) 1500 clean.2 few (by decide)
  rw [← split] at taken
  rw [buildRequest, bind_of method, bind_of spaced, bind_of accepted, if_pos direct, rest, taken]
  have ended := value_cleared name (maxHostNameLen - (hostName (authority url start)).length)
  refine ⟨fun fits => ?_, fun tooLong => ?_⟩
  · obtain ⟨named, digits⟩ := fits
    have room : (hostName (authority url start)).length ≤ maxHostNameLen := by omega
    obtain ⟨last, fields, holds⟩ := appendFields_of options holds (fun needed => by
      have left : (hostName (authority url start)).length < maxHostNameLen :=
        named.resolve_right fun exact => absurd exact.2 (Fin.pos_iff_ne_zero.mp needed.2)
      rw [ended, if_neg (by omega)]) room
    rw [if_pos ⟨room, digits⟩]
    refine ⟨⟨options.raised, hostName (authority url start) ++ List.replicate
      (maxHostNameLen - (hostName (authority url start)).length) 0, options.port (authority url start),
      last⟩, ?_, rfl, rfl, ?_⟩
    · rw [bind_of rfl]
      dsimp only
      rw [bind_of path', bind_of fields]
    · rw [Options.text, asked]
      exact holds
  · split_ifs with room
    · have full : ¬ (hostName (authority url start)).length < maxHostNameLen := fun left =>
        tooLong ⟨.inl left, room.2⟩
      have needed : 0 < options.raised := Fin.pos_iff_ne_zero.mpr fun zero =>
        tooLong ⟨.inr ⟨by omega, zero⟩, room.2⟩
      rw [if_pos (by omega)] at ended
      rw [bind_of rfl]
      dsimp only
      rw [bind_of path', bind_error (appendFields_unterminated options holds ⟨direct, needed⟩ ended)]
    · rfl

/-- Asked through a proxy, the request is always built. -/
theorem buildRequest_proxy (options : Options) {url : Bytes} (string : 0 ∉ url) {start : ℕ}
    (accepted : options.checkUrl url = .ok start) (proxy : options.proxyhost ≠ none) :
    ∃ built, buildRequest options url = .ok built ∧ built.http10 = options.raised ∧
      built.proxyport = options.proxyport ∧
      Holds built.request
        (options.text (hostName (authority url start)) (options.target url start)) 1665 := by
  obtain ⟨short, _⟩ := checkUrl_ok accepted
  obtain ⟨first, next, method, spaced, holds⟩ := method_of options.method
  obtain ⟨array, whole, holds⟩ := holds.append url 1500 string short (by decide)
  have unneeded : options.proxyhost = none ∧ 0 < options.raised →
      value (List.replicate maxHostNameLen 0) = some [] := fun needed => absurd needed.1 proxy
  obtain ⟨last, fields, holds⟩ := appendFields_of options holds unneeded (Nat.zero_le _)
  refine ⟨⟨options.raised, List.replicate maxHostNameLen 0, options.proxyport, last⟩, ?_, rfl, rfl, ?_⟩
  · rw [buildRequest, bind_of method, bind_of spaced, bind_of accepted, if_neg proxy, bind_of whole,
      bind_of fields]
  · have line (name : Bytes) : options.fields name = options.fields [] := by
      simp only [Options.fields, if_neg fun needed => proxy (And.left needed)]
    rw [Options.text, line, Options.target, if_neg proxy]
    exact holds

theorem built_of_run (options : Options) {url : Bytes} (string : 0 ∉ url) {start : ℕ}
    (accepted : options.checkUrl url = .ok start) {built : Built}
    (run : buildRequest options url = .ok built) :
    built.http10 = options.raised ∧ Holds built.request
      (options.text (hostName (authority url start)) (options.target url start)) 1665 := by
  by_cases direct : options.proxyhost = none
  · have made := buildRequest_direct options string accepted direct
    by_cases fits : Fits options.raised (authority url start)
    · obtain ⟨other, again, version, _, holds⟩ := made.1 fits
      obtain rfl := Except.ok.inj (run.symm.trans again)
      exact ⟨version, holds⟩
    · cases run.symm.trans (made.2 fits)
  · obtain ⟨other, again, version, _, holds⟩ := buildRequest_proxy options string accepted direct
    obtain rfl := Except.ok.inj (run.symm.trans again)
    exact ⟨version, holds⟩

/-- `build_request` on a URL that passes the checks: the array `request` always suffices and then holds the
method, the path and the fields. An access leaves an array, or a full array is read as a string, exactly
when no proxy is asked and the host or the port do not fit. A port that fits is in the range of `atoi`. -/
theorem buildRequest_completes (options : Options) {url : Bytes} (string : 0 ∉ url) {start : ℕ}
    (accepted : options.checkUrl url = .ok start) :
    ((options.proxyhost = none → Fits options.raised (authority url start)) →
      ∃ built, buildRequest options url = .ok built ∧ built.http10 = options.raised ∧
        value built.request =
          some (options.text (hostName (authority url start)) (options.target url start)) ∧
        (options.proxyhost = none → built.proxyport = options.port (authority url start) ∧
          ∀ port ∈ portText (authority url start), (atoi port).natAbs < 10 ^ 9)) ∧
    (¬ (options.proxyhost = none → Fits options.raised (authority url start)) →
      buildRequest options url = .error .outOfBounds) := by
  refine ⟨fun fits => ?_, fun tooLong => ?_⟩
  · by_cases direct : options.proxyhost = none
    · obtain ⟨built, run, version, port, holds⟩ :=
        (buildRequest_direct options string accepted direct).1 (fits direct)
      refine ⟨built, run, version, holds.value, fun _ => ⟨port, fun text found => ?_⟩⟩
      have few : text.length ≤ 9 := Nat.le_of_lt_succ ((fits direct).2 text found)
      exact (natAbs_atoi_lt text).trans_le (Nat.pow_le_pow_right (by decide) few)
    · obtain ⟨built, run, version, _, holds⟩ := buildRequest_proxy options string accepted direct
      exact ⟨built, run, version, holds.value, fun impossible => absurd impossible direct⟩
  · rw [Classical.not_imp] at tooLong
    exact (buildRequest_direct options string accepted tooLong.1).2 tooLong.2

/-- `webbench -2`. -/
def plainGet : Options := ⟨.get, 2, false, none, 80⟩

/-- A host of 64 bytes leaves the array without its NUL byte. -/
theorem buildRequest_completes_bounds :
    (∃ built, buildRequest plainGet (ascii "http://localhost:12345/index.html") = .ok built ∧
      value built.request = some (plainGet.text (ascii "localhost") (ascii "/index.html"))) ∧
    buildRequest plainGet (ascii "http://" ++ List.replicate 64 97 ++ ascii "/") = .error .outOfBounds := by
  have string : 0 ∉ ascii "http://localhost:12345/index.html" := by decide
  have accepted : plainGet.checkUrl (ascii "http://localhost:12345/index.html") = .ok 7 := by decide
  have string' : 0 ∉ ascii "http://" ++ List.replicate 64 97 ++ ascii "/" := by decide
  have accepted' : plainGet.checkUrl (ascii "http://" ++ List.replicate 64 97 ++ ascii "/") = .ok 7 := by
    decide
  constructor
  · obtain ⟨built, run, _, value, _⟩ :=
      (buildRequest_completes plainGet string accepted).1 fun _ => by decide
    exact ⟨built, run, value⟩
  · exact (buildRequest_completes plainGet string' accepted').2 (by decide)

end Webbench

end XWebServer
