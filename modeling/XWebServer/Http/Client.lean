import Mathlib.Data.List.Forall2
import XWebServer.Http.Conversation
import XWebServer.Lib.Decimal
import XWebServer.Lib.Messages

/-! # What the client reads

A client takes the stream apart with nothing but the stream: it reads lines up to the first empty one,
looks for the header field `Content-length`, and takes that many bytes for the body. In every
conversation this gives back the responses that are complete, each with the head the server meant.
-/

namespace XWebServer

open Transition System

/-- A response as the client has it. -/
structure Received where
  lines : List Bytes
  body : Bytes
deriving DecidableEq, Repr

namespace Received

def bytes (message : Received) : Bytes := Lines.join 13 10 message.lines ++ message.body

end Received

namespace Client

/-- Field names are compared without regard to case. -/
def lower (char : UInt8) : UInt8 := if 65 ≤ char.toNat ∧ char.toNat ≤ 90 then char + 32 else char

def fieldName (line : Bytes) : Bytes := (line.takeWhile (· != 58)).map lower

/-- What follows the colon and the blanks behind it. -/
def fieldText (line : Bytes) : Bytes := ((line.dropWhile (· != 58)).drop 1).dropWhile (· == 32)

def number? (text : Bytes) : Option ℕ :=
  if text ≠ [] ∧ text.all (fun char => 48 ≤ char.toNat ∧ char.toNat ≤ 57) then
    some (Decimal.value text)
  else none

/-- The value of the first field of that name; the first line is the status line. -/
def contentLength? (lines : List Bytes) : Option ℕ :=
  (lines.tail.find? fun line => fieldName line = ascii "content-length").bind fun line =>
    number? (fieldText line)

def readMessage (input : Bytes) : Option (Received × Bytes) :=
  (Lines.head 13 10 input).bind fun head =>
    (contentLength? head.1).bind fun length =>
      if length ≤ head.2.length then some (⟨head.1, head.2.take length⟩, head.2.drop length)
      else none

theorem readMessage_some {input rest : Bytes} {message : Received}
    (found : readMessage input = some (message, rest)) :
    Lines.head 13 10 input = some (message.lines, message.body ++ rest) ∧
      contentLength? message.lines = some message.body.length := by
  obtain ⟨⟨lines, behind⟩, head, found⟩ := Option.bind_eq_some_iff.mp found
  obtain ⟨length, announced, found⟩ := Option.bind_eq_some_iff.mp found
  dsimp only at announced found
  split_ifs at found with enough
  obtain ⟨rfl, rfl⟩ := Prod.mk.inj (Option.some.inj found)
  refine ⟨?_, ?_⟩
  · rw [head]
    dsimp only
    rw [List.take_append_drop]
  · dsimp only
    rw [announced, List.length_take, Nat.min_eq_left enough]

theorem readMessage_of {input : Bytes} {lines : List Bytes} {body rest : Bytes}
    (head : Lines.head 13 10 input = some (lines, body ++ rest))
    (announced : contentLength? lines = some body.length) :
    readMessage input = some (⟨lines, body⟩, rest) := by
  rw [readMessage, head, Option.bind_some, announced, Option.bind_some]
  dsimp only
  rw [if_pos (by simp), List.take_left, List.drop_left]

/-- The client as a reader of messages. -/
def reader : Reader UInt8 Received where
  read := readMessage
  shorter found := by
    obtain ⟨head, _⟩ := readMessage_some found
    have shorter := Lines.length_of_head head
    rw [List.length_append] at shorter
    omega
  more later found := by
    obtain ⟨head, announced⟩ := readMessage_some found
    have longer := Lines.head_more head later
    rw [List.append_assoc] at longer
    exact readMessage_of longer announced

def read (stream : Bytes) : List Received × Bytes := reader.readAll stream

/-! ## The fields of a head -/

theorem fieldName_of {name text : Bytes} (free : 58 ∉ name) :
    fieldName (name ++ 58 :: text) = name.map lower := by
  have all : ∀ char ∈ name, (char != 58) = true := by
    intro char member
    exact bne_iff_ne.mpr fun same => free (same ▸ member)
  rw [fieldName, List.takeWhile_append_of_pos all]
  simp

theorem fieldText_of {name text : Bytes} (free : 58 ∉ name) (start : text.head? ≠ some 32) :
    fieldText (name ++ 58 :: 32 :: text) = text := by
  have all : ∀ char ∈ name, (char != 58) = true := by
    intro char member
    exact bne_iff_ne.mpr fun same => free (same ▸ member)
  have tail : text.dropWhile (· == 32) = text := by
    cases text with
    | nil => rfl
    | cons char rest =>
      have differs : char ≠ 32 := fun same => start (by rw [same]; rfl)
      simp [differs]
  rw [fieldText, List.dropWhile_append_of_pos all]
  simp [tail]

theorem ascii_toString (length : ℕ) : ascii (toString length) = Decimal.padded 0 length := by
  have same : (toString length).toList = Nat.toDigits 10 length := Nat.toList_repr
  rw [Decimal.padded, Nat.zero_sub, List.replicate_zero, List.nil_append, ascii, same]
  rfl

/-- The digits of a length are read as the length. -/
theorem number_digits (length : ℕ) : number? (ascii (toString length)) = some length := by
  have some : Decimal.padded 0 length ≠ [] := by
    rw [← List.length_pos_iff, Decimal.length_padded]
    exact lt_of_lt_of_le Nat.length_toDigits_pos (Nat.le_max_right _ _)
  rw [ascii_toString, number?, if_pos, Decimal.value_padded]
  refine ⟨some, List.all_eq_true.mpr fun char member => ?_⟩
  exact decide_eq_true (Decimal.mem_padded member)

/-- The announced length is found behind the other fields, whatever the type is. -/
theorem contentLength_headLines (code : ℤ) (keep : Bool) (type : Bytes) (length : ℕ) :
    contentLength? (HttpResponse.headLines code keep type length) = some length := by
  have others : ∀ line ∈ HttpResponse.connectionLines keep,
      fieldName line ≠ ascii "content-length" := by cases keep <;> decide
  have typeName : fieldName (ascii "Content-type: " ++ type) = ascii "content-type" := by
    have split : ascii "Content-type: " ++ type = ascii "Content-type" ++ 58 :: 32 :: type := rfl
    rw [split, fieldName_of (by decide)]
    decide
  have lengthSplit : HttpResponse.lengthLine length =
    ascii "Content-length" ++ 58 :: 32 :: ascii (toString length) := rfl
  have lengthName : fieldName (HttpResponse.lengthLine length) = ascii "content-length" := by
    rw [lengthSplit, fieldName_of (by decide)]
    decide
  have lengthText : fieldText (HttpResponse.lengthLine length) = ascii (toString length) := by
    rw [lengthSplit, fieldText_of (by decide)]
    intro blank
    rw [ascii_toString] at blank
    exact Decimal.notMem_padded (.inl (by decide)) (List.mem_of_mem_head? (Option.mem_def.mpr blank))
  have none : (HttpResponse.connectionLines keep).find?
      (fun line => fieldName line = ascii "content-length") = none := by
    rw [List.find?_eq_none]
    intro line member
    simpa using others line member
  rw [contentLength?, HttpResponse.headLines, List.append_assoc, List.singleton_append, List.tail_cons,
    List.find?_append, none]
  simp only [List.find?_cons, typeName, lengthName, Option.none_or]
  simp only [show ¬ ascii "content-type" = ascii "content-length" by decide, decide_false,
    decide_true, Option.bind_some, lengthText]
  exact number_digits length

end Client

namespace HttpConn

open HttpRequest HttpResponse

/-- The message is the response: a status of the table, the connection lines that the request asks for,
and a body of the announced length. -/
structure Reply.Means (reply : Reply) (message : Received) : Prop where
  bytes : reply.response = message.bytes
  head : ∃ code type, (codeStatus.lookup code).isSome ∧
    message.lines = headLines code reply.keeps type message.body.length
  reads : Client.readMessage reply.response = some (message, [])

/-- Every response is such a message. -/
theorem Reply.Right.means {reply : Reply} (right : reply.Right) : ∃ message, reply.Means message := by
  obtain ⟨conn, next, request, empty, run, _, response⟩ := right
  obtain ⟨body, found, place⟩ := gather_of_process empty run
  obtain ⟨made, _⟩ := made_of_process run
  have lines : next.announcement body.length =
      headLines next.response.resCode reply.keeps next.response.getFileType body.length := by
    rw [announcement, isKeepAlive_of_process run, request]
    rfl
  have whole : next.gather = Lines.join 13 10 (next.announcement body.length) ++ body := by
    obtain ⟨other, offers, _⟩ := appended_of_process run
    rw [empty, List.nil_append] at offers
    rw [offers, head_announcement run] at found
    obtain ⟨same, rfl⟩ := Prod.mk.inj (Option.some.inj found)
    exact offers
  rw [response] at found whole
  refine ⟨⟨next.announcement body.length, body⟩, whole, ⟨_, _, made.known, lines⟩, ?_⟩
  apply Client.readMessage_of
  · rw [found, List.append_nil]
  · rw [lines]
    exact Client.contentLength_headLines _ _ _ _

namespace Conversation

/-- What went out is a front of the responses. -/
theorem Intact.front {talk : Conversation} (intact : talk.Intact) : talk.sent <+: talk.responses := by
  have sent := intact.sent
  cases waits : talk.waits with
  | armIn =>
    rw [waits] at sent
    rw [sent.1]
  | armOut =>
    rw [waits] at sent
    exact ⟨_, sent⟩
  | close =>
    rw [waits] at sent
    exact sent

/-- What the client reads of the bytes sent: the responses that are complete, and of the next one a part
that it cannot take for a message. -/
structure Understood (talk : Conversation) (messages : List Received) (rest : Bytes) : Prop where
  read : Client.read talk.sent = (messages, rest)
  meant : List.Forall₂ Reply.Means (talk.replies.take messages.length) messages
  part : rest <+: ((talk.replies.drop messages.length).map (·.response)).headD []
  whole : talk.waits = .armIn → messages.length = talk.replies.length ∧ rest = []

theorem Intact.messages {talk : Conversation} (intact : talk.Intact) :
    ∃ messages, List.Forall₂ Reply.Means talk.replies messages := by
  have each := intact.right
  generalize talk.replies = replies at each
  induction replies with
  | nil => exact ⟨[], .nil⟩
  | cons reply replies ih =>
    obtain ⟨message, first⟩ := (each reply List.mem_cons_self).means
    obtain ⟨messages, others⟩ := ih fun other member => each other (List.mem_cons_of_mem _ member)
    exact ⟨message :: messages, .cons first others⟩

theorem Intact.understood {talk : Conversation} (intact : talk.Intact) :
    ∃ messages rest, talk.Understood messages rest := by
  obtain ⟨all, means⟩ := intact.messages
  have reads : List.Forall₂ Client.reader.Reads (talk.replies.map (·.response)) all := by
    rw [List.forall₂_map_left_iff]
    exact means.imp fun reply message same => same.reads
  have front := intact.front
  rw [responses, List.flatMap_def] at front
  obtain ⟨done, left, rest, split, sent, found, ends, part⟩ := Reader.readAll_prefix reads front
  have lengths := means.length_eq
  have count : done.length + left.length = talk.replies.length := by
    have same := congrArg List.length split
    rw [List.length_map, List.length_append] at same
    exact same.symm
  have taken : (all.take done.length).length = done.length := by
    rw [List.length_take]
    omega
  have behind : (talk.replies.drop done.length).map (·.response) = left := by
    rw [List.map_drop, split, List.drop_left]
  refine ⟨all.take done.length, rest, found, ?_, ?_, fun waits => ?_⟩
  · rw [taken]
    exact List.forall₂_take _ means
  · rw [taken, behind]
    cases left with
    | nil =>
      rw [ends rfl]
      exact List.nil_prefix
    | cons next after => exact (part next after rfl).1
  · have whole := intact.sent
    rw [waits] at whole
    have everything := whole.1
    rw [responses, List.flatMap_def, split, List.flatten_append, sent, List.append_cancel_left_eq]
      at everything
    rw [taken]
    cases left with
    | nil =>
      rw [List.length_nil] at count
      exact ⟨count, ends rfl⟩
    | cons next after =>
      obtain ⟨isPart, proper⟩ := part next after rfl
      rw [List.flatten_cons] at everything
      have short := isPart.length_le
      have same := congrArg List.length everything
      rw [List.length_append] at same
      exact absurd (isPart.eq_of_length (by omega)) proper

/-- A message that is not the last announces that the connection is kept. -/
theorem Understood.announces {talk : Conversation} {messages : List Received} {rest : Bytes}
    (understood : talk.Understood messages rest) (intact : talk.Intact) :
    ∀ message ∈ messages.dropLast, ascii "Connection: keep-alive" ∈ message.lines := by
  intro message member
  rw [List.dropLast_eq_take] at member
  have others := List.forall₂_take (messages.length - 1) understood.meant
  rw [List.take_take, Nat.min_eq_left (Nat.sub_le _ _)] at others
  obtain ⟨i, inside, rfl⟩ := List.getElem_of_mem member
  obtain ⟨same, means⟩ := List.forall₂_iff_get.mp others
  obtain ⟨code, type, _, lines⟩ := (means i (by rwa [same]) inside).head
  have few : messages.length ≤ talk.replies.length := by
    have length := understood.meant.length_eq
    rw [List.length_take] at length
    omega
  -- the request of a response that is not the last keeps the connection
  have kept : ((talk.replies.take (messages.length - 1)).get ⟨i, by rwa [same]⟩).keeps = true := by
    apply intact.kept
    rw [List.dropLast_eq_take]
    exact (List.take_subset_take_left _ (Nat.sub_le_sub_right few 1)) (List.get_mem ..)
  rw [kept, List.get_eq_getElem] at lines
  rw [lines]
  simp [HttpResponse.headLines, HttpResponse.connectionLines]

/-- In every conversation on modest hosts and on an object whose second vector was below `2 ^ 31` bytes, the
client reads back the responses that have gone out whole, each with the status, the connection lines and the
body the server has made for it, and all but the last of them tell it that the connection is kept. -/
theorem client_understands {isET : Bool} {object conn : HttpConn} {sockFd : ℤ}
    (init : object.init sockFd = .ok conn) (second : object.iov1.len < 2 ^ 31) {talk : Conversation}
    (reached : (modestTalks isET conn).Reachable talk) :
    ∃ messages rest, talk.Understood messages rest ∧
      ∀ message ∈ messages.dropLast, ascii "Connection: keep-alive" ∈ message.lines := by
  have intact := (ready_of_modest init second reached).toIntact
  obtain ⟨messages, rest, understood⟩ := intact.understood
  exact ⟨messages, rest, understood, understood.announces intact⟩

theorem client_understands_answered : ∃ messages rest, answered.Understood messages rest ∧
    ∀ message ∈ messages.dropLast, ascii "Connection: keep-alive" ∈ message.lines :=
  client_understands firstClient_init (by decide) answered_reachable

end Conversation

end HttpConn

end XWebServer
