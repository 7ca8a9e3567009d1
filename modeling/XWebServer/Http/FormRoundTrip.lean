import XWebServer.Http.Form
import XWebServer.Lib.Updates
import Mathlib.Algebra.Order.BigOperators.Group.List
import Mathlib.Data.List.Forall2

/-! # Decoding an encoded form

The scan turns a plus into a space, but writes its number over the two digits of an escape and keeps the
percent sign, so what it makes of a code is as long as the code. It stores the last pair only when the
value is not empty. So it undoes the encoding exactly when nothing had to be escaped and the last value is
not empty.
-/

namespace XWebServer

namespace HttpRequest

open Updates

/-! ## The encoding -/

/-- Letters, digits and `-`, `_`, `.`, `*`. -/
def isUnreserved (byte : UInt8) : Bool :=
  (65 ≤ byte && byte ≤ 90) || (97 ≤ byte && byte ≤ 122) || (48 ≤ byte && byte ≤ 57) ||
    byte == 45 || byte == 95 || byte == 46 || byte == 42

/-- A hex digit, of either case. -/
def IsHexDigit (value : ℕ) (digit : UInt8) : Prop :=
  (value < 10 ∧ digit.toNat = 48 + value) ∨
    (10 ≤ value ∧ value < 16 ∧ (digit.toNat = 55 + value ∨ digit.toNat = 87 + value))

inductive EncodesByte : UInt8 → Bytes → Prop
  | plain {byte : UInt8} (unreserved : isUnreserved byte = true) : EncodesByte byte [byte]
  | space : EncodesByte 32 [43]
  | escape {byte first second : UInt8} (reserved : isUnreserved byte = false) (other : byte ≠ 32)
      (high : IsHexDigit (byte.toNat / 16) first) (low : IsHexDigit (byte.toNat % 16) second) :
      EncodesByte byte [37, first, second]

/-- The pieces are the codes of the bytes of the text. -/
abbrev Encodes (text : Bytes) (pieces : List Bytes) : Prop := List.Forall₂ EncodesByte text pieces

/-- The pieces of a key and of its value. -/
abbrev PairCode := List Bytes × List Bytes

def EncodesPair (pair : Bytes × Bytes) (code : PairCode) : Prop :=
  Encodes pair.1 code.1 ∧ Encodes pair.2 code.2

def PairCode.bytes (code : PairCode) : Bytes := code.1.flatten ++ 61 :: code.2.flatten

/-- Pairs with `&` between them. -/
def joinForm : List PairCode → Bytes
  | [] => []
  | [code] => code.bytes
  | code :: next :: rest => code.bytes ++ 38 :: joinForm (next :: rest)

/-- `body` is an `application/x-www-form-urlencoded` form of the pairs. -/
def EncodesForm (pairs : List (Bytes × Bytes)) (body : Bytes) : Prop :=
  ∃ codes, List.Forall₂ EncodesPair pairs codes ∧ body = joinForm codes

/-- No byte of the text has to be escaped. -/
def Plain (text : Bytes) : Prop := ∀ byte ∈ text, isUnreserved byte = true ∨ byte = 32

theorem plain_of_all {text : Bytes}
    (all : text.all (fun byte => isUnreserved byte || byte == 32) = true) : Plain text := by
  intro byte member
  have one := List.all_eq_true.mp all byte member
  rwa [Bool.or_eq_true, beq_iff_eq] at one

/-! ## What the scan makes of a piece -/

/-- The piece as it is in the body behind the scan. -/
def rewrittenPiece (piece : Bytes) : Bytes :=
  match piece with
  | [ch] => if ch = 43 then [32] else [ch]
  | [percent, first, second] => [percent, tensChar first second, unitsChar first second]
  | _ => piece

def rewritten (pieces : List Bytes) : Bytes := pieces.flatMap rewrittenPiece

@[simp] theorem rewritten_nil : rewritten [] = [] := rfl

@[simp] theorem rewritten_cons (piece : Bytes) (pieces : List Bytes) :
    rewritten (piece :: pieces) = rewrittenPiece piece ++ rewritten pieces := List.flatMap_cons

theorem isUnreserved_ne {byte : UInt8} (unreserved : isUnreserved byte = true) :
    byte ≠ 61 ∧ byte ≠ 43 ∧ byte ≠ 37 ∧ byte ≠ 38 := by
  refine ⟨?_, ?_, ?_, ?_⟩ <;> rintro rfl <;> exact absurd unreserved (by decide)

/-- A byte that needs no escape comes out as it was, and any other piece is three bytes long. -/
theorem EncodesByte.cases {byte : UInt8} {piece : Bytes} (encodes : EncodesByte byte piece) :
    ((isUnreserved byte = true ∨ byte = 32) ∧ piece.length = 1 ∧ rewrittenPiece piece = [byte]) ∨
      (¬ (isUnreserved byte = true ∨ byte = 32) ∧ piece.length = 3 ∧
        (rewrittenPiece piece).length = 3) := by
  cases encodes with
  | plain unreserved =>
    exact Or.inl ⟨Or.inl unreserved, rfl, if_neg (isUnreserved_ne unreserved).2.1⟩
  | space => exact Or.inl ⟨Or.inr rfl, rfl, rfl⟩
  | escape reserved other =>
    refine Or.inr ⟨?_, rfl, rfl⟩
    rw [reserved]
    simp [other]

theorem Encodes.length_rewritten {text : Bytes} {pieces : List Bytes} (encodes : Encodes text pieces) :
    (rewritten pieces).length = pieces.flatten.length := by
  induction encodes with
  | nil => rfl
  | @cons byte piece text pieces head _ ih =>
    rw [rewritten_cons, List.flatten_cons, List.length_append, List.length_append, ih]
    rcases head.cases with ⟨_, one, same⟩ | ⟨_, three, wide⟩
    · rw [same, one]
      rfl
    · rw [three, wide]

/-- What the scan makes of a code is never shorter than the text, and as long only if nothing was
escaped. -/
theorem Encodes.length_le {text : Bytes} {pieces : List Bytes} (encodes : Encodes text pieces) :
    text.length ≤ (rewritten pieces).length ∧ (text.length = (rewritten pieces).length → Plain text) := by
  induction encodes with
  | nil => exact ⟨le_rfl, fun _ byte member => absurd member List.not_mem_nil⟩
  | @cons byte piece text pieces head _ ih =>
    obtain ⟨shorter, plain⟩ := ih
    rw [rewritten_cons, List.length_append, List.length_cons]
    rcases head.cases with ⟨free, _, same⟩ | ⟨_, _, wide⟩
    · rw [same, List.length_singleton]
      refine ⟨by omega, fun length => ?_⟩
      intro other member
      rcases List.mem_cons.mp member with rfl | later
      · exact free
      · exact plain (by omega) other later
    · rw [wide]
      exact ⟨by omega, fun length => absurd length (by omega)⟩

/-- A text that needs no escape comes out as it was. -/
theorem Encodes.rewritten_eq {text : Bytes} {pieces : List Bytes} (encodes : Encodes text pieces)
    (plain : Plain text) : rewritten pieces = text := by
  induction encodes with
  | nil => rfl
  | @cons byte piece text pieces head _ ih =>
    rw [rewritten_cons, ih fun other member => plain other (List.mem_cons_of_mem _ member)]
    rcases head.cases with ⟨_, _, same⟩ | ⟨reserved, _⟩
    · rw [same]
      rfl
    · exact absurd (plain byte List.mem_cons_self) reserved

theorem Encodes.plain_of_eq {text : Bytes} {pieces : List Bytes} (encodes : Encodes text pieces)
    (same : rewritten pieces = text) : Plain text :=
  encodes.length_le.2 (by rw [same])

/-! ## The scan over a form -/

/-- The scan in front of `rest`, with `part` the token so far. -/
def FormScan.between (front part rest key : Bytes) (post : Bytes → Option Bytes) : FormScan where
  body := front ++ part ++ rest
  i := (front ++ part).length
  j := front.length
  key := key
  post := post

section Between

variable {front part rest key : Bytes} {post : Bytes → Option Bytes}

theorem charAt_between (ch : UInt8) : charAt (front ++ part ++ ch :: rest) (front ++ part).length = .ok ch :=
  charAt_ok (by rw [List.getElem?_append_right le_rfl, Nat.sub_self]; rfl)

theorem substr_between (front part back : Bytes) (small : (front ++ part).length < 2 ^ 64) :
    substr (front ++ part ++ back) front.length (sizeSub (front ++ part).length front.length) =
      .ok part := by
  have length : (front ++ part).length = front.length + part.length := List.length_append
  rw [substr_ok (by simp only [List.length_append]; omega), sizeSub_eq (by omega) small, length,
    Nat.add_sub_cancel_left, List.append_assoc, List.drop_left, List.take_left]

theorem set_between (front part tail : Bytes) (offset : ℕ) (ch : UInt8) :
    (front ++ part ++ tail).set ((front ++ part).length + offset) ch =
      front ++ part ++ tail.set offset ch := by
  rw [List.set_append_right _ _ (by omega), Nat.add_sub_cancel_left]

/-- The code of a byte is rewritten and joins the token. -/
theorem pass_piece {byte : UInt8} {piece : Bytes} (encodes : EncodesByte byte piece)
    (small : (front ++ part ++ (piece ++ rest)).length < 2 ^ 31) :
    (FormScan.between front part (piece ++ rest) key post).pass =
      .ok (.between front (part ++ rewrittenPiece piece) rest key post) := by
  rw [List.length_append, List.length_append] at small
  cases encodes with
  | plain unreserved =>
    obtain ⟨notEqual, notPlus, notPercent, notAnd⟩ := isUnreserved_ne unreserved
    rw [FormScan.pass, FormScan.between, List.singleton_append, charAt_between, ok_bind, if_neg notEqual,
      if_neg notPlus, if_neg notPercent, if_neg notAnd, rewrittenPiece, if_neg notPlus]
    simp only [FormScan.between, List.length_append, List.length_singleton, List.append_assoc,
      List.singleton_append, Nat.add_assoc]
  | space =>
    rw [FormScan.pass, FormScan.between, List.singleton_append, charAt_between, ok_bind,
      if_neg (by decide), if_pos rfl]
    have body := set_between front part (43 :: rest) 0 32
    rw [Nat.add_zero, List.set_cons_zero] at body
    dsimp only
    rw [body]
    simp only [FormScan.between, rewrittenPiece, if_true, List.append_assoc, List.length_append,
      List.length_singleton, List.singleton_append, Nat.add_assoc]
  | @escape _ first second =>
    simp only [List.length_append, List.length_cons, List.length_nil] at small
    have found (offset : ℕ) (ch : UInt8) (at' : (37 :: first :: second :: rest)[offset]? = some ch) :
        (front ++ part ++ 37 :: first :: second :: rest)[(front ++ part).length + offset]? = some ch := by
      rw [List.getElem?_append_right (by omega), Nat.add_sub_cancel_left, at']
    have body : ((front ++ part ++ 37 :: first :: second :: rest).set ((front ++ part).length + 2)
          (unitsChar first second)).set ((front ++ part).length + 1) (tensChar first second) =
        front ++ part ++ 37 :: tensChar first second :: unitsChar first second :: rest := by
      rw [set_between, set_between]
      rfl
    have index : (front ++ part).length + 3 < 2 ^ 31 := by
      rw [List.length_append]
      omega
    rw [pass_percent (found 0 37 rfl) (found 1 first rfl) (found 2 second rfl) index]
    simp only [FormScan.between, List.cons_append, List.nil_append]
    rw [body]
    simp only [rewrittenPiece, List.append_assoc, List.length_append, List.length_cons,
      List.length_nil, List.cons_append, List.nil_append, Nat.add_assoc]

/-- An equals sign ends the key. -/
theorem pass_equal (small : (front ++ part ++ 61 :: rest).length < 2 ^ 31) :
    (FormScan.between front part (61 :: rest) key post).pass =
      .ok (.between (front ++ part ++ [61]) [] rest part post) := by
  rw [List.length_append] at small
  rw [FormScan.pass, FormScan.between, charAt_between, ok_bind, if_pos rfl,
    substr_between _ _ _ (by omega)]
  simp [FormScan.between, Nat.add_assoc]

/-- An ampersand ends the value and stores the pair. -/
theorem pass_and (front part rest key : Bytes) (post : Bytes → Option Bytes)
    (small : (front ++ part ++ 38 :: rest).length < 2 ^ 31) :
    (FormScan.between front part (38 :: rest) key post).pass =
      .ok (.between (front ++ part ++ [38]) [] rest key (Function.update post key (some part))) := by
  rw [List.length_append] at small
  rw [FormScan.pass, FormScan.between, charAt_between, ok_bind, if_neg (by decide),
    if_neg (by decide), if_neg (by decide), if_pos rfl, substr_between _ _ _ (by omega)]
  simp [FormScan.between, Nat.add_assoc]

end Between

/-- The loop comes from one scan to the other. -/
def Reaches (n : ℤ) (scan next : FormScan) : Prop :=
  ∃ passes, ∀ fuel, scanForm n (passes + fuel) scan = scanForm n fuel next

theorem Reaches.refl (n : ℤ) (scan : FormScan) : Reaches n scan scan :=
  ⟨0, fun fuel => by rw [Nat.zero_add]⟩

theorem Reaches.trans {n : ℤ} {scan next last : FormScan} (first : Reaches n scan next)
    (second : Reaches n next last) : Reaches n scan last := by
  obtain ⟨passes, run⟩ := first
  obtain ⟨more, rest⟩ := second
  refine ⟨passes + more, fun fuel => ?_⟩
  rw [Nat.add_assoc, run, rest]

theorem Reaches.pass {n : ℤ} {scan next : FormScan} (going : scan.i < n)
    (run : scan.pass = .ok next) : Reaches n scan next := by
  refine ⟨1, fun fuel => ?_⟩
  rw [Nat.add_comm, scanForm, if_pos going, run, ok_bind]

/-- Where the loop has come to the end, it is done. -/
theorem Reaches.run {n : ℤ} {fuel : ℕ} {scan last : FormScan} (reaches : Reaches n scan last)
    (enough : n ≤ scan.i + fuel) (done : ¬ last.i < n) : scanForm n fuel scan = .ok last := by
  obtain ⟨passes, run⟩ := reaches
  rw [← scanForm_fuel enough passes, Nat.add_comm, run]
  cases fuel with
  | zero => rfl
  | succ fuel => rw [scanForm, if_neg done]

/-- A code is rewritten and joins the token. -/
theorem reaches_pieces {text front part rest key : Bytes} {pieces : List Bytes}
    {post : Bytes → Option Bytes} {size : ℕ} (encodes : Encodes text pieces)
    (length : (front ++ part ++ (pieces.flatten ++ rest)).length = size) (small : size < 2 ^ 31) :
    Reaches size (.between front part (pieces.flatten ++ rest) key post)
      (.between front (part ++ rewritten pieces) rest key post) := by
  induction encodes generalizing part with
  | nil =>
    rw [rewritten_nil, List.append_nil]
    exact Reaches.refl _ _
  | @cons byte piece text pieces head _ ih =>
    rw [List.flatten_cons, List.append_assoc piece] at length ⊢
    have same : (rewrittenPiece piece).length = piece.length ∧ 0 < piece.length := by
      rcases head.cases with ⟨_, one, kept⟩ | ⟨_, three, wide⟩
      · rw [kept, one]
        exact ⟨rfl, Nat.one_pos⟩
      · rw [wide, three]
        exact ⟨rfl, by decide⟩
    have later := @ih (part ++ rewrittenPiece piece) (by
      simp only [List.length_append] at length ⊢
      omega)
    rw [List.append_assoc, ← rewritten_cons] at later
    refine .trans (.pass ?_ (pass_piece head (by rw [length]; exact small))) later
    simp only [FormScan.between, List.length_append] at length ⊢
    omega

/-- What the scan makes of a pair's code. -/
def PairCode.seen (code : PairCode) : Bytes × Bytes := (rewritten code.1, rewritten code.2)

/-- Of a pair the scan keeps the key, and the value as the token. -/
theorem reaches_pair (rest key : Bytes) (post : Bytes → Option Bytes) {pair : Bytes × Bytes}
    {code : PairCode} {front : Bytes} {size : ℕ} (encodes : EncodesPair pair code)
    (length : (front ++ (code.bytes ++ rest)).length = size) (small : size < 2 ^ 31) :
    ∃ behind, (behind ++ code.seen.2 ++ rest).length = size ∧
      Reaches size (.between front [] (code.bytes ++ rest) key post)
        (.between behind code.seen.2 rest code.seen.1 post) := by
  have keyLength := encodes.1.length_rewritten
  have valueLength := encodes.2.length_rewritten
  simp only [PairCode.bytes, List.append_assoc, List.cons_append] at length ⊢
  have first : Reaches size (.between front [] (code.1.flatten ++ 61 :: (code.2.flatten ++ rest)) key post)
      (.between front ([] ++ rewritten code.1) (61 :: (code.2.flatten ++ rest)) key post) :=
    reaches_pieces encodes.1 (by rw [List.append_nil, length]) small
  rw [List.nil_append] at first
  have middle : (front ++ rewritten code.1 ++ 61 :: (code.2.flatten ++ rest)).length = size := by
    simp only [List.length_append] at length ⊢
    omega
  have equal : Reaches size (.between front (rewritten code.1) (61 :: (code.2.flatten ++ rest)) key post)
      (.between (front ++ rewritten code.1 ++ [61]) [] (code.2.flatten ++ rest) (rewritten code.1)
        post) := by
    apply Reaches.pass
    · simp only [FormScan.between, List.length_append, List.length_cons] at middle ⊢
      omega
    · exact pass_equal (by rw [middle]; exact small)
  have second : Reaches size
      (.between (front ++ rewritten code.1 ++ [61]) [] (code.2.flatten ++ rest) (rewritten code.1) post)
      (.between (front ++ rewritten code.1 ++ [61]) ([] ++ rewritten code.2) rest (rewritten code.1)
        post) := by
    apply reaches_pieces encodes.2 _ small
    simp only [List.length_append, List.length_cons, List.length_nil] at middle ⊢
    omega
  refine ⟨front ++ rewritten code.1 ++ [61], ?_, (first.trans equal).trans second⟩
  simp only [PairCode.seen, List.length_append, List.length_cons, List.length_nil] at middle ⊢
  omega

/-- Over a form the scan stores every pair but the last, of which it keeps key and value. -/
theorem reaches_form {pairs stored : List (Bytes × Bytes)} {codes : List PairCode}
    {last : Bytes × Bytes} (front key : Bytes) (post : Bytes → Option Bytes) {size : ℕ}
    (encodes : List.Forall₂ EncodesPair pairs codes)
    (shape : codes.map PairCode.seen = stored ++ [last])
    (length : (front ++ joinForm codes).length = size) (small : size < 2 ^ 31) :
    ∃ behind, (behind ++ last.2).length = size ∧
      Reaches size (.between front [] (joinForm codes) key post)
        (.between behind last.2 [] last.1 (store post stored)) := by
  induction encodes generalizing stored front key post with
  | nil => simp at shape
  | @cons pair code pairs codes head tail ih =>
    cases tail with
    | nil =>
      obtain ⟨rfl, rfl⟩ : stored = [] ∧ code.seen = last := by
        rw [List.map_singleton] at shape
        cases stored with
        | nil => exact ⟨rfl, (List.cons.inj shape).1⟩
        | cons _ _ => simp at shape
      have reached := reaches_pair [] key post head
        (by rw [List.append_nil]; exact length) small
      rw [List.append_nil] at reached
      obtain ⟨behind, long, run⟩ := reached
      rw [List.append_nil] at long
      exact ⟨behind, long, run⟩
    | @cons next nextCode pairs codes nextHead rest =>
      obtain ⟨others, rfl, more⟩ : ∃ others, stored = code.seen :: others ∧
          (nextCode :: codes).map PairCode.seen = others ++ [last] := by
        cases stored with
        | nil => simp at shape
        | cons first others =>
          rw [List.map_cons, List.cons_append] at shape
          obtain ⟨rfl, more⟩ := List.cons.inj shape
          exact ⟨others, rfl, more⟩
      obtain ⟨behind, long, run⟩ := reaches_pair (38 :: joinForm (nextCode :: codes)) key post head
        length small
      have pass := pass_and behind code.seen.2 (joinForm (nextCode :: codes)) code.seen.1 post
        (by rw [long]; exact small)
      have going : ((behind ++ code.seen.2).length : ℤ) < size := by
        rw [List.length_append, List.length_cons] at long
        omega
      obtain ⟨last, end', rest⟩ := @ih _ (behind ++ code.seen.2 ++ [38]) code.seen.1
        (Function.update post code.seen.1 (some code.seen.2)) more (by
          rw [← long]
          simp)
      exact ⟨last, end', (run.trans (.pass going pass)).trans rest⟩

theorem formSize_eq {body : Bytes} (small : body.length < 2 ^ 31) : formSize body = body.length := by
  rw [formSize, BitVec.toInt_eq_toNat_cond, BitVec.toNat_ofNat]
  split_ifs <;> omega

theorem joinForm_pos {codes : List PairCode} (some : codes ≠ []) : 0 < (joinForm codes).length := by
  rcases codes with _ | ⟨code, _ | ⟨next, rest⟩⟩
  · exact absurd rfl some
  · simp only [joinForm, PairCode.bytes, List.length_append, List.length_cons]
    omega
  · simp only [joinForm, PairCode.bytes, List.length_append, List.length_cons]
    omega

/-- What the decoding of a form leaves in an empty `m_post`. -/
theorem post_of_form {req : HttpRequest} {pairs stored : List (Bytes × Bytes)} {codes : List PairCode}
    {last : Bytes × Bytes} (encodes : List.Forall₂ EncodesPair pairs codes)
    (shape : codes.map PairCode.seen = stored ++ [last]) (form : req.body = joinForm codes)
    (empty : req.post = fun _ => none) (small : req.body.length < 2 ^ 31) :
    ∃ next, req.parseFromUrlencoded = .ok next ∧ next.post =
      if store (fun _ => none) stored last.1 = none ∧ last.2 ≠ [] then
        store (fun _ => none) (stored ++ [last])
      else store (fun _ => none) stored := by
  have some : codes ≠ [] := by
    rintro rfl
    simp at shape
  have positive : req.body.length ≠ 0 := by
    rw [form]
    exact (joinForm_pos some).ne'
  obtain ⟨behind, long, reached⟩ := reaches_form [] [] req.post
    encodes shape rfl (by rw [List.nil_append, ← form]; exact small)
  rw [List.nil_append, ← form] at long reached
  have start : FormScan.between [] [] req.body [] req.post = req.formStart := rfl
  have run : scanForm (formSize req.body) (formSize req.body).toNat req.formStart =
      .ok (.between behind last.2 [] last.1 (store req.post stored)) := by
    rw [formSize_eq small, ← start]
    apply reached.run
    · change (req.body.length : ℤ) ≤ ((0 : ℕ) : ℤ) + ((req.body.length : ℤ)).toNat
      omega
    · change ¬ ((behind ++ last.2).length : ℤ) < req.body.length
      rw [long]
      exact lt_irrefl _
  rw [parseFromUrlencoded, if_neg positive, run, ok_bind, assert_of (by simp [FormScan.between]), ok_bind]
  have value := substr_between behind last.2 [] (by omega)
  have token : behind.length < (behind ++ last.2).length ↔ last.2 ≠ [] := by
    rw [List.length_append, ← List.length_pos_iff]
    omega
  simp only [FormScan.between, value, ok_bind, token, empty]
  split_ifs
  · exact ⟨_, rfl, (store_concat _ _ _).symm⟩
  · exact ⟨_, rfl, rfl⟩

/-! ## When the pairs come back -/

theorem length_sums {texts : List Bytes} {codes : List (List Bytes)}
    (encodes : List.Forall₂ Encodes texts codes) :
    (texts.map List.length).sum ≤ ((codes.map rewritten).map List.length).sum ∧
      ((texts.map List.length).sum = ((codes.map rewritten).map List.length).sum →
        codes.map rewritten = texts) := by
  induction encodes with
  | nil => exact ⟨le_rfl, fun _ => rfl⟩
  | @cons text pieces texts codes head _ ih =>
    obtain ⟨shorter, plain⟩ := head.length_le
    obtain ⟨sums, same⟩ := ih
    simp only [List.map_cons, List.sum_cons]
    refine ⟨by omega, fun equal => ?_⟩
    rw [head.rewritten_eq (plain (by omega)), same (by omega)]

/-- Texts that come out in some order come out as they were. -/
theorem rewritten_of_perm {texts : List Bytes} {codes : List (List Bytes)}
    (encodes : List.Forall₂ Encodes texts codes) (perm : texts.Perm (codes.map rewritten)) :
    codes.map rewritten = texts :=
  (length_sums encodes).2 (perm.map List.length).sum_eq

theorem keys_seen (codes : List PairCode) :
    (codes.map PairCode.seen).map Prod.fst = (codes.map Prod.fst).map rewritten := by
  rw [List.map_map, List.map_map]
  rfl

/-- The scan stores the map of the pairs only if it sees the pairs. -/
theorem seen_of_store {pairs : List (Bytes × Bytes)} {codes : List PairCode}
    (encodes : List.Forall₂ EncodesPair pairs codes) (distinct : (pairs.map Prod.fst).Nodup)
    (same : store (fun _ => none) (codes.map PairCode.seen) = store (fun _ => none) pairs) :
    codes.map PairCode.seen = pairs := by
  have keys : List.Forall₂ Encodes (pairs.map Prod.fst) (codes.map Prod.fst) := by
    rw [List.forall₂_map_left_iff, List.forall₂_map_right_iff]
    exact encodes.imp fun _ _ pair => pair.1
  have perm : (pairs.map Prod.fst).Perm ((codes.map PairCode.seen).map Prod.fst) := by
    apply perm_of_store distinct _ same
    rw [List.length_map, encodes.length_eq]
  apply eq_of_store_eq distinct _ same
  rw [keys_seen] at perm ⊢
  exact rewritten_of_perm keys perm

/-- It sees the pairs as they are when nothing in them has to be escaped. -/
theorem seen_iff {pairs : List (Bytes × Bytes)} {codes : List PairCode}
    (encodes : List.Forall₂ EncodesPair pairs codes) :
    codes.map PairCode.seen = pairs ↔ ∀ pair ∈ pairs, Plain pair.1 ∧ Plain pair.2 := by
  induction encodes with
  | nil => exact iff_of_true rfl fun pair member => absurd member List.not_mem_nil
  | @cons pair code pairs codes head _ ih =>
    have first : code.seen = pair ↔ Plain pair.1 ∧ Plain pair.2 := by
      constructor
      · rintro rfl
        exact ⟨head.1.plain_of_eq rfl, head.2.plain_of_eq rfl⟩
      · rintro ⟨key, value⟩
        rw [PairCode.seen, head.1.rewritten_eq key, head.2.rewritten_eq value]
    rw [List.map_cons, List.cons.injEq, first, ih, List.forall_mem_cons]

/-- The decoding leaves the map of the pairs in `m_post`. -/
def Decodes (req : HttpRequest) (pairs : List (Bytes × Bytes)) : Prop :=
  ∃ next, req.parseFromUrlencoded = .ok next ∧ next.post = store (fun _ => none) pairs

/-- Nothing has to be escaped, and the last value is not empty. -/
def Decodable (pairs : List (Bytes × Bytes)) : Prop :=
  (∀ pair ∈ pairs, Plain pair.1 ∧ Plain pair.2) ∧ ∀ last ∈ pairs.getLast?, last.2 ≠ []

theorem decodes_nil {req : HttpRequest} (bare : req.body = []) (empty : req.post = fun _ => none) :
    Decodes req [] := by
  refine ⟨req, ?_, empty⟩
  rw [parseFromUrlencoded, bare]
  rfl

theorem decodes_short {req : HttpRequest} {pairs : List (Bytes × Bytes)}
    (distinct : (pairs.map Prod.fst).Nodup) (encoded : EncodesForm pairs req.body)
    (empty : req.post = fun _ => none) (small : req.body.length < 2 ^ 31) :
    Decodes req pairs ↔ Decodable pairs := by
  obtain ⟨codes, encodes, form⟩ := encoded
  have lengths := encodes.length_eq
  rcases (codes.map PairCode.seen).eq_nil_or_concat with bare | ⟨stored, last, shape⟩
  · obtain rfl : codes = [] := List.map_eq_nil_iff.mp bare
    obtain rfl : pairs = [] := List.length_eq_zero_iff.mp lengths
    refine iff_of_true (decodes_nil form empty) ⟨?_, ?_⟩ <;> simp
  · rw [List.concat_eq_append] at shape
    obtain ⟨next, run, post⟩ := post_of_form encodes shape form empty small
    have decodes : Decodes req pairs ↔ next.post = store (fun _ => none) pairs := by
      rw [Decodes, run]
      simp
    have seen := seen_iff encodes
    rw [decodes, post, Decodable, ← seen]
    constructor
    · split_ifs with kept
      · intro same
        rw [← shape] at same
        have pairsSeen := seen_of_store encodes distinct same
        refine ⟨pairsSeen, ?_⟩
        rw [← pairsSeen, shape]
        simpa using kept.2
      · intro same
        have shapeLength := congrArg List.length shape
        simp only [List.length_map, List.length_append, List.length_singleton] at shapeLength
        have perm := perm_of_store distinct (by omega) same
        have length := perm.length_eq
        simp only [List.length_map] at length
        omega
    · rintro ⟨pairsSeen, value⟩
      rw [← pairsSeen, shape] at distinct value ⊢
      rw [if_pos]
      refine ⟨?_, value last (by simp)⟩
      rw [List.map_append, List.nodup_append] at distinct
      apply store_of_notMem
      intro member
      exact distinct.2.2 _ member _ (by simp) rfl

/-- A body of at least `2 ^ 31` bytes has a size that is no positive `int` up to `2 ^ 32`, and nothing of it
is read. -/
theorem not_decodes_long {req : HttpRequest} {pairs : List (Bytes × Bytes)}
    (distinct : (pairs.map Prod.fst).Nodup) (encoded : EncodesForm pairs req.body)
    (empty : req.post = fun _ => none) (long : 2 ^ 31 ≤ req.body.length)
    (small : req.body.length < 2 ^ 32) : ¬ Decodes req pairs := by
  obtain ⟨codes, encodes, form⟩ := encoded
  have size : (formSize req.body).toNat = 0 := by
    rw [formSize, BitVec.toInt_eq_toNat_cond, BitVec.toNat_ofNat]
    split_ifs <;> omega
  have run : req.parseFromUrlencoded = .ok { req with body := req.body, post := req.post } := by
    rw [parseFromUrlencoded, if_neg (by omega), size, scanForm, ok_bind,
      assert_of (show req.formStart.j ≤ req.formStart.i from le_rfl), ok_bind,
      if_neg fun both => absurd both.2 (lt_irrefl 0)]
    rfl
  rintro ⟨next, other, post⟩
  cases run.symm.trans other
  cases encodes with
  | nil =>
    rw [form] at long
    exact absurd long (by decide)
  | @cons pair =>
    have stored : store (fun _ => none) _ pair.1 = some pair.2 :=
      store_of_mem distinct List.mem_cons_self
    rw [← post, empty] at stored
    cases stored

/-- A form of pairs with distinct keys decodes to the map of the pairs if it is shorter than `2 ^ 31` bytes,
nothing in it is escaped and the last value is not empty. Below `2 ^ 32` bytes it does not otherwise. From
there on `int n` has wrapped round to a positive number and the scan stops inside the body: a last value of
billions of bytes that happens to be what the scan makes of the cut-off part of its own code would come
back, so the other direction ends here. -/
theorem decodes_iff {req : HttpRequest} {pairs : List (Bytes × Bytes)}
    (distinct : (pairs.map Prod.fst).Nodup) (encoded : EncodesForm pairs req.body)
    (empty : req.post = fun _ => none) :
    (req.body.length < 2 ^ 31 ∧ Decodable pairs → Decodes req pairs) ∧
    (req.body.length < 2 ^ 32 → Decodes req pairs →
      req.body.length < 2 ^ 31 ∧ Decodable pairs) := by
  constructor
  · rintro ⟨small, decodable⟩
    exact (decodes_short distinct encoded empty small).mpr decodable
  · intro size decodes
    have small : req.body.length < 2 ^ 31 := by
      by_contra long
      exact not_decodes_long distinct encoded empty (Nat.le_of_not_lt long) size decodes
    exact ⟨small, (decodes_short distinct encoded empty small).mp decodes⟩

/-- `a=b+c`. -/
theorem decodes_space :
    Decodes { init with body := ascii "a=b+c" } [(ascii "a", ascii "b c")] := by
  have key : Encodes (ascii "a") [ascii "a"] := .cons (.plain rfl) .nil
  have value : Encodes (ascii "b c") [ascii "b", ascii "+", ascii "c"] :=
    .cons (.plain rfl) (.cons .space (.cons (.plain rfl) .nil))
  have encoded : EncodesForm [(ascii "a", ascii "b c")] (ascii "a=b+c") :=
    ⟨[([ascii "a"], [ascii "b", ascii "+", ascii "c"])], .cons ⟨key, value⟩ .nil, rfl⟩
  refine (decodes_iff (by simp) encoded rfl).1 ⟨by decide, ?_, ?_⟩
  · intro pair member
    rw [List.mem_singleton] at member
    subst member
    exact ⟨plain_of_all rfl, plain_of_all rfl⟩
  · intro last member
    cases member
    decide

/-- `a=%26` does not decode to an ampersand. -/
theorem not_forall_decodes :
    ¬ ∀ (req : HttpRequest) (pairs : List (Bytes × Bytes)), (pairs.map Prod.fst).Nodup →
      (∀ pair ∈ pairs, pair.1 ≠ []) → EncodesForm pairs req.body → (req.post = fun _ => none) →
        Decodes req pairs := by
  intro decodes
  have key : Encodes (ascii "a") [ascii "a"] := .cons (.plain rfl) .nil
  have value : Encodes (ascii "&") [ascii "%26"] :=
    .cons (.escape rfl (by decide) (Or.inl ⟨by decide, rfl⟩) (Or.inl ⟨by decide, rfl⟩)) .nil
  have encoded : EncodesForm [(ascii "a", ascii "&")] (ascii "a=%26") :=
    ⟨[([ascii "a"], [ascii "%26"])], .cons ⟨key, value⟩ .nil, rfl⟩
  have decoded := decodes { init with body := ascii "a=%26" } [(ascii "a", ascii "&")] (by simp)
    (by simp [ascii]) encoded rfl
  have plain := ((decodes_short (by simp) encoded rfl (by decide)).mp decoded).1 _
    List.mem_cons_self
  exact absurd (plain.2 38 (by decide)) (by decide)

end HttpRequest

end XWebServer
