import XWebServer.Http.Request
import Mathlib.Logic.Relation

/-! # `ParseFromUrlencoded`: the scan of a form

The scan rewrites the body in place. An escape takes the two characters behind the percent sign without a
look at where the body ends, so the decoding stays inside the body exactly when every percent sign it comes
to has two characters behind it.
-/

namespace XWebServer

/-- A character of a `std::string`. -/
def charAt (text : Bytes) (index : ℕ) : Except Fault UInt8 :=
  match text[index]? with
  | some ch => .ok ch
  | none => .error .outOfRange

def substr (text : Bytes) (pos count : ℕ) : Except Fault Bytes :=
  if pos ≤ text.length then .ok ((text.drop pos).take count) else .error .outOfRange

/-- A sum on `int` that is used as a subscript. One past the range turns negative, which is past the end
of every string. -/
def intAdd (a b : ℕ) : Except Fault ℕ := if a + b < 2 ^ 31 then .ok (a + b) else .error .outOfRange

namespace HttpRequest

/-- A `char` is signed, and a decimal digit stands for its own code. -/
def converHex (ch : UInt8) : ℤ :=
  if 65 ≤ ch ∧ ch ≤ 70 then ch.toNat - 65 + 10
  else if 97 ≤ ch ∧ ch ≤ 102 then ch.toNat - 97 + 10
  else ch.toInt8.toInt

/-- The number of an escape. -/
def escapeNum (first second : UInt8) : ℤ := converHex first * 16 + converHex second

/-- `num / 10 + '0'`, as a `char`. -/
def tensChar (first second : UInt8) : UInt8 := UInt8.ofInt ((escapeNum first second).tdiv 10 + 48)

/-- `num % 10 + '0'`, as a `char`. -/
def unitsChar (first second : UInt8) : UInt8 := UInt8.ofInt ((escapeNum first second).tmod 10 + 48)

/-- The variables of the scan that live from one pass to the next. -/
structure FormScan where
  body : Bytes
  i : ℕ
  j : ℕ
  key : Bytes
  post : Bytes → Option Bytes

/-- One pass of the loop, with its `i++`. -/
def FormScan.pass (scan : FormScan) : Except Fault FormScan := do
  let ch ← charAt scan.body scan.i
  if ch = 61 then
    let key ← substr scan.body scan.j (sizeSub scan.i scan.j)
    .ok { scan with key := key, j := scan.i + 1, i := scan.i + 1 }
  else if ch = 43 then
    .ok { scan with body := scan.body.set scan.i 32, i := scan.i + 1 }
  else if ch = 37 then
    let first ← charAt scan.body (← intAdd scan.i 1)
    let second ← charAt scan.body (← intAdd scan.i 2)
    let i ← intAdd scan.i 3
    .ok { scan with
      body := (scan.body.set (scan.i + 2) (unitsChar first second)).set (scan.i + 1)
        (tensChar first second)
      i := i }
  else if ch = 38 then
    let value ← substr scan.body scan.j (sizeSub scan.i scan.j)
    .ok { scan with
      post := Function.update scan.post scan.key (some value), j := scan.i + 1, i := scan.i + 1 }
  else .ok { scan with i := scan.i + 1 }

/-- The loop. Each pass moves `i` on, so `n` passes are enough (`scanForm_fuel`). -/
def scanForm (n : ℤ) : ℕ → FormScan → Except Fault FormScan
  | 0, scan => .ok scan
  | fuel + 1, scan => if scan.i < n then do scanForm n fuel (← scan.pass) else .ok scan

/-- `int n = m_body.size()`. -/
def formSize (body : Bytes) : ℤ := (BitVec.ofNat 32 body.length).toInt

def formStart (req : HttpRequest) : FormScan where
  body := req.body
  i := 0
  j := 0
  key := []
  post := req.post

def parseFromUrlencoded (req : HttpRequest) : Except Fault HttpRequest :=
  if req.body.length = 0 then .ok req
  else do
    let scan ← scanForm (formSize req.body) (formSize req.body).toNat req.formStart
    assert (scan.j ≤ scan.i)
    if scan.post scan.key = none ∧ scan.j < scan.i then
      let value ← substr scan.body scan.j (sizeSub scan.i scan.j)
      .ok { req with
        body := scan.body
        post := Function.update scan.post scan.key (some value) }
    else .ok { req with body := scan.body, post := scan.post }

/-! ## What a pass does -/

/-- A pass that takes `width` characters leaves those behind them as they were. -/
structure Passed (scan next : FormScan) (width : ℕ) : Prop where
  index : next.i = scan.i + width
  token : next.j ≤ next.i
  inside : next.i ≤ next.body.length
  length : next.body.length = scan.body.length
  ahead : ∀ k, next.i ≤ k → next.body[k]? = scan.body[k]?

theorem charAt_ok {text : Bytes} {index : ℕ} {ch : UInt8} (found : text[index]? = some ch) :
    charAt text index = .ok ch := by
  rw [charAt, found]

theorem lt_of_charAt {text : Bytes} {index : ℕ} {ch : UInt8} (run : charAt text index = .ok ch) :
    index < text.length := by
  rw [charAt] at run
  split at run
  · exact (List.getElem?_eq_some_iff.mp ‹_›).1
  · cases run

theorem intAdd_ok {a b : ℕ} (small : a + b < 2 ^ 31) : intAdd a b = .ok (a + b) := if_pos small

theorem intAdd_eq_ok {a b sum : ℕ} (run : intAdd a b = .ok sum) : sum = a + b ∧ a + b < 2 ^ 31 := by
  rw [intAdd] at run
  split_ifs at run with small
  cases run
  exact ⟨rfl, small⟩

theorem substr_ok {text : Bytes} {pos count : ℕ} (inside : pos ≤ text.length) :
    substr text pos count = .ok ((text.drop pos).take count) := if_pos inside

/-- The two characters behind a percent sign are characters of the body, and the index gets past them. -/
def Fits (body : Bytes) (i : ℕ) : Prop := i + 2 < body.length ∧ i + 3 < 2 ^ 31

/-- An escape with its two characters. -/
theorem pass_percent {scan : FormScan} {first second : UInt8}
    (percent : scan.body[scan.i]? = some 37) (tens : scan.body[scan.i + 1]? = some first)
    (units : scan.body[scan.i + 2]? = some second) (small : scan.i + 3 < 2 ^ 31) :
    scan.pass = .ok { scan with
      body := (scan.body.set (scan.i + 2) (unitsChar first second)).set (scan.i + 1)
        (tensChar first second)
      i := scan.i + 3 } := by
  rw [FormScan.pass, charAt_ok percent, intAdd_ok (show scan.i + 1 < 2 ^ 31 by omega),
    intAdd_ok (show scan.i + 2 < 2 ^ 31 by omega), intAdd_ok small]
  simp only [ok_bind, charAt_ok tens, charAt_ok units]
  rfl

/-- Without them the pass breaks off. -/
theorem fits_of_pass {scan next : FormScan} (percent : scan.body[scan.i]? = some 37)
    (run : scan.pass = .ok next) : Fits scan.body scan.i := by
  rw [FormScan.pass, charAt_ok percent] at run
  simp only [ok_bind] at run
  rw [if_neg (by decide), if_neg (by decide), if_pos trivial] at run
  obtain ⟨_, _, run⟩ := bind_ok run
  obtain ⟨_, _, run⟩ := bind_ok run
  obtain ⟨index, sum, run⟩ := bind_ok run
  obtain ⟨_, units, run⟩ := bind_ok run
  obtain ⟨_, small, _⟩ := bind_ok run
  obtain ⟨rfl, _⟩ := intAdd_eq_ok sum
  exact ⟨lt_of_charAt units, (intAdd_eq_ok small).2⟩

theorem passed_percent {scan : FormScan} (token : scan.j ≤ scan.i)
    (percent : scan.body[scan.i]? = some 37) (fits : Fits scan.body scan.i) :
    ∃ next, scan.pass = .ok next ∧ Passed scan next 3 := by
  obtain ⟨units, small⟩ := fits
  have tens : scan.i + 1 < scan.body.length := by omega
  refine ⟨_, pass_percent percent (List.getElem?_eq_getElem tens) (List.getElem?_eq_getElem units)
    small, rfl, by simp only; omega, ?_, ?_, ?_⟩
  · simp only [List.length_set]
    omega
  · simp only [List.length_set]
  · intro k behind
    simp only at behind
    rw [List.getElem?_set_ne (by omega), List.getElem?_set_ne (by omega)]

/-- Every other character is one pass that goes well. -/
theorem passed_other {scan : FormScan} {ch : UInt8} (token : scan.j ≤ scan.i)
    (found : scan.body[scan.i]? = some ch) (other : ch ≠ 37) :
    ∃ next, scan.pass = .ok next ∧ Passed scan next 1 := by
  have inside : scan.i < scan.body.length := (List.getElem?_eq_some_iff.mp found).1
  have start : scan.j ≤ scan.body.length := by omega
  rw [FormScan.pass, charAt_ok found, substr_ok start]
  simp only [ok_bind, if_neg other]
  split_ifs
  · exact ⟨_, rfl, rfl, le_rfl, inside, rfl, fun _ _ => rfl⟩
  · refine ⟨_, rfl, rfl, by simp only; omega, ?_, ?_, ?_⟩
    · simp only [List.length_set]
      omega
    · simp only [List.length_set]
    · intro k behind
      simp only at behind
      rw [List.getElem?_set_ne (by omega)]
  · exact ⟨_, rfl, rfl, le_rfl, inside, rfl, fun _ _ => rfl⟩
  · exact ⟨_, rfl, rfl, by simp only; omega, inside, rfl, fun _ _ => rfl⟩

/-! ## The positions the scan comes to -/

theorem formSize_le (body : Bytes) : formSize body ≤ body.length := by
  rw [formSize, BitVec.toInt_eq_toNat_cond, BitVec.toNat_ofNat]
  have smaller := Nat.mod_le body.length (2 ^ 32)
  split_ifs <;> omega

/-- From one position to the next. An escape is three characters wide. -/
def Goes (body : Bytes) (i next : ℕ) : Prop :=
  i < formSize body ∧ next = if body[i]? = some 37 then i + 3 else i + 1

/-- The scan looks at the character at `i`. -/
def Visits (body : Bytes) (i : ℕ) : Prop :=
  Relation.ReflTransGen (Goes body) 0 i ∧ i < formSize body

/-- The escapes that the scan comes to from `i` on have their two characters. -/
def FitsFrom (body : Bytes) (i : ℕ) : Prop :=
  ∀ k, Relation.ReflTransGen (Goes body) i k → k < formSize body → body[k]? = some 37 → Fits body k

theorem fitsFrom_end {body : Bytes} {i : ℕ} (done : ¬ i < formSize body) : FitsFrom body i := by
  intro k goes inside _
  rcases goes.cases_head with rfl | ⟨_, step, _⟩
  · exact absurd inside done
  · exact absurd step.1 done

theorem fitsFrom_iff {body : Bytes} {i next : ℕ} (step : Goes body i next) :
    FitsFrom body i ↔ (body[i]? = some 37 → Fits body i) ∧ FitsFrom body next := by
  constructor
  · intro fits
    exact ⟨fits i .refl step.1, fun k goes => fits k (.head step goes)⟩
  · rintro ⟨here, later⟩ k goes inside percent
    rcases goes.cases_head with rfl | ⟨other, first, goes⟩
    · exact here percent
    · rw [first.2, ← step.2] at goes
      exact later k goes inside percent

theorem advances_of_pass {scan next : FormScan} (run : scan.pass = .ok next) : scan.i < next.i := by
  rw [FormScan.pass] at run
  obtain ⟨ch, _, run⟩ := bind_ok run
  split_ifs at run
  · obtain ⟨_, _, run⟩ := bind_ok run
    cases run
    exact Nat.lt_succ_self _
  · cases run
    exact Nat.lt_succ_self _
  · obtain ⟨_, _, run⟩ := bind_ok run
    obtain ⟨_, _, run⟩ := bind_ok run
    obtain ⟨_, _, run⟩ := bind_ok run
    obtain ⟨_, _, run⟩ := bind_ok run
    obtain ⟨_, sum, run⟩ := bind_ok run
    cases run
    obtain ⟨rfl, _⟩ := intAdd_eq_ok sum
    exact Nat.lt_add_of_pos_right (by decide)
  · obtain ⟨_, _, run⟩ := bind_ok run
    cases run
    exact Nat.lt_succ_self _
  · cases run
    exact Nat.lt_succ_self _

/-- More passes than characters to go change nothing. -/
theorem scanForm_fuel {n : ℤ} {fuel : ℕ} {scan : FormScan} (enough : n ≤ scan.i + fuel) (more : ℕ) :
    scanForm n (fuel + more) scan = scanForm n fuel scan := by
  induction fuel generalizing scan with
  | zero =>
    have done : ¬ (scan.i : ℤ) < n := by omega
    cases more with
    | zero => rfl
    | succ more =>
      rw [Nat.zero_add, scanForm, scanForm, if_neg done]
  | succ fuel ih =>
    rw [Nat.add_right_comm, scanForm, scanForm]
    split_ifs with inside
    · cases run : scan.pass with
      | error fault => rfl
      | ok next =>
        have moved := advances_of_pass run
        exact ih (by omega)
    · rfl

/-- Every pass that goes well takes one character or three. -/
theorem passed_of_pass {scan next : FormScan} (token : scan.j ≤ scan.i)
    (inside : scan.i < scan.body.length) (run : scan.pass = .ok next) :
    ∃ width, 0 < width ∧ Passed scan next width := by
  have here : scan.body[scan.i]? = some scan.body[scan.i] := List.getElem?_eq_getElem inside
  by_cases percent : scan.body[scan.i] = 37
  · rw [percent] at here
    obtain ⟨other, same, passed⟩ := passed_percent token here (fits_of_pass here run)
    cases same.symm.trans run
    exact ⟨3, by decide, passed⟩
  · obtain ⟨other, same, passed⟩ := passed_other token here percent
    cases same.symm.trans run
    exact ⟨1, by decide, passed⟩

/-- The loop leaves a token that starts before the index, and the index inside the body or at its end. -/
theorem scanForm_inside {n : ℤ} {fuel : ℕ} {scan last : FormScan} (token : scan.j ≤ scan.i)
    (inside : scan.i ≤ scan.body.length) (size : n ≤ scan.body.length)
    (run : scanForm n fuel scan = .ok last) : last.j ≤ last.i ∧ last.i ≤ last.body.length := by
  induction fuel generalizing scan with
  | zero =>
    cases run
    exact ⟨token, inside⟩
  | succ fuel ih =>
    rw [scanForm] at run
    split_ifs at run with going
    · obtain ⟨next, pass, run⟩ := bind_ok run
      obtain ⟨_, _, passed⟩ := passed_of_pass token (by omega) pass
      exact ih passed.token passed.inside (by rw [passed.length]; exact size) run
    · cases run
      exact ⟨token, inside⟩

/-- The loop gets through exactly when every escape on its way has its two characters. -/
theorem scanForm_ok_iff {body : Bytes} {fuel : ℕ} {scan : FormScan}
    (enough : formSize body ≤ scan.i + fuel) (token : scan.j ≤ scan.i)
    (length : scan.body.length = body.length)
    (ahead : ∀ k, scan.i ≤ k → scan.body[k]? = body[k]?) :
    (∃ last, scanForm (formSize body) fuel scan = .ok last) ↔ FitsFrom body scan.i := by
  induction fuel generalizing scan with
  | zero => exact iff_of_true ⟨scan, rfl⟩ (fitsFrom_end (by omega))
  | succ fuel ih =>
    rw [scanForm]
    by_cases going : (scan.i : ℤ) < formSize body
    · rw [if_pos going]
      have size := formSize_le body
      have inside : scan.i < scan.body.length := by omega
      have here : scan.body[scan.i]? = some scan.body[scan.i] := List.getElem?_eq_getElem inside
      have later {next : FormScan} {width : ℕ} (wide : 0 < width) (passed : Passed scan next width) :=
        ih (by have := passed.index; omega) passed.token (passed.length.trans length)
          fun k behind => (passed.ahead k behind).trans (ahead k (by have := passed.index; omega))
      by_cases percent : scan.body[scan.i] = 37
      · rw [percent] at here
        have step : Goes body scan.i (scan.i + 3) :=
          ⟨going, by rw [← ahead _ le_rfl, if_pos here]⟩
        rw [fitsFrom_iff step, ← ahead _ le_rfl, Fits, ← length]
        by_cases fits : Fits scan.body scan.i
        · obtain ⟨next, run, passed⟩ := passed_percent token here fits
          rw [run, ok_bind, later (by decide) passed, passed.index]
          exact ⟨fun rest => ⟨fun _ => fits, rest⟩, fun rest => rest.2⟩
        · refine iff_of_false ?_ (fun rest => fits (rest.1 here))
          rintro ⟨last, run⟩
          obtain ⟨next, pass, _⟩ := bind_ok run
          exact fits (fits_of_pass here pass)
      · have notHere : body[scan.i]? ≠ some 37 := by
          rw [← ahead _ le_rfl, here]
          exact fun same => percent (Option.some.inj same)
        have step : Goes body scan.i (scan.i + 1) := ⟨going, by rw [if_neg notHere]⟩
        obtain ⟨next, run, passed⟩ := passed_other token here percent
        rw [run, ok_bind, later (by decide) passed, passed.index, fitsFrom_iff step]
        exact ⟨fun rest => ⟨fun same => absurd same notHere, rest⟩, fun rest => rest.2⟩
    · rw [if_neg going]
      exact iff_of_true ⟨scan, rfl⟩ (fitsFrom_end going)

theorem formSize_le_fuel (req : HttpRequest) :
    formSize req.body ≤ req.formStart.i + (formSize req.body).toNat := by
  change formSize req.body ≤ ((0 : ℕ) : ℤ) + (formSize req.body).toNat
  omega

/-- The decoding goes well when its loop does. -/
theorem parseFromUrlencoded_ok_iff (req : HttpRequest) :
    (∃ next, req.parseFromUrlencoded = .ok next) ↔
      ∃ last, scanForm (formSize req.body) (formSize req.body).toNat req.formStart = .ok last := by
  have size := formSize_le req.body
  rw [parseFromUrlencoded]
  split_ifs with empty
  · have none : (formSize req.body).toNat = 0 := by omega
    rw [none]
    exact iff_of_true ⟨_, rfl⟩ ⟨_, rfl⟩
  · constructor
    · rintro ⟨next, run⟩
      obtain ⟨last, scan, _⟩ := bind_ok run
      exact ⟨last, scan⟩
    · rintro ⟨last, run⟩
      obtain ⟨token, inside⟩ := scanForm_inside le_rfl (Nat.zero_le _) size run
      rw [run, ok_bind, assert_of token, ok_bind, substr_ok (token.trans inside)]
      split_ifs
      · exact ⟨_, rfl⟩
      · exact ⟨_, rfl⟩

/-- The scan stops by itself, and the decoding stays inside the body, with its assertion true, exactly
when every percent sign that the scan comes to has two characters of the body behind it, none of them
past the range of the index. -/
theorem parseFromUrlencoded_inside_iff (req : HttpRequest) :
    ((∃ next, req.parseFromUrlencoded = .ok next) ↔
      ∀ i, Visits req.body i → req.body[i]? = some 37 →
        i + 2 < req.body.length ∧ i + 3 < 2 ^ 31) ∧
    ∀ fuel, (formSize req.body).toNat ≤ fuel →
      scanForm (formSize req.body) fuel req.formStart =
        scanForm (formSize req.body) (formSize req.body).toNat req.formStart := by
  have enough := formSize_le_fuel req
  constructor
  · rw [parseFromUrlencoded_ok_iff, scanForm_ok_iff enough le_rfl rfl fun _ _ => rfl]
    exact ⟨fun fits i visit => fits i visit.1 visit.2, fun fits i goes inside => fits i ⟨goes, inside⟩⟩
  · intro fuel more
    obtain ⟨extra, rfl⟩ := Nat.exists_eq_add_of_le more
    exact scanForm_fuel enough extra

/-- In `a=%26` it has. -/
theorem parseFromUrlencoded_inside_escape :
    let req : HttpRequest := { init with body := ascii "a=%26" }
    (∀ i, Visits req.body i → req.body[i]? = some 37 → i + 2 < req.body.length ∧ i + 3 < 2 ^ 31) ∧
    scanForm (formSize req.body) 9 req.formStart =
      scanForm (formSize req.body) (formSize req.body).toNat req.formStart :=
  ⟨(parseFromUrlencoded_inside_iff _).1.mp ⟨_, rfl⟩,
    (parseFromUrlencoded_inside_iff _).2 9 (by decide)⟩

/-- A percent sign alone has not. -/
theorem not_forall_parseFromUrlencoded_inside :
    ¬ ∀ req : HttpRequest, ∃ next, req.parseFromUrlencoded = .ok next := by
  intro inside
  obtain ⟨next, run⟩ := inside { init with body := ascii "%" }
  have fails : ({ init with body := ascii "%" } : HttpRequest).parseFromUrlencoded =
      .error .outOfRange := rfl
  rw [fails] at run
  cases run

end HttpRequest

end XWebServer
