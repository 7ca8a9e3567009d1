import Mathlib.Data.List.Basic
import Mathlib.Data.List.Infix
import Mathlib.Data.List.TakeWhile
import XWebServer.Lib.Decimal

/-! # C strings

A character array is the list of its bytes, and the string it holds is what stands before the first NUL
byte: `value`. The functions of `string.h` that write into an array are missing where they would leave it
or read past its end. A string that is only read is the list of its bytes, none of them NUL.
-/

namespace CString

/-- The string in an array; none where no NUL byte ends it. -/
def value (array : List UInt8) : Option (List UInt8) :=
  if 0 ∈ array then some (array.takeWhile (· ≠ 0)) else none

/-- The array with these bytes from `start` on. -/
def write (array : List UInt8) (start : ℕ) (bytes : List UInt8) : Option (List UInt8) :=
  if start + bytes.length ≤ array.length then
    some (array.take start ++ bytes ++ array.drop (start + bytes.length))
  else none

def strcpy (array text : List UInt8) : Option (List UInt8) := write array 0 (text ++ [0])

def strcat (array text : List UInt8) : Option (List UInt8) :=
  (value array).bind fun before => write array before.length (text ++ [0])

/-- Writes `count` bytes, NUL bytes behind a text that is shorter. -/
def strncpy (array text : List UInt8) (count : ℕ) : Option (List UInt8) :=
  write array 0 (text.take count ++ List.replicate (count - text.length) 0)

/-- The offset of the first occurrence of a byte. -/
def strchr (text : List UInt8) (char : UInt8) : Option ℕ :=
  if char ∈ text then some (text.takeWhile (· ≠ char)).length else none

/-- The offset of the first occurrence of a word. -/
def strstr : List UInt8 → List UInt8 → Option ℕ
  | [], word => if word = [] then some 0 else none
  | char :: rest, word =>
      if word.isPrefixOf (char :: rest) then some 0 else (strstr rest word).map (· + 1)

/-- The length of the front without a byte. -/
def strcspn (text : List UInt8) (char : UInt8) : ℕ := (text.takeWhile (· ≠ char)).length

def tolower (char : UInt8) : UInt8 :=
  if 65 ≤ char.toNat ∧ char.toNat ≤ 90 then char + 32 else char

/-- `strncasecmp(word, text, strlen(word)) == 0`. -/
def startsWith (word text : List UInt8) : Bool :=
  (text.take word.length).map tolower = word.map tolower

def isspace (char : UInt8) : Bool := char = 32 ∨ (9 ≤ char.toNat ∧ char.toNat ≤ 13)

def isdigit (char : UInt8) : Bool := 48 ≤ char.toNat ∧ char.toNat ≤ 57

/-- The number in front of a text, behind white space and with an optional sign. -/
def atoi (text : List UInt8) : ℤ :=
  match text.dropWhile isspace with
  | 45 :: rest => -(Decimal.value (rest.takeWhile isdigit))
  | 43 :: rest => Decimal.value (rest.takeWhile isdigit)
  | rest => Decimal.value (rest.takeWhile isdigit)

/-- `%d` of `scanf` on a stream that is not at its end: missing while the number may still go on, and then
the number, unless there is none, and the rest of the stream. -/
def scanInt (stream : List UInt8) : Option (Option ℤ × List UInt8) :=
  let text := stream.dropWhile isspace
  let unsigned := if text.head? = some 45 ∨ text.head? = some 43 then text.tail else text
  let digits := unsigned.takeWhile isdigit
  let rest := unsigned.dropWhile isdigit
  if rest = [] then none
  else if digits = [] then some (none, rest)
  else if text.head? = some 45 then some (some (-(Decimal.value digits)), rest)
  else some (some (Decimal.value digits), rest)

/-- So many `%d` in a row, up to the first that finds no number. -/
def scanInts : ℕ → List UInt8 → Option (List ℤ × List UInt8)
  | 0, stream => some ([], stream)
  | count + 1, stream =>
      match scanInt stream with
      | none => none
      | some (none, rest) => some ([], rest)
      | some (some number, rest) => (scanInts count rest).map fun scanned => (number :: scanned.1, scanned.2)

/-! ## Splitting at a byte -/

private theorem notEqual {text : List UInt8} {char : UInt8} (free : char ∉ text) :
    ∀ other ∈ text, decide (other ≠ char) = true := by
  intro other member
  have differs : other ≠ char := fun same => free (same ▸ member)
  exact decide_eq_true differs

theorem takeWhile_of_notMem {text : List UInt8} {char : UInt8} (free : char ∉ text) (rest : List UInt8) :
    (text ++ char :: rest).takeWhile (· ≠ char) = text := by
  rw [List.takeWhile_append_of_pos (notEqual free)]
  simp

theorem dropWhile_of_notMem {text : List UInt8} {char : UInt8} (free : char ∉ text) (rest : List UInt8) :
    (text ++ char :: rest).dropWhile (· ≠ char) = char :: rest := by
  rw [List.dropWhile_append_of_pos (notEqual free)]
  simp

theorem notMem_takeWhile (text : List UInt8) (char : UInt8) : char ∉ text.takeWhile (· ≠ char) := by
  intro member
  simpa using List.mem_takeWhile_imp member

/-- A text is cut at the first occurrence of a byte. -/
theorem exists_eq_append {text : List UInt8} {char : UInt8} (member : char ∈ text) :
    ∃ rest, text = text.takeWhile (· ≠ char) ++ char :: rest := by
  obtain ⟨front, rest, split⟩ := List.append_of_mem member
  induction front generalizing text with
  | nil => exact ⟨rest, by simp [split]⟩
  | cons first front ih =>
    by_cases same : first = char
    · exact ⟨front ++ char :: rest, by simp [split, same]⟩
    · obtain ⟨others, tail⟩ := @ih (front ++ char :: rest) (by simp) rfl
      refine ⟨others, ?_⟩
      rw [split, List.cons_append, List.takeWhile_cons_of_pos (by simpa using same), List.cons_append,
        ← tail]

theorem strchr_append {text : List UInt8} {char : UInt8} (free : char ∉ text) (rest : List UInt8) :
    strchr (text ++ char :: rest) char = some text.length := by
  rw [strchr, if_pos (by simp), takeWhile_of_notMem free]

theorem strcspn_append {text : List UInt8} {char : UInt8} (free : char ∉ text) (rest : List UInt8) :
    strcspn (text ++ char :: rest) char = text.length := by
  rw [strcspn, takeWhile_of_notMem free]

/-! ## Strings in arrays -/

theorem value_append {text : List UInt8} (free : 0 ∉ text) (rest : List UInt8) :
    value (text ++ 0 :: rest) = some text := by
  rw [value, if_pos (by simp), takeWhile_of_notMem free]

/-- An array that holds a string is the string, the NUL byte, and some more bytes. -/
theorem eq_of_value {array text : List UInt8} (holds : value array = some text) :
    0 ∉ text ∧ ∃ rest, array = text ++ 0 :: rest := by
  rw [value] at holds
  split_ifs at holds with ended
  obtain rfl := Option.some.inj holds
  exact ⟨notMem_takeWhile _ _, exists_eq_append ended⟩

theorem value_eq_none_iff {array : List UInt8} : value array = none ↔ 0 ∉ array := by
  rw [value]
  split_ifs with ended <;> simp [ended]

/-- A text in a cleared array is a string where a NUL byte is left behind it. -/
theorem value_cleared {text : List UInt8} (free : 0 ∉ text) (left : ℕ) :
    value (text ++ List.replicate left 0) = if left = 0 then none else some text := by
  cases left with
  | zero => simpa using value_eq_none_iff.mpr free
  | succ left => exact value_append free _

theorem length_of_write {array next bytes : List UInt8} {start : ℕ}
    (run : write array start bytes = some next) : next.length = array.length := by
  rw [write] at run
  split_ifs at run with room
  obtain rfl := Option.some.inj run
  simp only [List.length_append, List.length_take, List.length_drop]
  omega

theorem value_write {array text : List UInt8} (free : 0 ∉ text) {start : ℕ} {front : List UInt8}
    (before : array.take start = front) (clean : 0 ∉ front) (room : start + text.length < array.length) :
    ∃ next, write array start (text ++ [0]) = some next ∧ value next = some (front ++ text) := by
  refine ⟨_, if_pos (by simp; omega), ?_⟩
  rw [before, ← List.append_assoc, List.append_assoc (front ++ text)]
  apply value_append
  rw [List.mem_append, not_or]
  exact ⟨clean, free⟩

/-- `strcpy` and `strcat` are fine as long as there is room for the text and its NUL byte. -/
theorem strcpy_of {array text : List UInt8} (free : 0 ∉ text) (room : text.length < array.length) :
    ∃ next, strcpy array text = some next ∧ value next = some text :=
  value_write free (List.take_zero ..) List.not_mem_nil (by omega)

theorem strcat_of {array before text : List UInt8} (holds : value array = some before) (free : 0 ∉ text)
    (room : before.length + text.length < array.length) :
    ∃ next, strcat array text = some next ∧ value next = some (before ++ text) := by
  obtain ⟨clean, rest, split⟩ := eq_of_value holds
  rw [strcat, holds]
  apply value_write free _ clean room
  rw [split, List.take_left]

theorem length_of_strcpy {array next text : List UInt8} (run : strcpy array text = some next) :
    next.length = array.length := length_of_write run

theorem length_of_strcat {array next text : List UInt8} (run : strcat array text = some next) :
    next.length = array.length := by
  obtain ⟨before, _, run⟩ := Option.bind_eq_some_iff.mp run
  exact length_of_write run

/-- A front of a text goes into a cleared array as long as it is not longer, with or without a NUL byte
behind it. -/
theorem strncpy_cleared {text : List UInt8} {count : ℕ} (long : count ≤ text.length) (size : ℕ) :
    strncpy (List.replicate size 0) text count =
      if count ≤ size then some (text.take count ++ List.replicate (size - count) 0) else none := by
  have padding : count - text.length = 0 := by omega
  have length : (text.take count).length = count := List.length_take_of_le long
  rw [strncpy, padding, List.replicate_zero, List.append_nil, write, length, Nat.zero_add,
    List.length_replicate, List.take_zero, List.nil_append, List.drop_replicate]

/-! ## Numbers -/

theorem value_digits_lt {text : List UInt8} (digits : ∀ char ∈ text, isdigit char = true) :
    Decimal.value text < 10 ^ text.length := by
  suffices general : ∀ number : ℕ,
      text.foldl (fun number byte => 10 * number + (byte.toNat - 48)) number <
        (number + 1) * 10 ^ text.length by
    have bound := general 0
    rwa [Nat.zero_add, Nat.one_mul] at bound
  induction text with
  | nil => intro number; simp
  | cons char text ih =>
    intro number
    have digit : char.toNat ≤ 57 := (by
      simpa [isdigit] using digits char List.mem_cons_self : 48 ≤ char.toNat ∧ char.toNat ≤ 57).2
    rw [List.foldl_cons]
    apply (ih (fun other member => digits other (List.mem_cons_of_mem _ member)) _).trans_le
    rw [List.length_cons, Nat.pow_succ', ← Nat.mul_assoc]
    exact Nat.mul_le_mul_right _ (by omega)

/-- A text of so many characters is not more than a number with so many digits. -/
theorem natAbs_atoi_lt (text : List UInt8) : (atoi text).natAbs < 10 ^ text.length := by
  have short (rest : List UInt8) (length : rest.length ≤ text.length) :
      Decimal.value (rest.takeWhile isdigit) < 10 ^ text.length := by
    have bound : Decimal.value (rest.takeWhile isdigit) < 10 ^ (rest.takeWhile isdigit).length :=
      value_digits_lt fun char member => List.mem_takeWhile_imp member
    have front : (rest.takeWhile isdigit).length ≤ rest.length := (List.takeWhile_prefix _).length_le
    exact bound.trans_le (Nat.pow_le_pow_right (by decide) (by omega))
  have dropped : (text.dropWhile isspace).length ≤ text.length := (List.dropWhile_suffix _).length_le
  rw [atoi]
  split
  · rename_i rest same
    rw [same, List.length_cons] at dropped
    rw [Int.natAbs_neg, Int.natAbs_natCast]
    exact short rest (by omega)
  · rename_i rest same
    rw [same, List.length_cons] at dropped
    rw [Int.natAbs_natCast]
    exact short rest (by omega)
  · rw [Int.natAbs_natCast]
    exact short _ dropped

theorem isdigit_of_mem_padded {width n : ℕ} {char : UInt8} (member : char ∈ Decimal.padded width n) :
    isdigit char = true :=
  decide_eq_true (Decimal.mem_padded member)

/-- Nothing but white space has come. -/
theorem scanInt_blank {blanks : List UInt8} (blank : ∀ char ∈ blanks, isspace char = true) :
    scanInt blanks = none := by
  have none : blanks.dropWhile isspace = [] := List.dropWhile_eq_nil_iff.mpr blank
  simp [scanInt, none]

/-- The digits in front of another character. -/
private theorem span_digits (n : ℕ) {mark : UInt8} (ends : isdigit mark = false) (rest : List UInt8) :
    (Decimal.padded 0 n ++ mark :: rest).takeWhile isdigit = Decimal.padded 0 n ∧
      (Decimal.padded 0 n ++ mark :: rest).dropWhile isdigit = mark :: rest := by
  have digits : ∀ char ∈ Decimal.padded 0 n, isdigit char = true := fun _ => isdigit_of_mem_padded
  have stops : ¬ isdigit mark = true := by
    rw [ends]
    decide
  constructor
  · rw [List.takeWhile_append_of_pos digits, List.takeWhile_cons_of_neg stops, List.append_nil]
  · rw [List.dropWhile_append_of_pos digits, List.dropWhile_cons_of_neg stops]

/-- A numeral is read back, up to the character behind it. -/
theorem scanInt_numeral {blanks : List UInt8} (blank : ∀ char ∈ blanks, isspace char = true) (n : ℤ)
    {mark : UInt8} (ends : isdigit mark = false) (rest : List UInt8) :
    scanInt (blanks ++ (Decimal.numeral n ++ mark :: rest)) = some (some n, mark :: rest) := by
  obtain ⟨first, others, split⟩ : ∃ first others, Decimal.padded 0 n.natAbs = first :: others := by
    refine List.exists_cons_of_ne_nil ?_
    rw [← List.length_pos_iff, Decimal.length_padded]
    exact lt_of_lt_of_le Nat.length_toDigits_pos (Nat.le_max_right _ _)
  have some : Decimal.padded 0 n.natAbs ≠ [] := by rw [split]; exact List.cons_ne_nil _ _
  have dropped {char : UInt8} (notSpace : isspace char = false) (text : List UInt8) :
      (blanks ++ char :: text).dropWhile isspace = char :: text := by
    rw [List.dropWhile_append_of_pos blank, List.dropWhile_cons_of_neg]
    rw [notSpace]
    decide
  obtain ⟨taken, left⟩ := span_digits n.natAbs ends rest
  by_cases negative : n < 0
  · have text := dropped (show isspace 45 = false by decide) (Decimal.padded 0 n.natAbs ++ mark :: rest)
    have value : -(n.natAbs : ℤ) = n := by omega
    simp only [scanInt, Decimal.numeral, negative, if_true, List.cons_append, text, List.head?_cons,
      true_or, List.tail_cons, taken, left, reduceCtorEq, if_false, some, Decimal.value_padded, value]
  · have isFirst : isdigit first = true := isdigit_of_mem_padded (by rw [split]; exact List.mem_cons_self)
    have range : 48 ≤ first.toNat ∧ first.toNat ≤ 57 := by simpa [isdigit] using isFirst
    have notSpace : isspace first = false := by
      have notBlank : first ≠ 32 := by rintro rfl; exact absurd range.1 (by decide)
      simp only [isspace, notBlank, false_or, decide_eq_false_iff_not]
      omega
    have notMinus : first ≠ 45 := by rintro rfl; exact absurd range.1 (by decide)
    have notPlus : first ≠ 43 := by rintro rfl; exact absurd range.1 (by decide)
    have text := dropped notSpace (others ++ mark :: rest)
    rw [← List.cons_append, ← split] at text
    have head : (Decimal.padded 0 n.natAbs ++ mark :: rest).head? = .some first := by rw [split]; rfl
    have value : (n.natAbs : ℤ) = n := by omega
    simp only [scanInt, Decimal.numeral, negative, if_false, text, head, Option.some.injEq, notMinus,
      notPlus, or_self, taken, left, reduceCtorEq, some, Decimal.value_padded, value]

end CString
