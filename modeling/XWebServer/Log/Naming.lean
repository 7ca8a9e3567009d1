import XWebServer.Basic
import XWebServer.Lib.Decimal
import Mathlib.Data.Prod.Lex

/-! # Time stamps and file names

What `localtime` answers, the stamp that `write` puts before a line, and the names of the log files.
`fileName` is the name a line belongs under. The names that `init` and `write` make are of that form
(`initFile_eq`, `dayFile_eq`, `partFile_eq`), and a name determines its date and its part.
-/

namespace XWebServer

open Decimal

/-- The day of a `struct tm`, with the year and the month as they are printed. -/
structure Date where
  year : ℕ
  mon : ℕ
  mday : ℕ
  year_lt : year < 2 ^ 31
  mon_range : 1 ≤ mon ∧ mon ≤ 12
  mday_range : 1 ≤ mday ∧ mday ≤ 31
deriving DecidableEq

namespace Date

def key (date : Date) : ℕ ×ₗ ℕ ×ₗ ℕ := toLex (date.year, toLex (date.mon, date.mday))

theorem key_injective : Function.Injective key := by
  rintro ⟨year, mon, mday⟩ ⟨year', mon', mday'⟩ same
  obtain ⟨rfl, later⟩ := Prod.mk.inj (toLex.injective same)
  obtain ⟨rfl, rfl⟩ := Prod.mk.inj (toLex.injective later)
  rfl

/-- Dates in the order of the calendar. -/
instance : PartialOrder Date := .lift key key_injective

instance (first second : Date) : Decidable (first ≤ second) :=
  inferInstanceAs (Decidable (first.key ≤ second.key))

end Date

/-- The time of a `write`: its `struct tm` and the microseconds of `gettimeofday`. -/
structure Tm extends Date where
  hour : ℕ
  min : ℕ
  sec : ℕ
  usec : ℕ
  hour_lt : hour < 24
  min_lt : min < 60
  sec_le : sec ≤ 60
  usec_lt : usec < 10 ^ 6

/-- A midnight. -/
def Date.midnight (date : Date) : Tm :=
  { date with
    hour := 0
    min := 0
    sec := 0
    usec := 0
    hour_lt := by decide
    min_lt := by decide
    sec_le := by decide
    usec_lt := by decide }

/-- 5 February 2024. -/
def Date.february : Date := ⟨2024, 2, 5, by decide, by decide, by decide⟩

/-- The same day of the next month. -/
def Date.march : Date := ⟨2024, 3, 5, by decide, by decide, by decide⟩

def Date.april : Date := ⟨2024, 4, 6, by decide, by decide, by decide⟩

/-- The stamp before a line. -/
def Tm.stamp (time : Tm) : Bytes :=
  padded 0 time.year ++ ascii "-" ++ padded 2 time.mon ++ ascii "-" ++ padded 2 time.mday ++
    ascii " " ++ padded 2 time.hour ++ ascii ":" ++ padded 2 time.min ++ ascii ":" ++
    padded 2 time.sec ++ ascii "." ++ padded 6 time.usec ++ ascii " "

/-- What `snprintf` leaves of a text in an array, before the terminator. -/
def snprintf (size : ℕ) (text : Bytes) : Bytes := text.take (size - 1)

theorem snprintf_eq {size : ℕ} {text : Bytes} (fits : text.length < size) : snprintf size text = text :=
  List.take_of_length_le (by omega)

/-! ## The stamp -/

theorem Date.length_year (date : Date) (width : ℕ) :
    (padded width date.year).length ≤ max width 10 :=
  length_padded_le (by decide) (date.year_lt.trans (by decide))

theorem Date.length_mon (date : Date) : (padded 2 date.mon).length = 2 :=
  length_padded_of_lt (by decide) (by have := date.mon_range; omega)

theorem Date.length_mday (date : Date) : (padded 2 date.mday).length = 2 :=
  length_padded_of_lt (by decide) (by have := date.mday_range; omega)

/-- The stamp fits into the 128 bytes `write` allows it. -/
theorem Tm.length_stamp (time : Tm) : time.stamp.length < 128 := by
  have year := time.length_year 0
  have mon := time.length_mon
  have mday := time.length_mday
  have hour : (padded 2 time.hour).length = 2 :=
    length_padded_of_lt (by decide) (by have := time.hour_lt; omega)
  have min : (padded 2 time.min).length = 2 :=
    length_padded_of_lt (by decide) (by have := time.min_lt; omega)
  have sec : (padded 2 time.sec).length = 2 :=
    length_padded_of_lt (by decide) (by have := time.sec_le; omega)
  have usec : (padded 6 time.usec).length = 6 := length_padded_of_lt (by decide) time.usec_lt
  have dash : (ascii "-").length = 1 := rfl
  have blank : (ascii " ").length = 1 := rfl
  have colon : (ascii ":").length = 1 := rfl
  have dot : (ascii ".").length = 1 := rfl
  simp only [stamp, List.length_append]
  omega

/-- It has no terminator in it. -/
theorem Tm.zero_notMem_stamp (time : Tm) : 0 ∉ time.stamp := by
  have digits (width n : ℕ) : 0 ∉ padded width n := notMem_padded (Or.inl (by decide))
  have dash : 0 ∉ ascii "-" := by decide
  have blank : 0 ∉ ascii " " := by decide
  have colon : 0 ∉ ascii ":" := by decide
  have dot : 0 ∉ ascii "." := by decide
  simp only [stamp, List.mem_append, digits, dash, blank, colon, dot, or_self, not_false_eq_true]

/-! ## The names of the files -/

def Date.text (date : Date) : Bytes :=
  padded 4 date.year ++ ascii "_" ++ padded 2 date.mon ++ ascii "_" ++ padded 2 date.mday

theorem Date.length_text (date : Date) : date.text.length ≤ 16 := by
  have year := date.length_year 4
  have mon := date.length_mon
  have mday := date.length_mday
  have line : (ascii "_").length = 1 := rfl
  simp only [text, List.length_append]
  omega

theorem Date.ext_of_text {date date' : Date} {rest rest' : Bytes}
    (same : date.text ++ rest = date'.text ++ rest') : date = date' ∧ rest = rest' := by
  have free (width n : ℕ) : (95 : UInt8) ∉ padded width n := notMem_padded (Or.inr (by decide))
  simp only [text, show ascii "_" = [95] from rfl, List.append_assoc, List.singleton_append] at same
  obtain ⟨year, later⟩ := eq_of_append_cons (free _ _) (free _ _) same
  obtain ⟨mon, later⟩ := eq_of_append_cons (free _ _) (free _ _) later
  have lengths : (padded 2 date.mday).length = (padded 2 date'.mday).length := by
    rw [date.length_mday, date'.length_mday]
  obtain ⟨mday, rests⟩ := List.append_inj later lengths
  refine ⟨key_injective ?_, rests⟩
  rw [key, key, padded_inj year, padded_inj mon, padded_inj mday]

namespace Logger

/-- `path_` and `suffix_`, as the server passes them to `init`. -/
def path : Bytes := ascii "./log"

def suffix : Bytes := ascii ".log"

/-- The name for the lines of a day, which come in parts. -/
def fileName (date : Date) (part : ℕ) : Bytes :=
  path ++ ascii "/" ++ date.text ++ (if part = 0 then [] else ascii "-" ++ padded 0 part) ++ suffix

/-- `%d`. -/
def signed (n : ℤ) : Bytes := if n < 0 then ascii "-" ++ padded 0 n.natAbs else padded 0 n.natAbs

/-- `LOG_NAME_LEN`. -/
def logNameLen : ℕ := 256

/-- The name `init` makes. -/
def initFile (date : Date) : Bytes := snprintf (logNameLen - 1) (path ++ ascii "/" ++ date.text ++ suffix)

/-- The `tail` of the names `write` makes. -/
def tail (date : Date) : Bytes := snprintf 36 date.text

def dayFile (date : Date) : Bytes := snprintf (logNameLen - 72) (path ++ ascii "/" ++ tail date ++ suffix)

def partFile (date : Date) (part : ℤ) : Bytes :=
  snprintf (logNameLen - 72) (path ++ ascii "/" ++ tail date ++ ascii "-" ++ signed part ++ suffix)

theorem tail_eq (date : Date) : tail date = date.text :=
  snprintf_eq (by have := date.length_text; omega)

theorem initFile_eq (date : Date) : initFile date = fileName date 0 := by
  have text := date.length_text
  have lengths : path.length = 5 ∧ suffix.length = 4 ∧ (ascii "/").length = 1 := ⟨rfl, rfl, rfl⟩
  rw [initFile, snprintf_eq, fileName, if_pos rfl, List.append_nil]
  simp only [List.length_append, logNameLen]
  omega

theorem dayFile_eq (date : Date) : dayFile date = fileName date 0 := by
  have text := date.length_text
  have lengths : path.length = 5 ∧ suffix.length = 4 ∧ (ascii "/").length = 1 := ⟨rfl, rfl, rfl⟩
  rw [dayFile, tail_eq, snprintf_eq, fileName, if_pos rfl, List.append_nil]
  simp only [List.length_append, logNameLen]
  omega

theorem partFile_eq (date : Date) {part : ℕ} (some : part ≠ 0) (small : part < 2 ^ 31) :
    partFile date part = fileName date part := by
  have text := date.length_text
  have number : (padded 0 part).length ≤ max 0 10 :=
    length_padded_le (by decide) (small.trans (by decide))
  have lengths : path.length = 5 ∧ suffix.length = 4 ∧ (ascii "/").length = 1 ∧
      (ascii "-").length = 1 := ⟨rfl, rfl, rfl, rfl⟩
  rw [partFile, tail_eq, signed, if_neg (by omega), Int.natAbs_natCast, snprintf_eq, fileName, if_neg some]
  · simp only [List.append_assoc]
  · simp only [List.length_append, logNameLen]
    omega

/-- A name determines its date and its part. -/
theorem fileName_inj {date date' : Date} {part part' : ℕ}
    (same : fileName date part = fileName date' part') : date = date' ∧ part = part' := by
  simp only [fileName, List.append_assoc] at same
  obtain ⟨rfl, rest⟩ := Date.ext_of_text (List.append_cancel_left (List.append_cancel_left same))
  refine ⟨rfl, ?_⟩
  have parts := List.append_cancel_right rest
  split_ifs at parts with first second second
  · rw [first, second]
  · simp [ascii] at parts
  · simp [ascii] at parts
  · exact padded_inj (List.append_cancel_left parts)

end Logger

end XWebServer
