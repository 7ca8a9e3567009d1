import Mathlib.Data.List.Basic
import Mathlib.Logic.Function.Basic
import XWebServer.Basic

/-! # Descriptors and epoll registrations

What the kernel keeps for the process, with a record of the calls of `accept` and `close`. The
record is not read by any function of the server: it gives every accept a serial number, notes which
object the accept initialised, and notes for every call of `close` what it found.
-/

namespace XWebServer

/-- How a client's descriptor is registered with epoll. The registration is one-shot: a delivered
event disarms it. -/
inductive Interest where
  | disarmed
  | input
  | output
deriving DecidableEq, Repr

/-- The events of one delivery: a hang-up or an error, readable, writable. -/
structure Events where
  hangUp : Bool
  input : Bool
  output : Bool
deriving DecidableEq, Repr

/-- Which deliveries a registration allows. -/
def Interest.Reports : Interest → Events → Prop
  | .disarmed, _ => False
  | .input, events => (events.hangUp ∨ events.input) ∧ ¬ events.output
  | .output, events => (events.hangUp ∨ events.output) ∧ ¬ events.input

instance (interest : Interest) (events : Events) : Decidable (interest.Reports events) := by
  cases interest <;> unfold Interest.Reports <;> infer_instance

/-- One accept: its number, and the key of the `HttpConn` it initialised, if any. -/
structure Accept where
  serial : ℕ
  object : Option ℤ
deriving DecidableEq, Repr

/-- A call of `close`: its caller, an `HttpConn` by its key or else `SendError`; whether the
descriptor was open; its latest accept; and how many accepts there had been. -/
structure CloseCall where
  fd : ℤ
  caller : Option ℤ
  wasOpen : Bool
  latest : Option Accept
  accepts : ℕ
deriving DecidableEq, Repr

structure Kernel where
  isOpen : ℤ → Bool
  epoll : ℤ → Option Interest
  accepts : ℕ
  latest : ℤ → Option Accept
  closeCalls : List CloseCall

namespace Kernel

/-- `accept` returns a descriptor. -/
def accept (fd : ℤ) (kernel : Kernel) : Kernel :=
  { kernel with
    isOpen := Function.update kernel.isOpen fd true
    accepts := kernel.accepts + 1
    latest := Function.update kernel.latest fd (some ⟨kernel.accepts, none⟩) }

/-- The latest accept of a descriptor initialises an object. -/
def initialise (fd object : ℤ) (kernel : Kernel) : Kernel :=
  { kernel with
    latest := Function.update kernel.latest fd
      ((kernel.latest fd).map fun accept => { accept with object := some object }) }

/-- A closed descriptor loses its registration. -/
def close (caller : Option ℤ) (fd : ℤ) (kernel : Kernel) : Kernel :=
  { kernel with
    isOpen := Function.update kernel.isOpen fd false
    epoll := Function.update kernel.epoll fd none
    closeCalls := kernel.closeCalls ++
      [⟨fd, caller, kernel.isOpen fd, kernel.latest fd, kernel.accepts⟩] }

theorem close_update (kernel : Kernel) (caller : Option ℤ) (fd : ℤ) (interest : Option Interest) :
    close caller fd { kernel with epoll := Function.update kernel.epoll fd interest } =
      kernel.close caller fd := by
  simp only [close, Function.update_idem]

/-- `EPOLL_CTL_ADD`, which fails on a registered descriptor. -/
def addFd (fd : ℤ) (interest : Interest) (kernel : Kernel) : Kernel :=
  match kernel.epoll fd with
  | none => { kernel with epoll := Function.update kernel.epoll fd (some interest) }
  | some _ => kernel

/-- `EPOLL_CTL_MOD`, which fails on a descriptor that is not registered. -/
def modFd (fd : ℤ) (interest : Interest) (kernel : Kernel) : Kernel :=
  match kernel.epoll fd with
  | none => kernel
  | some _ => { kernel with epoll := Function.update kernel.epoll fd (some interest) }

/-- Changing a registration adds none. -/
theorem registered_of_modFd {kernel : Kernel} {fd other : ℤ} {interest found : Interest}
    (known : (kernel.modFd fd interest).epoll other = some found) :
    ∃ before, kernel.epoll other = some before := by
  rw [modFd] at known
  split at known
  · exact ⟨found, known⟩
  · rename_i before registered
    rcases eq_or_ne other fd with rfl | apart
    · exact ⟨before, registered⟩
    · refine ⟨found, ?_⟩
      dsimp only at known
      rwa [Function.update_of_ne apart] at known

theorem modFd_of {kernel : Kernel} {fd : ℤ} {before : Interest} (interest : Interest)
    (registered : kernel.epoll fd = some before) :
    kernel.modFd fd interest =
      { kernel with epoll := Function.update kernel.epoll fd (some interest) } := by
  simp only [modFd, registered]

@[simp] theorem modFd_isOpen (kernel : Kernel) (fd : ℤ) (interest : Interest) :
    (kernel.modFd fd interest).isOpen = kernel.isOpen := by
  rw [modFd]
  split <;> rfl

@[simp] theorem modFd_latest (kernel : Kernel) (fd : ℤ) (interest : Interest) :
    (kernel.modFd fd interest).latest = kernel.latest := by
  rw [modFd]
  split <;> rfl

@[simp] theorem modFd_closeCalls (kernel : Kernel) (fd : ℤ) (interest : Interest) :
    (kernel.modFd fd interest).closeCalls = kernel.closeCalls := by
  rw [modFd]
  split <;> rfl

/-- `EPOLL_CTL_DEL`. -/
def delFd (fd : ℤ) (kernel : Kernel) : Kernel :=
  { kernel with epoll := Function.update kernel.epoll fd none }

/-- The serial numbers and the record of closes fit together: no accept is closed twice. -/
structure Consistent (kernel : Kernel) : Prop where
  fresh : ∀ fd accept, kernel.latest fd = some accept → accept.serial < kernel.accepts
  distinct : ∀ fd fd' accept accept', kernel.latest fd = some accept →
    kernel.latest fd' = some accept' → accept.serial = accept'.serial → fd = fd'
  unclosed : ∀ fd accept, kernel.isOpen fd = true → kernel.latest fd = some accept →
    some accept.serial ∉ kernel.closeCalls.map (·.latest.map (·.serial))
  past : ∀ serial, some serial ∈ kernel.closeCalls.map (·.latest.map (·.serial)) →
    serial < kernel.accepts
  once : (kernel.closeCalls.map (·.latest.map (·.serial))).Nodup

/-- Registrations do not matter to the record. -/
theorem Consistent.epoll {kernel : Kernel} (consistent : kernel.Consistent)
    (epoll : ℤ → Option Interest) : Consistent { kernel with epoll } :=
  ⟨consistent.fresh, consistent.distinct, consistent.unclosed, consistent.past, consistent.once⟩

theorem Consistent.modFd {kernel : Kernel} (consistent : kernel.Consistent) (fd : ℤ)
    (interest : Interest) : (kernel.modFd fd interest).Consistent := by
  rw [Kernel.modFd]
  split
  · exact consistent
  · exact consistent.epoll _

theorem Consistent.accept {kernel : Kernel} (consistent : kernel.Consistent) (fd : ℤ) :
    (kernel.accept fd).Consistent where
  fresh other found := by
    intro there
    simp only [Kernel.accept, Function.update_apply] at there ⊢
    split_ifs at there with same
    · cases there
      exact Nat.lt_succ_self _
    · exact Nat.lt_succ_of_lt (consistent.fresh other found there)
  distinct first second left right := by
    intro atFirst atSecond same
    simp only [Kernel.accept, Function.update_apply] at atFirst atSecond
    split_ifs at atFirst atSecond with isFirst isSecond isSecond
    · rw [isFirst, isSecond]
    · cases atFirst
      exact absurd (consistent.fresh second right atSecond) (by rw [← same]; exact lt_irrefl _)
    · cases atSecond
      exact absurd (consistent.fresh first left atFirst) (by rw [same]; exact lt_irrefl _)
    · exact consistent.distinct first second left right atFirst atSecond same
  unclosed other found := by
    intro isOpen there
    simp only [Kernel.accept, Function.update_apply] at isOpen there ⊢
    split_ifs at isOpen there with same
    · cases there
      exact fun closed => absurd (consistent.past _ closed) (lt_irrefl _)
    · exact consistent.unclosed other found isOpen there
  past serial closed := Nat.lt_succ_of_lt (consistent.past serial closed)
  once := consistent.once

theorem Consistent.initialise {kernel : Kernel} (consistent : kernel.Consistent) (fd object : ℤ) :
    (kernel.initialise fd object).Consistent := by
  -- the serial numbers are as before
  have serials (other : ℤ) (found : Accept)
      (there : (kernel.initialise fd object).latest other = some found) :
      ∃ before, kernel.latest other = some before ∧ before.serial = found.serial := by
    simp only [Kernel.initialise, Function.update_apply] at there
    split_ifs at there with same
    · obtain ⟨before, known, rfl⟩ := Option.map_eq_some_iff.mp there
      exact ⟨before, same ▸ known, rfl⟩
    · exact ⟨found, there, rfl⟩
  constructor
  · intro other found there
    obtain ⟨before, known, same⟩ := serials other found there
    rw [← same]
    exact consistent.fresh other before known
  · intro first second left right atFirst atSecond same
    obtain ⟨before, known, sameLeft⟩ := serials first left atFirst
    obtain ⟨before', known', sameRight⟩ := serials second right atSecond
    exact consistent.distinct first second before before' known known'
      (sameLeft.trans (same.trans sameRight.symm))
  · intro other found isOpen there
    obtain ⟨before, known, same⟩ := serials other found there
    rw [← same]
    exact consistent.unclosed other before isOpen known
  · exact consistent.past
  · exact consistent.once

/-- Closing an open descriptor that an accept returned. -/
theorem Consistent.close {kernel : Kernel} (consistent : kernel.Consistent) {fd : ℤ}
    {accept : Accept} (isOpen : kernel.isOpen fd = true) (latest : kernel.latest fd = some accept)
    (caller : Option ℤ) : (kernel.close caller fd).Consistent where
  fresh := consistent.fresh
  distinct := consistent.distinct
  unclosed other found := by
    intro stillOpen there
    simp only [Kernel.close, Function.update_apply] at stillOpen
    split_ifs at stillOpen with same
    simp only [Kernel.close, latest, List.map_append, List.map_cons, List.map_nil, List.mem_append,
      List.mem_singleton, Option.map_some, not_or]
    refine ⟨consistent.unclosed other found stillOpen there, fun equal => same ?_⟩
    exact consistent.distinct other fd found accept there latest (Option.some.inj equal)
  past serial closed := by
    simp only [Kernel.close, latest, List.map_append, List.map_cons, List.map_nil, List.mem_append,
      List.mem_singleton, Option.map_some] at closed
    rcases closed with before | same
    · exact consistent.past serial before
    · rw [Option.some.inj same]
      exact consistent.fresh fd accept latest
  once := by
    simp only [Kernel.close, latest, List.map_append, List.map_cons, List.map_nil, Option.map_some]
    refine List.nodup_append.mpr ⟨consistent.once, List.pairwise_singleton _ _, ?_⟩
    intro serial before last isLast same
    rw [same, List.mem_singleton.mp isLast] at before
    exact consistent.unclosed fd accept isOpen latest before

end Kernel

end XWebServer
