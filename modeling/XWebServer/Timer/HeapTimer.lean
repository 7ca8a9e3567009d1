import Mathlib.Logic.Function.Basic
import XWebServer.Basic

/-! # The class `HeapTimer`

A binary heap of entries with an index from the ids to the positions. A callback is a value of a
type `κ`; the caller of `tick` runs the callbacks it fires, which do not touch the timer. Times are
nanoseconds of the clock and timeouts are milliseconds.

An upward sift that reaches the root goes on: `(0 - 1) / 2` is `2 ^ 63 - 1` on `size_t`, so it
compares the root with an element past the end of the heap. What that comparison gives is the
parameter `wild`, with `.ok true` where it ends the sift.
-/

namespace XWebServer

structure TimerNode (κ : Type) where
  id : ℤ
  expires : ℤ
  cb : κ

namespace TimerNode

variable {κ : Type}

/-- The milliseconds left at a reading of the clock; `duration_cast` rounds towards zero. -/
def remaining (node : TimerNode κ) (now : ℤ) : ℤ := (node.expires - now).tdiv 1000000

end TimerNode

structure HeapTimer (κ : Type) where
  heap : Array (TimerNode κ)
  ref : ℤ → Option ℕ

namespace HeapTimer

variable {κ : Type}

/-- The constructor. -/
def new : HeapTimer κ := ⟨#[], fun _ => none⟩

/-- `heap_[i]`, which nothing checks. -/
def node (timer : HeapTimer κ) (i : ℕ) : Except Fault (TimerNode κ) :=
  match timer.heap[i]? with
  | some node => .ok node
  | none => .error .outOfRange

/-- `heap_[i] < heap_[j]`. -/
def before (timer : HeapTimer κ) (i j : ℕ) : Except Fault Bool := do
  let left ← timer.node i
  let right ← timer.node j
  .ok (left.expires < right.expires)

def swapNode (timer : HeapTimer κ) (i j : ℕ) : Except Fault (HeapTimer κ) :=
  match timer.heap[i]?, timer.heap[j]? with
  | some atI, some atJ => .ok
      { heap := timer.heap.swapIfInBounds i j
        ref := Function.update (Function.update timer.ref atJ.id (some i)) atI.id (some j) }
  | _, _ => .error .assertion

/-- The loop of `siftup_`. -/
def siftupFrom (wild : Except Fault Bool) (i : ℕ) (timer : HeapTimer κ) :
    Except Fault (HeapTimer κ) :=
  if i = 0 then do
    -- no swap with the element past the end gets past its assertion
    assert (← wild)
    .ok timer
  else do
    if ← timer.before ((i - 1) / 2) i then .ok timer
    else siftupFrom wild ((i - 1) / 2) (← timer.swapNode i ((i - 1) / 2))
termination_by i

def siftup (wild : Except Fault Bool) (i : ℕ) (timer : HeapTimer κ) :
    Except Fault (HeapTimer κ) := do
  assert (i < timer.heap.size)
  siftupFrom wild i timer

/-- Whether the sift goes to the right child of `i`. -/
def right (timer : HeapTimer κ) (n i : ℕ) : Except Fault Bool :=
  if i * 2 + 1 + 1 < n then timer.before (i * 2 + 1 + 1) (i * 2 + 1) else .ok false

/-- The loop of `siftdown_`, which ends at the position it returns. -/
def siftdownFrom (n i : ℕ) (timer : HeapTimer κ) : Except Fault (ℕ × HeapTimer κ) :=
  if i * 2 + 1 < n then do
    let right ← timer.right n i
    let j := i * 2 + 1 + right.toNat
    if ← timer.before i j then .ok (i, timer)
    else siftdownFrom n j (← timer.swapNode i j)
  else .ok (i, timer)
termination_by n - i

def siftdown (index n : ℕ) (timer : HeapTimer κ) : Except Fault (Bool × HeapTimer κ) := do
  assert (index < timer.heap.size)
  assert (n ≤ timer.heap.size)
  let (i, timer) ← siftdownFrom n index timer
  .ok (index < i, timer)

/-- The repair that `add` and `del_` make at a position: downwards, or else upwards. -/
def resift (wild : Except Fault Bool) (i n : ℕ) (timer : HeapTimer κ) :
    Except Fault (HeapTimer κ) := do
  let (moved, timer) ← timer.siftdown i n
  if moved then .ok timer else timer.siftup wild i

/-- Assign to the members of `heap_[i]`. -/
def assign (i : ℕ) (change : TimerNode κ → TimerNode κ) (timer : HeapTimer κ) :
    Except Fault (HeapTimer κ) := do
  let node ← timer.node i
  .ok { timer with heap := timer.heap.setIfInBounds i (change node) }

/-- The deadline of a timeout of some milliseconds. -/
def deadline (timeout now : ℤ) : ℤ := now + timeout * 1000000

def add (wild : Except Fault Bool) (id timeout now : ℤ) (cb : κ) (timer : HeapTimer κ) :
    Except Fault (HeapTimer κ) := do
  assert (0 ≤ id)
  match timer.ref id with
  | none =>
      let i := timer.heap.size
      siftup wild i
        { heap := timer.heap.push ⟨id, deadline timeout now, cb⟩
          ref := Function.update timer.ref id (some i) }
  | some i =>
      let timer ← timer.assign i fun node => { node with expires := deadline timeout now, cb }
      timer.resift wild i timer.heap.size

def adjust (id timeout now : ℤ) (timer : HeapTimer κ) : Except Fault (HeapTimer κ) := do
  assert (timer.heap.isEmpty = false)
  match timer.ref id with
  | none => .error .assertion
  | some i =>
      let timer ← timer.assign i fun node => { node with expires := deadline timeout now }
      let (_, timer) ← timer.siftdown i timer.heap.size
      .ok timer

/-- The end of `del_`: the last entry leaves the heap and the index. -/
def eraseBack (timer : HeapTimer κ) : Except Fault (HeapTimer κ) :=
  match timer.heap.back? with
  | some last => .ok { heap := timer.heap.pop, ref := Function.update timer.ref last.id none }
  | none => .error .outOfRange

def del (wild : Except Fault Bool) (index : ℕ) (timer : HeapTimer κ) :
    Except Fault (HeapTimer κ) := do
  assert (index < timer.heap.size)
  let n := timer.heap.size - 1
  if index < n then
    let timer ← timer.swapNode index n
    let timer ← timer.resift wild index n
    timer.eraseBack
  else timer.eraseBack

def pop (wild : Except Fault Bool) (timer : HeapTimer κ) : Except Fault (HeapTimer κ) := do
  assert (timer.heap.isEmpty = false)
  timer.del wild 0

/-- The callback run, if the id has one, and the timer without the entry. -/
def doWork (wild : Except Fault Bool) (id : ℤ) (timer : HeapTimer κ) :
    Except Fault (Option κ × HeapTimer κ) :=
  if timer.heap.isEmpty then .ok (none, timer)
  else match timer.ref id with
    | none => .ok (none, timer)
    | some i => do
        let node ← timer.node i
        let timer ← timer.del wild i
        .ok (some node.cb, timer)

/-- What one round of `tick` finds outside the timer. -/
structure Round where
  now : ℤ
  wild : Except Fault Bool

/-- What rounds of `tick` did: the entries fired, each with the reading that found it expired, and
the reading, if any, at which the front entry was not expired. -/
structure Ticked (κ : Type) where
  fired : List (TimerNode κ × ℤ)
  stop : Option ℤ
  timer : HeapTimer κ

/-- Every reading of the clock that the rounds made. -/
def Ticked.readings (ticked : Ticked κ) : List ℤ := ticked.fired.map (·.2) ++ ticked.stop.toList

/-- At most `bound` rounds of the loop of `tick`. -/
def rounds : ℕ → (ℕ → Round) → HeapTimer κ → Except Fault (Ticked κ)
  | 0, _, timer => .ok ⟨[], none, timer⟩
  | bound + 1, source, timer =>
      match timer.heap[0]? with
      | none => .ok ⟨[], none, timer⟩
      | some front =>
          if 0 < front.remaining (source 0).now then .ok ⟨[], some (source 0).now, timer⟩
          else do
            let popped ← timer.pop (source 0).wild
            let rest ← rounds bound (fun n => source (n + 1)) popped
            .ok { rest with fired := (front, (source 0).now) :: rest.fired }

/-- Every round removes an entry, so the loop makes no more rounds than the heap has entries. -/
def tick (source : ℕ → Round) (timer : HeapTimer κ) : Except Fault (Ticked κ) :=
  timer.rounds timer.heap.size source

end HeapTimer

end XWebServer
