import RedBlack.Text.Form

/-! An account of memory traffic. Every thread counts the calls it makes and the bytes they ask for or give back, whoever
made the block and whether or not the system grants them. Numbers are exact and never wrap. -/
namespace RedBlack.Allocation

structure Counters where
  allocs : Nat
  deallocs : Nat
  bytes : Int
  peak : Nat
  deriving DecidableEq, Repr

namespace Counters

def zero : Counters := ⟨0, 0, 0, 0⟩

def grow (c : Counters) (bytes : Int) : Counters :=
  let level := c.bytes + bytes
  { c with bytes := level, peak := if 0 < level then max c.peak level.toNat else c.peak }

@[simp] theorem allocsGrow (c : Counters) (bytes : Int) : (c.grow bytes).allocs = c.allocs := rfl

@[simp] theorem deallocsGrow (c : Counters) (bytes : Int) : (c.grow bytes).deallocs = c.deallocs := rfl

@[simp] theorem peakGrow (c : Counters) (bytes : Int) : (c.grow bytes).peak = max c.peak (c.bytes + bytes).toNat := by
  simp only [grow]
  split <;> omega

def alloc (c : Counters) (size : Nat) : Counters := { c with allocs := c.allocs + 1 }.grow size

def dealloc (c : Counters) (size : Nat) : Counters := { c with deallocs := c.deallocs + 1 }.grow (-size)

def resize (c : Counters) (old new : Nat) : Counters :=
  { c with allocs := c.allocs + 1, deallocs := c.deallocs + 1 }.grow (new - old)

def difference (c : Counters) : Int := c.allocs - c.deallocs

def form (c : Counters) : Text.Form :=
  .record "AllocationStats"
    [("alloc_count", .atom (toString c.allocs)), ("dealloc_count", .atom (toString c.deallocs)),
      ("bytes_allocated", .atom (toString c.bytes)), ("peak_bytes", .atom (toString c.peak))]

end Counters

inductive Complaint where
  | leak (counters : Counters)
  | allocated (counters : Counters)
  deriving DecidableEq, Repr

def Complaint.message : Complaint → String
  | leak c => "\n".intercalate
      ["Memory leak detected!", s!"Allocations: {c.allocs}", s!"Deallocations: {c.deallocs}",
        s!"Difference: {c.difference}", s!"Bytes still allocated: {c.bytes}"]
  | allocated c => "\n".intercalate
      ["Unexpected allocation!", s!"Allocations: {c.allocs}", s!"Peak bytes: {c.peak}"]

def Counters.checkNoLeaks (c : Counters) : Except Complaint Unit :=
  if c.difference ≠ 0 ∨ c.bytes ≠ 0 then .error (.leak c) else .ok ()

def Counters.checkNoAllocations (c : Counters) : Except Complaint Unit :=
  if c.allocs ≠ 0 then .error (.allocated c) else .ok ()

/-- Blocks are numbered in order of allocation, and a freed one keeps its number. -/
structure Heap where
  blocks : Array (Option Nat)
  threads : Array Counters
  deriving DecidableEq, Repr

/-- What a thread asks for, and whether the system has granted it. -/
inductive Call where
  | alloc (size : Nat) (granted : Bool)
  | allocZeroed (size : Nat) (granted : Bool)
  | dealloc (block : Nat)
  | realloc (block size : Nat) (granted : Bool)
  | reset
  deriving DecidableEq, Repr

namespace Heap

def empty : Heap := ⟨#[], #[]⟩

def spawn (h : Heap) : Nat × Heap := (h.threads.size, { h with threads := h.threads.push .zero })

def counters (h : Heap) (thread : Nat) : Counters := h.threads[thread]?.getD .zero

def count (h : Heap) (thread : Nat) (f : Counters → Counters) : Heap :=
  { h with threads := h.threads.modify thread f }

def sizeOf? (h : Heap) (block : Nat) : Option Nat := h.blocks[block]?.join

def call? (h : Heap) (thread : Nat) : Call → Option Heap
  | .alloc size granted | .allocZeroed size granted =>
      some { h.count thread (·.alloc size) with blocks := if granted then h.blocks.push (some size) else h.blocks }
  | .dealloc block => do
      let size ← h.sizeOf? block
      return { h.count thread (·.dealloc size) with blocks := h.blocks.setIfInBounds block none }
  | .realloc block size granted => do
      let old ← h.sizeOf? block
      return { h.count thread (·.resize old size) with
        blocks := if granted then h.blocks.setIfInBounds block (some size) else h.blocks }
  | .reset => some (h.count thread fun _ => .zero)

end Heap

end RedBlack.Allocation
