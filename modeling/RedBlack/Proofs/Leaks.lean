import RedBlack.Proofs.Accounts

/-! What the checks of one thread find out. While a thread frees and resizes only blocks that it has made since it started over,
and the other threads leave these alone, its two totals are what is live of them and what the thread was refused. -/
namespace RedBlack.Allocation

namespace Call

def takes : Call → Bool
  | .alloc .. | .allocZeroed .. | .realloc .. => true
  | .dealloc _ | .reset => false

theorem bornRefused {call : Call} (refused : call.refused) : 0 ≤ call.born := by
  cases call with
  | dealloc block => cases refused
  | alloc | allocZeroed | realloc | reset => simp [born]

end Call

theorem askedRefusals (book : List Entry) :
    0 ≤ asked (refusals book) ∧ (asked (refusals book) = 0 ↔ ∀ e ∈ refusals book, e.call.born = 0) := by
  induction book with
  | nil => simp [refusals, asked]
  | cons e book ih =>
      cases refused : e.call.refused with
      | false => simpa [refusals, refused] using ih
      | true =>
          have born := Call.bornRefused refused
          have sum : asked (refusals (e :: book)) = e.call.born + asked (refusals book) := by simp [asked, refusals, refused]
          have members : refusals (e :: book) = e :: refusals book := List.filter_cons_of_pos refused
          rw [members, List.forall_mem_cons, ← ih.2, ← members, sum]
          omega

namespace Heap

variable {h h' : Heap} {thread maker : Nat} {call : Call} {made : List Nat} {book : List Entry}

theorem allocsCharge (onward : call ≠ .reset) (c : Counters) :
    (h.charge call c).allocs = c.allocs + if call.takes then 1 else 0 := by
  cases call with
  | reset => exact absurd rfl onward
  | _ => rfl

/-- What has happened since a thread started over: the blocks it has made and its calls, the latest in front. -/
inductive Stretch (thread : Nat) : Heap → List Nat → List Entry → Prop where
  | start {h h' : Heap} (known : thread < h.threads.size) (run : h.call? thread .reset = some h') : Stretch thread h' [] []
  | own {h h' : Heap} {made : List Nat} {book : List Entry} (call : Call) (before : Stretch thread h made book)
      (onward : call ≠ .reset) (kept : ∀ block, call.block? = some block → block ∈ made) (run : h.call? thread call = some h') :
      Stretch thread h' ((h.made? call).toList ++ made) (⟨thread, call, h.moved call⟩ :: book)
  | other {h h' : Heap} {made : List Nat} {book : List Entry} (maker : Nat) (call : Call) (before : Stretch thread h made book)
      (apart : maker ≠ thread) (off : ∀ block, call.block? = some block → block ∉ made) (run : h.call? maker call = some h') :
      Stretch thread h' made book
  | spawn {h : Heap} {made : List Nat} {book : List Entry} (before : Stretch thread h made book) : Stretch thread h.spawn.2 made book

structure Tallied (thread : Nat) (h : Heap) (made : List Nat) (book : List Entry) : Prop where
  known : thread < h.threads.size
  once : made.Nodup
  below : ∀ block ∈ made, block < h.blocks.size
  difference : (h.counters thread).difference = (h.held made).length + asked (refusals book)
  bytes : (h.counters thread).bytes = (h.held made).sum + net (refusals book)
  allocs : (h.counters thread).allocs = book.countP (·.call.takes)

theorem talliedStart (known : thread < h.threads.size) (run : h.call? thread .reset = some h') : Tallied thread h' [] [] := by
  have zero : h'.counters thread = .zero := countersOwn run known
  have size : h'.threads.size = h.threads.size := by rw [threadsCall run, Array.size_modify]
  refine ⟨size ▸ known, .nil, by simp, ?_, ?_, ?_⟩ <;> rw [zero] <;> rfl

theorem Tallied.totals (tallied : Tallied thread h made book) (onward : call ≠ .reset)
    (own : ∀ block, call.block? = some block → block ∈ made) (run : h.call? thread call = some h') :
    (h'.counters thread).difference =
        (h'.held ((h.made? call).toList ++ made)).length + asked (refusals (⟨thread, call, h.moved call⟩ :: book)) ∧
      (h'.counters thread).bytes =
        (h'.held ((h.made? call).toList ++ made)).sum + net (refusals (⟨thread, call, h.moved call⟩ :: book)) := by
  obtain ⟨length, sum⟩ := heldCall run onward tallied.once tallied.below own
  rw [countersOwn run tallied.known, differenceCharge onward, bytesCharge onward, tallied.difference, tallied.bytes, length, sum]
  exact ⟨rfl, rfl⟩

theorem Tallied.own (tallied : Tallied thread h made book) (onward : call ≠ .reset)
    (own : ∀ block, call.block? = some block → block ∈ made) (run : h.call? thread call = some h') :
    Tallied thread h' ((h.made? call).toList ++ made) (⟨thread, call, h.moved call⟩ :: book) where
  known := by
    rw [threadsCall run, Array.size_modify]
    exact tallied.known
  once := by
    cases makes : h.made? call with
    | none => exact tallied.once
    | some fresh => exact List.nodup_cons.mpr ⟨notMadeBelow tallied.below makes, tallied.once⟩
  below := by
    intro block member
    rw [blocksCall run]
    rcases List.mem_append.mp member with fresh | old
    · have last := madeFresh (Option.mem_toList.mp fresh)
      have one := List.length_pos_of_mem fresh
      omega
    · exact Nat.lt_add_right _ (tallied.below block old)
  difference := (tallied.totals onward own run).1
  bytes := (tallied.totals onward own run).2
  allocs := by rw [countersOwn run tallied.known, allocsCharge onward, tallied.allocs, List.countP_cons]

theorem Tallied.other (tallied : Tallied thread h made book) (apart : maker ≠ thread)
    (off : ∀ block, call.block? = some block → block ∉ made) (run : h.call? maker call = some h') :
    Tallied thread h' made book := by
  have counters := countersOther run (Ne.symm apart)
  have held := heldOther run tallied.below off
  refine ⟨?_, tallied.once, fun block member => ?_, ?_, ?_, ?_⟩
  · rw [threadsCall run, Array.size_modify]
    exact tallied.known
  · rw [blocksCall run]
    exact Nat.lt_add_right _ (tallied.below block member)
  · rw [counters, held, tallied.difference]
  · rw [counters, held, tallied.bytes]
  · rw [counters, tallied.allocs]

theorem Tallied.spawn (tallied : Tallied thread h made book) : Tallied thread h.spawn.2 made book := by
  refine ⟨?_, tallied.once, tallied.below, ?_, ?_, ?_⟩
  · rw [Heap.spawn, Array.size_push]
    exact Nat.lt_succ_of_lt tallied.known
  · rw [countersSpawn, tallied.difference]
    rfl
  · rw [countersSpawn, tallied.bytes]
    rfl
  · rw [countersSpawn, tallied.allocs]

theorem Stretch.tallied (stretch : Stretch thread h made book) : Tallied thread h made book := by
  induction stretch with
  | start known run => exact talliedStart known run
  | own call before onward own run ih => exact ih.own onward own run
  | other maker call before apart off run ih => exact ih.other apart off run
  | spawn before ih => exact ih.spawn

end Heap

theorem Counters.noLeaksIff {c : Counters} : c.checkNoLeaks = .ok () ↔ c.difference = 0 ∧ c.bytes = 0 := by
  rw [checkNoLeaks]
  split
  · rename_i leak
    exact iff_of_false nofun fun even => leak.elim (· even.1) (· even.2)
  · rename_i even
    exact iff_of_true rfl ⟨Decidable.not_not.mp fun h => even (.inl h), Decidable.not_not.mp fun h => even (.inr h)⟩

theorem Counters.noAllocationsIff {c : Counters} : c.checkNoAllocations = .ok () ↔ c.allocs = 0 := by
  rw [checkNoAllocations]
  split
  · rename_i some
    exact iff_of_false nofun some
  · rename_i none
    exact iff_of_true rfl (Decidable.not_not.mp none)

namespace Heap
variable {h : Heap} {thread : Nat} {made : List Nat} {book : List Entry}

theorem Tallied.evenIff (tallied : Tallied thread h made book) :
    ((h.counters thread).difference = 0 ∧ (h.counters thread).bytes = 0) ↔
      h.held made = [] ∧ asked (refusals book) = 0 ∧ net (refusals book) = 0 := by
  rw [tallied.difference, tallied.bytes, ← List.length_eq_zero_iff]
  have atLeast := (askedRefusals book).1
  constructor
  · rintro ⟨blocks, bytes⟩
    have none : (h.held made).length = 0 := by omega
    rw [List.length_eq_zero_iff.mp none] at bytes
    exact ⟨none, by omega, by simpa using bytes⟩
  · rintro ⟨none, blocks, bytes⟩
    rw [List.length_eq_zero_iff.mp none, blocks, bytes]
    exact ⟨rfl, rfl⟩

/-- Of a thread that has kept to blocks of its own since it started over, the leak check lets pass exactly the runs in which every
one of these blocks was freed and only resizes were refused, of no bytes in all; the other check lets pass those in which the
thread asked for no memory. -/
theorem everyCheckExact (stretch : Stretch thread h made book) :
    ((h.counters thread).checkNoLeaks = .ok () ↔
        (∀ block ∈ made, h.sizeOf? block = none) ∧ (∀ e ∈ refusals book, e.call.born = 0) ∧ net (refusals book) = 0) ∧
      ((h.counters thread).checkNoAllocations = .ok () ↔ ∀ e ∈ book,
        (∀ size granted, e.call ≠ .alloc size granted) ∧ (∀ size granted, e.call ≠ .allocZeroed size granted) ∧
          ∀ block size granted, e.call ≠ .realloc block size granted) := by
  have tallied := stretch.tallied
  constructor
  · rw [Counters.noLeaksIff, tallied.evenIff, held, List.filterMap_eq_nil_iff, (askedRefusals book).2]
  · rw [Counters.noAllocationsIff, tallied.allocs, List.countP_eq_zero]
    refine forall₂_congr fun e _ => ?_
    cases e.call <;> simp [Call.takes]

def leftover : Heap := ⟨#[some 100, some 40, some 7], #[⟨4, 3, 40, 64⟩, ⟨1, 0, 7, 7⟩]⟩

def leftoverBook : List Entry :=
  [⟨0, .realloc 1 16 false, -24⟩, ⟨0, .realloc 1 64 false, 24⟩, ⟨0, .realloc 1 40 true, 24⟩, ⟨0, .alloc 16 true, 16⟩]

def cleared : Heap := ⟨#[some 100, none, some 7], #[⟨4, 4, 0, 64⟩, ⟨1, 0, 7, 7⟩]⟩

theorem leftoverChecksExact :
    leftover.call? 0 (.dealloc 1) = some cleared ∧ (leftover.counters 0).checkNoLeaks ≠ .ok () ∧
      (cleared.counters 0).checkNoLeaks = .ok () ∧ (cleared.counters 0).checkNoAllocations ≠ .ok () := by
  have fresh : Stretch 0 ⟨#[some 100], #[.zero, .zero]⟩ [] [] :=
    .start (h := ⟨#[some 100], #[⟨1, 0, 100, 100⟩, .zero]⟩) (by decide) rfl
  have made : Stretch 0 _ [1] _ := (fresh.own (.alloc 16 true) nofun nofun rfl).other 1 (.allocZeroed 7 true) (by decide) nofun rfl
  have resized : Stretch 0 _ [1] _ := made.own (.realloc 1 40 true) nofun (by simp [Call.block?]) rfl
  have refused : Stretch 0 leftover [1] leftoverBook :=
    (resized.own (.realloc 1 64 false) nofun (by simp [Call.block?]) rfl).own (.realloc 1 16 false) nofun (by simp [Call.block?]) rfl
  have freed : Stretch 0 cleared [1] (⟨0, .dealloc 1, -40⟩ :: leftoverBook) :=
    refused.own (.dealloc 1) nofun (by simp [Call.block?]) rfl
  obtain ⟨leaks, -⟩ := everyCheckExact refused
  obtain ⟨leaksLater, allocations⟩ := everyCheckExact freed
  refine ⟨rfl, fun passes => ?_, leaksLater.mpr (by decide), fun passes => ?_⟩
  · exact absurd ((leaks.mp passes).1 1 (by decide)) (by decide)
  · exact (allocations.mp passes ⟨0, .alloc 16 true, 16⟩ (by decide)).1 16 true rfl

theorem refusedCallReportedLeaked :
    ∃ h, Stretch 0 h [] [⟨0, .alloc (2 ^ 60) false, 2 ^ 60⟩] ∧
      (h.counters 0).checkNoLeaks = .error (.leak ⟨1, 0, 2 ^ 60, 2 ^ 60⟩) := by
  have fresh : Stretch 0 ⟨#[], #[.zero]⟩ [] [] := .start (h := ⟨#[], #[.zero]⟩) (by decide) rfl
  exact ⟨_, fresh.own (.alloc (2 ^ 60) false) nofun nofun rfl, rfl⟩

end Heap

end RedBlack.Allocation
