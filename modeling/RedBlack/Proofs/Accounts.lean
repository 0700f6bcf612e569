import RedBlack.Proofs.Blocks

/-! What the counters of all threads say together. A call is charged to the thread that makes it, whoever made the block
and also when it is refused: as long as none starts over, the sum over the threads is what is live and what was refused. -/
namespace RedBlack.Allocation

namespace Heap

def charge (h : Heap) : Call → Counters → Counters
  | .alloc size _, c | .allocZeroed size _, c => c.alloc size
  | .dealloc block, c => c.dealloc ((h.sizeOf? block).getD 0)
  | .realloc block size _, c => c.resize ((h.sizeOf? block).getD 0) size
  | .reset, _ => .zero

variable {h h' : Heap} {thread : Nat} {call : Call}

section
variable (run : h.call? thread call = some h')
include run

theorem threadsCall : h'.threads = h.threads.modify thread (h.charge call) := by
  cases call with
  | alloc size granted | allocZeroed size granted | reset =>
      cases run
      rfl
  | dealloc block | realloc block size granted =>
      obtain ⟨old, read, last⟩ := Option.bind_eq_some_iff.mp run
      cases last
      simp only [count]
      refine congrArg (h.threads.modify thread) (funext fun c => ?_)
      rw [charge, read, Option.getD_some]

theorem countersOther {other : Nat} (apart : other ≠ thread) : h'.counters other = h.counters other := by
  rw [counters, counters, threadsCall run, Array.getElem?_modify, if_neg (Ne.symm apart)]

theorem countersOwn (known : thread < h.threads.size) : h'.counters thread = h.charge call (h.counters thread) := by
  rw [counters, counters, threadsCall run, Array.getElem?_modify, if_pos rfl, Array.getElem?_eq_getElem known]
  rfl

end

theorem bytesCharge (onward : call ≠ .reset) (c : Counters) : (h.charge call c).bytes = c.bytes + h.moved call := by
  cases call with
  | reset => exact absurd rfl onward
  | _ => rfl

theorem peakCharge (onward : call ≠ .reset) (c : Counters) :
    (h.charge call c).peak = max c.peak (c.bytes + h.moved call).toNat := by
  cases call with
  | reset => exact absurd rfl onward
  | _ => exact Counters.peakGrow ..

theorem differenceCharge (onward : call ≠ .reset) (c : Counters) : (h.charge call c).difference = c.difference + call.born := by
  cases call with
  | reset => exact absurd rfl onward
  | _ =>
      simp only [charge, Counters.difference, Counters.alloc, Counters.dealloc, Counters.resize, Counters.allocsGrow,
        Counters.deallocsGrow, Call.born]
      omega

theorem sumModify {measure : Counters → Int} {f : Counters → Counters} {more : Int} (each : ∀ c, measure (f c) = measure c + more)
    {rows : List Counters} {i : Nat} (inside : i < rows.length) :
    ((rows.modify i f).map measure).sum = (rows.map measure).sum + more := by
  induction rows generalizing i with
  | nil => cases inside
  | cons c rows ih =>
      cases i with
      | zero =>
          simp [each]
          omega
      | succ i =>
          have rest := ih (Nat.lt_of_succ_lt_succ inside)
          simp only [List.modify_succ_cons, List.map_cons, List.sum_cons, rest]
          omega

end Heap

structure Entry where
  thread : Nat
  call : Call
  moved : Int
  deriving DecidableEq, Repr

/-- What a thread has done since it last started over. A book has its latest entry in front. -/
def since (thread : Nat) (book : List Entry) : List Entry :=
  (book.filter (·.thread = thread)).takeWhile (·.call ≠ .reset)

def refusals (book : List Entry) : List Entry := book.filter (·.call.refused)

def asked (entries : List Entry) : Int := (entries.map (·.call.born)).sum

def net (entries : List Entry) : Int := (entries.map Entry.moved).sum

def levels : List Entry → List Int
  | [] => []
  | e :: before => net (e :: before) :: levels before

def highest (levels : List Int) : Int := levels.foldr max 0

theorem netLeHighest (entries : List Entry) : net entries ≤ highest (levels entries) := by
  cases entries with
  | nil => exact Int.le_refl 0
  | cons e before => exact Int.le_max_left ..

section
variable {thread maker : Nat} {call : Call} {moved : Int} {book : List Entry}

theorem sinceOther (apart : maker ≠ thread) : since thread (⟨maker, call, moved⟩ :: book) = since thread book := by
  simp [since, apart]

theorem sinceReset : since thread (⟨thread, .reset, moved⟩ :: book) = [] := by simp [since]

theorem sinceOwn (onward : call ≠ .reset) :
    since thread (⟨thread, call, moved⟩ :: book) = ⟨thread, call, moved⟩ :: since thread book := by
  simp [since, onward]

end

namespace Heap
variable {h h' : Heap} {thread : Nat} {call : Call} {book : List Entry}

inductive Reached : Heap → List Entry → Prop where
  | start : Reached .empty []
  | spawn {h : Heap} {book : List Entry} (before : Reached h book) : Reached h.spawn.2 book
  | call {h h' : Heap} {book : List Entry} {thread : Nat} (call : Call) (before : Reached h book)
      (known : thread < h.threads.size) (run : h.call? thread call = some h') :
      Reached h' (⟨thread, call, h.moved call⟩ :: book)

theorem countersSpawn (thread : Nat) : h.spawn.2.counters thread = h.counters thread := by
  simp only [counters, spawn, Array.getElem?_push]
  split
  · rename_i last
    simp [last]
  · rfl

theorem Reached.account (reached : Reached h book) (thread : Nat) :
    (h.counters thread).bytes = net (since thread book) ∧ ((h.counters thread).peak : Int) = highest (levels (since thread book)) := by
  induction reached with
  | start => exact ⟨rfl, rfl⟩
  | spawn before ih =>
      rw [countersSpawn]
      exact ih
  | @call h h' book maker call before known run ih =>
      by_cases own : maker = thread
      · subst own
        rw [countersOwn run known]
        by_cases reset : call = .reset
        · subst reset
          rw [sinceReset]
          exact ⟨rfl, rfl⟩
        · obtain ⟨bytes, peak⟩ := ih
          rw [sinceOwn reset, bytesCharge reset, peakCharge reset]
          simp only [net, levels, highest, List.map_cons, List.sum_cons, List.foldr_cons] at bytes peak ⊢
          omega
      · rw [countersOther run (Ne.symm own), sinceOther own]
        exact ih

theorem heldCall {made : List Nat} (run : h.call? thread call = some h') (onward : call ≠ .reset) (once : made.Nodup)
    (below : ∀ block ∈ made, block < h.blocks.size) (own : ∀ block, call.block? = some block → block ∈ made) :
    let latest := h'.held ((h.made? call).toList ++ made)
    let book' := (⟨thread, call, h.moved call⟩ : Entry) :: book
    (latest.length + asked (refusals book') = (h.held made).length + asked (refusals book) + call.born) ∧
      latest.sum + net (refusals book') = (h.held made).sum + net (refusals book) + h.moved call := by
  cases refused : call.refused with
  | true =>
      simp only [heldRefused run refused, refusals, List.filter_cons, refused, if_true, asked, net, List.map_cons, List.sum_cons]
      omega
  | false =>
      obtain ⟨length, sum⟩ := heldGranted run refused onward once below own
      simp only [length, sum, refusals, List.filter_cons, refused, Bool.false_eq_true, if_false]
      omega

theorem Reached.balance (reached : Reached h book) (onward : ∀ e ∈ book, e.call ≠ .reset) :
    (h.threads.toList.map Counters.difference).sum = h.sizes.length + asked (refusals book) ∧
      (h.threads.toList.map Counters.bytes).sum = h.sizes.sum + net (refusals book) := by
  induction reached with
  | start => exact ⟨rfl, rfl⟩
  | spawn before ih =>
      obtain ⟨blocks, bytes⟩ := ih onward
      simpa [Heap.spawn, sizes, Counters.difference, Counters.zero] using And.intro blocks bytes
  | @call h h' book maker call before known run ih =>
      obtain ⟨here, earlier⟩ := List.forall_mem_cons.mp onward
      obtain ⟨blocks, bytes⟩ := ih earlier
      have inRange : ∀ block, call.block? = some block → block ∈ List.range h.blocks.size := fun block names =>
        have ⟨old, read⟩ := callLive run names
        List.mem_range.mpr (sizeOfBelow read)
      obtain ⟨length, sum⟩ := heldCall run here List.nodup_range (fun block => List.mem_range.mp) inRange
      have perm := sizesPerm run
      rw [threadsCall run, Array.toList_modify, sumModify (differenceCharge here) known, sumModify (bytesCharge here) known, blocks, bytes,
        perm.length_eq, perm.sum_eq, length, sum, sizesHeld]
      exact ⟨rfl, rfl⟩

/-- Every call is charged to its own thread. A thread's peak is the highest level it has been at since it last started over,
and unless a thread starts over the levels of all threads add up to what is live and what was refused. -/
theorem everyRunAccounted (reached : Reached h book) :
    (∀ thread call, (∀ block, call.block? = some block → (h.sizeOf? block).isSome) → ∃ h', h.call? thread call = some h') ∧
      (∀ thread call h', h.call? thread call = some h' → (∀ other, other ≠ thread → h'.counters other = h.counters other) ∧
        (thread < h.threads.size → call ≠ .reset → (h.counters thread).peak ≤ (h'.counters thread).peak)) ∧
      (∀ thread, (h.counters thread).bytes = net (since thread book) ∧
        ((h.counters thread).peak : Int) = highest (levels (since thread book)) ∧
        (h.counters thread).bytes ≤ (h.counters thread).peak) ∧
      ((∀ e ∈ book, e.call ≠ .reset) →
        (h.threads.toList.map Counters.difference).sum = h.sizes.length + asked (refusals book) ∧
          (h.threads.toList.map Counters.bytes).sum = h.sizes.sum + net (refusals book)) := by
  refine ⟨fun thread call => callReturns, fun thread call h' run => ⟨fun other => countersOther run, fun known onward => ?_⟩,
    fun thread => ?_, reached.balance⟩
  · rw [countersOwn run known, peakCharge onward]
    exact Nat.le_max_left ..
  · obtain ⟨bytes, peak⟩ := reached.account thread
    refine ⟨bytes, peak, ?_⟩
    rw [bytes, peak]
    exact netLeHighest _

def sharedBlocks : Heap := ⟨#[some 150, none], #[⟨2, 0, 120, 120⟩, ⟨2, 2, 37, 50⟩]⟩

def sharedBook : List Entry :=
  [⟨1, .alloc 7 false, 7⟩, ⟨1, .dealloc 1, -20⟩, ⟨1, .realloc 0 150 true, 50⟩, ⟨0, .allocZeroed 20 true, 20⟩,
    ⟨0, .alloc 100 true, 100⟩]

theorem sharedBlocksAccounted :
    ((sharedBlocks.threads.toList.map Counters.difference).sum = sharedBlocks.sizes.length + 1 ∧
        (sharedBlocks.threads.toList.map Counters.bytes).sum = sharedBlocks.sizes.sum + 7) ∧
      ((sharedBlocks.counters 1).peak : Int) = highest [37, 30, 50] ∧
      (∃ next, sharedBlocks.call? 1 (.dealloc 0) = some next ∧ next.counters 0 = sharedBlocks.counters 0 ∧
        (sharedBlocks.counters 1).peak ≤ (next.counters 1).peak) ∧
      ∃ later, Reached later (⟨0, .dealloc 0, -150⟩ :: ⟨0, .reset, 0⟩ :: sharedBook) ∧
        ((later.counters 0).peak : Int) = highest [-150] := by
  have made : Reached _ _ := (Reached.start.spawn.spawn.call (.alloc 100 true) (by decide : 0 < 2) rfl).call
    (.allocZeroed 20 true) (by decide : 0 < 2) rfl
  have shared : Reached sharedBlocks sharedBook := ((made.call (.realloc 0 150 true) (by decide : 1 < 2) rfl).call
    (.dealloc 1) (by decide : 1 < 2) rfl).call (.alloc 7 false) (by decide : 1 < 2) rfl
  have freed : Reached ⟨#[none, none], #[⟨0, 1, -150, 0⟩, ⟨2, 2, 37, 50⟩]⟩
      (⟨0, .dealloc 0, -150⟩ :: ⟨0, .reset, 0⟩ :: sharedBook) :=
    (shared.call .reset (by decide : 0 < 2) rfl).call (.dealloc 0) (by decide : 0 < 2) rfl
  obtain ⟨returns, own, peaks, sums⟩ := everyRunAccounted shared
  obtain ⟨-, -, later, -⟩ := everyRunAccounted freed
  obtain ⟨next, run⟩ := returns 1 (.dealloc 0) (by decide)
  obtain ⟨others, higher⟩ := own 1 (.dealloc 0) next run
  exact ⟨sums (by decide), (peaks 1).2.1, ⟨next, run, others 0 (by decide), higher (by decide) (by decide)⟩, _, freed,
    (later 0).2.1⟩

def refusedBook : List Entry := [⟨0, .realloc 0 (2 ^ 60) false, 2 ^ 60 - 16⟩, ⟨0, .alloc 16 true, 16⟩]

theorem refusedResizeStaysCounted :
    ∃ h, Reached h refusedBook ∧ (∀ e ∈ refusedBook, e.call ≠ .reset) ∧ h.sizes.sum = 16 ∧
      (h.threads.toList.map Counters.bytes).sum = 2 ^ 60 := by
  have made : Reached _ _ := Reached.start.spawn.call (.alloc 16 true) (by decide : 0 < 1) rfl
  have refused : Reached ⟨#[some 16], #[⟨2, 1, 2 ^ 60, 2 ^ 60⟩]⟩ refusedBook :=
    made.call (.realloc 0 (2 ^ 60) false) (by decide : 0 < 1) rfl
  exact ⟨_, refused, by decide, rfl, rfl⟩

end Heap

end RedBlack.Allocation
