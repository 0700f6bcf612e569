import Mathlib.Algebra.BigOperators.Group.List.Basic
import Mathlib.Algebra.GroupWithZero.Nat
import Mathlib.Algebra.Ring.Int.Defs
import Mathlib.Data.List.Basic
import RedBlack.Allocation

/-! What a call does to the blocks: it leaves them, adds one or writes one. Over any blocks that take in the ones it names,
a call that is granted moves their number and their sizes by what it asks for. -/
namespace RedBlack.Allocation

namespace Call

def block? : Call → Option Nat
  | .dealloc block | .realloc block .. => some block
  | .alloc .. | .allocZeroed .. | .reset => none

def size? : Call → Option Nat
  | .alloc size _ | .allocZeroed size _ | .realloc _ size _ => some size
  | .dealloc _ | .reset => none

def born : Call → Int
  | .alloc .. | .allocZeroed .. => 1
  | .dealloc _ => -1
  | .realloc .. | .reset => 0

def refused : Call → Bool
  | .alloc _ granted | .allocZeroed _ granted | .realloc _ _ granted => !granted
  | .dealloc _ | .reset => false

end Call

namespace Heap

def sizes (h : Heap) : List Nat := h.blocks.toList.filterMap id

def moved (h : Heap) : Call → Int
  | .alloc size _ | .allocZeroed size _ => size
  | .dealloc block => -((h.sizeOf? block).getD 0)
  | .realloc block size _ => size - (h.sizeOf? block).getD 0
  | .reset => 0

def made? (h : Heap) : Call → Option Nat
  | .alloc _ granted | .allocZeroed _ granted => if granted then some h.blocks.size else none
  | .dealloc _ | .realloc .. | .reset => none

def target? (h : Heap) (call : Call) : Option Nat := if call.refused then none else (h.made? call).or call.block?

def held (h : Heap) (made : List Nat) : List Nat := made.filterMap h.sizeOf?

variable {h h' : Heap} {thread block : Nat} {call : Call} {made : List Nat}

theorem heldCons (h : Heap) (block : Nat) (made : List Nat) : h.held (block :: made) = (h.sizeOf? block).toList ++ h.held made := by
  cases size : h.sizeOf? block <;> simp [held, size]

theorem sizesHeld (h : Heap) : h.sizes = h.held (List.range h.blocks.size) := by
  have read : h.blocks.toList.map some = (List.range h.blocks.size).map (h.blocks[·]?) := by
    refine List.ext_getElem (by simp) fun i inside _ => ?_
    rw [List.length_map, Array.length_toList] at inside
    simp [inside]
  calc h.blocks.toList.filterMap id = (h.blocks.toList.map some).filterMap Option.join := by
        rw [List.filterMap_map]
        rfl
    _ = (List.range h.blocks.size).filterMap h.sizeOf? := by
        rw [read, List.filterMap_map]
        rfl

theorem sizeOfFresh : h.sizeOf? h.blocks.size = none := by simp [sizeOf?]

theorem sizeOfBelow {old : Nat} (read : h.sizeOf? block = some old) : block < h.blocks.size := by
  refine Nat.lt_of_not_le fun beyond => ?_
  simp [sizeOf?, Array.getElem?_eq_none beyond] at read

theorem madeFresh {fresh : Nat} (makes : h.made? call = some fresh) : fresh = h.blocks.size := by
  cases call with
  | alloc size granted | allocZeroed size granted =>
      exact (Option.some.inj (Option.ite_none_right_eq_some.mp makes).2).symm
  | dealloc | realloc | reset => cases makes

theorem notMadeBelow (below : ∀ block ∈ made, block < h.blocks.size) {fresh : Nat} (makes : h.made? call = some fresh) :
    fresh ∉ made :=
  fun member => Nat.lt_irrefl _ (madeFresh makes ▸ below fresh member)

theorem targetNames (target : h.target? call = some block) :
    h.made? call = some block ∨ h.made? call = none ∧ call.block? = some block := by
  rw [target?] at target
  split at target
  · cases target
  · exact Option.or_eq_some_iff.mp target

theorem madeRefused (refused : call.refused) : h.made? call = none := by
  cases call with
  | alloc size granted | allocZeroed size granted => simpa [Call.refused, made?] using refused
  | dealloc | realloc | reset => rfl

theorem sizeOfSet {target old : Nat} {content : Option Nat} (read : h.sizeOf? target = some old)
    (blocks : h'.blocks = h.blocks.setIfInBounds target content) (block : Nat) :
    h'.sizeOf? block = if target = block then content else h.sizeOf? block := by
  have inside := sizeOfBelow read
  rw [sizeOf?, blocks]
  by_cases same : target = block
  · subst same
    simp [inside]
  · simp [sizeOf?, same]

theorem callReturns (live : ∀ block, call.block? = some block → (h.sizeOf? block).isSome) : ∃ h', h.call? thread call = some h' := by
  cases call with
  | alloc size granted | allocZeroed size granted | reset => exact ⟨_, rfl⟩
  | dealloc block | realloc block size granted =>
      obtain ⟨old, read⟩ := Option.isSome_iff_exists.mp (live block rfl)
      exact ⟨_, by rw [call?, read]; rfl⟩

section
variable (run : h.call? thread call = some h')
include run

theorem callLive (names : call.block? = some block) : ∃ old, h.sizeOf? block = some old := by
  cases call with
  | alloc | allocZeroed | reset => cases names
  | dealloc | realloc =>
      cases names
      obtain ⟨old, read, -⟩ := Option.bind_eq_some_iff.mp run
      exact ⟨old, read⟩

/-- All that a call can do to the blocks. -/
theorem callBlocks :
    (h.made? call = none ∧ h.target? call = none ∧ h'.blocks = h.blocks) ∨
      (h.made? call = some h.blocks.size ∧ h.target? call = some h.blocks.size ∧ h'.blocks = h.blocks.push call.size?) ∨
      ∃ block old, h.made? call = none ∧ h.target? call = some block ∧ h.sizeOf? block = some old ∧
        h'.blocks = h.blocks.setIfInBounds block call.size? := by
  cases call with
  | alloc size granted | allocZeroed size granted =>
      cases run
      cases granted with
      | false => exact .inl ⟨rfl, rfl, rfl⟩
      | true => exact .inr (.inl ⟨rfl, rfl, rfl⟩)
  | dealloc block =>
      obtain ⟨old, read, last⟩ := Option.bind_eq_some_iff.mp run
      cases last
      exact .inr (.inr ⟨block, old, rfl, rfl, read, rfl⟩)
  | realloc block size granted =>
      obtain ⟨old, read, last⟩ := Option.bind_eq_some_iff.mp run
      cases last
      cases granted with
      | false => exact .inl ⟨rfl, rfl, rfl⟩
      | true => exact .inr (.inr ⟨block, old, rfl, rfl, read, rfl⟩)
  | reset =>
      cases run
      exact .inl ⟨rfl, rfl, rfl⟩

theorem blocksCall : h'.blocks.size = h.blocks.size + (h.made? call).toList.length := by
  obtain ⟨makes, -, blocks⟩ | ⟨makes, -, blocks⟩ | ⟨block, old, makes, -, -, blocks⟩ := callBlocks run <;> simp [makes, blocks]

theorem sizeOfCall (block : Nat) : h'.sizeOf? block = if h.target? call = some block then call.size? else h.sizeOf? block := by
  obtain ⟨-, target, blocks⟩ | ⟨-, target, blocks⟩ | ⟨named, old, -, target, read, blocks⟩ := callBlocks run
  · rw [target, if_neg nofun, sizeOf?, blocks]
    rfl
  · rw [target, sizeOf?, blocks, Array.getElem?_push]
    by_cases last : block = h.blocks.size
    · simp [last]
    · have other : h.blocks.size ≠ block := Ne.symm last
      simp [last, other, sizeOf?]
  · rw [target, sizeOfSet read blocks]
    simp

theorem callTarget (granted : call.refused = false) (onward : call ≠ .reset) :
    ∃ block, h.target? call = some block ∧ call.born = call.size?.toList.length - (h.sizeOf? block).toList.length ∧
      h.moved call = call.size?.toList.sum - (h.sizeOf? block).toList.sum := by
  cases call with
  | alloc size answer | allocZeroed size answer =>
      obtain rfl : answer = true := by simpa [Call.refused] using granted
      refine ⟨h.blocks.size, rfl, ?_, ?_⟩
      · rw [sizeOfFresh]
        rfl
      · rw [sizeOfFresh]
        simp [moved, Call.size?]
  | dealloc block =>
      obtain ⟨old, read⟩ := callLive run rfl
      exact ⟨block, rfl, by rw [read]; rfl, by rw [moved, read]; simp [Call.size?]⟩
  | realloc block size answer =>
      obtain rfl : answer = true := by simpa [Call.refused] using granted
      obtain ⟨old, read⟩ := callLive run rfl
      exact ⟨block, rfl, by rw [read]; rfl, by rw [moved, read]; simp [Call.size?]⟩
  | reset => exact absurd rfl onward

theorem heldOther (below : ∀ block ∈ made, block < h.blocks.size) (off : ∀ block, call.block? = some block → block ∉ made) :
    h'.held made = h.held made := by
  refine List.filterMap_congr fun block member => ?_
  rw [sizeOfCall run, if_neg]
  intro target
  rcases targetNames target with makes | ⟨-, names⟩
  · exact notMadeBelow below makes member
  · exact off block names member

theorem heldRefused (refused : call.refused) : h'.held ((h.made? call).toList ++ made) = h.held made := by
  rw [madeRefused refused, Option.toList_none, List.nil_append]
  refine List.filterMap_congr fun block _ => ?_
  rw [sizeOfCall run, target?, if_pos refused, if_neg nofun]

theorem heldGranted (granted : call.refused = false) (onward : call ≠ .reset) (once : made.Nodup)
    (below : ∀ block ∈ made, block < h.blocks.size) (own : ∀ block, call.block? = some block → block ∈ made) :
    ((h'.held ((h.made? call).toList ++ made)).length : Int) = (h.held made).length + call.born ∧
      ((h'.held ((h.made? call).toList ++ made)).sum : Int) = (h.held made).sum + h.moved call := by
  obtain ⟨block, target, born, moved⟩ := callTarget run granted onward
  obtain ⟨rest, split, out⟩ : ∃ rest, ((h.made? call).toList ++ made).Perm (block :: rest) ∧ block ∉ rest := by
    rcases targetNames target with makes | ⟨makes, names⟩
    · exact ⟨made, by simp [makes], notMadeBelow below makes⟩
    · refine ⟨made.erase block, ?_, once.not_mem_erase⟩
      simpa [makes] using List.perm_cons_erase (own block names)
  have same : h'.held rest = h.held rest := by
    refine List.filterMap_congr fun other member => ?_
    rw [sizeOfCall run, target, if_neg]
    exact fun here => out (Option.some.inj here ▸ member)
  have after : (h'.held ((h.made? call).toList ++ made)).Perm (call.size?.toList ++ h.held rest) := by
    have here : h'.sizeOf? block = call.size? := by rw [sizeOfCall run, if_pos target]
    rw [← same, ← here, ← heldCons]
    exact split.filterMap h'.sizeOf?
  have fresh : h.held ((h.made? call).toList ++ made) = h.held made := by
    cases makes : h.made? call with
    | none => rfl
    | some fresh =>
        rw [madeFresh makes, Option.toList_some, List.singleton_append, heldCons, sizeOfFresh]
        rfl
  have before : (h.held made).Perm ((h.sizeOf? block).toList ++ h.held rest) := by
    rw [← fresh, ← heldCons]
    exact split.filterMap h.sizeOf?
  rw [after.length_eq, after.sum_eq, before.length_eq, before.sum_eq, born, moved, List.length_append, List.length_append,
    List.sum_append, List.sum_append]
  omega

theorem sizesPerm : h'.sizes.Perm (h'.held ((h.made? call).toList ++ List.range h.blocks.size)) := by
  rw [sizesHeld]
  refine List.Perm.filterMap _ ?_
  rw [blocksCall run]
  cases makes : h.made? call with
  | none => exact .refl _
  | some fresh =>
      rw [madeFresh makes]
      exact List.range_succ ▸ List.perm_append_comm

end

end Heap

end RedBlack.Allocation
