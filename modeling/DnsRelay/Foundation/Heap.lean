import DnsRelay.Foundation.Outcome
import Mathlib.Data.List.Nodup
import Mathlib.Data.List.Perm.Basic
import Mathlib.Data.List.Perm.Lattice
import Mathlib.Logic.Function.Basic

/-!
# A heap with owners

Objects are handed out under fresh addresses, and every access to an address that is
not live is stuck: reading, writing and freeing. `Holds` splits a heap into a frame and
the objects a piece of code owns. The rules say what each operation does to the owned
part; the frame never changes, and owning nothing means that the heap is the frame.
-/
namespace DnsRelay.Foundation

variable {β : Type}

structure Heap (β : Type) where
  objects : Nat → Option β
  next : Nat
  fresh : ∀ a, next ≤ a → objects a = none

namespace Heap

def empty : Heap β where
  objects := fun _ => none
  next := 0
  fresh _ _ := rfl

def alloc (heap : Heap β) (b : β) : Heap β where
  objects := Function.update heap.objects heap.next (some b)
  next := heap.next + 1
  fresh a ha := by
    rw [Function.update_of_ne (by omega)]
    exact heap.fresh a (by omega)

def read (heap : Heap β) (a : Nat) : Call β :=
  match heap.objects a with
  | none => .stuck
  | some b => .ok b

/-- Replace or remove a live object. -/
def change (heap : Heap β) (a : Nat) (content : Option β) : Call (Heap β) :=
  if h : (heap.objects a).isSome then
    .ok {
      objects := Function.update heap.objects a content
      next := heap.next
      fresh := fun a' ha' => by
        have hne : a' ≠ a := by
          intro heq
          rw [← heq, heap.fresh a' ha'] at h
          cases h
        rw [Function.update_of_ne hne]
        exact heap.fresh a' ha' }
  else .stuck

def write (heap : Heap β) (a : Nat) (b : β) : Call (Heap β) := heap.change a (some b)

def free (heap : Heap β) (a : Nat) : Call (Heap β) := heap.change a none

/-- `free` of a pointer that may be NULL. -/
def release (heap : Heap β) : Option Nat → Call (Heap β)
  | none => .ok heap
  | some a => heap.free a

end Heap

/-- The heap consists of the frame and the owned objects. -/
structure Holds (heap : Heap β) (frame : Nat → Option β) (owned : List (Nat × β)) : Prop where
  distinct : (owned.map Prod.fst).Nodup
  outside : ∀ p ∈ owned, frame p.1 = none
  contents : ∀ a b, heap.objects a = some b ↔ (a, b) ∈ owned ∨ frame a = some b

namespace Holds

variable {heap heap' : Heap β} {frame : Nat → Option β} {owned owned' : List (Nat × β)} {a : Nat}
  {b b' : β}

theorem refl (heap : Heap β) : Holds heap heap.objects [] where
  distinct := List.nodup_nil
  outside p hp := by cases hp
  contents a b := by simp

/-- Who owns nothing has left the heap as it was. -/
theorem eq_frame (h : Holds heap frame []) : heap.objects = frame := by
  funext a
  apply Option.ext
  intro b
  rw [h.contents a b]
  exact or_iff_right (fun hmem => by cases hmem)

theorem perm (h : Holds heap frame owned) (hperm : owned.Perm owned') : Holds heap frame owned' where
  distinct := (hperm.map Prod.fst).nodup_iff.mp h.distinct
  outside p hp := h.outside p (hperm.mem_iff.mpr hp)
  contents a b := by rw [h.contents a b, hperm.mem_iff]

theorem live (h : Holds heap frame owned) (hmem : (a, b) ∈ owned) : heap.objects a = some b :=
  (h.contents a b).mpr (Or.inl hmem)

theorem read (h : Holds heap frame owned) (hmem : (a, b) ∈ owned) :
    (heap.read a : Call β) = .ok b := by
  rw [Heap.read, h.live hmem]

/-- The address of an owned object is that of no other one. -/
theorem not_mem_rest (h : Holds heap frame ((a, b) :: owned)) (b' : β) : (a, b') ∉ owned := by
  intro hmem
  exact (List.nodup_cons.mp h.distinct).1 (List.mem_map.mpr ⟨_, hmem, rfl⟩)

theorem alloc (h : Holds heap frame owned) (b : β) :
    Holds (heap.alloc b) frame ((heap.next, b) :: owned) := by
  have hfresh := heap.fresh heap.next (Nat.le_refl _)
  have hnew : ∀ b', (heap.next, b') ∉ owned := by
    intro b' hmem
    cases hfresh.symm.trans (h.live hmem)
  have hframe : frame heap.next = none := by
    cases hf : frame heap.next with
    | none => rfl
    | some b' => cases hfresh.symm.trans ((h.contents _ b').mpr (Or.inr hf))
  refine ⟨List.nodup_cons.mpr ⟨fun hmem => ?_, h.distinct⟩, fun p hp => ?_, fun a b' => ?_⟩
  · obtain ⟨⟨a, b'⟩, hp, rfl⟩ := List.mem_map.mp hmem
    exact hnew b' hp
  · rcases List.mem_cons.mp hp with rfl | hp
    · exact hframe
    · exact h.outside p hp
  · change Function.update heap.objects heap.next (some b) a = some b' ↔ _
    rw [List.mem_cons]
    by_cases ha : a = heap.next
    · subst ha
      rw [Function.update_self, hframe, Option.some.injEq, Prod.mk.injEq]
      constructor
      · rintro rfl
        exact Or.inl (Or.inl ⟨rfl, rfl⟩)
      · rintro ((⟨_, rfl⟩ | hmem) | hnone)
        · rfl
        · exact absurd hmem (hnew b')
        · cases hnone
    · rw [Function.update_of_ne ha, h.contents a b']
      simp [ha]

theorem free (h : Holds heap frame ((a, b) :: owned)) :
    ∃ heap', (heap.free a : Call (Heap β)) = .ok heap' ∧ Holds heap' frame owned := by
  have hlive : (heap.objects a).isSome = true := by
    rw [h.live List.mem_cons_self]
    rfl
  rw [Heap.free, Heap.change, dif_pos hlive]
  refine ⟨_, rfl, (List.nodup_cons.mp h.distinct).2,
    fun p hp => h.outside p (List.mem_cons_of_mem _ hp), fun a' b' => ?_⟩
  change Function.update heap.objects a none a' = some b' ↔ _
  by_cases ha : a' = a
  · subst ha
    rw [Function.update_self, h.outside (a', b) List.mem_cons_self]
    simp [h.not_mem_rest b']
  · rw [Function.update_of_ne ha, h.contents a' b', List.mem_cons]
    simp [ha]

theorem write (h : Holds heap frame ((a, b) :: owned)) (b' : β) :
    ∃ heap', (heap.write a b' : Call (Heap β)) = .ok heap' ∧
      Holds heap' frame ((a, b') :: owned) := by
  have hlive : (heap.objects a).isSome = true := by
    rw [h.live List.mem_cons_self]
    rfl
  rw [Heap.write, Heap.change, dif_pos hlive]
  refine ⟨_, rfl, h.distinct, fun p hp => ?_, fun a' c => ?_⟩
  · rcases List.mem_cons.mp hp with rfl | hp
    · exact h.outside (a, b) List.mem_cons_self
    · exact h.outside p (List.mem_cons_of_mem _ hp)
  · change Function.update heap.objects a (some b') a' = some c ↔ _
    rw [List.mem_cons]
    by_cases ha : a' = a
    · subst ha
      rw [Function.update_self, h.outside (a', b) List.mem_cons_self, Option.some.injEq,
        Prod.mk.injEq, eq_comm]
      simp [h.not_mem_rest c]
    · rw [Function.update_of_ne ha, h.contents a' c, List.mem_cons]
      simp [ha]

end Holds
end DnsRelay.Foundation
