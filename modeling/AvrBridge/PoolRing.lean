import AvrBridge.BufferPool
import AvrBridge.Lts
import AvrBridge.Mask
import Mathlib.Data.List.Nodup
import Mathlib.Data.List.Perm.Subperm

/-! The ring of free slots. `Sound` ties the three records of the allocator (the
ring with its two cursors, the count, the mask) together; a successful
allocation takes the head of the ring and a successful release appends to it. -/

namespace AvrBridge.BufferAllocator

open Rust Window Mask

variable {N : Nat} {p : Profile}

/-- The free slots in the order in which they will be handed out. -/
def free (a : BufferAllocator N) : List Nat := window a.allocations a.allocIdx a.count

/-- Slot `i` has been handed out and not been released. -/
def outstanding (a : BufferAllocator N) (i : Nat) : Bool := a.inUseMask.getLsbD i

structure Sound (a : BufferAllocator N) : Prop where
  length_allocations : a.allocations.length = N
  allocIdx_lt : a.allocIdx < N
  deallocIdx_eq : a.deallocIdx = (a.allocIdx + a.count) % N
  count_le : a.count ≤ N
  nodup_free : a.free.Nodup
  mem_free : ∀ i, i ∈ a.free ↔ i < N ∧ a.outstanding i = false
  entry_lt : ∀ i ∈ a.allocations, i < N

theorem Sound.length_free {a : BufferAllocator N} (h : a.Sound) : a.free.length = a.count :=
  length_window (by have := h.length_allocations; have := h.count_le; omega)

theorem Sound.deallocIdx_eq_wrap {a : BufferAllocator N} (h : a.Sound) :
    a.deallocIdx = wrap a.allocations.length (a.allocIdx + a.count) := by
  have := h.allocIdx_lt
  have := h.count_le
  rw [h.length_allocations, wrap_eq_mod (by omega), h.deallocIdx_eq]

theorem new_free (hN : N ≤ 8) : (new N).free = List.range N := by
  have hmap : (List.range N).map asU8 = List.range N := by
    refine (List.map_congr_left fun i hi => ?_).trans (List.map_id _)
    exact asU8_of_lt (by have := List.mem_range.mp hi; omega)
  simp only [free, new, hmap, asU8_of_lt (show N < 256 by omega), window, List.drop_zero,
    List.take_zero, List.append_nil]
  exact List.take_of_length_le (by simp)

theorem new_sound (hN₁ : 1 ≤ N) (hN : N ≤ 8) : (new N).Sound where
  length_allocations := by simp [new]
  allocIdx_lt := hN₁
  deallocIdx_eq := by simp [new, asU8_of_lt (show N < 256 by omega)]
  count_le := by simp [new, asU8_of_lt (show N < 256 by omega)]
  nodup_free := by rw [new_free hN]; exact List.nodup_range
  mem_free i := by rw [new_free hN]; simp [outstanding, new]
  entry_lt i hi := by
    obtain ⟨j, hj, rfl⟩ := List.mem_map.mp hi
    exact Nat.lt_of_le_of_lt (Nat.mod_le ..) (List.mem_range.mp hj)

/-! ## Allocation -/

/-- The allocator after slot `i` was taken from the ring. -/
def afterAlloc (a : BufferAllocator N) (i : Nat) : BufferAllocator N :=
  { a with
    allocIdx := (a.allocIdx + 1) % asU8 N
    count := a.count - 1
    inUseMask := a.inUseMask ||| BitVec.twoPow 8 i }

section Allocation

variable {a : BufferAllocator N} {i : Nat}

theorem outstanding_afterAlloc (hi : i < 8) (j : Nat) :
    (a.afterAlloc i).outstanding j = (a.outstanding j || decide (i = j)) :=
  getLsbD_add hi j

/-- The head of the ring is the entry at the cursor. -/
theorem Sound.exists_head (hN : N ≤ 8) (h : a.Sound) (hc : 0 < a.count) :
    ∃ i, a.allocations[a.allocIdx]? = some i ∧ a.free = i :: (a.afterAlloc i).free := by
  have hlen := h.length_allocations
  have hlt := h.allocIdx_lt
  have hle := h.count_le
  have hlt' : a.allocIdx < a.allocations.length := by omega
  obtain ⟨c, hcount⟩ : ∃ c, a.count = c + 1 := ⟨a.count - 1, by omega⟩
  have hnext : (a.allocIdx + 1) % asU8 N = wrap a.allocations.length (a.allocIdx + 1) := by
    rw [asU8_of_lt (by omega), hlen, wrap_eq_mod (by omega)]
  refine ⟨a.allocations[a.allocIdx], List.getElem?_eq_getElem hlt', ?_⟩
  simp only [free, afterAlloc, hnext]
  rw [hcount]
  exact head_window hlt' (by omega)

/-- Taking the head of the ring keeps the records together. -/
theorem Sound.afterAlloc (hN : N ≤ 8) (h : a.Sound) (hc : 0 < a.count)
    (hfree : a.free = i :: (a.afterAlloc i).free) : (a.afterAlloc i).Sound := by
  have hlt := h.allocIdx_lt
  have hle := h.count_le
  have h8 : asU8 N = N := asU8_of_lt (by omega)
  have hnd := h.nodup_free
  rw [hfree, List.nodup_cons] at hnd
  have hi : i < N := ((h.mem_free i).mp (by rw [hfree]; exact List.mem_cons_self ..)).1
  refine ⟨h.length_allocations, ?_, ?_, ?_, hnd.2, fun j => ?_, h.entry_lt⟩
  · simp only [BufferAllocator.afterAlloc, h8]
    exact Nat.mod_lt _ (by omega)
  · simp only [BufferAllocator.afterAlloc, h8, Nat.mod_add_mod]
    rw [h.deallocIdx_eq]
    congr 1
    omega
  · exact Nat.le_trans (Nat.sub_le ..) hle
  · have hold := h.mem_free j
    rw [hfree, List.mem_cons] at hold
    rw [outstanding_afterAlloc (by omega)]
    constructor
    · intro hj
      have hne : i ≠ j := fun e => hnd.1 (e ▸ hj)
      simpa [hne] using hold.mp (.inr hj)
    · rintro ⟨hjN, hj⟩
      simp only [Bool.or_eq_false_iff, decide_eq_false_iff_not] at hj
      rcases hold.mpr ⟨hjN, hj.1⟩ with e | e
      · exact absurd e.symm hj.2
      · exact e

end Allocation

/-- Allocation while a slot is free takes the head of the ring. -/
theorem tryAlloc_of_pos (hN : N ≤ 8) {a : BufferAllocator N} (h : a.Sound) (hc : 0 < a.count) :
    ∃ i a', a.tryAlloc p = .ok (.ok i, a') ∧ a.free = i :: a'.free ∧ a'.Sound ∧
      a'.count + 1 = a.count ∧ ∀ j, a'.outstanding j = (a.outstanding j || decide (i = j)) := by
  have hlt := h.allocIdx_lt
  obtain ⟨i, hget, hfree⟩ := h.exists_head hN hc
  have hi : i < N := h.entry_lt i (List.mem_of_getElem? hget)
  refine ⟨i, a.afterAlloc i, ?_, hfree, h.afterAlloc hN hc hfree, Nat.sub_add_cancel hc,
    outstanding_afterAlloc (by omega)⟩
  simp only [tryAlloc, index_ok hget, ok_bind,
    Profile.addU8_ok (show a.allocIdx + 1 < 256 by omega),
    Profile.subU8_ok (show 1 ≤ a.count by omega), Profile.bitU8_ok (show i < 8 by omega)]
  rfl

/-- Allocation with no free slot traps, or takes a stale ring entry and wraps the count. -/
theorem tryAlloc_of_zero (hN : N ≤ 8) {a : BufferAllocator N} {i : Nat}
    (hi : a.allocations[a.allocIdx]? = some i) (hiN : i < N) (hidx : a.allocIdx < N)
    (hc : a.count = 0) :
    a.tryAlloc p = if p.overflowChecks then .error .arithmeticOverflow
      else .ok (.ok i, { a with
        allocIdx := (a.allocIdx + 1) % asU8 N
        count := 255
        inUseMask := a.inUseMask ||| BitVec.twoPow 8 i }) := by
  simp only [tryAlloc, index_ok hi, ok_bind, Profile.addU8_ok (show a.allocIdx + 1 < 256 by omega),
    Profile.bitU8_ok (show i < 8 by omega), hc]
  cases hp : p.overflowChecks with
  | true =>
    have hsub : p.subU8 0 1 = .error .arithmeticOverflow := by simp [Profile.subU8, hp]
    rw [hsub]
    rfl
  | false =>
    have hsub : p.subU8 0 1 = .ok 255 := by simp [Profile.subU8, hp]
    rw [hsub]
    rfl

/-- An allocation that returns took the entry at the cursor, whatever the count:
the source has no path to its own `PoolEmpty`. -/
theorem tryAlloc_inv {a a' : BufferAllocator N} {r : Except BufferPoolError Nat}
    (h : a.tryAlloc p = .ok (r, a')) :
    ∃ i next, r = .ok i ∧ a.allocations[a.allocIdx]? = some i ∧
      a'.allocations = a.allocations ∧ a'.allocIdx = next % asU8 N := by
  obtain ⟨i, hi, h⟩ := bind_eq_ok.mp h
  obtain ⟨next, _, h⟩ := bind_eq_ok.mp h
  obtain ⟨count, _, h⟩ := bind_eq_ok.mp h
  obtain ⟨bit, _, h⟩ := bind_eq_ok.mp h
  cases h
  exact ⟨i, next, rfl, index_eq_ok.mp hi, rfl, rfl⟩

/-! ## Release -/

/-- The allocator after slot `i` was put back into the ring. -/
def afterDealloc (a : BufferAllocator N) (i : Nat) : BufferAllocator N :=
  { a with
    allocations := a.allocations.set a.deallocIdx i
    deallocIdx := (a.deallocIdx + 1) % asU8 N
    count := a.count + 1
    inUseMask := a.inUseMask &&& ~~~BitVec.twoPow 8 i }

section Release

variable {a : BufferAllocator N} {i : Nat}

theorem outstanding_afterDealloc (hi : i < 8) (j : Nat) :
    (a.afterDealloc i).outstanding j = (a.outstanding j && decide (i ≠ j)) :=
  getLsbD_remove hi j

theorem Sound.not_mem_free (h : a.Sound) (hout : a.outstanding i = true) : i ∉ a.free := by
  intro hm
  have hfalse := ((h.mem_free i).mp hm).2
  rw [hout] at hfalse
  cases hfalse

theorem Sound.count_lt (h : a.Sound) (hi : i < N) (hout : a.outstanding i = true) :
    a.count < N := by
  have hsub : (i :: a.free) ⊆ List.range N := by
    intro j hj
    rcases List.mem_cons.mp hj with rfl | hj
    · exact List.mem_range.mpr hi
    · exact List.mem_range.mpr ((h.mem_free j).mp hj).1
  have hnd := List.nodup_cons.mpr ⟨h.not_mem_free hout, h.nodup_free⟩
  have hle := (List.Nodup.subperm hnd hsub).length_le
  rw [List.length_cons, h.length_free, List.length_range] at hle
  exact hle

theorem Sound.deallocIdx_lt (h : a.Sound) : a.deallocIdx < a.allocations.length := by
  have hlt := h.allocIdx_lt
  have hle := h.count_le
  have hlen := h.length_allocations
  rw [h.deallocIdx_eq_wrap]
  exact wrap_lt (by omega)

theorem Sound.free_afterDealloc (h : a.Sound) (hcount : a.count < N) :
    (a.afterDealloc i).free = a.free ++ [i] := by
  have hlt := h.allocIdx_lt
  have hlen := h.length_allocations
  simp only [free, BufferAllocator.afterDealloc]
  rw [set_eq_ringWrite h.deallocIdx_lt, h.deallocIdx_eq_wrap]
  change window _ _ (a.count + [i].length) = _
  exact window_ringWrite (by omega) (by rw [List.length_singleton]; omega)

/-- Putting an outstanding slot back keeps the records together. -/
theorem Sound.afterDealloc (hN : N ≤ 8) (h : a.Sound) (hi : i < N)
    (hout : a.outstanding i = true) : (a.afterDealloc i).Sound := by
  have hcount := h.count_lt hi hout
  have hfree := h.free_afterDealloc (i := i) hcount
  refine ⟨?_, h.allocIdx_lt, ?_, hcount, ?_, fun j => ?_, fun j hj => ?_⟩
  · exact List.length_set.trans h.length_allocations
  · simp only [BufferAllocator.afterDealloc, asU8_of_lt (show N < 256 by omega)]
    rw [h.deallocIdx_eq, Nat.mod_add_mod, Nat.add_assoc]
  · rw [hfree, List.nodup_append]
    refine ⟨h.nodup_free, List.nodup_singleton i, ?_⟩
    intro j hj k hk e
    rw [List.mem_singleton.mp hk] at e
    exact h.not_mem_free hout (e ▸ hj)
  · rw [hfree, List.mem_append, h.mem_free j, outstanding_afterDealloc (by omega),
      List.mem_singleton]
    by_cases e : i = j
    · subst e
      simp [hi]
    · simp [e, Ne.symm e]
  · rcases List.mem_or_eq_of_mem_set hj with hj | rfl
    · exact h.entry_lt j hj
    · exact hi

end Release

/-- Releasing an outstanding slot appends it to the ring. -/
theorem tryDealloc_of_outstanding (hN : N ≤ 8) {a : BufferAllocator N} (h : a.Sound) {i : Nat}
    (hi : i < N) (hout : a.outstanding i = true) :
    ∃ a', a.tryDealloc p i = .ok (.ok (), a') ∧ a'.free = a.free ++ [i] ∧ a'.Sound ∧
      a'.count = a.count + 1 ∧ ∀ j, a'.outstanding j = (a.outstanding j && decide (i ≠ j)) := by
  have hcount := h.count_lt hi hout
  have hd := h.deallocIdx_lt
  have hlen := h.length_allocations
  have h8 : asU8 N = N := asU8_of_lt (by omega)
  refine ⟨a.afterDealloc i, ?_, h.free_afterDealloc hcount, h.afterDealloc hN hi hout, rfl,
    outstanding_afterDealloc (by omega)⟩
  have hbit : ¬ (a.inUseMask &&& BitVec.twoPow 8 i = 0) := by
    rw [and_twoPow_eq_zero_iff (by omega), ← outstanding, hout]
    exact Bool.true_eq_false.mp
  unfold tryDealloc
  rw [if_neg (by omega), if_neg (by omega)]
  simp only [Profile.bitU8_ok (show i < 8 by omega), index_ok (List.getElem?_eq_getElem hd),
    ok_bind, Profile.addU8_ok (show a.deallocIdx + 1 < 256 by omega),
    Profile.addU8_ok (show a.count + 1 < 256 by omega), hbit, if_false]
  rfl

/-- Releasing anything else is refused and changes nothing. -/
theorem tryDealloc_of_not_outstanding (hN : N ≤ 8) {a : BufferAllocator N} {i : Nat}
    (h : ¬ (i < N ∧ a.outstanding i = true)) :
    ∃ e, a.tryDealloc p i = .ok (.error e, a) := by
  have h8 : asU8 N = N := asU8_of_lt (by omega)
  unfold tryDealloc
  rw [h8]
  by_cases hf : a.count = N
  · exact ⟨_, if_pos hf⟩
  rw [if_neg hf]
  by_cases hi : i ≥ N
  · exact ⟨_, if_pos hi⟩
  have hzero : a.inUseMask &&& BitVec.twoPow 8 i = 0 := by
    rw [and_twoPow_eq_zero_iff (by omega), ← outstanding, ← Bool.not_eq_true]
    exact fun ht => h ⟨by omega, ht⟩
  refine ⟨.alreadyDeallocated, ?_⟩
  rw [if_neg hi]
  simp only [Profile.bitU8_ok (show i < 8 by omega), ok_bind, hzero, if_true]
  rfl

end AvrBridge.BufferAllocator

namespace AvrBridge.BufferPool

open Rust

variable {N C : Nat} {p : Profile}

/-- The allocator is sound and has one row of storage for each slot. -/
structure Sound (b : BufferPool N C) : Prop where
  allocator : b.allocator.Sound
  rows : b.pool.length = N

theorem new_sound (hN₁ : 1 ≤ N) (hN : N ≤ 8) : (new N C).Sound :=
  ⟨BufferAllocator.new_sound hN₁ hN, List.length_replicate⟩

/-- A poll while a slot is free is ready with the head of the ring. -/
theorem poll_of_pos (hN : N ≤ 8) {b : BufferPool N C} (h : b.Sound) (hc : 0 < b.allocator.count)
    (w : Waker) :
    ∃ i capacity b', b.poll p w = .ok (.ready ⟨i, capacity, i⟩, b') ∧
      b.allocator.free = i :: b'.allocator.free ∧ b'.Sound ∧ b'.waker = b.waker ∧
      b'.allocator.count + 1 = b.allocator.count ∧
      ∀ j, b'.allocator.outstanding j = (b.allocator.outstanding j || decide (i = j)) := by
  obtain ⟨i, a', ha, hfree, hs, hcount, hout⟩ :=
    b.allocator.tryAlloc_of_pos (p := p) hN h.allocator hc
  have hi : i < N := ((h.allocator.mem_free i).mp (by rw [hfree]; exact List.mem_cons_self ..)).1
  have hrow : i < b.pool.length := by rw [h.rows]; exact hi
  refine ⟨i, b.pool[i].length, { b with allocator := a' }, ?_, hfree, ⟨hs, h.rows⟩, rfl,
    hcount, hout⟩
  simp only [poll, ha, ok_bind, index_ok (List.getElem?_eq_getElem hrow)]
  rfl

/-- Releasing an outstanding slot appends it to the ring and hands the waker over. -/
theorem releaseBuffer_of_outstanding (hN : N ≤ 8) {b : BufferPool N C} (h : b.Sound) {i : Nat}
    (hi : i < N) (hout : b.allocator.outstanding i = true) :
    ∃ b', b.releaseBuffer p i = .ok (.ok (), b.waker, b') ∧
      b'.allocator.free = b.allocator.free ++ [i] ∧ b'.Sound ∧ b'.waker = none ∧
      ∀ j, b'.allocator.outstanding j = (b.allocator.outstanding j && decide (i ≠ j)) := by
  obtain ⟨a', ha, hfree, hs, _, hout'⟩ :=
    b.allocator.tryDealloc_of_outstanding (p := p) hN h.allocator hi hout
  refine ⟨{ b with allocator := a', waker := none }, ?_, hfree, ⟨hs, h.rows⟩, rfl, hout'⟩
  simp only [releaseBuffer, ha, ok_bind]
  rfl

theorem releaseBuffer_of_not_outstanding (hN : N ≤ 8) {b : BufferPool N C} {i : Nat}
    (h : ¬ (i < N ∧ b.allocator.outstanding i = true)) :
    ∃ e, b.releaseBuffer p i = .ok (.error e, none, b) := by
  obtain ⟨e, he⟩ := b.allocator.tryDealloc_of_not_outstanding (p := p) hN h
  refine ⟨e, ?_⟩
  simp only [releaseBuffer, he, ok_bind]
  rfl

/-- A release leaves the storage alone. -/
theorem pool_releaseBuffer {b b' : BufferPool N C} {i : Nat} {r : Except BufferPoolError Unit}
    {woken : Option Waker} (h : b.releaseBuffer p i = .ok (r, woken, b')) : b'.pool = b.pool := by
  obtain ⟨⟨r₀, a'⟩, _, h⟩ := bind_eq_ok.mp h
  cases r₀ <;> cases h <;> rfl

/-- A poll that returns is ready with the slot at the cursor. -/
theorem poll_inv {b b' : BufferPool N C} {w : Waker} {r : Poll BufferHandle}
    (h : b.poll p w = .ok (r, b')) :
    ∃ i capacity next, r = .ready ⟨i, capacity, i⟩ ∧
      b.allocator.allocations[b.allocator.allocIdx]? = some i ∧
      b'.allocator.allocations = b.allocator.allocations ∧
      b'.allocator.allocIdx = next % asU8 N ∧ b'.pool = b.pool := by
  obtain ⟨⟨r₀, a'⟩, ha, h⟩ := bind_eq_ok.mp h
  obtain ⟨i, next, rfl, hi, hall, hidx⟩ := BufferAllocator.tryAlloc_inv ha
  obtain ⟨row, _, h⟩ := bind_eq_ok.mp h
  cases h
  exact ⟨i, row.length, next, rfl, hi, hall, hidx, rfl⟩

end AvrBridge.BufferPool
