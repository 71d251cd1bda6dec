import AvrBridge.Allocator
import AvrBridge.Lts
import AvrBridge.Mask
import Mathlib.Data.List.Nodup

/-! Who owns which block of `ArbitraryAllocator`. A bit of a pool is set exactly while a live
slice starts at its block, and the address of a slice leads back to that bit: the ranges of
the pools do not overlap, and within one the blocks lie at multiples of their size. -/

namespace AvrBridge

open Rust Lts Mask

/-! ## One pool -/

namespace MemPool

variable {BLK_SIZE BLK_COUNT : Nat} {p : MemPool BLK_SIZE BLK_COUNT}

def used (p : MemPool BLK_SIZE BLK_COUNT) (i : Nat) : Bool := p.usedMask.getLsbD i

/-- `alloc` finds no free block, or takes one. -/
theorem alloc_cases (hcount : BLK_COUNT ≤ 8) :
    (p.alloc = (none, p) ∧ ∀ i < BLK_COUNT, p.used i = true) ∨
      ∃ i < BLK_COUNT, ∃ p' : MemPool BLK_SIZE BLK_COUNT, p.used i = false ∧
        p.alloc = (some ⟨p.storage + BLK_SIZE * i, BLK_SIZE⟩, p') ∧ p'.storage = p.storage ∧
        ∀ j, p'.used j = (p.used j || decide (i = j)) := by
  unfold alloc
  cases hfind : (List.range BLK_COUNT).find? fun i => p.usedMask &&& (1#8 <<< i) == 0 with
  | none =>
    refine .inl ⟨rfl, fun i hi => ?_⟩
    have hbit := List.find?_eq_none.mp hfind i (List.mem_range.mpr hi)
    rw [beq_iff_eq, ← BitVec.twoPow_eq, and_twoPow_eq_zero_iff (by omega)] at hbit
    simpa [used] using hbit
  | some i =>
    have hi := List.mem_range.mp (List.mem_of_find?_eq_some hfind)
    have hbit := List.find?_some hfind
    rw [beq_iff_eq, ← BitVec.twoPow_eq, and_twoPow_eq_zero_iff (by omega)] at hbit
    refine .inr ⟨i, hi, _, hbit, rfl, rfl, fun j => ?_⟩
    show (p.usedMask ||| 1#8 <<< i).getLsbD j = _
    rw [← BitVec.twoPow_eq, getLsbD_add (by omega)]
    rfl

/-- `free` on the start of a block clears its bit. -/
theorem free_block (hsize : 0 < BLK_SIZE) (hcount : BLK_COUNT ≤ 8) {i : Nat}
    (hi : i < BLK_COUNT) :
    ∃ p' : MemPool BLK_SIZE BLK_COUNT, p.free (p.storage + BLK_SIZE * i) = (true, p') ∧
      p'.storage = p.storage ∧ ∀ j, p'.used j = (p.used j && decide (i ≠ j)) := by
  have hlt : BLK_SIZE * i < BLK_SIZE * BLK_COUNT := Nat.mul_lt_mul_of_pos_left hi hsize
  have hindex : (p.storage + BLK_SIZE * i - p.storage) / BLK_SIZE = i := by
    rw [Nat.add_sub_cancel_left, Nat.mul_div_cancel_left i hsize]
  unfold free
  rw [if_pos ⟨Nat.le_add_right .., by omega⟩]
  simp only [hindex]
  refine ⟨_, rfl, rfl, fun j => ?_⟩
  show (p.usedMask &&& ~~~(1#8 <<< i)).getLsbD j = _
  rw [← BitVec.twoPow_eq, getLsbD_remove (by omega)]
  rfl

/-- `free` leaves an address of another pool alone. -/
theorem free_outside {ptr : Nat}
    (h : ptr < p.storage ∨ p.storage + BLK_SIZE * BLK_COUNT ≤ ptr) :
    p.free ptr = (false, p) := by
  unfold free
  rw [if_neg (by omega)]

end MemPool

namespace ArbitraryAllocator

/-! ## The three pools -/

inductive SizeClass where
  | small
  | medium
  | large
  deriving DecidableEq, Repr

namespace SizeClass

def blkSize : SizeClass → Nat
  | small => 16
  | medium => 64
  | large => 256

def blkCount : SizeClass → Nat
  | small => 8
  | medium => 4
  | large => 2

/-- The class that serves a request of this size. -/
def ofSize (size : Nat) : Option SizeClass :=
  if size ≤ 16 then some small else if size ≤ 64 then some medium
  else if size ≤ 256 then some large else none

theorem ofSize_eq_none {size : Nat} : ofSize size = none ↔ 256 < size := by
  unfold ofSize
  grind

theorem le_blkSize {size : Nat} {c : SizeClass} (h : ofSize size = some c) : size ≤ c.blkSize := by
  unfold ofSize at h
  grind [blkSize]

theorem blkSize_pos (c : SizeClass) : 0 < c.blkSize := by cases c <;> decide

theorem blkCount_le (c : SizeClass) : c.blkCount ≤ 8 := by cases c <;> decide

end SizeClass

variable {a : ArbitraryAllocator} {addr : SizeClass → Nat} {c d : SizeClass} {i j : Nat}

def base (a : ArbitraryAllocator) : SizeClass → Nat
  | .small => a.smallPool.storage
  | .medium => a.mediumPool.storage
  | .large => a.largePool.storage

/-- The bit of block `i` of a class. -/
def used (a : ArbitraryAllocator) : SizeClass → Nat → Bool
  | .small => a.smallPool.used
  | .medium => a.mediumPool.used
  | .large => a.largePool.used

/-- The pool of a class. -/
def pool (a : ArbitraryAllocator) : (c : SizeClass) → MemPool c.blkSize c.blkCount
  | .small => a.smallPool
  | .medium => a.mediumPool
  | .large => a.largePool

def setPool (a : ArbitraryAllocator) :
    (c : SizeClass) → MemPool c.blkSize c.blkCount → ArbitraryAllocator
  | .small, p => { a with smallPool := p }
  | .medium, p => { a with mediumPool := p }
  | .large, p => { a with largePool := p }

@[simp] theorem storage_pool (a : ArbitraryAllocator) (c : SizeClass) :
    (a.pool c).storage = a.base c := by
  cases c <;> rfl

@[simp] theorem used_pool (a : ArbitraryAllocator) (c : SizeClass) :
    (a.pool c).used = a.used c := by
  cases c <;> rfl

@[simp] theorem setPool_pool (a : ArbitraryAllocator) (c : SizeClass) :
    a.setPool c (a.pool c) = a := by
  cases c <;> rfl

theorem base_setPool {p : MemPool c.blkSize c.blkCount} (h : p.storage = a.base c) :
    (a.setPool c p).base = a.base := by
  funext d
  cases c <;> cases d <;> first | exact h | rfl

theorem used_setPool (a : ArbitraryAllocator) (p : MemPool c.blkSize c.blkCount) (d : SizeClass) :
    (a.setPool c p).used d = if c = d then p.used else a.used d := by
  cases c <;> cases d <;> rfl

/-- Storages at these addresses do not overlap. -/
def Layout (addr : SizeClass → Nat) : Prop :=
  ∀ c d, c ≠ d → addr c + c.blkSize * c.blkCount ≤ addr d ∨ addr d + d.blkSize * d.blkCount ≤ addr c

/-- Different blocks do not overlap. -/
theorem blocks_apart (hl : Layout addr) (hi : i < c.blkCount) (hj : j < d.blkCount)
    (hne : ¬ (c = d ∧ i = j)) :
    addr c + c.blkSize * i + c.blkSize ≤ addr d + d.blkSize * j ∨
      addr d + d.blkSize * j + d.blkSize ≤ addr c + c.blkSize * i := by
  by_cases hcd : c = d
  · subst hcd
    have hij : i ≠ j := fun heq => hne ⟨rfl, heq⟩
    cases c <;> simp only [SizeClass.blkSize] <;> omega
  · have hapart := hl c d hcd
    cases c <;> cases d <;>
      simp only [SizeClass.blkSize, SizeClass.blkCount] at hapart hi hj ⊢ <;> omega

/-- A request is served by the pool of its class. -/
theorem request_eq (a : ArbitraryAllocator) {size : Nat} (hc : SizeClass.ofSize size = some c) :
    a.request size = do
      let slice ← firstBytes (a.pool c).alloc.1 size
      return (slice, a.setPool c (a.pool c).alloc.2) := by
  by_cases hsmall : size ≤ 16
  · rw [SizeClass.ofSize, if_pos hsmall] at hc
    cases hc
    rw [request, if_pos hsmall]
    rfl
  by_cases hmedium : size ≤ 64
  · rw [SizeClass.ofSize, if_neg hsmall, if_pos hmedium] at hc
    cases hc
    rw [request, if_neg hsmall, if_pos hmedium]
    rfl
  by_cases hlarge : size ≤ 256
  · rw [SizeClass.ofSize, if_neg hsmall, if_neg hmedium, if_pos hlarge] at hc
    cases hc
    rw [request, if_neg hsmall, if_neg hmedium, if_pos hlarge]
    rfl
  · rw [SizeClass.ofSize_eq_none.mpr (by omega)] at hc
    cases hc

/-- **What a request does**: nothing for a size too large or a class without a free block,
else it takes the first block and returns a slice of the size from its start. -/
theorem request_cases (a : ArbitraryAllocator) (size : Nat) :
    (SizeClass.ofSize size = none ∧ a.request size = .ok (none, a)) ∨
      ∃ c, SizeClass.ofSize size = some c ∧
        ((a.request size = .ok (none, a) ∧ ∀ i < c.blkCount, a.used c i = true) ∨
          ∃ i < c.blkCount, ∃ a' : ArbitraryAllocator, a.used c i = false ∧
            a.request size = .ok (some ⟨a.base c + c.blkSize * i, size⟩, a') ∧
            a'.base = a.base ∧ ∀ d j, a'.used d j = (a.used d j || decide (c = d ∧ i = j))) := by
  cases hc : SizeClass.ofSize size with
  | none =>
    have hlarge := SizeClass.ofSize_eq_none.mp hc
    refine .inl ⟨rfl, ?_⟩
    rw [request, if_neg (by omega), if_neg (by omega), if_neg (by omega)]
    rfl
  | some c =>
    refine .inr ⟨c, rfl, ?_⟩
    rw [request_eq a hc]
    rcases (a.pool c).alloc_cases c.blkCount_le with
      ⟨halloc, hall⟩ | ⟨i, hi, p, hfree, halloc, hstorage, hused⟩
    · refine .inl ⟨?_, by simpa using hall⟩
      rw [halloc, setPool_pool]
      rfl
    · rw [storage_pool] at hstorage halloc
      rw [used_pool] at hfree
      refine .inr ⟨i, hi, a.setPool c p, hfree, ?_, base_setPool hstorage, ?_⟩
      · simp only [halloc, firstBytes, if_pos (SizeClass.le_blkSize hc)]
        rfl
      · intro d j
        rw [used_setPool]
        by_cases hcd : c = d
        · subst hcd
          simp [hused]
        · simp [hcd]

/-- A release inside the storage of a pool goes to this pool: the ones tried before it have
theirs elsewhere. -/
theorem release_eq (hl : Layout a.base) (hi : i < c.blkCount) {x : Slice}
    (hx : x.ptr = a.base c + c.blkSize * i) {p : MemPool c.blkSize c.blkCount}
    (hfree : (a.pool c).free x.ptr = (true, p)) : a.release x = a.setPool c p := by
  have hsm := hl .small .medium (by decide)
  have hsl := hl .small .large (by decide)
  have hml := hl .medium .large (by decide)
  simp only [base, SizeClass.blkSize, SizeClass.blkCount] at hsm hsl hml
  cases c with
  | small =>
    have hfree' : a.smallPool.free x.ptr = (true, p) := hfree
    rw [release, hfree']
    rfl
  | medium =>
    have hfree' : a.mediumPool.free x.ptr = (true, p) := hfree
    simp only [base, SizeClass.blkSize, SizeClass.blkCount] at hx hi
    have hsmall : a.smallPool.free x.ptr = (false, a.smallPool) := MemPool.free_outside (by omega)
    simp only [release, hsmall, hfree']
    rfl
  | large =>
    have hfree' : a.largePool.free x.ptr = (true, p) := hfree
    simp only [base, SizeClass.blkSize, SizeClass.blkCount] at hx hi
    have hsmall : a.smallPool.free x.ptr = (false, a.smallPool) := MemPool.free_outside (by omega)
    have hmedium : a.mediumPool.free x.ptr = (false, a.mediumPool) :=
      MemPool.free_outside (by omega)
    simp only [release, hsmall, hmedium, hfree']
    rfl

/-- **What a release does** for a slice that starts at a block: it clears that bit. -/
theorem release_block (hl : Layout a.base) (hi : i < c.blkCount) {x : Slice}
    (hx : x.ptr = a.base c + c.blkSize * i) :
    (a.release x).base = a.base ∧
      ∀ d j, (a.release x).used d j = (a.used d j && !decide (c = d ∧ i = j)) := by
  obtain ⟨p, hfree, hstorage, hused⟩ := (a.pool c).free_block c.blkSize_pos c.blkCount_le hi
  rw [storage_pool] at hfree hstorage
  rw [← hx] at hfree
  rw [release_eq hl hi hx hfree]
  constructor
  · exact base_setPool hstorage
  · intro d j
    rw [used_setPool]
    by_cases hcd : c = d
    · subst hcd
      simp [hused]
    · simp [hcd]

/-! ## Runs -/

/-- The allocator, and the slices returned and not yet released. -/
structure State where
  allocator : ArbitraryAllocator
  live : List Slice
  deriving DecidableEq, Repr

inductive Act where
  | request (size : Nat)
  | release (block : Slice)
  deriving DecidableEq, Repr

def step (s : State) : Act → Option State
  | .request size =>
      match s.allocator.request size with
      | .ok (some slice, allocator) => some ⟨allocator, slice :: s.live⟩
      | .ok (none, allocator) => some ⟨allocator, s.live⟩
      | .error _ => none
  | .release block =>
      if block ∈ s.live then some ⟨s.allocator.release block, s.live.erase block⟩ else none

def start (addr : SizeClass → Nat) : State :=
  ⟨new (addr .small) (addr .medium) (addr .large), []⟩

def system (addr : SizeClass → Nat) : System State Act := .ofFun (start addr) step

/-- A slice of a size of the class, from the start of block `i`. -/
structure At (addr : SizeClass → Nat) (x : Slice) (c : SizeClass) (i : Nat) : Prop where
  ofSize_eq : SizeClass.ofSize x.len = some c
  lt : i < c.blkCount
  ptr_eq : x.ptr = addr c + c.blkSize * i

theorem At.unique {x : Slice} (hx : At addr x c i) (hy : At addr x d j) : c = d ∧ i = j := by
  have hcd : c = d := Option.some.inj (hx.ofSize_eq.symm.trans hy.ofSize_eq)
  subst hcd
  have hptr := hx.ptr_eq.symm.trans hy.ptr_eq
  constructor
  · rfl
  · cases c <;> simp only [SizeClass.blkSize] at hptr <;> omega

/-- Two slices that start at one address are at one block. -/
theorem At.same_block {x y : Slice} (hl : Layout addr) (hx : At addr x c i) (hy : At addr y d j)
    (hptr : x.ptr = y.ptr) : c = d ∧ i = j := by
  by_contra hne
  have hapart := blocks_apart hl hx.lt hy.lt hne
  rw [← hx.ptr_eq, ← hy.ptr_eq, hptr] at hapart
  cases c <;> cases d <;> simp only [SizeClass.blkSize] at hapart <;> omega

/-- The bits that are set are those of the live slices, one for each. -/
structure Sound (addr : SizeClass → Nat) (s : State) : Prop where
  base_eq : s.allocator.base = addr
  placed : ∀ x ∈ s.live, ∃ c i, At addr x c i
  used_iff : ∀ c i, i < c.blkCount → (s.allocator.used c i = true ↔ ∃ x ∈ s.live, At addr x c i)
  nodup : (s.live.map Slice.ptr).Nodup

theorem sound_start (addr : SizeClass → Nat) : Sound addr (start addr) where
  base_eq := funext fun c => by cases c <;> rfl
  placed x hx := by cases hx
  used_iff c i _ := by cases c <;> simp [start, used, MemPool.used, new, MemPool.new]
  nodup := List.nodup_nil

variable {s t : State}

/-- A request on a sound state takes a block that no live slice is at. -/
theorem sound_request (hl : Layout addr) (h : Sound addr s) {size : Nat}
    (hs : step s (.request size) = some t) : Sound addr t := by
  rcases request_cases s.allocator size with ⟨-, hreq⟩ | ⟨c, hc, ⟨hreq, -⟩ |
    ⟨i, hi, a', hfree, hreq, hbase, hused⟩⟩
  · simp only [step, hreq] at hs
    cases hs
    exact h
  · simp only [step, hreq] at hs
    cases hs
    exact h
  · simp only [step, hreq] at hs
    cases hs
    rw [h.base_eq] at hbase hreq ⊢
    have hnew : At addr ⟨addr c + c.blkSize * i, size⟩ c i := ⟨hc, hi, rfl⟩
    refine ⟨hbase, ?_, ?_, ?_⟩
    · intro x hx
      rcases List.mem_cons.mp hx with rfl | hx
      · exact ⟨c, i, hnew⟩
      · exact h.placed x hx
    · intro d j hj
      rw [hused, Bool.or_eq_true, decide_eq_true_iff, h.used_iff d j hj]
      constructor
      · rintro (⟨x, hx, hat⟩ | ⟨rfl, rfl⟩)
        · exact ⟨x, List.mem_cons_of_mem _ hx, hat⟩
        · exact ⟨_, List.mem_cons_self .., hnew⟩
      · rintro ⟨x, hx, hat⟩
        rcases List.mem_cons.mp hx with rfl | hx
        · exact .inr (hnew.unique hat)
        · exact .inl ⟨x, hx, hat⟩
    · rw [List.map_cons, List.nodup_cons]
      refine ⟨fun hmem => ?_, h.nodup⟩
      obtain ⟨y, hy, hptr⟩ := List.mem_map.mp hmem
      obtain ⟨d, j, hat⟩ := h.placed y hy
      obtain ⟨rfl, rfl⟩ := hat.same_block hl hnew hptr
      rw [(h.used_iff d j hi).mpr ⟨y, hy, hat⟩] at hfree
      cases hfree

/-- A release takes away the one live slice of its block. -/
theorem sound_release (hl : Layout addr) (h : Sound addr s) {block : Slice}
    (hs : step s (.release block) = some t) : Sound addr t := by
  simp only [step] at hs
  split at hs
  · rename_i hlive
    cases hs
    obtain ⟨c, i, hat⟩ := h.placed block hlive
    obtain ⟨hbase, hused⟩ := release_block (h.base_eq ▸ hl) hat.lt (h.base_eq ▸ hat.ptr_eq)
    have hinj := List.inj_on_of_nodup_map h.nodup
    have hnodup : s.live.Nodup := h.nodup.of_map
    refine ⟨hbase.trans h.base_eq, fun x hx => h.placed x (List.mem_of_mem_erase hx),
      fun d j hj => ?_, h.nodup.sublist (List.erase_sublist.map _)⟩
    rw [hused, Bool.and_eq_true, h.used_iff d j hj]
    simp only [Bool.not_eq_true', decide_eq_false_iff_not]
    constructor
    · rintro ⟨⟨x, hx, hxat⟩, hne⟩
      refine ⟨x, (List.mem_erase_of_ne fun heq => hne ?_).mpr hx, hxat⟩
      exact hat.unique (heq ▸ hxat)
    · rintro ⟨x, hx, hxat⟩
      obtain ⟨hxne, hxlive⟩ := hnodup.mem_erase_iff.mp hx
      constructor
      · exact ⟨x, hxlive, hxat⟩
      · rintro ⟨rfl, rfl⟩
        exact hxne (hinj hxlive hlive (hxat.ptr_eq.trans hat.ptr_eq.symm))
  · cases hs

/-- **Step lemma.** -/
theorem sound_step (hl : Layout addr) (h : Sound addr s) {act : Act}
    (hs : step s act = some t) : Sound addr t := by
  cases act with
  | request size => exact sound_request hl h hs
  | release block => exact sound_release hl h hs

/-- The size of the block behind a slice. -/
def blockSize (x : Slice) : Nat := ((SizeClass.ofSize x.len).map SizeClass.blkSize).getD 0

theorem At.blockSize_eq {x : Slice} (h : At addr x c i) : blockSize x = c.blkSize := by
  rw [blockSize, h.ofSize_eq]
  rfl

theorem Sound.apart (hl : Layout addr) (h : Sound addr s) :
    s.live.Pairwise fun x y =>
      x.ptr + blockSize x ≤ y.ptr ∨ y.ptr + blockSize y ≤ x.ptr := by
  apply (List.pairwise_map.mp h.nodup).imp_of_mem
  intro x y hx hy hne
  obtain ⟨c, i, hxat⟩ := h.placed x hx
  obtain ⟨d, j, hyat⟩ := h.placed y hy
  rw [hxat.blockSize_eq, hyat.blockSize_eq, hxat.ptr_eq, hyat.ptr_eq]
  apply blocks_apart hl hxat.lt hyat.lt
  rintro ⟨rfl, rfl⟩
  exact hne (hxat.ptr_eq.trans hyat.ptr_eq.symm)

theorem Sound.request (h : Sound addr s) (size : Nat) :
    ∃ answer a, s.allocator.request size = .ok (answer, a) ∧
      (∀ x, answer = some x → x.len = size) ∧
      (answer = none ↔ 256 < size ∨ ∃ c, SizeClass.ofSize size = some c ∧
        ∀ i < c.blkCount, ∃ x ∈ s.live, At addr x c i) := by
  rcases request_cases s.allocator size with ⟨hc, hreq⟩ | ⟨c, hc, ⟨hreq, hall⟩ |
    ⟨i, hi, a', hfree, hreq, -, -⟩⟩
  · refine ⟨none, _, hreq, fun x hx => (by cases hx), iff_of_true rfl (.inl ?_)⟩
    exact SizeClass.ofSize_eq_none.mp hc
  · refine ⟨none, _, hreq, fun x hx => (by cases hx), iff_of_true rfl (.inr ⟨c, hc, ?_⟩)⟩
    exact fun i hi => (h.used_iff c i hi).mp (hall i hi)
  · refine ⟨_, _, hreq, fun x hx => (by cases hx; rfl), iff_of_false (by simp) ?_⟩
    rintro (hlarge | ⟨d, hd, hall⟩)
    · rw [SizeClass.ofSize_eq_none.mpr hlarge] at hc
      cases hc
    · cases hc.symm.trans hd
      rw [(h.used_iff c i hi).mpr (hall i hi)] at hfree
      cases hfree

/-- **No overlap.** In every state of every run the blocks of the live slices are disjoint,
a request returns a slice of its size unless the size is too large or every block of its
class is live, and the release of a live slice clears the bit of its block and no other. -/
theorem live_blocks_apart (addr : SizeClass → Nat) (hl : Layout addr) (s : State)
    (h : (system addr).Reachable s) :
    s.live.Pairwise (fun x y =>
      x.ptr + blockSize x ≤ y.ptr ∨ y.ptr + blockSize y ≤ x.ptr) ∧
    (∀ size, ∃ answer a, s.allocator.request size = .ok (answer, a) ∧
      (∀ x, answer = some x → x.len = size) ∧
      (answer = none ↔ 256 < size ∨ ∃ c, SizeClass.ofSize size = some c ∧
        ∀ i < c.blkCount, ∃ x ∈ s.live, At addr x c i)) ∧
    ∀ x ∈ s.live, ∃ c i, At addr x c i ∧
      ∀ d j, (s.allocator.release x).used d j =
        (s.allocator.used d j && !decide (c = d ∧ i = j)) := by
  have hsound : Sound addr s := by
    refine System.Reachable.invariant (I := Sound addr) ?_
      (fun s act t hi hs => sound_step hl hi hs) h
    rintro s rfl
    exact sound_start addr
  refine ⟨hsound.apart hl, hsound.request, ?_⟩
  intro x hx
  obtain ⟨c, i, hat⟩ := hsound.placed x hx
  exact ⟨c, i, hat, (release_block (hsound.base_eq ▸ hl) hat.lt (hsound.base_eq ▸ hat.ptr_eq)).2⟩

/-- The three storages one right behind the other, the large one first. -/
def adjacent : SizeClass → Nat
  | .small => 768
  | .medium => 512
  | .large => 0

theorem layout_adjacent : Layout adjacent := by
  intro c d hne
  cases c <;> cases d <;> simp_all [adjacent, SizeClass.blkSize, SizeClass.blkCount]

/-- A slice without bytes, and the second of two slices of 40 bytes. -/
def emptyAndMedium : State :=
  ⟨⟨⟨768, 0b00000001⟩, ⟨512, 0b00000010⟩, ⟨0, 0⟩⟩, [⟨576, 40⟩, ⟨768, 0⟩]⟩

theorem live_blocks_apart_emptyAndMedium :
    emptyAndMedium.live.Pairwise (fun x y =>
      x.ptr + blockSize x ≤ y.ptr ∨ y.ptr + blockSize y ≤ x.ptr) ∧
    (∀ size, ∃ answer a, emptyAndMedium.allocator.request size = .ok (answer, a) ∧
      (∀ x, answer = some x → x.len = size) ∧
      (answer = none ↔ 256 < size ∨ ∃ c, SizeClass.ofSize size = some c ∧
        ∀ i < c.blkCount, ∃ x ∈ emptyAndMedium.live, At adjacent x c i)) ∧
    ∀ x ∈ emptyAndMedium.live, ∃ c i, At adjacent x c i ∧
      ∀ d j, (emptyAndMedium.allocator.release x).used d j =
        (emptyAndMedium.allocator.used d j && !decide (c = d ∧ i = j)) :=
  live_blocks_apart adjacent layout_adjacent emptyAndMedium
    (reachable_of_runFun [.request 0, .request 40, .request 40, .release ⟨512, 40⟩]
      (.init rfl) (by decide))

end ArbitraryAllocator

end AvrBridge
