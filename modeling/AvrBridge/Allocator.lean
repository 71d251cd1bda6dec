import AvrBridge.Rust

/-! Model of `allocator.rs`. A pool is known by the address of its storage; what the blocks
hold is left out. A slice is an address and a length. -/

namespace AvrBridge

open Rust

structure Slice where
  ptr : Nat
  len : Nat
  deriving DecidableEq, Repr

structure MemPool (BLK_SIZE BLK_COUNT : Nat) where
  storage : Nat
  usedMask : BitVec 8
  deriving DecidableEq, Repr

namespace MemPool

variable {BLK_SIZE BLK_COUNT : Nat}

def new (storage : Nat) : MemPool BLK_SIZE BLK_COUNT := ⟨storage, 0⟩

/-- The loop stops at the first block whose bit is clear. -/
def alloc (p : MemPool BLK_SIZE BLK_COUNT) : Option Slice × MemPool BLK_SIZE BLK_COUNT :=
  match (List.range BLK_COUNT).find? fun i => p.usedMask &&& (1#8 <<< i) == 0 with
  | some i =>
      (some ⟨p.storage + BLK_SIZE * i, BLK_SIZE⟩, { p with usedMask := p.usedMask ||| 1#8 <<< i })
  | none => (none, p)

def free (p : MemPool BLK_SIZE BLK_COUNT) (blockPtr : Nat) : Bool × MemPool BLK_SIZE BLK_COUNT :=
  let start := p.storage
  let stop := start + BLK_SIZE * BLK_COUNT
  if blockPtr ≥ start ∧ blockPtr < stop then
    let offset := blockPtr - start
    let index := offset / BLK_SIZE
    (true, { p with usedMask := p.usedMask &&& ~~~(1#8 <<< index) })
  else (false, p)

end MemPool

structure ArbitraryAllocator where
  smallPool : MemPool 16 8
  mediumPool : MemPool 64 4
  largePool : MemPool 256 2
  deriving DecidableEq, Repr

namespace ArbitraryAllocator

/-- `new` with the storages of the three pools at these addresses. -/
def new (small medium large : Nat) : ArbitraryAllocator := ⟨.new small, .new medium, .new large⟩

/-- `.map(|b| &mut b[..size])`. -/
def firstBytes (block : Option Slice) (size : Nat) : Except Panic (Option Slice) :=
  match block with
  | some b => if size ≤ b.len then .ok (some ⟨b.ptr, size⟩) else .error .indexOutOfBounds
  | none => .ok none

def request (a : ArbitraryAllocator) (size : Nat) :
    Except Panic (Option Slice × ArbitraryAllocator) :=
  if size ≤ 16 then do
    let (block, pool) := a.smallPool.alloc
    let slice ← firstBytes block size
    return (slice, { a with smallPool := pool })
  else if size ≤ 64 then do
    let (block, pool) := a.mediumPool.alloc
    let slice ← firstBytes block size
    return (slice, { a with mediumPool := pool })
  else if size ≤ 256 then do
    let (block, pool) := a.largePool.alloc
    let slice ← firstBytes block size
    return (slice, { a with largePool := pool })
  else return (none, a)

def release (a : ArbitraryAllocator) (block : Slice) : ArbitraryAllocator :=
  match a.smallPool.free block.ptr with
  | (true, pool) => { a with smallPool := pool }
  | (false, pool) =>
      let a := { a with smallPool := pool }
      match a.mediumPool.free block.ptr with
      | (true, pool) => { a with mediumPool := pool }
      | (false, pool) =>
          let a := { a with mediumPool := pool }
          match a.largePool.free block.ptr with
          | (_, pool) => { a with largePool := pool }

end ArbitraryAllocator

end AvrBridge
