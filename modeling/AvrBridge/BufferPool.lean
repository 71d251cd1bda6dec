import AvrBridge.BufferHandle

/-! Model of `buffer_pool.rs`: the allocator of slot numbers, the pool with its
one waker, `BufferRequest`, and what dropping a `BufferHandle` does. The `u8`
counters follow the build profile. Critical sections make every function here
one atomic step. -/

namespace AvrBridge

open Rust

def numBuffers : Nat := 8
def bufferSize : Nat := 128

inductive BufferPoolError where
  | poolFull
  | poolEmpty
  | alreadyDeallocated
  | invalidIndex
  deriving DecidableEq, Repr

structure BufferAllocator (BUFFER_COUNT : Nat) where
  allocIdx : Nat
  deallocIdx : Nat
  allocations : List Nat
  count : Nat
  inUseMask : BitVec 8
  deriving DecidableEq, Repr

namespace BufferAllocator

variable {BUFFER_COUNT : Nat}

def new (BUFFER_COUNT : Nat) : BufferAllocator BUFFER_COUNT where
  allocIdx := 0
  deallocIdx := 0
  allocations := (List.range BUFFER_COUNT).map asU8
  count := asU8 BUFFER_COUNT
  inUseMask := 0

/-- The emptiness test is commented out in the source: an empty ring is caught, if
at all, by the subtraction. -/
def tryAlloc (p : Profile) (a : BufferAllocator BUFFER_COUNT) :
    Except Panic (Except BufferPoolError Nat × BufferAllocator BUFFER_COUNT) := do
  let i ← index a.allocations a.allocIdx
  let next ← p.addU8 a.allocIdx 1
  let count ← p.subU8 a.count 1
  let bit ← p.bitU8 i
  return (.ok i, { a with
    allocIdx := next % asU8 BUFFER_COUNT
    count := count
    inUseMask := a.inUseMask ||| bit })

def tryDealloc (p : Profile) (a : BufferAllocator BUFFER_COUNT) (i : Nat) :
    Except Panic (Except BufferPoolError Unit × BufferAllocator BUFFER_COUNT) :=
  if a.count = asU8 BUFFER_COUNT then .ok (.error .poolFull, a)
  else if i ≥ asU8 BUFFER_COUNT then .ok (.error .invalidIndex, a)
  else do
    let bit ← p.bitU8 i
    if a.inUseMask &&& bit = 0 then return (.error .alreadyDeallocated, a)
    let _ ← index a.allocations a.deallocIdx
    let next ← p.addU8 a.deallocIdx 1
    let count ← p.addU8 a.count 1
    return (.ok (), { a with
      allocations := a.allocations.set a.deallocIdx i
      deallocIdx := next % asU8 BUFFER_COUNT
      count := count
      inUseMask := a.inUseMask &&& ~~~bit })

/-- The count is compared, the cursor moved, the count changed and the mask cleared as in
`try_dealloc`. -/
def tryPop (p : Profile) (a : BufferAllocator BUFFER_COUNT) :
    Except Panic (Option Nat × BufferAllocator BUFFER_COUNT) :=
  if a.count ≠ asU8 BUFFER_COUNT then .ok (none, a)
  else do
    let i ← index a.allocations a.deallocIdx
    let next ← p.addU8 a.deallocIdx 1
    let count ← p.addU8 a.count 1
    let bit ← p.bitU8 i
    return (some i, { a with
      deallocIdx := next % asU8 BUFFER_COUNT
      count := count
      inUseMask := a.inUseMask &&& ~~~bit })

end BufferAllocator

structure BufferPool (BUFFER_COUNT BUFFER_CAPACITY : Nat) where
  pool : List (List UInt8)
  allocator : BufferAllocator BUFFER_COUNT
  waker : Option Waker
  deriving DecidableEq, Repr

namespace BufferPool

variable {BUFFER_COUNT BUFFER_CAPACITY : Nat}

def new (BUFFER_COUNT BUFFER_CAPACITY : Nat) : BufferPool BUFFER_COUNT BUFFER_CAPACITY :=
  ⟨List.replicate BUFFER_COUNT (List.replicate BUFFER_CAPACITY 0), .new BUFFER_COUNT, none⟩

/-- `BufferRequest::release_buffer`: its result, the waker it woke, the pool after it. -/
def releaseBuffer (p : Profile) (b : BufferPool BUFFER_COUNT BUFFER_CAPACITY) (i : Nat) :
    Except Panic (Except BufferPoolError Unit × Option Waker ×
      BufferPool BUFFER_COUNT BUFFER_CAPACITY) := do
  let (result, a) ← b.allocator.tryDealloc p i
  match result with
  | .ok () => return (result, b.waker, { b with allocator := a, waker := none })
  | .error _ => return (result, none, { b with allocator := a })

/-- `BufferRequest::poll` with the caller's waker. -/
def poll (p : Profile) (b : BufferPool BUFFER_COUNT BUFFER_CAPACITY) (w : Waker) :
    Except Panic (Poll BufferHandle × BufferPool BUFFER_COUNT BUFFER_CAPACITY) := do
  let (result, a) ← b.allocator.tryAlloc p
  match result with
  | .ok i =>
      let row ← index b.pool i
      return (.ready ⟨i, row.length, i⟩, { b with allocator := a })
  | .error _ =>
      let waker := if b.waker = some w then b.waker else some w
      return (.pending, { b with allocator := a, waker := waker })

/-- `Drop for BufferHandle`: the result of the release is discarded. -/
def dropHandle (p : Profile) (b : BufferPool BUFFER_COUNT BUFFER_CAPACITY) (h : BufferHandle) :
    Except Panic (BufferPool BUFFER_COUNT BUFFER_CAPACITY) := do
  let (_, _, b) ← b.releaseBuffer p h.poolIdx
  return b

end BufferPool

/-- What a handle can be converted into: a `CircularBuffer`, a `FlatBuffer` or a `&mut [u8]`. -/
inductive StorageKind where
  | circularBuffer
  | flatBuffer
  | slice
  deriving DecidableEq, Repr

/-- The storage behind a converted handle. -/
structure Storage where
  kind : StorageKind
  ptr : Nat
  capacity : Nat
  deriving DecidableEq, Repr

/-- The three `From<BufferHandle>` conversions: each takes the pointer and the capacity
over and drops the handle at the end of its scope. -/
def Storage.fromHandle {BUFFER_COUNT BUFFER_CAPACITY : Nat} (p : Profile) (kind : StorageKind)
    (b : BufferPool BUFFER_COUNT BUFFER_CAPACITY) (h : BufferHandle) :
    Except Panic (Storage × BufferPool BUFFER_COUNT BUFFER_CAPACITY) := do
  let b ← b.dropHandle p h
  return (⟨kind, h.ptr, h.capacity⟩, b)

end AvrBridge
