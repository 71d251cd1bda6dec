import AvrBridge.Window

/-! What the firmware takes from the Rust language and its core library: panics,
`u8` and `u16` arithmetic under the two build profiles, futures and raw block copies.
A `usize` is a natural number; a `u8` counter is a natural number below 256, a `u16`
one below 65536. -/

namespace AvrBridge.Rust

/-- Why a computation stops in the panic handler. -/
inductive Panic where
  | arithmeticOverflow
  | indexOutOfBounds
  | unwrapNone
  deriving DecidableEq, Repr

/-- A build profile, by what its plain `u8` operators do past the range. -/
structure Profile where
  overflowChecks : Bool
  deriving DecidableEq, Repr

/-- `cargo build`: plain arithmetic traps. -/
def Profile.dev : Profile := ⟨true⟩

/-- `cargo build --release`: plain arithmetic wraps. -/
def Profile.release : Profile := ⟨false⟩

def Profile.addU8 (p : Profile) (a b : Nat) : Except Panic Nat :=
  if a + b < 256 then .ok (a + b)
  else if p.overflowChecks then .error .arithmeticOverflow else .ok ((a + b) % 256)

def Profile.subU8 (p : Profile) (a b : Nat) : Except Panic Nat :=
  if b ≤ a then .ok (a - b)
  else if p.overflowChecks then .error .arithmeticOverflow else .ok ((a + 256 - b) % 256)

def Profile.addU16 (p : Profile) (a b : Nat) : Except Panic Nat :=
  if a + b < 65536 then .ok (a + b)
  else if p.overflowChecks then .error .arithmeticOverflow else .ok ((a + b) % 65536)

def wrappingAddU16 (a b : Nat) : Nat := (a + b) % 65536

/-- `a.wrapping_sub(b)` on a `u16`. -/
def wrappingSubU16 (a b : Nat) : Nat := (a + 65536 - b) % 65536

/-- `1 << index` on a `u8`. -/
def Profile.bitU8 (p : Profile) (index : Nat) : Except Panic (BitVec 8) :=
  if index < 8 then .ok (1#8 <<< index)
  else if p.overflowChecks then .error .arithmeticOverflow else .ok (1#8 <<< (index % 8))

/-- `n as u8`. -/
def asU8 (n : Nat) : Nat := n % 256

/-- `xs[i]`. -/
def index {α : Type} (xs : List α) (i : Nat) : Except Panic α :=
  match xs[i]? with
  | some x => .ok x
  | none => .error .indexOutOfBounds

/-- `a - b` on a `usize`. The model stops at a negative difference under either profile. -/
def subUsize (a b : Nat) : Except Panic Nat :=
  if b ≤ a then .ok (a - b) else .error .arithmeticOverflow

/-- `&xs[lo..hi]`. -/
def sliceOf {α : Type} (xs : List α) (lo hi : Nat) : Except Panic (List α) :=
  if lo ≤ hi ∧ hi ≤ xs.length then .ok ((xs.drop lo).take (hi - lo))
  else .error .indexOutOfBounds

/-- `xs[lo..hi].copy_from_slice(src)` for a `src` of `hi - lo` elements. -/
def copyFromSlice {α : Type} (xs : List α) (lo hi : Nat) (src : List α) :
    Except Panic (List α) :=
  if lo ≤ hi ∧ hi ≤ xs.length then .ok (Window.splice xs lo src)
  else .error .indexOutOfBounds

/-- `s.as_bytes()` of a `&str`. -/
def strAsBytes (s : String) : List UInt8 := s.toUTF8.data.toList

/-- `fmt::Error`. -/
inductive FmtError where
  | error
  deriving DecidableEq, Repr

/-- `write!`: `write_str` on the pieces in turn, until one fails. -/
def writeFmt {σ : Type} (writeStr : σ → String → Except Panic (Except FmtError Unit × σ)) (s : σ) :
    List String → Except Panic (Except FmtError Unit × σ)
  | [] => .ok (.ok (), s)
  | piece :: pieces => do
      let (result, t) ← writeStr s piece
      match result with
      | .ok () => writeFmt writeStr t pieces
      | .error e => return (.error e, t)

@[simp] theorem ok_bind {ε α β : Type} (x : α) (f : α → Except ε β) :
    (Except.ok x >>= f) = f x := rfl

@[simp] theorem error_bind {ε α β : Type} (e : ε) (f : α → Except ε β) :
    ((Except.error e : Except ε α) >>= f) = .error e := rfl

/-- A computation that returns went through a value of its first step. -/
theorem bind_eq_ok {ε α β : Type} {x : Except ε α} {f : α → Except ε β} {b : β} :
    (x >>= f) = .ok b ↔ ∃ a, x = .ok a ∧ f a = .ok b := by
  cases x with
  | error e => simp
  | ok a => simp

theorem toOption_eq_some {ε α : Type} {x : Except ε α} {a : α} :
    x.toOption = some a ↔ x = .ok a := by
  cases x <;> simp [Except.toOption]

theorem index_eq_ok {α : Type} {xs : List α} {i : Nat} {x : α} :
    index xs i = .ok x ↔ xs[i]? = some x := by
  unfold index
  cases xs[i]? <;> simp

theorem index_ok {α : Type} {xs : List α} {i : Nat} {x : α} (h : xs[i]? = some x) :
    index xs i = .ok x := by
  rw [index, h]

theorem sliceOf_zero {α : Type} {xs : List α} {n : Nat} (h : n ≤ xs.length) :
    sliceOf xs 0 n = .ok (xs.take n) := by
  rw [sliceOf, if_pos ⟨Nat.zero_le _, h⟩, List.drop_zero, Nat.sub_zero]

theorem sliceOf_length {α : Type} {xs : List α} {n : Nat} (h : n ≤ xs.length) :
    sliceOf xs n xs.length = .ok (xs.drop n) := by
  rw [sliceOf, if_pos ⟨h, Nat.le_refl _⟩,
    List.take_of_length_le (Nat.le_of_eq List.length_drop)]

theorem strAsBytes_eq_nil_iff (s : String) : strAsBytes s = [] ↔ s = "" := by
  rw [← String.utf8ByteSize_eq_zero_iff, strAsBytes, ← List.length_eq_zero_iff]
  rfl

theorem asU8_of_lt {n : Nat} (h : n < 256) : asU8 n = n := Nat.mod_eq_of_lt h

theorem Profile.bitU8_ok {p : Profile} {i : Nat} (h : i < 8) :
    p.bitU8 i = .ok (BitVec.twoPow 8 i) := by
  rw [bitU8, if_pos h, BitVec.twoPow_eq]

theorem Profile.addU8_ok {p : Profile} {a b : Nat} (h : a + b < 256) :
    p.addU8 a b = .ok (a + b) := if_pos h

theorem Profile.subU8_ok {p : Profile} {a b : Nat} (h : b ≤ a) :
    p.subU8 a b = .ok (a - b) := if_pos h

/-- The answer of one poll of a future. -/
inductive Poll (α : Type) where
  | pending
  | ready (value : α)
  deriving DecidableEq, Repr

/-- A waker, by the task it wakes; `will_wake` is equality. -/
abbrev Waker := Nat

/-- `ptr::copy_nonoverlapping(src.add(srcOff), dst.add(dstOff), n)`. -/
def copyNonoverlapping (src : List UInt8) (srcOff : Nat) (dst : List UInt8) (dstOff n : Nat) :
    List UInt8 :=
  Window.splice dst dstOff ((src.drop srcOff).take n)

end AvrBridge.Rust
