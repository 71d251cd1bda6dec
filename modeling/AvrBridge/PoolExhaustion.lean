import AvrBridge.PoolRing

/-! The pool when every slot is outstanding. The source means `try_alloc` to
answer `PoolEmpty` there and the poll to wait; the test is commented out, so
the pool either traps in the count or hands a slot out a second time. -/

namespace AvrBridge.BufferPool

open Rust Lts

variable {N C : Nat} {p : Profile}

/-- What can happen to the shared pool. -/
inductive PoolOp where
  | poll (w : Waker)
  | release (i : Nat)
  deriving DecidableEq, Repr

/-- One operation on the pool; a trap leaves no state. -/
def poolStep (p : Profile) (b : BufferPool N C) : PoolOp → Option (BufferPool N C)
  | .poll w => (b.poll p w).toOption.map (·.2)
  | .release i => (b.releaseBuffer p i).toOption.map (·.2.2)

def poolSystem (p : Profile) (N C : Nat) : System (BufferPool N C) PoolOp :=
  .ofFun (new N C) (poolStep p)

/-- Every slot is outstanding. -/
def Exhausted (b : BufferPool N C) : Prop := ∀ i < N, b.allocator.outstanding i = true

/-- Exhaustion is an error of the allocator and a wait of the poll: the waker is
stored, and the next successful release wakes it and frees exactly its slot. -/
def Blocks (p : Profile) (b : BufferPool N C) : Prop :=
  b.allocator.tryAlloc p = .ok (.error .poolEmpty, b.allocator) ∧
  ∀ w, b.poll p w = .ok (.pending, { b with waker := some w }) ∧
    ∀ (i : Nat) (woken : Option Waker) (b' : BufferPool N C),
      ({ b with waker := some w } : BufferPool N C).releaseBuffer p i = .ok (.ok (), woken, b') →
      woken = some w ∧
      ∀ w', ∃ (h : BufferHandle) (b'' : BufferPool N C),
        b'.poll p w' = .ok (.ready h, b'') ∧ h.poolIdx = i

/-- What either profile keeps of the allocator in every state reached. -/
structure Shaped (b : BufferPool N C) : Prop where
  length_allocations : b.allocator.allocations.length = N
  allocIdx_lt : b.allocator.allocIdx < N
  entry_lt : ∀ i ∈ b.allocator.allocations, i < N
  rows : b.pool.length = N

theorem Sound.shaped {b : BufferPool N C} (h : b.Sound) : b.Shaped :=
  ⟨h.allocator.length_allocations, h.allocator.allocIdx_lt, h.allocator.entry_lt, h.rows⟩

theorem toOption_map_eq_some {α β : Type} {x : Except Panic α} {f : α → β} {b : β}
    (h : x.toOption.map f = some b) : ∃ a, x = .ok a ∧ f a = b := by
  cases x with
  | error e => cases h
  | ok a => exact ⟨a, rfl, Option.some.inj h⟩

theorem tryDealloc_shaped (hN : N ≤ 8) {b : BufferPool N C} (h : b.Shaped) {i : Nat}
    {r : Except BufferPoolError Unit} {a' : BufferAllocator N}
    (ha : b.allocator.tryDealloc p i = .ok (r, a')) :
    a'.allocations.length = N ∧ a'.allocIdx < N ∧ ∀ j ∈ a'.allocations, j < N := by
  by_cases hout : i < N ∧ b.allocator.outstanding i = true
  · unfold BufferAllocator.tryDealloc at ha
    split at ha
    · cases ha
      exact ⟨h.length_allocations, h.allocIdx_lt, h.entry_lt⟩
    split at ha
    · cases ha
      exact ⟨h.length_allocations, h.allocIdx_lt, h.entry_lt⟩
    obtain ⟨bit, _, ha⟩ := bind_eq_ok.mp ha
    split at ha
    · cases ha
      exact ⟨h.length_allocations, h.allocIdx_lt, h.entry_lt⟩
    obtain ⟨_, _, ha⟩ := bind_eq_ok.mp ha
    obtain ⟨next, _, ha⟩ := bind_eq_ok.mp ha
    obtain ⟨count, _, ha⟩ := bind_eq_ok.mp ha
    cases ha
    refine ⟨by simp [h.length_allocations], h.allocIdx_lt, fun j hj => ?_⟩
    rcases List.mem_or_eq_of_mem_set hj with hj | rfl
    · exact h.entry_lt j hj
    · exact hout.1
  · obtain ⟨e, he⟩ := b.allocator.tryDealloc_of_not_outstanding (p := p) hN hout
    rw [he] at ha
    cases ha
    exact ⟨h.length_allocations, h.allocIdx_lt, h.entry_lt⟩

/-- **Step lemma**, for either profile. -/
theorem poolStep_shaped (hN₁ : 1 ≤ N) (hN : N ≤ 8) {b b' : BufferPool N C} (h : b.Shaped)
    {op : PoolOp} (hs : poolStep p b op = some b') : b'.Shaped := by
  cases op with
  | poll w =>
    obtain ⟨⟨r, b₁⟩, hp, rfl⟩ := toOption_map_eq_some hs
    obtain ⟨i, capacity, next, _, _, hall, hidx, hpool⟩ := poll_inv hp
    have h8 : asU8 N = N := asU8_of_lt (by omega)
    refine ⟨by rw [hall]; exact h.length_allocations, ?_, by rw [hall]; exact h.entry_lt,
      by rw [hpool]; exact h.rows⟩
    rw [hidx, h8]
    exact Nat.mod_lt _ (by omega)
  | release i =>
    obtain ⟨⟨r, woken, b₁⟩, hr, rfl⟩ := toOption_map_eq_some hs
    obtain ⟨⟨r₀, a'⟩, ha, hr⟩ := bind_eq_ok.mp hr
    obtain ⟨hlen, hidx, hent⟩ := tryDealloc_shaped hN h ha
    cases r₀ <;> cases hr <;> exact ⟨hlen, hidx, hent, h.rows⟩

/-- **Step lemma**, where the count traps instead of wrapping. -/
theorem poolStep_sound (hp : p.overflowChecks = true) (hN : N ≤ 8) {b b' : BufferPool N C}
    (h : b.Sound) {op : PoolOp} (hs : poolStep p b op = some b') : b'.Sound := by
  cases op with
  | poll w =>
    obtain ⟨⟨r, b₁⟩, hpoll, rfl⟩ := toOption_map_eq_some hs
    rcases Nat.eq_zero_or_pos b.allocator.count with hc | hc
    · obtain ⟨⟨r₀, a'⟩, ha, _⟩ := bind_eq_ok.mp hpoll
      obtain ⟨i, _, _, hi, _⟩ := BufferAllocator.tryAlloc_inv ha
      have hiN := h.allocator.entry_lt i (List.mem_of_getElem? hi)
      rw [BufferAllocator.tryAlloc_of_zero hN hi hiN h.allocator.allocIdx_lt hc, hp] at ha
      cases ha
    · obtain ⟨i, capacity, b₂, hp₂, _, hs₂, _⟩ := poll_of_pos (p := p) hN h hc w
      rw [hp₂] at hpoll
      cases hpoll
      exact hs₂
  | release i =>
    obtain ⟨⟨r, woken, b₁⟩, hr, rfl⟩ := toOption_map_eq_some hs
    by_cases hout : i < N ∧ b.allocator.outstanding i = true
    · obtain ⟨b₂, hr₂, _, hs₂, _⟩ := releaseBuffer_of_outstanding (p := p) hN h hout.1 hout.2
      rw [hr₂] at hr
      cases hr
      exact hs₂
    · obtain ⟨e, he⟩ := releaseBuffer_of_not_outstanding (p := p) hN hout
      rw [he] at hr
      cases hr
      exact h

theorem reachable_shaped (hN₁ : 1 ≤ N) (hN : N ≤ 8) {b : BufferPool N C}
    (h : (poolSystem p N C).Reachable b) : b.Shaped := by
  refine System.Reachable.invariant ?_ (fun s a t hs hstep => ?_) h
  · rintro s rfl
    exact (new_sound hN₁ hN).shaped
  · exact poolStep_shaped hN₁ hN hs hstep

theorem reachable_sound (hp : p.overflowChecks = true) (hN₁ : 1 ≤ N) (hN : N ≤ 8)
    {b : BufferPool N C} (h : (poolSystem p N C).Reachable b) : b.Sound := by
  refine System.Reachable.invariant ?_ (fun s a t hs hstep => ?_) h
  · rintro s rfl
    exact new_sound hN₁ hN
  · exact poolStep_sound hp hN hs hstep

/-- An exhausted pool has nothing in its ring. -/
theorem Sound.count_of_exhausted {b : BufferPool N C} (h : b.Sound) (he : b.Exhausted) :
    b.allocator.count = 0 := by
  rw [← h.allocator.length_free, List.length_eq_zero_iff, List.eq_nil_iff_forall_not_mem]
  intro i hi
  have hm := (h.allocator.mem_free i).mp hi
  rw [he i hm.1] at hm
  cases hm.2

/-- With overflow checks an exhausted pool traps on the next request. -/
theorem exhausted_poll_traps (hp : p.overflowChecks = true) (hN : N ≤ 8) {b : BufferPool N C}
    (h : b.Sound) (he : b.Exhausted) (w : Waker) :
    b.poll p w = .error .arithmeticOverflow := by
  have hlt : b.allocator.allocIdx < b.allocator.allocations.length := by
    rw [h.allocator.length_allocations]
    exact h.allocator.allocIdx_lt
  have hi := List.getElem?_eq_getElem hlt
  have ha := BufferAllocator.tryAlloc_of_zero (p := p) hN hi
    (h.allocator.entry_lt _ (List.getElem_mem hlt)) h.allocator.allocIdx_lt
    (h.count_of_exhausted he)
  rw [hp] at ha
  simp only [poll, ha, if_true, error_bind]

/-- Without them it hands out a slot that is already outstanding. -/
theorem exhausted_poll_reuses (hp : p.overflowChecks = false) (hN : N ≤ 8) {b : BufferPool N C}
    (h : b.Shaped) (he : b.Exhausted) (w : Waker) :
    ∃ i capacity b', i < N ∧ b.allocator.outstanding i = true ∧
      b.poll p w = .ok (.ready ⟨i, capacity, i⟩, b') := by
  have hidx := h.allocIdx_lt
  have hlt : b.allocator.allocIdx < b.allocator.allocations.length := by
    rw [h.length_allocations]
    exact hidx
  have hi := List.getElem?_eq_getElem hlt
  have hiN := h.entry_lt _ (List.getElem_mem hlt)
  generalize b.allocator.allocations[b.allocator.allocIdx] = i at hi hiN
  obtain ⟨count, hcount⟩ : ∃ count, p.subU8 b.allocator.count 1 = .ok count := by
    unfold Profile.subU8
    split
    · exact ⟨_, rfl⟩
    · exact ⟨_, by rw [hp]; rfl⟩
  have hrow : i < b.pool.length := by rw [h.rows]; exact hiN
  obtain ⟨a', ha⟩ : ∃ a', b.allocator.tryAlloc p = .ok (.ok i, a') := by
    simp only [BufferAllocator.tryAlloc, index_ok hi, hcount, ok_bind,
      Profile.addU8_ok (show b.allocator.allocIdx + 1 < 256 by omega),
      Profile.bitU8_ok (show i < 8 by omega)]
    exact ⟨_, rfl⟩
  refine ⟨i, b.pool[i].length, { b with allocator := a' }, hiN, he i hiN, ?_⟩
  simp only [poll, ha, ok_bind, index_ok (List.getElem?_eq_getElem hrow)]
  rfl

/-- **Exhaustion never blocks.** In either profile and every reachable state with
every slot outstanding the pool does not answer with an error and a wait: with
overflow checks the request traps, without them it is given a slot in use. -/
theorem exhausted_never_blocks (p : Profile) (N C : Nat) (hN₁ : 1 ≤ N) (hN : N ≤ 8)
    (b : BufferPool N C) (h : (poolSystem p N C).Reachable b) (he : b.Exhausted) :
    ¬ b.Blocks p ∧
    ∀ w, if p.overflowChecks then b.poll p w = .error .arithmeticOverflow
      else ∃ i capacity b', i < N ∧ b.allocator.outstanding i = true ∧
        b.poll p w = .ok (.ready ⟨i, capacity, i⟩, b') := by
  refine ⟨fun hb => ?_, fun w => ?_⟩
  · obtain ⟨_, _, he, _⟩ := BufferAllocator.tryAlloc_inv hb.1
    cases he
  · split
    · exact exhausted_poll_traps ‹_› hN (reachable_sound ‹_› hN₁ hN h) he w
    · exact exhausted_poll_reuses (Bool.eq_false_iff.mpr ‹_›) hN (reachable_shaped hN₁ hN h) he w

/-- The firmware's pool after eight requests. -/
def afterEight : BufferPool numBuffers bufferSize :=
  { new numBuffers bufferSize with
    allocator := ⟨0, 0, [0, 1, 2, 3, 4, 5, 6, 7], 0, 255#8⟩ }

theorem afterEight_reachable (p : Profile) :
    (poolSystem p numBuffers bufferSize).Reachable afterEight := by
  refine reachable_of_runFun (List.replicate 8 (.poll 0)) (.init rfl) ?_
  obtain ⟨_ | _⟩ := p <;> rfl

theorem afterEight_exhausted : afterEight.Exhausted := by
  unfold Exhausted
  decide

/-- In the release profile the ninth request is answered with slot 0 again. -/
theorem exhausted_never_blocks_nine :
    ¬ afterEight.Blocks .release ∧
    ∀ w, ∃ i capacity b', i < numBuffers ∧ afterEight.allocator.outstanding i = true ∧
      afterEight.poll .release w = .ok (.ready ⟨i, capacity, i⟩, b') :=
  exhausted_never_blocks .release numBuffers bufferSize (by decide) (by decide) afterEight
    (afterEight_reachable _) afterEight_exhausted

/-- The pool of the firmware does not wait when its eight slots are outstanding. -/
theorem blocks_when_exhausted_false :
    ¬ ∀ (p : Profile) (N C : Nat), 1 ≤ N → N ≤ 8 → ∀ b : BufferPool N C,
      (poolSystem p N C).Reachable b → b.Exhausted → b.Blocks p := by
  intro h
  have hb := h .dev numBuffers bufferSize (by decide) (by decide) afterEight
    (afterEight_reachable _) afterEight_exhausted
  have htrap : afterEight.allocator.tryAlloc .dev = .error .arithmeticOverflow := by decide
  rw [hb.1] at htrap
  cases htrap

end AvrBridge.BufferPool
