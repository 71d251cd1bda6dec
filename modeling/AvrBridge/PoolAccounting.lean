import AvrBridge.PoolRing

/-! Histories of the allocator: any order of `try_alloc`, `try_dealloc` and `try_pop`, with
the slots taken, given back and in use written down beside it. -/

namespace AvrBridge.PoolAccounting

open Rust Lts

variable {N : Nat} {p : Profile}

/-! ## The system -/

/-- `taken` and `released` are in the order of the calls; `live` are the slots taken and not
released since. -/
structure State (N : Nat) where
  allocator : BufferAllocator N
  taken : List Nat
  released : List Nat
  live : List Nat
  deriving DecidableEq, Repr

inductive Act where
  | tryAlloc
  | tryDealloc (index : UInt8)
  | tryPop
  deriving DecidableEq, Repr

/-- A call that panics has no step. -/
def step (p : Profile) (s : State N) : Act → Option (State N)
  | .tryAlloc =>
      match s.allocator.tryAlloc p with
      | .ok (.ok i, a) => some ⟨a, s.taken ++ [i], s.released, s.live ++ [i]⟩
      | .ok (.error _, a) => some { s with allocator := a }
      | .error _ => none
  | .tryDealloc index =>
      match s.allocator.tryDealloc p index.toNat with
      | .ok (.ok (), a) =>
          some ⟨a, s.taken, s.released ++ [index.toNat], s.live.erase index.toNat⟩
      | .ok (.error _, a) => some { s with allocator := a }
      | .error _ => none
  | .tryPop =>
      match s.allocator.tryPop p with
      | .ok (some i, a) => some ⟨a, s.taken ++ [i], s.released, s.live ++ [i]⟩
      | .ok (none, a) => some { s with allocator := a }
      | .error _ => none

def system (p : Profile) (N : Nat) : System (State N) Act := .ofFun ⟨.new N, [], [], []⟩ (step p)

/-- `try_alloc` is called while a slot is free, and there is no `try_pop`. -/
def AllocsOnly (s : State N) : Act → Prop
  | .tryAlloc => 0 < s.allocator.count
  | .tryDealloc _ => True
  | .tryPop => False

/-- `try_alloc` is called while fewer than `N` slots are in use, `try_pop` while all are. -/
def PopsWhenEmpty (s : State N) : Act → Prop
  | .tryAlloc => s.live.length < N
  | .tryDealloc _ => True
  | .tryPop => s.live.length = N

instance (s : State N) (act : Act) : Decidable (AllocsOnly s act) :=
  match act with
  | .tryAlloc => inferInstanceAs (Decidable (_ < _))
  | .tryDealloc _ => inferInstanceAs (Decidable True)
  | .tryPop => inferInstanceAs (Decidable False)

instance (s : State N) (act : Act) : Decidable (PopsWhenEmpty s act) :=
  match act with
  | .tryAlloc => inferInstanceAs (Decidable (_ < _))
  | .tryDealloc _ => inferInstanceAs (Decidable True)
  | .tryPop => inferInstanceAs (Decidable (_ = _))

/-! ## The three records -/

/-- The count, the ring and the mask of an allocator tell the same story. -/
structure Accounted (a : BufferAllocator N) : Prop where
  count_add_popcount : a.count + a.inUseMask.cpop.toNat = N
  deallocIdx_eq : a.deallocIdx = (a.allocIdx + a.count) % N
  nodup_free : a.free.Nodup
  mem_free : ∀ i, i ∈ a.free ↔ i < N ∧ a.inUseMask.getLsbD i = false
  length_free : a.free.length = a.count

theorem accounted_of_sound (hN : N ≤ 8) {a : BufferAllocator N} (h : a.Sound)
    (hmask : ∀ i, a.outstanding i = true → i < N) : Accounted a := by
  have hperm : a.free.Perm ((List.range N).filter fun i => !a.outstanding i) := by
    apply (List.perm_ext_iff_of_nodup h.nodup_free (List.nodup_range.filter _)).mpr
    intro i
    rw [h.mem_free, List.mem_filter, List.mem_range, Bool.not_eq_true']
  have hcount : a.count = (List.range N).countP fun i => !a.outstanding i := by
    rw [← h.length_free, hperm.length_eq, List.countP_eq_length_filter]
  constructor
  · rw [hcount, Nat.add_comm]
    exact Mask.toNat_cpop_add_countP hN hmask
  · exact h.deallocIdx_eq
  · exact h.nodup_free
  · exact h.mem_free
  · exact h.length_free

/-! ## What a history keeps -/

structure Inv (s : State N) : Prop where
  sound : s.allocator.Sound
  live : ∀ i, i ∈ s.live ↔ s.allocator.outstanding i = true
  nodup_live : s.live.Nodup
  live_lt : ∀ i ∈ s.live, i < N
  length_live : s.live.length + s.allocator.count = N
  order : List.range N ++ s.released = s.taken ++ s.allocator.free

theorem Inv.accounted (hN : N ≤ 8) {s : State N} (h : Inv s) : Accounted s.allocator :=
  accounted_of_sound hN h.sound (fun i hi => h.live_lt i ((h.live i).mpr hi))

theorem inv_init (hN₁ : 1 ≤ N) (hN : N ≤ 8) : Inv (⟨.new N, [], [], []⟩ : State N) := by
  constructor
  · exact BufferAllocator.new_sound hN₁ hN
  · intro i
    simp [BufferAllocator.outstanding, BufferAllocator.new]
  · exact List.nodup_nil
  · intro i hi
    cases hi
  · simp [BufferAllocator.new, asU8_of_lt (show N < 256 by omega)]
  · rw [BufferAllocator.new_free hN, List.append_nil, List.nil_append]

/-- `try_alloc` takes the slot that has been free longest. -/
theorem inv_tryAlloc (hN : N ≤ 8) {s : State N} (h : Inv s) (hc : 0 < s.allocator.count) :
    ∃ i a, s.allocator.tryAlloc p = .ok (.ok i, a) ∧ i < N ∧ i ∉ s.live ∧
      Inv ⟨a, s.taken ++ [i], s.released, s.live ++ [i]⟩ := by
  obtain ⟨i, a, hres, hfree, hsound, hcount, hout⟩ :=
    BufferAllocator.tryAlloc_of_pos (p := p) hN h.sound hc
  obtain ⟨hlt, hclear⟩ := (h.sound.mem_free i).mp (by rw [hfree]; exact List.mem_cons_self ..)
  have hnew : i ∉ s.live := by
    intro hi
    rw [(h.live i).mp hi] at hclear
    cases hclear
  refine ⟨i, a, hres, hlt, hnew, hsound, ?_, ?_, ?_, ?_, ?_⟩
  · intro j
    rw [List.mem_append, List.mem_singleton, hout, Bool.or_eq_true, decide_eq_true_iff, h.live,
      @eq_comm _ i j]
  · apply List.nodup_append.mpr
    refine ⟨h.nodup_live, List.nodup_singleton i, ?_⟩
    intro j hj k hk e
    rw [e, List.mem_singleton.mp hk] at hj
    exact hnew hj
  · intro j hj
    rcases List.mem_append.mp hj with hj | hj
    · exact h.live_lt j hj
    · rw [List.mem_singleton.mp hj]
      exact hlt
  · have hlen := h.length_live
    rw [List.length_append, List.length_singleton]
    show s.live.length + 1 + a.count = N
    omega
  · rw [h.order, hfree, List.append_assoc, List.singleton_append]

/-- `try_dealloc` of a slot in use puts it behind the free ones. -/
theorem inv_tryDealloc (hN : N ≤ 8) {s : State N} (h : Inv s) {i : Nat} (hi : i ∈ s.live) :
    ∃ a, s.allocator.tryDealloc p i = .ok (.ok (), a) ∧
      Inv ⟨a, s.taken, s.released ++ [i], s.live.erase i⟩ := by
  obtain ⟨a, hres, hfree, hsound, hcount, hout⟩ := BufferAllocator.tryDealloc_of_outstanding
    (p := p) hN h.sound (h.live_lt i hi) ((h.live i).mp hi)
  refine ⟨a, hres, hsound, ?_, h.nodup_live.erase i, ?_, ?_, ?_⟩
  · intro j
    rw [h.nodup_live.mem_erase_iff, hout, Bool.and_eq_true, decide_eq_true_iff, h.live, and_comm,
      ne_comm]
  · intro j hj
    exact h.live_lt j (List.mem_of_mem_erase hj)
  · have hlen := h.length_live
    have hpos := List.length_pos_of_mem hi
    rw [List.length_erase_of_mem hi]
    show s.live.length - 1 + a.count = N
    omega
  · rw [← List.append_assoc, h.order, hfree, List.append_assoc]

/-- `try_dealloc` of any other number is refused. -/
theorem tryDealloc_of_not_live (hN : N ≤ 8) {s : State N} (h : Inv s) {i : Nat}
    (hi : i ∉ s.live) : ∃ e, s.allocator.tryDealloc p i = .ok (.error e, s.allocator) := by
  apply BufferAllocator.tryDealloc_of_not_outstanding hN
  rintro ⟨-, hout⟩
  exact hi ((h.live i).mpr hout)

/-- `try_pop` answers `None` unless every slot is free. -/
theorem tryPop_of_count_ne (hN : N ≤ 8) {a : BufferAllocator N} (hc : a.count ≠ N) :
    a.tryPop p = .ok (none, a) := by
  rw [BufferAllocator.tryPop, asU8_of_lt (by omega), if_pos hc]

/-- A history keeps its invariant while slots are taken only from a ring that has some, and
popped only from a ring that has none. -/
theorem step_inv (hN₁ : 1 ≤ N) (hN : N ≤ 8) {s t : State N} {act : Act} (h : Inv s)
    (halloc : act = .tryAlloc → 0 < s.allocator.count)
    (hpop : act = .tryPop → s.allocator.count = 0) (hs : step p s act = some t) : Inv t := by
  cases act with
  | tryAlloc =>
    obtain ⟨i, a, hres, -, -, hinv⟩ := inv_tryAlloc (p := p) hN h (halloc rfl)
    simp only [step, hres] at hs
    cases hs
    exact hinv
  | tryDealloc index =>
    by_cases hi : index.toNat ∈ s.live
    · obtain ⟨a, hres, hinv⟩ := inv_tryDealloc (p := p) hN h hi
      simp only [step, hres] at hs
      cases hs
      exact hinv
    · obtain ⟨e, hres⟩ := tryDealloc_of_not_live (p := p) hN h hi
      simp only [step, hres] at hs
      cases hs
      exact h
  | tryPop =>
    have hcount := hpop rfl
    simp only [step, tryPop_of_count_ne (p := p) hN (show s.allocator.count ≠ N by omega)] at hs
    cases hs
    exact h

theorem inv_of_allocsOnly (hN₁ : 1 ≤ N) (hN : N ≤ 8) {s : State N}
    (h : (system p N).ReachedWhile AllocsOnly s) : Inv s := by
  apply System.ReachedWhile.invariant (I := Inv) ?_ ?_ h
  · intro s hs
    rw [hs]
    exact inv_init hN₁ hN
  · intro s act t hi hg hs
    apply step_inv hN₁ hN hi ?_ ?_ hs
    · rintro rfl
      exact hg
    · rintro rfl
      exact absurd hg id

theorem inv_of_popsWhenEmpty (hN₁ : 1 ≤ N) (hN : N ≤ 8) {s : State N}
    (h : (system p N).ReachedWhile PopsWhenEmpty s) : Inv s := by
  apply System.ReachedWhile.invariant (I := Inv) ?_ ?_ h
  · intro s hs
    rw [hs]
    exact inv_init hN₁ hN
  · intro s act t hi hg hs
    have hlen := hi.length_live
    apply step_inv hN₁ hN hi ?_ ?_ hs
    · rintro rfl
      have hroom : s.live.length < N := hg
      omega
    · rintro rfl
      have hfull : s.live.length = N := hg
      omega

/-! ## Allocation and release -/

/-- After every call the three records agree, the slots in use are distinct and are those of
the mask, slots are taken first in first out, and a release succeeds exactly for a slot in use. -/
theorem allocator_accounting (hN₁ : 1 ≤ N) (hN : N ≤ 8) {s : State N}
    (h : (system p N).ReachedWhile AllocsOnly s) :
    Accounted s.allocator ∧
      (s.live.Nodup ∧ ∀ i ∈ s.live, i < N) ∧
      (∀ i, i ∈ s.live ↔ s.allocator.inUseMask.getLsbD i = true) ∧
      List.range N ++ s.released = s.taken ++ s.allocator.free ∧
      (0 < s.allocator.count →
        ∃ i a, s.allocator.tryAlloc p = .ok (.ok i, a) ∧ i < N ∧ i ∉ s.live) ∧
      ∀ i : UInt8,
        (i.toNat ∈ s.live ∧ ∃ a, s.allocator.tryDealloc p i.toNat = .ok (.ok (), a)) ∨
        (i.toNat ∉ s.live ∧
          ∃ e, s.allocator.tryDealloc p i.toNat = .ok (.error e, s.allocator)) := by
  have hinv := inv_of_allocsOnly hN₁ hN h
  refine ⟨hinv.accounted hN, ⟨hinv.nodup_live, hinv.live_lt⟩, hinv.live, hinv.order, ?_, ?_⟩
  · intro hc
    obtain ⟨i, a, hres, hlt, hnew, -⟩ := inv_tryAlloc (p := p) hN hinv hc
    exact ⟨i, a, hres, hlt, hnew⟩
  · intro i
    by_cases hi : i.toNat ∈ s.live
    · obtain ⟨a, hres, -⟩ := inv_tryDealloc (p := p) hN hinv hi
      exact .inl ⟨hi, a, hres⟩
    · exact .inr ⟨hi, tryDealloc_of_not_live hN hinv hi⟩

theorem allocator_accounting_reuse : ∃ s, (system .dev 2).ReachedWhile AllocsOnly s ∧
    s.taken = [0, 1, 1] ∧ s.released = [1] ∧ Accounted s.allocator := by
  have hrun : runFun (guarded AllocsOnly (step .dev))
      (⟨.new 2, [], [], []⟩ : State 2)
      [.tryAlloc, .tryDealloc 7, .tryAlloc, .tryDealloc 1, .tryDealloc 1, .tryAlloc] =
      some ⟨⟨1, 1, [1, 1], 0, 3#8⟩, [0, 1, 1], [1], [0, 1]⟩ := by decide
  have hreached := reachedWhile_of_runFun _ (.init (M := system .dev 2) rfl) hrun
  exact ⟨_, hreached, rfl, rfl, (allocator_accounting (by omega) (by omega) hreached).1⟩

/-! ## `try_pop` -/

/-- What taking a slot should do: nothing when none is free, else take one that is not in use. -/
def PopLaw (p : Profile) (a : BufferAllocator N) : Prop :=
  (a.count = 0 ∧ a.tryPop p = .ok (none, a)) ∨
    (0 < a.count ∧ ∃ i a', a.tryPop p = .ok (some i, a') ∧ i < N ∧
      a.inUseMask.getLsbD i = false ∧ a'.inUseMask.getLsbD i = true ∧
      a'.count + 1 = a.count ∧ a'.count + a'.inUseMask.cpop.toNat = N)

/-- An index that `try_pop` returns has raised the count. -/
theorem tryPop_inv {a a' : BufferAllocator N} {i : Nat} (hc : a.count + 1 < 256)
    (h : a.tryPop p = .ok (some i, a')) : a'.count = a.count + 1 := by
  unfold BufferAllocator.tryPop at h
  split at h
  · cases h
  · obtain ⟨j, -, h⟩ := bind_eq_ok.mp h
    obtain ⟨next, -, h⟩ := bind_eq_ok.mp h
    obtain ⟨count, hcount, h⟩ := bind_eq_ok.mp h
    obtain ⟨bit, -, h⟩ := bind_eq_ok.mp h
    rw [Profile.addU8_ok hc] at hcount
    cases hcount
    cases h
    rfl

theorem popLaw_iff (hN₁ : 1 ≤ N) (hN : N ≤ 8) {a : BufferAllocator N} (hc : a.count ≤ N) :
    PopLaw p a ↔ a.count = 0 := by
  constructor
  · rintro (⟨hzero, -⟩ | ⟨-, i, a', hpop, -, -, -, hcount, -⟩)
    · exact hzero
    · have hraised := tryPop_inv (by omega) hpop
      omega
  · intro hzero
    exact .inl ⟨hzero, tryPop_of_count_ne hN (by omega)⟩

/-- In a history whose `try_pop` calls come only when every slot is in use, the records agree
and no slot is taken twice; there `try_pop` does what it should exactly if no slot is free. -/
theorem tryPop_accounting (hN₁ : 1 ≤ N) (hN : N ≤ 8) {s : State N}
    (h : (system p N).ReachedWhile PopsWhenEmpty s) :
    Accounted s.allocator ∧ s.live.Nodup ∧
      (∀ i, i ∈ s.live ↔ s.allocator.inUseMask.getLsbD i = true) ∧
      (PopLaw p s.allocator ↔ s.live.length = N) := by
  have hinv := inv_of_popsWhenEmpty hN₁ hN h
  have hlen := hinv.length_live
  refine ⟨hinv.accounted hN, hinv.nodup_live, hinv.live, ?_⟩
  rw [popLaw_iff hN₁ hN hinv.sound.count_le]
  omega

theorem tryPop_accounting_empty : ∃ s, (system .dev 1).ReachedWhile PopsWhenEmpty s ∧
    s.live = [0] ∧ PopLaw .dev s.allocator := by
  have hrun : runFun (guarded PopsWhenEmpty (step .dev)) (⟨.new 1, [], [], []⟩ : State 1)
      [.tryAlloc, .tryPop] = some ⟨⟨0, 0, [0], 0, 1#8⟩, [0], [], [0]⟩ := by decide
  have hreached := reachedWhile_of_runFun _ (.init (M := system .dev 1) rfl) hrun
  exact ⟨_, hreached, rfl, (tryPop_accounting (by omega) (by omega) hreached).2.2.2.mpr rfl⟩

/-- On a fresh allocator of two slots `try_pop` hands out slot 0 unmarked and counts three free
slots; the next `try_alloc` hands slot 0 out again. -/
theorem tryPop_accounting_fails : ∃ s, (system .dev 2).Reachable s ∧ s.taken = [0, 0] ∧
    s.released = [] ∧ s.live.length ≤ 2 ∧
    s.allocator.count + s.allocator.inUseMask.cpop.toNat ≠ 2 ∧ ¬ PopLaw .dev (.new 2) := by
  have hrun : runFun (step .dev) (⟨.new 2, [], [], []⟩ : State 2) [.tryPop, .tryAlloc] =
      some ⟨⟨1, 1, [0, 1], 2, 1#8⟩, [0, 0], [], [0, 0]⟩ := by decide
  refine ⟨_, reachable_of_runFun _ (.init (M := system .dev 2) rfl) hrun, rfl, rfl, ?_, ?_, ?_⟩
  · decide
  · decide
  · intro hlaw
    rcases hlaw with ⟨hzero, -⟩ | ⟨-, i, a', hpop, -, -, -, hcount, -⟩
    · cases hzero
    · cases hpop
      cases hcount

end AvrBridge.PoolAccounting
