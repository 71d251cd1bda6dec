import AvrBridge.AsyncQueue

/-! The ring of `AsyncQueueInner` when `push` is called only while `has_space` holds. What is
queued is recorded twice, in the count and in the places that hold an item; `Ring` ties both to
the two indices. -/

namespace AvrBridge.AsyncQueueInner

open Rust Lts Window

variable {T : Type} {CAPACITY : Nat}

/-! ## The ring -/

/-- The `count` places from `r_idx` on hold an item and the others none. -/
structure Ring (q : AsyncQueueInner T CAPACITY) : Prop where
  length_buf : q.buf.length = CAPACITY
  rIdx_lt : q.rIdx < CAPACITY
  count_le : q.count ≤ CAPACITY
  wIdx_eq : q.wIdx = (q.rIdx + q.count) % CAPACITY
  occupied : ∀ i < CAPACITY, ∃ place, q.buf[i]? = some place ∧
    (place.isSome = true ↔ distance CAPACITY q.rIdx i < q.count)

theorem ring_new (T : Type) (hcap : 1 ≤ CAPACITY) : Ring (new T CAPACITY) where
  length_buf := List.length_replicate
  rIdx_lt := hcap
  count_le := Nat.zero_le _
  wIdx_eq := (Nat.mod_eq_of_lt hcap).symm
  occupied := by
    intro i hi
    refine ⟨none, List.getElem?_replicate_of_lt hi, ?_⟩
    exact iff_of_false Bool.false_ne_true (Nat.not_lt_zero _)

section Ring

variable {q : AsyncQueueInner T CAPACITY}

theorem Ring.wIdx_lt (h : Ring q) : q.wIdx < CAPACITY := by
  rw [h.wIdx_eq]
  exact Nat.mod_lt _ (Nat.lt_of_le_of_lt (Nat.zero_le _) h.rIdx_lt)

theorem Ring.wIdx_eq_wrap (h : Ring q) : q.wIdx = wrap CAPACITY (q.rIdx + q.count) := by
  have hr := h.rIdx_lt
  have hc := h.count_le
  rw [wrap_eq_mod (by omega), h.wIdx_eq]

/-- The place `k` places on from `r_idx` holds an item exactly if `k` is below the count. -/
theorem Ring.place_wrap (h : Ring q) {k : Nat} (hk : k < CAPACITY) :
    ∃ place, q.buf[wrap CAPACITY (q.rIdx + k)]? = some place ∧
      (place.isSome = true ↔ k < q.count) := by
  have hr := h.rIdx_lt
  obtain ⟨place, hplace, hiff⟩ := h.occupied (wrap CAPACITY (q.rIdx + k)) (wrap_lt (by omega))
  rw [distance_wrap hr hk] at hiff
  exact ⟨place, hplace, hiff⟩

/-- As many items are queued as the count says. -/
theorem Ring.length_items (h : Ring q) : q.items.length = q.count := by
  have hb := h.length_buf
  have hr := h.rIdx_lt
  have hc := h.count_le
  have hsome : ∀ place ∈ window q.buf q.rIdx q.count, (id place).isSome = true := by
    intro place hmem
    obtain ⟨k, hk⟩ := List.getElem?_of_mem hmem
    rw [getElem?_window (by omega) (by omega), hb] at hk
    by_cases hlt : k < q.count
    · rw [if_pos hlt] at hk
      obtain ⟨place', hplace, hiff⟩ := h.place_wrap (k := k) (by omega)
      rw [Option.some.inj (hk.symm.trans hplace)]
      exact hiff.mpr hlt
    · rw [if_neg hlt] at hk
      cases hk
  rw [items, List.filterMap_length_eq_length.mpr hsome, length_window (by omega)]

theorem Ring.items_eq_nil_iff (h : Ring q) : q.items = [] ↔ q.count = 0 := by
  rw [← List.length_eq_zero_iff, h.length_items]

theorem hasSpace_iff (hcap : CAPACITY ≤ 255) : q.hasSpace = true ↔ q.count < CAPACITY := by
  rw [hasSpace, asU8_of_lt (by omega), decide_eq_true_eq]

/-- An index one further, as the source computes it. -/
theorem next_eq_wrap (hcap : CAPACITY ≤ 255) {i : Nat} (hi : i < CAPACITY) :
    (i + 1) % asU8 CAPACITY = wrap CAPACITY (i + 1) := by
  rw [asU8_of_lt (by omega), wrap_eq_mod (by omega)]

/-! ## A push -/

/-- The queue after a push: the item is in the place at `w_idx`. -/
def afterPush (q : AsyncQueueInner T CAPACITY) (item : T) : AsyncQueueInner T CAPACITY :=
  { q with
    buf := q.buf.set q.wIdx (some item)
    wIdx := (q.wIdx + 1) % asU8 CAPACITY
    count := q.count + 1 }

theorem Ring.distance_wIdx (h : Ring q) (hspace : q.count < CAPACITY) :
    distance CAPACITY q.rIdx q.wIdx = q.count := by
  rw [h.wIdx_eq_wrap]
  exact distance_wrap h.rIdx_lt hspace

/-- The place at `w_idx` holds no item while there is space. -/
theorem Ring.place_wIdx (h : Ring q) (hspace : q.count < CAPACITY) :
    q.buf[q.wIdx]? = some none := by
  obtain ⟨place, hplace, hiff⟩ := h.occupied q.wIdx h.wIdx_lt
  rw [h.distance_wIdx hspace] at hiff
  cases place with
  | none => exact hplace
  | some item => exact absurd (hiff.mp rfl) (Nat.lt_irrefl _)

theorem Ring.push_eq (hcap : CAPACITY ≤ 255) (h : Ring q) (hspace : q.count < CAPACITY)
    (p : Profile) (item : T) : q.push p item = .ok (q.afterPush item) := by
  have hw := h.wIdx_lt
  simp only [push, index_ok (h.place_wIdx hspace), ok_bind,
    Profile.addU8_ok (show q.wIdx + 1 < 256 by omega),
    Profile.addU8_ok (show q.count + 1 < 256 by omega)]
  rfl

theorem Ring.afterPush (hcap : CAPACITY ≤ 255) (h : Ring q) (hspace : q.count < CAPACITY)
    (item : T) : Ring (q.afterPush item) := by
  have hb := h.length_buf
  have hr := h.rIdx_lt
  have hw := h.wIdx_lt
  constructor
  · exact List.length_set.trans hb
  · exact hr
  · exact hspace
  · show (q.wIdx + 1) % asU8 CAPACITY = (q.rIdx + (q.count + 1)) % CAPACITY
    rw [next_eq_wrap hcap hw, h.wIdx_eq_wrap, wrap_wrap_add (by omega), wrap_eq_mod (by omega),
      Nat.add_assoc]
  · intro i hi
    show ∃ place, (q.buf.set q.wIdx (some item))[i]? = some place ∧
      (place.isSome = true ↔ distance CAPACITY q.rIdx i < q.count + 1)
    by_cases heq : q.wIdx = i
    · refine ⟨some item, ?_, ?_⟩
      · rw [← heq, List.getElem?_set_self (by omega)]
      · rw [← heq, h.distance_wIdx hspace]
        exact iff_of_true rfl (Nat.lt_succ_self _)
    · obtain ⟨place, hplace, hiff⟩ := h.occupied i hi
      -- only the place at `w_idx` lies `count` places past `r_idx`
      have hother : distance CAPACITY q.rIdx i ≠ q.count := by
        intro hdist
        apply heq
        rw [h.wIdx_eq_wrap, ← hdist, wrap_distance hr hi]
      refine ⟨place, ?_, ?_⟩
      · rw [List.getElem?_set_ne heq, hplace]
      · rw [hiff]
        omega

theorem Ring.items_afterPush (h : Ring q) (hspace : q.count < CAPACITY) (item : T) :
    (q.afterPush item).items = q.items ++ [item] := by
  have hb := h.length_buf
  have hr := h.rIdx_lt
  have hw := h.wIdx_lt
  have hwindow : window (q.buf.set q.wIdx (some item)) q.rIdx (q.count + 1) =
      window q.buf q.rIdx q.count ++ [some item] := by
    have hpos : q.wIdx = wrap q.buf.length (q.rIdx + q.count) := by
      rw [hb]
      exact h.wIdx_eq_wrap
    rw [set_eq_ringWrite (by omega), hpos]
    exact window_ringWrite (by omega) (by rw [List.length_singleton]; omega)
  show (window (q.buf.set q.wIdx (some item)) q.rIdx (q.count + 1)).filterMap id = _
  rw [hwindow, List.filterMap_append]
  rfl

/-! ## A pop -/

/-- The queue after a pop that finds an item. -/
def afterPop (q : AsyncQueueInner T CAPACITY) : AsyncQueueInner T CAPACITY :=
  { q with
    buf := q.buf.set q.rIdx none
    rIdx := (q.rIdx + 1) % asU8 CAPACITY
    count := q.count - 1
    waker := none }

/-- The place at `r_idx` holds an item if any is queued. -/
theorem Ring.place_rIdx (h : Ring q) (hne : q.count ≠ 0) :
    ∃ item, q.buf[q.rIdx]? = some (some item) := by
  obtain ⟨place, hplace, hiff⟩ := h.occupied q.rIdx h.rIdx_lt
  rw [distance_self] at hiff
  obtain ⟨item, rfl⟩ := Option.isSome_iff_exists.mp (hiff.mpr (Nat.pos_of_ne_zero hne))
  exact ⟨item, hplace⟩

theorem Ring.tryPop_eq (hcap : CAPACITY ≤ 255) (h : Ring q) (hne : q.count ≠ 0) {item : T}
    (hitem : q.buf[q.rIdx]? = some (some item)) (p : Profile) :
    q.tryPop p = .ok (.ok item, q.waker, q.afterPop) := by
  have hr := h.rIdx_lt
  have hempty : q.isEmpty = false := by simpa [isEmpty] using hne
  simp only [tryPop, hempty, pop, index_ok hitem, ok_bind,
    Profile.addU8_ok (show q.rIdx + 1 < 256 by omega),
    Profile.subU8_ok (show 1 ≤ q.count by omega)]
  rfl

theorem Ring.afterPop (hcap : CAPACITY ≤ 255) (h : Ring q) (hne : q.count ≠ 0) :
    Ring q.afterPop := by
  have hb := h.length_buf
  have hr := h.rIdx_lt
  have hc := h.count_le
  have hnext : wrap CAPACITY (q.rIdx + 1) < CAPACITY := wrap_lt (by omega)
  constructor
  · exact List.length_set.trans hb
  · show (q.rIdx + 1) % asU8 CAPACITY < CAPACITY
    rwa [next_eq_wrap hcap hr]
  · exact Nat.le_trans (Nat.sub_le ..) hc
  · show q.wIdx = ((q.rIdx + 1) % asU8 CAPACITY + (q.count - 1)) % CAPACITY
    have hsum : q.rIdx + 1 + (q.count - 1) = q.rIdx + q.count := by omega
    rw [next_eq_wrap hcap hr, wrap_eq_mod (by omega), Nat.mod_add_mod, hsum, h.wIdx_eq]
  · intro i hi
    show ∃ place, (q.buf.set q.rIdx none)[i]? = some place ∧ (place.isSome = true ↔
      distance CAPACITY ((q.rIdx + 1) % asU8 CAPACITY) i < q.count - 1)
    rw [next_eq_wrap hcap hr]
    by_cases heq : q.rIdx = i
    · refine ⟨none, ?_, ?_⟩
      · rw [← heq, List.getElem?_set_self (by omega)]
      · -- the place just left is the last one from the next
        rw [← heq, distance_next_self hr]
        exact iff_of_false Bool.false_ne_true (by omega)
    · obtain ⟨place, hplace, hiff⟩ := h.occupied i hi
      have hpos : distance CAPACITY q.rIdx i ≠ 0 := by
        rw [ne_eq, distance_eq_zero_iff hr hi]
        exact heq
      refine ⟨place, ?_, ?_⟩
      · rw [List.getElem?_set_ne heq, hplace]
      · rw [hiff, distance_wrap_left hr hi (by omega)]
        omega

theorem Ring.items_eq_cons (hcap : CAPACITY ≤ 255) (h : Ring q) (hne : q.count ≠ 0) {item : T}
    (hitem : q.buf[q.rIdx]? = some (some item)) : q.items = item :: q.afterPop.items := by
  have hb := h.length_buf
  have hr := h.rIdx_lt
  have hc := h.count_le
  have hlt : q.rIdx < q.buf.length := by omega
  obtain ⟨n, hn⟩ : ∃ n, q.count = n + 1 := ⟨q.count - 1, by omega⟩
  have hget : q.buf[q.rIdx] = some item :=
    Option.some.inj ((List.getElem?_eq_getElem hlt).symm.trans hitem)
  have hrest : window (q.buf.set q.rIdx none) (wrap CAPACITY (q.rIdx + 1)) n =
      window q.buf (wrap CAPACITY (q.rIdx + 1)) n := by
    refine window_set ?_ hlt ?_ none
    · rw [hb]
      exact wrap_lt (by omega)
    · rw [hb, distance_next_self hr]
      omega
  show (window q.buf q.rIdx q.count).filterMap id = item ::
    (window (q.buf.set q.rIdx none) ((q.rIdx + 1) % asU8 CAPACITY) (q.count - 1)).filterMap id
  rw [next_eq_wrap hcap hr, hn, Nat.add_sub_cancel, hrest, head_window hlt (by omega), hget, hb]
  rfl

end Ring

/-! ## Runs -/

namespace Guarded

/-- The queue, and the items pushed and popped so far. -/
structure State (T : Type) (CAPACITY : Nat) where
  queue : AsyncQueueInner T CAPACITY
  pushed : List T
  popped : List T
  deriving DecidableEq, Repr

inductive Act (T : Type) where
  | push (item : T)
  | tryPop
  deriving DecidableEq, Repr

/-- `push` is called while `has_space` holds; a call that panics has no step. -/
def step (p : Profile) (s : State T CAPACITY) : Act T → Option (State T CAPACITY)
  | .push item =>
      if s.queue.hasSpace then
        match s.queue.push p item with
        | .ok q => some { s with queue := q, pushed := s.pushed ++ [item] }
        | .error _ => none
      else none
  | .tryPop =>
      match s.queue.tryPop p with
      | .ok (.ok item, _, q) => some { s with queue := q, popped := s.popped ++ [item] }
      | .ok (.error _, _, q) => some { s with queue := q }
      | .error _ => none

def system (p : Profile) (T : Type) (CAPACITY : Nat) : System (State T CAPACITY) (Act T) :=
  .ofFun ⟨.new T CAPACITY, [], []⟩ (step p)

structure Inv (s : State T CAPACITY) : Prop where
  ring : Ring s.queue
  order : s.popped ++ s.queue.items = s.pushed

/-- What `try_pop` does on a ring: nothing when nothing is queued, else it takes the oldest
item, whatever the build profile. -/
theorem tryPop_cases (hcap : CAPACITY ≤ 255) {q : AsyncQueueInner T CAPACITY} (h : Ring q) :
    (q.items = [] ∧ ∀ p, q.tryPop p = .ok (.error .empty, none, q)) ∨
      ∃ item rest q', q.items = item :: rest ∧
        (∀ p, q.tryPop p = .ok (.ok item, q.waker, q')) ∧ Ring q' ∧ q'.items = rest := by
  by_cases hne : q.count = 0
  · have hempty : q.isEmpty = true := by
      rw [isEmpty, hne]
      rfl
    refine .inl ⟨h.items_eq_nil_iff.mpr hne, ?_⟩
    intro p
    simp only [tryPop, hempty]
  · obtain ⟨item, hitem⟩ := h.place_rIdx hne
    exact .inr ⟨item, _, q.afterPop, h.items_eq_cons hcap hne hitem, h.tryPop_eq hcap hne hitem,
      h.afterPop hcap hne, rfl⟩

theorem step_inv {p : Profile} (hcap : CAPACITY ≤ 255) {s t : State T CAPACITY} {act : Act T}
    (h : Inv s) (hs : step p s act = some t) : Inv t := by
  cases act with
  | push item =>
    simp only [step] at hs
    split at hs
    · rename_i hspace
      have hlt := (hasSpace_iff hcap).mp hspace
      rw [h.ring.push_eq hcap hlt p item] at hs
      cases hs
      constructor
      · exact h.ring.afterPush hcap hlt item
      · show s.popped ++ (s.queue.afterPush item).items = s.pushed ++ [item]
        rw [h.ring.items_afterPush hlt, ← List.append_assoc, h.order]
    · cases hs
  | tryPop =>
    have horder := h.order
    rcases tryPop_cases hcap h.ring with ⟨-, hres⟩ | ⟨item, rest, q', hitems, hres, hring, hrest⟩
    · simp only [step, hres p] at hs
      cases hs
      exact h
    · simp only [step, hres p] at hs
      cases hs
      constructor
      · exact hring
      · show (s.popped ++ [item]) ++ q'.items = s.pushed
        rw [hrest, List.append_assoc, List.singleton_append, ← hitems, horder]

theorem inv_of_reachable {p : Profile} (hcap₁ : 1 ≤ CAPACITY) (hcap : CAPACITY ≤ 255)
    {s : State T CAPACITY} (h : (system p T CAPACITY).Reachable s) : Inv s := by
  apply System.Reachable.invariant (I := Inv) ?_ (fun _ _ _ hi hs => step_inv hcap hi hs) h
  rintro s rfl
  exact ⟨ring_new T hcap₁, List.filterMap_eq_nil_iff.mpr (by simp [new])⟩

/-- In every state of every run both indices are on the ring, `count` places apart; the `count`
places from `r_idx` on hold an item and the others none; the items popped and then the queued
ones are those pushed. A push that finds space stores into a place that holds none, behind the
queued items, and `try_pop` takes the oldest one, or answers `Empty` and changes nothing when
none is queued; neither result depends on what an overflow would do. -/
theorem ring_sound (p : Profile) (T : Type) (hcap₁ : 1 ≤ CAPACITY) (hcap : CAPACITY ≤ 255)
    {s : State T CAPACITY} (h : (system p T CAPACITY).Reachable s) :
    (s.queue.wIdx < CAPACITY ∧ s.queue.rIdx < CAPACITY ∧
      s.queue.wIdx = (s.queue.rIdx + s.queue.count) % CAPACITY) ∧
    (s.queue.buf.length = CAPACITY ∧ ∀ k < CAPACITY, ∃ place,
      s.queue.buf[(s.queue.rIdx + k) % CAPACITY]? = some place ∧
        (place.isSome = true ↔ k < s.queue.count)) ∧
    s.popped ++ s.queue.items = s.pushed ∧
    (s.queue.hasSpace = true → s.queue.buf[s.queue.wIdx]? = some none ∧
      ∀ item, ∃ q, (∀ p, s.queue.push p item = .ok q) ∧ q.items = s.queue.items ++ [item]) ∧
    ((s.queue.items = [] ∧ ∀ p, s.queue.tryPop p = .ok (.error .empty, none, s.queue)) ∨
      ∃ item rest q, s.queue.items = item :: rest ∧
        (∀ p, s.queue.tryPop p = .ok (.ok item, s.queue.waker, q)) ∧ q.items = rest) := by
  obtain ⟨hring, horder⟩ := inv_of_reachable hcap₁ hcap h
  have hr := hring.rIdx_lt
  refine ⟨⟨hring.wIdx_lt, hr, hring.wIdx_eq⟩, ⟨hring.length_buf, ?_⟩, horder, ?_, ?_⟩
  · intro k hk
    rw [← wrap_eq_mod (by omega)]
    exact hring.place_wrap hk
  · intro hspace
    have hlt := (hasSpace_iff hcap).mp hspace
    constructor
    · exact hring.place_wIdx hlt
    · intro item
      refine ⟨s.queue.afterPush item, ?_, hring.items_afterPush hlt item⟩
      intro p
      exact hring.push_eq hcap hlt p item
  · rcases tryPop_cases hcap hring with hempty | ⟨item, rest, q, hitems, hres, -, hrest⟩
    · exact .inl hempty
    · exact .inr ⟨item, rest, q, hitems, hres, hrest⟩

/-- Around the end of a ring of two places. -/
theorem ring_sound_two : ∃ s, (system .dev Nat 2).Reachable s ∧ s.pushed = [7, 8, 9] ∧
    s.popped = [7] ∧ s.queue.wIdx = (s.queue.rIdx + s.queue.count) % 2 ∧
    s.popped ++ s.queue.items = s.pushed := by
  have hrun : runFun (step .dev) (⟨.new Nat 2, [], []⟩ : State Nat 2)
      [.tryPop, .push 7, .push 8, .tryPop, .push 9] =
      some ⟨⟨2, 1, 1, [some 9, some 8], none⟩, [7, 8, 9], [7]⟩ := by decide
  have hreached := reachable_of_runFun _ (.init (M := system .dev Nat 2) rfl) hrun
  obtain ⟨⟨-, -, hindices⟩, -, horder, -⟩ := ring_sound .dev Nat (by decide) (by decide) hreached
  exact ⟨_, hreached, rfl, rfl, hindices, horder⟩

end Guarded

end AvrBridge.AsyncQueueInner
